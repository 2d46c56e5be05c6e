import InterviewScheduler.Core.Knowing
import InterviewScheduler.Lifecycle.Invariants
import InterviewScheduler.Interviews.Api
import InterviewScheduler.Interviews.Editing
import InterviewScheduler.Scheduling.Spec

/-! # What every row goes back to

In `Traceable` tables every row has a reason that is stored as well: a request its candidate, its creator
and the round before it, a panel its users, a submission the candidate of its request, a run the submission
that the engine has drawn it from, and an interview the slot that was booked. A write that is `Supported`
by what is stored keeps it so (`Traceable.apply`), and what supports a write does not go away. -/

namespace InterviewScheduler.Interviews

open InterviewScheduler.Engine InterviewScheduler.Core InterviewScheduler.Effects
open InterviewScheduler.Lifecycle (WellFormed)
open InterviewScheduler.Booking (Parts Part)
open InterviewScheduler.Scheduling (RowOf)

variable {pf : Platform} {T T' : Interviews} {row row' : InterviewRequest} {r u : Id}

/-! ### Users and requests -/

/-- There is such a user, with the role. -/
def HasRole (T : Interviews) (u : Id) (role : Role) : Prop :=
  ∃ user, T.users u = some user ∧ user.role = role

theorem HasRole.grows {role : Role} (h : HasRole T u role) (hT : Grows T T') : HasRole T' u role := by
  obtain ⟨user, huser, hrole⟩ := h
  exact ⟨user, hT.users u user huser, hrole⟩

theorem HasRole.unique {role role' : Role} (h : HasRole T u role) (h' : HasRole T u role') :
    role = role' := by
  obtain ⟨user, huser, rfl⟩ := h
  obtain ⟨user', huser', rfl⟩ := h'
  rw [huser] at huser'
  rw [Option.some.inj huser']

/-- The round of a request: the first one, or the one after its parent's, for the same candidate. -/
inductive Continues (T : Interviews) (row : InterviewRequest) : Prop
  | first (hparent : row.parentRequestId = none) (hround : row.roundNumber = 1)
  | next {p : Id} {parent : InterviewRequest} (hparent : row.parentRequestId = some p)
      (hrow : T.requests p = some parent) (hcandidate : row.candidateId = parent.candidateId)
      (hround : row.roundNumber = parent.roundNumber + 1)

theorem Continues.grows (h : Continues T row) (hT : Grows T T') : Continues T' row := by
  cases h with
  | first hparent hround => exact .first hparent hround
  | @next p parent hparent hrow hcandidate hround =>
    obtain ⟨parent', hrow', heq⟩ := hT.requests p parent hrow
    obtain ⟨-, hc, -, hn, -⟩ := InterviewRequest.of_origin heq
    exact .next hparent hrow' (by rw [hc]; exact hcandidate) (by rw [hn]; exact hround)

/-- What a request was created with is there. -/
structure Rooted (T : Interviews) (row : InterviewRequest) : Prop where
  candidate : HasRole T row.candidateId .candidate
  creator : HasRole T row.createdBy .admin
  round : Continues T row

theorem Rooted.grows (h : Rooted T row) (hT : Grows T T') : Rooted T' row :=
  ⟨h.candidate.grows hT, h.creator.grows hT, h.round.grows hT⟩

theorem Rooted.congr (h : Rooted T row) (heq : row'.origin = row.origin) : Rooted T row' := by
  obtain ⟨-, hc, hb, hn, hp⟩ := InterviewRequest.of_origin heq
  refine ⟨by rw [hc]; exact h.candidate, by rw [hb]; exact h.creator, ?_⟩
  cases h.round with
  | first hparent hround => exact .first (hp.trans hparent) (hn.trans hround)
  | next hparent hrow hcandidate hround =>
    exact .next (hp.trans hparent) hrow (hc.trans hcandidate) (hn.trans hround)

/-- A panel: panelists, or the administrator who has created the request. -/
structure Panel (T : Interviews) (createdBy : Id) (ids : List Id) : Prop where
  ne_nil : ids ≠ []
  nodup : ids.Nodup
  members : ∀ u ∈ ids, HasRole T u .panelist ∨ (u = createdBy ∧ HasRole T u .admin)

theorem Panel.grows {createdBy : Id} {ids : List Id} (h : Panel T createdBy ids) (hT : Grows T T') :
    Panel T' createdBy ids :=
  ⟨h.ne_nil, h.nodup, fun u hu => (h.members u hu).imp (·.grows hT) fun h => ⟨h.1, h.2.grows hT⟩⟩

/-- The participants are the candidate and a panel. -/
def Empanelled (T : Interviews) (row : InterviewRequest) (ps : List InterviewParticipant) : Prop :=
  ∃ ids, ps = seats row.candidateId ids ∧ Panel T row.createdBy ids

theorem Empanelled.grows {ps : List InterviewParticipant} (h : Empanelled T row ps) (hT : Grows T T') :
    Empanelled T' row ps := by
  obtain ⟨ids, hps, hpanel⟩ := h
  exact ⟨ids, hps, hpanel.grows hT⟩

theorem Empanelled.congr {ps : List InterviewParticipant} (h : Empanelled T row ps)
    (heq : row'.origin = row.origin) : Empanelled T row' ps := by
  obtain ⟨-, hc, hb, -, -⟩ := InterviewRequest.of_origin heq
  obtain ⟨ids, hps, hpanel⟩ := h
  exact ⟨ids, by rw [hc]; exact hps, by rw [hb]; exact hpanel⟩

/-- The candidate is not on the panel. -/
theorem Panel.candidate_not_mem {createdBy c : Id} {ids : List Id} (h : Panel T createdBy ids)
    (hc : HasRole T c .candidate) : c ∉ ids := by
  intro hmem
  rcases h.members c hmem with hp | ⟨-, ha⟩
  · exact absurd (hc.unique hp) (by decide)
  · exact absurd (hc.unique ha) (by decide)

/-! ### Submissions and runs -/

/-- The submission is by the candidate of its request. -/
def Submitted (T : Interviews) (a : CandidateAvailability) : Prop :=
  ∃ row, T.requests a.interviewRequestId = some row ∧ row.candidateId = a.candidateId

theorem Submitted.grows {a : CandidateAvailability} (h : Submitted T a) (hT : Grows T T') :
    Submitted T' a := by
  obtain ⟨row, hrow, hc⟩ := h
  obtain ⟨row', hrow', heq⟩ := hT.requests _ row hrow
  exact ⟨row', hrow', (InterviewRequest.of_origin heq).2.1.trans hc⟩

/-- What the input of the engine was made of. -/
structure Basis where
  request : InterviewRequest
  avail : CandidateAvailability
  panelists : Parts
  ref : Instant
  busyOf : Id → List BusyInterval

def Basis.input (b : Basis) : EngineInput :=
  Scheduling.engineInput b.request b.avail b.panelists b.ref (Scheduling.clipWindows b.ref b.avail.windows)
    b.busyOf

/-- **The engine has drawn the run from a submission for its request** and from users that there are. -/
structure Drawn (pf : Platform) (T : Interviews) (run : RecommendationRun) (b : Basis) : Prop where
  request : Recalls T run.interviewRequestId b.request
  submission : b.avail ∈ T.availability
  submitted : b.avail.interviewRequestId = run.interviewRequestId
  panelists : ∀ p ∈ b.panelists, T.users p.2.id = some p.2
  panel : b.panelists ≠ []
  snapshot : run.inputSnapshot = Scheduling.snapshot b.input pf.calendarSimulated
  slots : ∃ result, generateRecommendations pf.zones b.input = .ok result ∧
    List.Forall₂ RowOf result.slots run.slots

theorem Drawn.grows {run : RecommendationRun} {b : Basis} (h : Drawn pf T run b) (hT : Grows T T') :
    Drawn pf T' run b :=
  ⟨h.request.grows hT, hT.availability _ h.submission, h.submitted,
    fun p hp => hT.users _ _ (h.panelists p hp), h.panel, h.snapshot, h.slots⟩

/-- The rows of slots are the same whether selected or not. -/
theorem rowOf_offer {slot : ScoredSlot} {x : RecommendedSlot} : RowOf slot x.offer ↔ RowOf slot x :=
  ⟨fun h => ⟨h.startTime, h.endTime, h.totalScore, h.scoreBreakdown, h.explanation, h.rank⟩,
    fun h => ⟨h.startTime, h.endTime, h.totalScore, h.scoreBreakdown, h.explanation, h.rank⟩⟩

theorem Drawn.congr {run run' : RecommendationRun} {b : Basis} (h : Drawn pf T run b)
    (heq : run'.proposal = run.proposal) : Drawn pf T run' b := by
  obtain ⟨-, hr, hsnap, hslots⟩ := RecommendationRun.of_proposal heq
  refine ⟨by rw [hr]; exact h.request, h.submission, by rw [hr]; exact h.submitted, h.panelists, h.panel,
    hsnap.trans h.snapshot, ?_⟩
  obtain ⟨result, hresult, hrows⟩ := h.slots
  have hoffers : List.Forall₂ (fun slot x => RowOf slot (RecommendedSlot.offer x)) result.slots run.slots :=
    hrows.imp fun _ _ hrow => rowOf_offer.mpr hrow
  rw [← List.forall₂_map_right_iff, ← hslots, List.forall₂_map_right_iff] at hoffers
  exact ⟨result, hresult, hoffers.imp fun _ _ hrow => rowOf_offer.mp hrow⟩

/-- The interview has the times of a slot that was recommended for its request. -/
def FromSlot (T : Interviews) (e : InterviewEvent) : Prop :=
  ∃ run ∈ T.runs, run.interviewRequestId = e.interviewRequestId ∧
    ∃ slot ∈ run.slots, slot.startTime = e.startTime ∧ slot.endTime = e.endTime

theorem FromSlot.grows {e : InterviewEvent} (h : FromSlot T e) (hT : Grows T T') : FromSlot T' e := by
  obtain ⟨run, hrun, hr, slot, hslot, hstart, hend⟩ := h
  obtain ⟨run', hrun', heq⟩ := hT.runs run hrun
  obtain ⟨slot', hslot', hoffer⟩ := RecommendationRun.exists_offer heq hslot
  obtain ⟨-, hs, he⟩ := RecommendedSlot.of_offer hoffer
  exact ⟨run', hrun', (RecommendationRun.of_proposal heq).2.1.trans hr, slot', hslot', hs.trans hstart,
    he.trans hend⟩

theorem FromSlot.congr {e e' : InterviewEvent} (h : FromSlot T e) (heq : e'.booking = e.booking) :
    FromSlot T e' := by
  obtain ⟨-, hr, hstart, hend⟩ := InterviewEvent.of_booking heq
  obtain ⟨run, hrun, hreq, slot, hslot, hs, he⟩ := h
  exact ⟨run, hrun, hreq.trans hr.symm, slot, hslot, hs.trans hstart.symm, he.trans hend.symm⟩

/-! ### Tables -/

/-- **Every row goes back to what it was made from.** -/
structure Traceable (pf : Platform) (T : Interviews) : Prop where
  wellFormed : WellFormed T
  requests_id : ∀ r row, T.requests r = some row → row.id = r
  rooted : ∀ r row, T.requests r = some row → Rooted T row
  empanelled : ∀ r row, T.requests r = some row → Empanelled T row (T.participants r)
  submitted : ∀ a ∈ T.availability, Submitted T a
  drawn : ∀ run ∈ T.runs, ∃ b, Drawn pf T run b
  booked : ∀ e ∈ T.events, FromSlot T e

/-- What is stored is a reason for the write. -/
def Supported (pf : Platform) (T : Interviews) : Write → Prop
  | .insertRequest row ps => Rooted T row ∧ Empanelled T row ps
  | .replacePanelists _ ids => ids ≠ [] ∧ ids.Nodup ∧ ∀ u ∈ ids, HasRole T u .panelist
  | .insertAvailability a => Submitted T a
  | .insertRun run => ∃ b, Drawn pf T run b
  | .insertEvent e => FromSlot T e
  | _ => True

theorem Supported.grows {y : Write} (h : Supported pf T y) (hT : Grows T T') : Supported pf T' y := by
  cases y with
  | insertRequest row ps => exact ⟨h.1.grows hT, h.2.grows hT⟩
  | replacePanelists r ids => exact ⟨h.1, h.2.1, fun u hu => (h.2.2 u hu).grows hT⟩
  | insertAvailability a => exact Submitted.grows h hT
  | insertRun run =>
    obtain ⟨b, hb⟩ := h
    exact ⟨b, hb.grows hT⟩
  | insertEvent e => exact FromSlot.grows h hT
  | _ => trivial

/-- The participants of a request are those it had, or the ones that the write brings. -/
theorem participants_apply {y : Write} (hnew : ∀ row ps, y = .insertRequest row ps → r ≠ row.id)
    (hpanel : ∀ ids, y ≠ .replacePanelists r ids) : (y.apply T).participants r = T.participants r := by
  cases y with
  | insertRequest row ps => exact Function.update_of_ne (hnew row ps rfl) _ _
  | replacePanelists x ids =>
    refine Function.update_of_ne ?_ _ _
    rintro rfl
    exact hpanel ids rfl
  | _ => rfl

/-- The candidate stays when the panel is replaced. -/
theorem seats_replace {c : Id} {ids ids' : List Id} :
    (seats c ids).filter (·.roleInInterview = .candidate) ++ ids'.map (⟨·, .panelist⟩) = seats c ids' := by
  have hnone : (ids.map fun u => (⟨u, .panelist⟩ : InterviewParticipant)).filter
      (·.roleInInterview = .candidate) = [] := by
    rw [List.filter_eq_nil_iff]
    intro p hp
    obtain ⟨u, -, rfl⟩ := List.mem_map.mp hp
    simp
  simp [seats, hnone]

/-- **A write that is supported keeps the tables traceable.** -/
theorem Traceable.apply (h : Traceable pf T) {y : Write} (hy : Supported pf T y)
    (hv : y.violates T = false) : Traceable pf (y.apply T) := by
  have hT : Grows T (y.apply T) := grows_apply hv
  refine ⟨h.wellFormed.apply hv, fun r row' hrow' => ?_, fun r row' hrow' => ?_, fun r row' hrow' => ?_,
    fun a ha => ?_, fun run' hrun' => ?_, fun e' he' => ?_⟩
  · rcases Write.requests_apply hrow' with ⟨row, hrow, heq⟩ | ⟨ps, -, hid⟩
    · exact (InterviewRequest.of_origin heq).1.trans (h.requests_id r row hrow)
    · exact hid.symm
  · rcases Write.requests_apply hrow' with ⟨row, hrow, heq⟩ | ⟨ps, rfl, -⟩
    · exact ((h.rooted r row hrow).grows hT).congr heq
    · exact hy.1.grows hT
  · rcases Write.requests_apply hrow' with ⟨row, hrow, heq⟩ | ⟨ps, rfl, rfl⟩
    · have hold : Empanelled (y.apply T) row' (T.participants r) := ((h.empanelled r row hrow).grows hT).congr heq
      have hnew : ∀ row₁ ps, y = .insertRequest row₁ ps → r ≠ row₁.id := by
        rintro row₁ ps rfl rfl
        rw [(Write.violates_insertRequest.mp hv).fresh] at hrow
        simp at hrow
      by_cases hpanel : ∃ ids, y = .replacePanelists r ids
      · obtain ⟨ids, rfl⟩ := hpanel
        obtain ⟨ids₀, hps, -⟩ := hold
        refine ⟨ids, ?_, hy.1, hy.2.1, fun u hu => .inl ((hy.2.2 u hu).grows hT)⟩
        simp only [Write.apply, Function.update_self]
        rw [hps, seats_replace]
      · rw [participants_apply hnew fun ids hids => hpanel ⟨ids, hids⟩]
        exact hold
    · have hps : (Write.apply T (.insertRequest row' ps)).participants row'.id = ps :=
        Function.update_self _ _ _
      rw [hps]
      exact hy.2.grows hT
  · rcases Write.availability_apply ha with ha | rfl
    · exact (h.submitted a ha).grows hT
    · exact Submitted.grows hy hT
  · rcases Write.runs_apply hrun' with ⟨run, hrun, heq⟩ | rfl
    · obtain ⟨b, hb⟩ := h.drawn run hrun
      exact ⟨b, (hb.grows hT).congr heq⟩
    · obtain ⟨b, hb⟩ := hy
      exact ⟨b, hb.grows hT⟩
  · rcases Write.events_apply he' with ⟨e, he, heq⟩ | rfl
    · exact ((h.booked e he).grows hT).congr heq
    · exact FromSlot.grows hy hT

end InterviewScheduler.Interviews
