import InterviewScheduler.Interviews.Warranted
import InterviewScheduler.System.Commitments

/-! # The history of the tables

Whatever the calls do in whatever order, and whoever is registered meanwhile, every row goes back, from the
first day on, to what it was made from (`traceable_of_lives`): an interview to a slot that the engine has
found in the working hours of everybody (`events_explained`), and a request to the first round of its
candidate (`rounds_chained`). -/

namespace InterviewScheduler.System

open InterviewScheduler.Engine InterviewScheduler.Core InterviewScheduler.Effects
open InterviewScheduler.Interviews
open InterviewScheduler.Lifecycle (WellFormed)
open InterviewScheduler.Scheduling (availabilityWindow)

variable {ι : Type} {pf : Platform} {B : BusyInterval → Prop} {calls : ι → Call} {w w' w₀ : World}
  {T : Interviews} {J : Interviews → Prop}

/-! ### A sample -/

/-- The calls that book the interview of the request 10. -/
abbrev bookedPool : Pool Effect Exc Response Session World ℕ :=
  started samplePlatform (fun i => (bookedCalls i).1) emptyWorld

/-- The interview of the request 10 is booked, by the users that were registered. -/
theorem reaches_booked : ∃ P : Pool Effect Exc Response Session World ℕ,
    Pool.Reaches machine (fun _ => Blocked B) (registerAll firstUsers bookedPool) P ∧
      (∃ row, P.shared.db.requests 10 = some row) ∧
      ∃ e ∈ P.shared.db.events, e.interviewRequestId = 10 := by
  obtain ⟨P, hP, hp⟩ := reaches_of_schedule (registerAll firstUsers bookedPool)
    (A := fun _ => Blocked B) (fun _ _ _ _ _ _ => blocked_of_notAsked)
    (steps 0 (sampleCreate 10).2 ++ steps 1 ((sampleSubmit 10 540).2.take 12) ++
      steps 2 ((sampleGenerate 10).2.take 22) ++ steps 3 ((sampleBook 10).2.take 23))
    (p := fun P => (P.shared.db.requests 10).isSome &&
      P.shared.db.events.any fun e => decide (e.interviewRequestId = 10))
    (by decide +kernel)
  obtain ⟨hrow, hevent⟩ := Bool.and_eq_true_iff.mp hp
  obtain ⟨e, he, hr⟩ := List.any_eq_true.mp hevent
  exact ⟨P, hP, Option.isSome_iff_exists.mp hrow, e, he, of_decide_eq_true hr⟩

theorem lives_booked : ∃ P : Pool Effect Exc Response Session World ℕ,
    Lives samplePlatform B bookedPool P ∧ (∃ row, P.shared.db.requests 10 = some row) ∧
      ∃ e ∈ P.shared.db.events, e.interviewRequestId = 10 := by
  obtain ⟨P, hP, hbooked⟩ := reaches_booked (B := B)
  exact ⟨P, (lives_registered installed_emptyWorld).trans (lives_of_reaches hP), hbooked⟩

/-! ### Growth -/

theorem grows_register {user : User} (hnew : w.db.users user.id = none) :
    Grows w.db.toInterviews (registered user w).db.toInterviews where
  users u user' hu := by
    have hne : u ≠ user.id := by
      rintro rfl
      rw [hnew] at hu
      simp at hu
    exact (Function.update_of_ne hne _ _).trans hu
  requests _ row h := ⟨row, h, rfl⟩
  availability _ h := h
  runs run h := ⟨run, h, rfl⟩
  events e h := ⟨e, h, rfl, id⟩

/-- An effect loses nothing that is stored. -/
theorem grows_of_exec {β : Type} {o : Effect β} {c : Choice} {x : Except Exc β} {s s' : Session}
    (h : machine.exec o c s w = some (x, s', w')) : Grows w.db.toInterviews w'.db.toInterviews :=
  grows_of_respond (w := w.elapse c) h

/-! ### Throughout -/

/-- The answer to an effect is true of the tables after it. -/
theorem reports_of_exec {β : Type} {o : Effect β} {c : Choice} {x : Except Exc β} {s s' : Session}
    (hs : s.Recalls w.db.toInterviews) (h : machine.exec o c s w = some (x, s', w')) :
    s'.Recalls w'.db.toInterviews ∧ ∀ y, x = .ok y → Reports w'.db.toInterviews o y := by
  have hgrows : Grows w.db.toInterviews w'.db.toInterviews := grows_of_exec h
  have hbefore : s'.Recalls w.db.toInterviews ∧ ∀ y, x = .ok y → Reports w.db.toInterviews o y :=
    reports_of_respond (w := w.elapse c) hs h
  refine ⟨hbefore.1.grows hgrows, ?_⟩
  rcases respond_cases (w := w.elapse c) h with ⟨ho, -⟩ | ⟨-, hdb, -⟩
  · cases o with
    | commit => exact fun _ _ => trivial
    | _ => exact ho.elim
  · have hsame : w'.db.toInterviews = w.db.toInterviews := congrArg Db.toInterviews hdb
    rw [hsame]
    exact hbefore.2

/-- The tables have the property `J`, and whatever is staged or will be staged has its warrant. -/
structure Licit (pf : Platform) (J : Interviews → Prop) (calls : ι → Call)
    (P : Pool Effect Exc Response Session World ι) : Prop where
  tables : J P.shared.db.toInterviews
  recalls : ∀ i, (P.loc i).Recalls P.shared.db.toInterviews
  pending : ∀ i, ∀ y ∈ (P.loc i).pending, Warranted pf J (calls i) P.shared.db.toInterviews y
  proved : ∀ i, ∃ T, Grows T P.shared.db.toInterviews ∧
    wp (knowing J (Warranted pf J (calls i))) (P.prog i) Anyway T

theorem licit_started (hJ : ∀ T, J T → Traceable pf T) (h : J w.db.toInterviews) :
    Licit pf J calls (started pf calls w) where
  tables := h
  recalls i r row hrow := by simp [started] at hrow
  pending i y hy := by simp [started] at hy
  proved i := ⟨_, .refl _, warranted_handle hJ (calls i)⟩

variable [DecidableEq ι]

theorem Licit.call {P P' : Pool Effect Exc Response Session World ι} (hP : Licit pf J calls P)
    (hkeep : ∀ i T y, J T → Warranted pf J (calls i) T y → y.violates T = false → J (y.apply T))
    (h : Pool.Step machine (fun _ => Blocked B) P P') : Licit pf J calls P' := by
  cases h with
  | @op i β o k c x s' w' hprog hc hex =>
    obtain ⟨T₀, hT₀, hwp⟩ := hP.proved i
    rw [hprog] at hwp
    obtain ⟨hstaged, hrest⟩ := hwp
    have hgrows : Grows P.shared.db.toInterviews w'.db.toInterviews := grows_of_exec hex
    obtain ⟨hrecalls, htells⟩ := reports_of_exec (hP.recalls i) hex
    have htables : J w'.db.toInterviews := by
      rcases respond_cases (w := P.shared.elapse c) hex with ⟨-, -, T, hT, -, rfl⟩ | ⟨-, hdb, -⟩
      · rw [World.commit_toInterviews]
        -- while the transaction is applied, what was warranted before it stays so
        have hkept : J T ∧ Grows P.shared.db.toInterviews T := by
          refine keeps_applyAll (I := fun T => J T ∧ Grows P.shared.db.toInterviews T)
            (W := Warranted pf J (calls i) P.shared.db.toInterviews) ?_ ⟨hP.tables, .refl _⟩
            (hP.pending i) hT
          rintro T y ⟨hJ, hT⟩ hy hv
          exact ⟨hkeep i T y hJ (hy.grows hT) hv, hT.trans (grows_apply hv)⟩
        exact hkept.1
      · rw [hdb]
        exact hP.tables
    refine ⟨htables, ?_, ?_, fun j => ?_⟩
    · refine (Function.forall_update_iff P.loc fun _ s => s.Recalls w'.db.toInterviews).mpr
        ⟨hrecalls, fun j _ => (hP.recalls j).grows hgrows⟩
    · refine (Function.forall_update_iff P.loc fun j s => ∀ y ∈ s.pending,
        Warranted pf J (calls j) w'.db.toInterviews y).mpr
        ⟨fun y hy => ?_, fun j _ y hy => (hP.pending j y hy).grows hgrows⟩
      rcases pending_of_exec hex y hy with hy | hy
      · exact (hP.pending i y hy).grows hgrows
      · exact (hstaged y hy).grows (hT₀.trans hgrows)
    · change ∃ T, Grows T w'.db.toInterviews ∧ wp (knowing J (Warranted pf J (calls j)))
        (Function.update P.prog i (k x) j) Anyway T
      by_cases hj : j = i
      · subst hj
        rw [Function.update_self]
        exact ⟨_, .refl _, hrest x _ ⟨hT₀.trans hgrows, htables, htells⟩⟩
      · rw [Function.update_of_ne hj]
        obtain ⟨T₁, hT₁, hwp'⟩ := hP.proved j
        exact ⟨T₁, hT₁.trans hgrows, hwp'⟩

omit [DecidableEq ι] in
theorem Licit.register {P : Pool Effect Exc Response Session World ι} (hP : Licit pf J calls P)
    {user : User} (hnew : P.shared.db.users user.id = none)
    (hJ : J (registered user P.shared).db.toInterviews) :
    Licit pf J calls { P with shared := registered user P.shared } := by
  have hgrows := grows_register hnew
  refine ⟨hJ, fun i => (hP.recalls i).grows hgrows, fun i y hy => (hP.pending i y hy).grows hgrows,
    fun i => ?_⟩
  obtain ⟨T, hT, hwp⟩ := hP.proved i
  exact ⟨T, hT.trans hgrows, hwp⟩

/-- **What every warranted write keeps, and every registration, holds throughout.** -/
theorem licit_of_lives (hJ : ∀ T, J T → Traceable pf T)
    (hkeep : ∀ i T y, J T → Warranted pf J (calls i) T y → y.violates T = false → J (y.apply T))
    (hregister : ∀ (user : User) (w : World), w.db.users user.id = none → J w.db.toInterviews →
      J (registered user w).db.toInterviews)
    (h₀ : J w₀.db.toInterviews) {P : Pool Effect Exc Response Session World ι}
    (h : Lives pf B (started pf calls w₀) P) : Licit pf J calls P := by
  induction h with
  | refl => exact licit_started hJ h₀
  | tail _ hlast ih =>
    cases hlast with
    | call hstep => exact ih.call hkeep hstep
    | register hnew _ => exact ih.register hnew (hregister _ _ hnew ih.tables)

/-! ### Traceable tables -/

omit [DecidableEq ι] in
theorem Traceable.register {user : User} (hnew : w.db.users user.id = none)
    (h : Traceable pf w.db.toInterviews) : Traceable pf (registered user w).db.toInterviews := by
  have hT := grows_register hnew
  refine ⟨WellFormed.register h.wellFormed, h.requests_id, fun r row hrow => (h.rooted r row hrow).grows hT,
    fun r row hrow => (h.empanelled r row hrow).grows hT, fun a ha => (h.submitted a ha).grows hT,
    fun run hrun => ?_, fun e he => (h.booked e he).grows hT⟩
  obtain ⟨b, hb⟩ := h.drawn run hrun
  exact ⟨b, hb.grows hT⟩

omit [DecidableEq ι] in
theorem Installed.traceable (h₀ : Installed w₀) : Traceable pf w₀.db.toInterviews := by
  have hT : w₀.db.toInterviews = { users := w₀.db.users } := h₀.tables
  refine ⟨h₀.toInitial.wellFormed, ?_, ?_, ?_, ?_, ?_, ?_⟩
  all_goals rw [hT]; simp

theorem licit_traceable (h₀ : Installed w₀) {P : Pool Effect Exc Response Session World ι}
    (h : Lives pf B (started pf calls w₀) P) : Licit pf (Traceable pf) calls P :=
  licit_of_lives (fun _ hT => hT) (fun _ _ _ hT hy hv => hT.apply hy.supported hv)
    (fun _ _ hnew hT => Traceable.register hnew hT) h₀.traceable h

/-- **From the first day on every row goes back to what it was made from.** -/
theorem traceable_of_lives (h₀ : Installed w₀) {P : Pool Effect Exc Response Session World ι}
    (h : Lives pf B (started pf calls w₀) P) : Traceable pf P.shared.db.toInterviews :=
  (licit_traceable h₀ h).tables

/-! ### Where an interview comes from -/

/-- In the zone it is a time of a working day. -/
def AtWork (zones : ZoneDatabase) (timezone : String) (t : Instant) : Prop :=
  ∃ d, t ∈ (workingDay (zones.zone timezone) availabilityWindow d).toSet

/-- The instant is still to come and suits everybody: the candidate has offered it, for all of them it is
in working hours, and no panelist is busy. -/
structure Suits (zones : ZoneDatabase) (b : Basis) (t : Instant) : Prop where
  ahead : b.ref ≤ t
  offered : ∃ window ∈ b.avail.windows, window.startTime ≤ t ∧ t < window.endTime
  candidate : AtWork zones b.avail.timezone t
  panelists : ∀ p ∈ b.panelists, AtWork zones (if p.2.timezone = "" then "UTC" else p.2.timezone) t
  idle : ∀ p ∈ b.panelists, ∀ block ∈ b.busyOf p.2.id,
    ¬ (block.start.astimezone ≤ t ∧ t < block.stop.astimezone)

/-- What is free in common suits everybody. -/
theorem suits_of_mem {zones : ZoneDatabase} {b : Basis} {t : Instant}
    (h : t ∈ commonFreeSet zones b.input) : Suits zones b t := by
  obtain ⟨hcand, hwork, hbusy⟩ := h
  have hmember : ∀ p ∈ b.panelists,
      ({ participantId := toString p.2.id, timezone := if p.2.timezone = "" then "UTC" else p.2.timezone,
         busy := b.busyOf p.2.id } : Participant) ∈ b.input.participants :=
    fun p hp => List.mem_cons_of_mem _ (List.mem_map.mpr ⟨p, hp, rfl⟩)
  have hat : ∀ p ∈ b.input.participants, AtWork zones p.timezone t := by
    intro p hp
    obtain ⟨d, -, ht⟩ := hwork p hp
    exact ⟨d, ht⟩
  obtain ⟨iv, hiv, hstart, hstop⟩ := hcand
  obtain ⟨x, hx, rfl⟩ := List.mem_map.mp hiv
  obtain ⟨v, hv, rfl⟩ := List.mem_map.mp hx
  obtain ⟨window, hwindow, rfl⟩ := List.mem_map.mp hv
  -- a clipped window starts at the reference time, or later
  have hstart : max window.startTime b.ref ≤ t := hstart
  have hoffered : window ∈ b.avail.windows := (List.mem_filter.mp hwindow).1
  refine ⟨(le_max_right _ _).trans hstart, ⟨window, hoffered, (le_max_left _ _).trans hstart, hstop⟩,
    hat _ List.mem_cons_self, fun p hp => hat _ (hmember p hp), fun p hp block hblock hmeets => ?_⟩
  exact hbusy _ (hmember p hp) rfl ⟨_, List.mem_map_of_mem hblock, hmeets⟩

/-- The interview is a slot of the run that the engine has drawn from `b`, and every instant of it and of
the buffers around it suits everybody. -/
structure Explained (pf : Platform) (T : Interviews) (e : InterviewEvent) (run : RecommendationRun)
    (b : Basis) : Prop where
  stored : run ∈ T.runs
  request : run.interviewRequestId = e.interviewRequestId
  slot : ∃ slot ∈ run.slots, slot.startTime = e.startTime ∧ slot.endTime = e.endTime
  drawn : Drawn pf T run b
  length : e.endTime = e.startTime + minutes b.request.durationMinutes
  suits : ∀ t, e.startTime - minutes b.request.bufferMinutes ≤ t →
    t < e.endTime + minutes b.request.bufferMinutes → Suits pf.zones b t

omit [DecidableEq ι] in
theorem Traceable.explained (h : Traceable pf T) {e : InterviewEvent} (he : e ∈ T.events) :
    ∃ run b, Explained pf T e run b := by
  obtain ⟨run, hrun, hreq, slot, hslot, hstart, hend⟩ := h.booked e he
  obtain ⟨b, hb⟩ := h.drawn run hrun
  obtain ⟨result, hresult, hrows⟩ := hb.slots
  obtain ⟨scored, hscored, hrow⟩ := Util.forall₂_exists_left hrows hslot
  obtain ⟨-, -, -, hlen, -⟩ := exists_grid_of_mem_slots hresult hscored
  have hfree := slot_subset_commonFreeSet hresult hscored
  rw [← hrow.startTime, ← hrow.endTime, hstart, hend] at hfree hlen
  exact ⟨run, b, hrun, hreq, ⟨slot, hslot, hstart, hend⟩, hb, hlen,
    fun t ht ht' => suits_of_mem (hfree ⟨ht, ht'⟩)⟩

/-- **Every interview there ever is can be explained.** -/
theorem events_explained (h₀ : Installed w₀) {P : Pool Effect Exc Response Session World ι}
    (h : Lives pf B (started pf calls w₀) P) :
    ∀ e ∈ P.shared.db.events, ∃ run b, Explained pf P.shared.db.toInterviews e run b :=
  fun _ he => Traceable.explained (traceable_of_lives h₀ h) he

/-- The interview that is booked. -/
theorem events_explained_sample : ∃ (P : Pool Effect Exc Response Session World ℕ) (e : InterviewEvent),
    e ∈ P.shared.db.events ∧
      ∃ run b, Explained samplePlatform P.shared.db.toInterviews e run b := by
  obtain ⟨P, hP, -, e, he, -⟩ := lives_booked (B := fun _ => True)
  exact ⟨P, e, he, events_explained installed_emptyWorld hP e he⟩

/-! ### The rounds of a candidate -/

/-- The ids of a request, of its parent, and so on down to a first round. -/
inductive Descends (T : Interviews) : InterviewRequest → List Id → Prop
  | first {row : InterviewRequest} (hparent : row.parentRequestId = none) : Descends T row [row.id]
  | next {row parent : InterviewRequest} {p : Id} {l : List Id} (hparent : row.parentRequestId = some p)
      (hrow : T.requests p = some parent) (h : Descends T parent l) : Descends T row (row.id :: l)

/-- The requests have one candidate, and none of them is a later round than `row`. -/
def RoundsOf (T : Interviews) (row : InterviewRequest) (l : List Id) : Prop :=
  ∀ x ∈ l, ∃ row', T.requests x = some row' ∧ row'.candidateId = row.candidateId ∧
    row'.roundNumber ≤ row.roundNumber

omit [DecidableEq ι] in
theorem Traceable.chained (h : Traceable pf T) {r : Id} {row : InterviewRequest}
    (hrow : T.requests r = some row) : ∃ l, Descends T row l ∧ l.length = row.roundNumber ∧ l.Nodup ∧
      RoundsOf T row l := by
  -- by induction on the round
  induction hn : row.roundNumber generalizing r row with
  | zero =>
    cases (h.rooted r row hrow).round with
    | first hparent hround => omega
    | next hparent hrow' hcandidate hround => omega
  | succ n ih =>
    have hself : T.requests row.id = some row := h.requests_id r row hrow ▸ hrow
    cases (h.rooted r row hrow).round with
    | first hparent hround =>
      refine ⟨[row.id], .first hparent, ?_, List.nodup_singleton _, fun x hx => ?_⟩
      · rw [List.length_singleton]
        omega
      · rw [List.mem_singleton.mp hx]
        exact ⟨row, hself, rfl, le_rfl⟩
    | @next p parent hparent hrow' hcandidate hround =>
      have hpred : parent.roundNumber = n := by omega
      obtain ⟨l, hl, hlength, hnodup, hrounds⟩ := ih hrow' hpred
      refine ⟨row.id :: l, .next hparent hrow' hl, ?_, List.nodup_cons.mpr ⟨fun hmem => ?_, hnodup⟩,
        fun x hx => ?_⟩
      · rw [List.length_cons, hlength]
      · -- an earlier request of the chain is of an earlier round
        obtain ⟨row', hself', -, hle⟩ := hrounds row.id hmem
        rw [hself] at hself'
        obtain rfl := Option.some.inj hself'
        omega
      · rcases List.mem_cons.mp hx with rfl | hx
        · exact ⟨row, hself, rfl, le_rfl⟩
        · obtain ⟨row', hrow'', hc, hle⟩ := hrounds x hx
          exact ⟨row', hrow'', hc.trans hcandidate.symm, by omega⟩

/-- **The rounds of a candidate.** From every request a chain of as many requests as its round number leads
to a first round, with no request twice, and all for one candidate. -/
theorem rounds_chained (h₀ : Installed w₀) {P : Pool Effect Exc Response Session World ι}
    (h : Lives pf B (started pf calls w₀) P) {r : Id} {row : InterviewRequest}
    (hrow : P.shared.db.requests r = some row) :
    ∃ l, Descends P.shared.db.toInterviews row l ∧ l.length = row.roundNumber ∧ l.Nodup ∧
      RoundsOf P.shared.db.toInterviews row l :=
  Traceable.chained (traceable_of_lives h₀ h) hrow

/-- The request 10 is booked and passed, and its next round has two panelists. -/
def interviewedCalls : ℕ → Call × List Choice
  | 4 => sampleOutcome 10
  | 5 => (.createNextRound 1 10
      { roundType := .technical, durationMinutes := 40, bufferMinutes := 10, panelistIds := [3, 4]
        duration_pos := by decide, buffer_nonneg := by decide, panelistIds_ne_nil := by decide
        panelistIds_nodup := by decide }, answered 3 ++ [pick 70] ++ answered 5)
  | i => bookedCalls i

/-- The first users, and another panelist. -/
def fourUsers : List User :=
  firstUsers ++ [{ id := 4, email := "second@example.com", role := .panelist }]

abbrev interviewedPool : Pool Effect Exc Response Session World ℕ :=
  started samplePlatform (fun i => (interviewedCalls i).1) emptyWorld

theorem lives_interviewed : ∃ (P : Pool Effect Exc Response Session World ℕ) (row : InterviewRequest),
    Lives samplePlatform B interviewedPool P ∧ P.shared.db.requests 70 = some row ∧
      row.parentRequestId = some 10 ∧ row.roundNumber = 2 ∧
      P.shared.db.participants 70 = seats row.candidateId [3, 4] := by
  obtain ⟨P, hP, hp⟩ := reaches_of_schedule (registerAll fourUsers interviewedPool)
    (A := fun _ => Blocked B) (fun _ _ _ _ _ _ => blocked_of_notAsked)
    (steps 0 (sampleCreate 10).2 ++ steps 1 ((sampleSubmit 10 540).2.take 12) ++
      steps 2 ((sampleGenerate 10).2.take 22) ++ steps 3 ((sampleBook 10).2.take 23) ++
      steps 4 (answered 9) ++ steps 5 (interviewedCalls 5).2)
    (p := fun P => (P.shared.db.requests 70).any fun row : InterviewRequest =>
      decide (row.parentRequestId = some 10 ∧ row.roundNumber = 2 ∧
        P.shared.db.participants 70 = seats row.candidateId [3, 4]))
    (by decide +kernel)
  obtain ⟨row, hrow, hp⟩ := (Option.any_eq_true _ _).mp hp
  have hregistered : Lives samplePlatform B interviewedPool (registerAll fourUsers interviewedPool) :=
    lives_registerAll (by decide) (fun _ _ => rfl) (by simp [fourUsers, firstUsers, Registrable])
  exact ⟨P, row, hregistered.trans (lives_of_reaches hP), hrow, of_decide_eq_true hp⟩

/-- The chain of the second round. -/
theorem rounds_chained_sample : ∃ (P : Pool Effect Exc Response Session World ℕ) (row : InterviewRequest)
    (l : List Id), P.shared.db.requests 70 = some row ∧ row.parentRequestId = some 10 ∧
      Descends P.shared.db.toInterviews row l ∧ l.length = 2 ∧ RoundsOf P.shared.db.toInterviews row l := by
  obtain ⟨P, row, hP, hrow, hparent, hround, -⟩ := lives_interviewed (B := fun _ => True)
  obtain ⟨l, hl, hlength, -, hrounds⟩ := rounds_chained installed_emptyWorld hP hrow
  exact ⟨P, row, l, hrow, hparent, hl, hlength.trans hround, hrounds⟩

/-! ### The panel -/

/-- **Who takes part**: the candidate, and a panel of panelists or of the administrator who has created
the request. It is not empty, nobody is on it twice, and the candidate is not on it. -/
theorem participants_empanelled (h₀ : Installed w₀) {P : Pool Effect Exc Response Session World ι}
    (h : Lives pf B (started pf calls w₀) P) {r : Id} {row : InterviewRequest}
    (hrow : P.shared.db.requests r = some row) :
    HasRole P.shared.db.toInterviews row.candidateId .candidate ∧
      HasRole P.shared.db.toInterviews row.createdBy .admin ∧
      ∃ ids, P.shared.db.participants r = seats row.candidateId ids ∧ row.candidateId ∉ ids ∧
        Panel P.shared.db.toInterviews row.createdBy ids := by
  have hT := traceable_of_lives h₀ h
  have hroot := hT.rooted r row hrow
  obtain ⟨ids, hps, hpanel⟩ := hT.empanelled r row hrow
  exact ⟨hroot.candidate, hroot.creator, ids, hps, hpanel.candidate_not_mem hroot.candidate, hpanel⟩

theorem seats_injective {c c' : Id} {ids ids' : List Id} (h : seats c ids = seats c' ids') : ids = ids' := by
  have hpanelists := (List.cons.inj h).2
  exact List.map_injective_iff.mpr (fun _ _ hp => congrArg InterviewParticipant.userId hp) hpanelists

/-- The panel of the second round. -/
theorem participants_empanelled_sample : ∃ (P : Pool Effect Exc Response Session World ℕ)
    (row : InterviewRequest), P.shared.db.requests 70 = some row ∧
      HasRole P.shared.db.toInterviews row.candidateId .candidate ∧
      HasRole P.shared.db.toInterviews row.createdBy .admin ∧
      P.shared.db.participants 70 = seats row.candidateId [3, 4] ∧ row.candidateId ∉ [3, 4] ∧
      Panel P.shared.db.toInterviews row.createdBy [3, 4] := by
  obtain ⟨P, row, hP, hrow, -, -, hseats⟩ := lives_interviewed (B := fun _ => True)
  obtain ⟨hcandidate, hcreator, ids, hps, hnot, hpanel⟩ :=
    participants_empanelled installed_emptyWorld hP hrow
  obtain rfl : [3, 4] = ids := seats_injective (hseats.symm.trans hps)
  exact ⟨P, row, hrow, hcandidate, hcreator, hseats, hnot, hpanel⟩

end InterviewScheduler.System
