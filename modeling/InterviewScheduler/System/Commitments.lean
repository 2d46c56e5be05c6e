import InterviewScheduler.Scheduling.Alone
import InterviewScheduler.Scheduling.Commitments
import InterviewScheduler.System.Acceptance
import InterviewScheduler.System.DeadEnds

/-! # The commitments of the panel

Whatever has happened since the first day, the engine finds with the panelists' CONFIRMED interviews that
meet the hull of the windows what it finds with all of them; so the slots that a call of `generate` stores
keep the buffer to every CONFIRMED interview of every panelist on another request
(`commitments_honoured`). -/

namespace InterviewScheduler.System

open InterviewScheduler.Engine InterviewScheduler.Core InterviewScheduler.Effects
open InterviewScheduler.Lifecycle InterviewScheduler.Interviews
open InterviewScheduler.Booking (Part partsOf confirmedFor)
open InterviewScheduler.Scheduling (Evaluation Generated Concludes RowOf allConfirmedFor timeMin
  timeMax generated_handle generateRecommendations_prefilter)

variable {ι : Type} {pf : Platform} {B : BusyInterval → Prop} {calls : ι → Call} {w₀ w w' : World}
  {T : Interviews} {r : Id} {t : Instant} {ev : Evaluation}

/-! ### The tables -/

theorem WellFormed.register {user : User} (h : WellFormed w.db.toInterviews) :
    WellFormed (registered user w).db.toInterviews where
  user_id u user' hu := by
    change Function.update w.db.users user.id (some user) u = some user' at hu
    rw [Function.update_apply] at hu
    split_ifs at hu with heq
    · obtain rfl := Option.some.inj hu
      exact heq.symm
    · exact h.user_id u user' hu
  events_nodup := h.events_nodup
  one_confirmed := h.one_confirmed
  event_request := h.event_request
  participant_user r p hp := by
    change Function.update w.db.users user.id (some user) p.userId ≠ none
    rw [Function.update_apply]
    split_ifs
    · simp
    · exact h.participant_user r p hp
  runs := h.runs

/-- The constraints of the schema hold, with users who are registered at any time. -/
theorem wellFormed_of_lives [DecidableEq ι] (h₀ : Installed w₀)
    {P : Pool Effect Exc Response Session World ι} (h : Lives pf B (started pf calls w₀) P) :
    WellFormed P.shared.db.toInterviews := by
  induction h with
  | refl => exact h₀.toInitial.wellFormed
  | tail _ hlast ih =>
    cases hlast with
    | call hstep =>
      cases hstep with
      | op _ _ hex => exact wellFormed_step ih hex
    | register _ _ => exact WellFormed.register ih

/-! ### The slots -/

/-- The slot keeps the buffer to the interview. -/
def Apart (bufferMinutes : ℤ) (slot : RecommendedSlot) (e : InterviewEvent) : Prop :=
  slot.endTime + minutes bufferMinutes ≤ e.startTime ∨ e.endTime + minutes bufferMinutes ≤ slot.startTime

instance (bufferMinutes : ℤ) (slot : RecommendedSlot) (e : InterviewEvent) :
    Decidable (Apart bufferMinutes slot e) := inferInstanceAs (Decidable (_ ∨ _))

/-- The interview is a commitment of a panelist of the request `r`: it is CONFIRMED, on another request. -/
structure CommitmentOf (T : Interviews) (r u : Id) (e : InterviewEvent) : Prop where
  panelist : ∃ p ∈ T.participants r, p.userId = u ∧ p.roleInInterview = .panelist
  event : e ∈ T.events
  confirmed : e.status = .confirmed
  other : e.interviewRequestId ≠ r
  takesPart : TakesPart T u e.interviewRequestId

/-- With all commitments supplied, every one of them is among the panelist's busy blocks. -/
theorem CommitmentOf.mem_busy (hT : WellFormed T) (hev : ev.Of B T r t) {u : Id} {e : InterviewEvent}
    (h : CommitmentOf T r u e) (pick : ℕ) :
    ∃ p ∈ ev.panelists, p.2.id = u ∧ (⟨.aware e.startTime, .aware e.endTime⟩ : BusyInterval) ∈
      Scheduling.withInternal ev.busyByUser
        (inSomeOrder pick (allConfirmedFor T (ev.panelists.map (·.2.id)) r)) u := by
  obtain ⟨p, hp, hpu, hrole⟩ := h.panelist
  obtain ⟨user, huser⟩ := Option.ne_none_iff_exists'.mp (hT.participant_user r p hp)
  obtain ⟨order, hpanel⟩ := hev.panelists
  have hpart : (p, user) ∈ partsOf T r := List.mem_filterMap.mpr ⟨p, hp, by simp [huser]⟩
  have hid : user.id = u := (hT.user_id _ _ huser).trans hpu
  have hmem : (p, user) ∈ ev.panelists := by
    rw [hpanel]
    exact List.mem_filter.mpr ⟨(inSomeOrder_perm _ _).mem_iff.mpr hpart, decide_eq_true hrole⟩
  refine ⟨_, hmem, hid, List.mem_append_right _ (List.mem_map.mpr ⟨(u, e.startTime, e.endTime), ?_, rfl⟩)⟩
  refine List.mem_filter.mpr ⟨(inSomeOrder_perm _ _).mem_iff.mpr ?_, decide_eq_true rfl⟩
  refine Scheduling.mem_allConfirmedFor.mpr ⟨e, h.event, h.confirmed, h.other, h.takesPart, ?_, rfl⟩
  exact List.mem_map.mpr ⟨_, hmem, hid⟩

/-- The input with the given commitments of the panel. -/
def supplied (ev : Evaluation) (internal : List (Id × Instant × Instant)) : EngineInput :=
  Evaluation.input { ev with internal := internal }

/-- The users of the panel. -/
def panelIds (ev : Evaluation) : List Id := ev.panelists.map (·.2.id)

/-- The slots of a result keep the buffer to the commitments of the panel. -/
theorem apart_of_result (hT : WellFormed T) (hproper : EventsProper T) (hev : ev.Of B T r t)
    {result : EngineResult} (hresult : generateRecommendations pf.zones ev.input = .ok result)
    {rows : List RecommendedSlot} (hrows : List.Forall₂ RowOf result.slots rows)
    {slot : RecommendedSlot} (hslot : slot ∈ rows) {u : Id} {e : InterviewEvent}
    (h : CommitmentOf T r u e) : Apart ev.request.bufferMinutes slot e := by
  obtain ⟨pick, hinternal⟩ := hev.internal
  obtain ⟨p, hp, hid, hbusy⟩ := h.mem_busy hT hev 0
  obtain ⟨s, hs, hrow⟩ := Util.forall₂_exists_left hrows hslot
  have hall := hresult
  unfold Evaluation.input at hall
  rw [hinternal, generateRecommendations_prefilter hproper pick 0] at hall
  rw [← hid] at hbusy
  unfold Apart
  rw [hrow.startTime, hrow.endTime]
  exact Scheduling.slot_apart hall hs (List.mem_cons_of_mem _ (List.mem_map.mpr ⟨p, hp, rfl⟩)) rfl
    (List.mem_map.mpr ⟨_, hbusy, rfl⟩)

/-- A run that was not there before has been stored from an evaluation. -/
theorem apart_of_generated (hT : WellFormed w.db.toInterviews) (hproper : EventsProper w.db.toInterviews)
    {u : Id} {x : Except Exc Response} (h : Generated pf B w u r x w'.db) {run : RecommendationRun}
    (hrun : run ∈ w'.db.runs) (hnew : run ∉ w.db.runs) :
    run.interviewRequestId = r ∧ ∃ row, w.db.requests r = some row ∧ ∀ slot ∈ run.slots, ∀ u' e,
      CommitmentOf w'.db.toInterviews r u' e → Apart row.bufferMinutes slot e := by
  have hkept : ∀ {db : Db}, Unwritten w.db.toInterviews w.db.audits db → run ∉ db.runs := by
    intro db h hmem
    change run ∈ db.toInterviews.runs at hmem
    rw [h.1] at hmem
    exact hnew hmem
  generalize w'.db = db at h hrun ⊢
  cases h with
  | refused _ h => exact absurd hrun (hkept h)
  | concluded _ h =>
    cases h with
    | kept h _ => exact absurd hrun (hkept h)
    | waited h _ _ => exact absurd hrun (hkept h)
    | rejected h _ _ => exact absurd hrun (hkept h)
    | failed _ _ htables _ =>
      change run ∈ db.toInterviews.runs at hrun
      rw [htables] at hrun
      exact absurd hrun hnew
    | @stored ev result run' db hev hresult hreq hslots htables haudits =>
      change run ∈ db.toInterviews.runs at hrun
      rw [htables] at hrun ⊢
      rcases List.mem_append.mp hrun with hold | hlast
      · exact absurd hold hnew
      · obtain rfl := List.mem_singleton.mp hlast
        refine ⟨hreq, ev.request, hev.request, fun slot hslot u' e he => ?_⟩
        exact apart_of_result hT hproper hev hresult hslots hslot
          ⟨he.panelist, he.event, he.confirmed, he.other, he.takesPart⟩

variable [DecidableEq ι]

/-- **The commitments of the panel are honoured, and the prefilter is lossless.** -/
theorem commitments_honoured (h₀ : Installed w₀) {P : Pool Effect Exc Response Session World ι}
    (h : Lives pf (fun _ => True) (started pf calls w₀) P) :
    (∀ (ev : Evaluation) (r : Id) (pick pick' : ℕ),
      generateRecommendations pf.zones (supplied ev (inSomeOrder pick (confirmedFor
        P.shared.db.toInterviews (panelIds ev) r (timeMin ev.windows) (timeMax ev.windows)))) =
      generateRecommendations pf.zones (supplied ev (inSomeOrder pick' (allConfirmedFor
        P.shared.db.toInterviews (panelIds ev) r)))) ∧
    ∀ (u r : Id) (x : Except Exc Response) (s' : Session) (w' : World),
      Runs machine Any (handle pf (.generate u r)) {} P.shared x s' w' →
      ∀ run ∈ w'.db.runs, run ∉ P.shared.db.runs → run.interviewRequestId = r ∧
        ∃ row, P.shared.db.requests r = some row ∧ ∀ slot ∈ run.slots, ∀ u' e,
          CommitmentOf w'.db.toInterviews r u' e → Apart row.bufferMinutes slot e := by
  have hproper : EventsProper P.shared.db.toInterviews := (orderly_of_lives h₀ h).tables.events
  refine ⟨fun ev r pick pick' => generateRecommendations_prefilter hproper pick pick', ?_⟩
  intro u r x s' w' hr run hrun hnew
  have hend := hr.meets (D := fun _ _ _ _ => True) (generated_handle (B := fun _ => True)
    (fun _ _ _ => trivial) (fun o _ _ _ _ => by cases o <;> simp [Blocks]) P.shared)
  exact apart_of_generated (wellFormed_of_lives h₀ h) hproper hend hrun hnew

/-! ### A sample -/

/-- An interview is booked, and another one with the same people is to be. -/
def bookedCalls : ℕ → Call × List Choice
  | 0 => sampleCreate 10
  | 1 => sampleSubmit 10 540
  | 2 => sampleGenerate 10
  | 3 => sampleBook 10
  | 4 => sampleCreate 40
  | _ => sampleSubmit 40 540

/-- The run is new, and the interview of the request 10 is a commitment of the panelist. -/
def storesBeside (w w' : World) : Bool :=
  (w.db.requests 40).any (·.bufferMinutes = 15) &&
    ((w'.db.participants 40).any fun p => p.userId = 3 ∧ p.roleInInterview = .panelist) &&
    (w'.db.events.any fun e => e.status = .confirmed ∧ e.interviewRequestId ≠ 40 ∧
      (w'.db.participants e.interviewRequestId).any fun p => p.userId = 3) &&
    w'.db.runs.any fun run => (w.db.runs.all fun run' => run'.id ≠ run.id) && run.slots ≠ []

theorem of_storesBeside (h : storesBeside w w') :
    (∃ row, w.db.requests 40 = some row ∧ row.bufferMinutes = 15) ∧
      (∃ e, CommitmentOf w'.db.toInterviews 40 3 e) ∧
      ∃ run ∈ w'.db.runs, run ∉ w.db.runs ∧ ∃ slot, slot ∈ run.slots := by
  simp only [storesBeside, Bool.and_eq_true, List.any_eq_true, List.all_eq_true, Option.any_eq_true,
    decide_eq_true_eq] at h
  obtain ⟨⟨⟨hrow, p, hp, hpu, hrole⟩, e, he, hc, hne, q, hq, hqu⟩, run, hrun, hnew, hslots⟩ := h
  refine ⟨hrow, ⟨e, ⟨p, hp, hpu, hrole⟩, he, hc, hne, q, hq, hqu⟩, run, hrun, fun hmem => ?_, ?_⟩
  · exact hnew run hmem rfl
  · exact List.exists_mem_of_ne_nil _ hslots

/-- The first interview is a commitment for the second one, whose slots keep the buffer. -/
theorem commitments_honoured_sample : ∃ w' : World, ∃ run ∈ w'.db.runs, run.interviewRequestId = 40 ∧
    ∃ slot ∈ run.slots, ∃ e, CommitmentOf w'.db.toInterviews 40 3 e ∧ Apart 15 slot e := by
  obtain ⟨P, hP, hp⟩ := reaches_of_schedule
    (registerAll firstUsers (started samplePlatform (fun i => (bookedCalls i).1) emptyWorld))
    (A := fun _ => Blocked fun _ => True) (fun _ _ _ _ _ _ => blocked_of_notAsked)
    (steps 0 (sampleCreate 10).2 ++ steps 1 ((sampleSubmit 10 540).2.take 12) ++
      steps 2 ((sampleGenerate 10).2.take 22) ++ steps 3 ((sampleBook 10).2.take 23) ++
      steps 4 (sampleCreate 40).2 ++ steps 5 ((sampleSubmit 40 540).2.take 12))
    (p := fun P => (machine.run (fun _ _ _ _ _ => true) (handle samplePlatform (.generate 1 40))
      (sampleGenerate 40).2 {} P.shared).any fun x => storesBeside P.shared x.2.2)
    (by decide +kernel)
  obtain ⟨⟨x, s', w'⟩, hrun, hp⟩ := (Option.any_eq_true _ _).mp hp
  obtain ⟨⟨row, hrow, hbuffer⟩, ⟨e, he⟩, run, hmem, hnew, slot, hslot⟩ := of_storesBeside hp
  have hlives : Lives samplePlatform (fun _ => True)
      (started samplePlatform (fun i => (bookedCalls i).1) emptyWorld) P :=
    (lives_registered installed_emptyWorld).trans (lives_of_reaches hP)
  obtain ⟨-, hstored⟩ := commitments_honoured installed_emptyWorld hlives
  obtain ⟨hreq, row', hrow', hapart⟩ := hstored 1 40 x s' w'
    ((runs_of_run hrun).mono fun _ _ _ _ _ => trivial) run hmem hnew
  obtain rfl := Option.some.inj (hrow.symm.trans hrow')
  rw [hbuffer] at hapart
  exact ⟨w', run, hmem, hreq, slot, hslot, e, he, hapart slot hslot 3 e he⟩

end InterviewScheduler.System
