import InterviewScheduler.System.Timeline
import InterviewScheduler.System.Phantoms

/-! # Recommended slots that can be booked

`generate` keeps the panel's other interviews out of its slots, and not the candidate's; `book` looks at
both. The slots of a run that `generate` has found, and not computed, may have been taken since. A slot
that is returned passes the checks of a booking at once afterwards exactly when the request is open and
nobody is in the way (`Bookable`). -/

namespace InterviewScheduler.System

open InterviewScheduler.Engine InterviewScheduler.Core InterviewScheduler.Effects
open InterviewScheduler.Lifecycle InterviewScheduler.Interviews
open InterviewScheduler.Booking
open InterviewScheduler.Scheduling (runToResponse Generates Delivered generates_generate)

variable {pf : Platform} {C : Condition Effect Choice Session World} {T T' : Interviews} {r userId : Id}
  {w₀ w w' : World} {slot : RecommendedSlot} {run : RecommendationRun} {β : Type}

/-! ### The route of a booking -/

theorem checked_route {P : Prop} {B : β → Prop} {f : User → M β}
    (hf : ∀ user, wp (reading T) (f user) (Checked P B) true) :
    wp (reading T) (do
      let user ← getCurrentUser userId
      adminOrOwningCandidate user r
      f user) (Checked P B) true := by
  have happ : ∀ {cls message}, cls ≠ ErrorClass.notFoundError →
      cls ≠ ErrorClass.slotNoLongerAvailableError → Exc.app cls message ∉ refusals :=
    not_mem_refusals_of_class
  refine wp_bind (wp_bind (wp_reads (o := .select _) rfl ?_ fun user _ => wp_orRaise ?_ ?_))
  · exact fun e he hmem => absurd hmem (not_mem_refusals he)
  · exact fun _ hmem => absurd hmem (happ nofun nofun)
  intro user _
  change wp _ (adminOrOwningCandidate user r >>= _) _ _
  unfold adminOrOwningCandidate
  split
  · exact wp_bind (wp_pure (hf user))
  · refine wp_bind (wp_bind (wp_reads (o := .get r) rfl ?_ fun request _ => ?_))
    · exact fun e he hmem => absurd hmem (not_mem_refusals he)
    refine wp_bind (wp_reads (o := .expunge r) rfl ?_ fun _ _ => wp_raiseIf ?_ fun _ => hf user)
    · exact fun e he hmem => absurd hmem (not_mem_refusals he)
    · exact fun _ hmem => absurd hmem (happ nofun nofun)
  · exact wp_bind (wp_throw fun hmem => absurd hmem (happ nofun nofun))

/-- **The checks of the route of a booking.** -/
theorem checked_handle_book (hT : WellFormed T) (htimely : Timely T) {slotId : Id} :
    wp (reading T) (handle pf (.book userId r slotId)) (Checked (Passes T r slotId) fun y =>
      ∃ e, y = .event e ∧ ∃ slot run, Passing T r slotId slot run ∧ AtSlot r slot e) true := by
  refine checked_route fun user => wp_map (wp_mono (checked_book hT htimely) ?_)
  rintro (e | event) v h
  · exact h
  · exact ⟨event, rfl, h⟩

/-- A session that has loaded nothing sees the tables as they are. -/
theorem seesTables_fresh (w : World) : SeesTables w.db.toInterviews true {} w :=
  fun _ => ⟨rfl, by simp⟩

/-- What the checks say of a run. -/
theorem checked_of_runs (hT : WellFormed w.db.toInterviews) (htimely : Timely w.db.toInterviews)
    {slotId : Id} {x : Except Exc Response} {s' : Session}
    (hr : Runs machine C (handle pf (.book userId r slotId)) {} w x s' w') :
    Checked (Passes w.db.toInterviews r slotId) (fun y => ∃ e, y = .event e ∧ ∃ slot run,
      Passing w.db.toInterviews r slotId slot run ∧ AtSlot r slot e) x true := by
  obtain ⟨⟨v, hx, -⟩, -⟩ := Runs.sound (faithful_reading _ C) (I := fun _ _ => True)
    (fun _ _ _ _ _ _ _ _ _ _ _ _ _ => trivial) hr (seesTables_fresh w)
    (checked_handle_book hT htimely) trivial
  exact hx.any

/-! ### What a generation delivers -/

theorem delivers_handle {P : Interviews → Id → Prop} :
    wp (lifecycle True (fun _ _ => True) P) (handle pf (.generate userId r)) (fun x v =>
      ∀ out, x = .ok out → ∃ run, out = .recommendations (runToResponse run) ∧
        Delivered True r run {} T v) ({}, T) := by
  refine wp_route fresh_empty (fun e _ _ out hout => by simp at hout) fun user s₁ h₁ => wp_map ?_
  refine wp_mono (generates_generate h₁.toCalm (by simp [h₁.copies]) trivial trivial) ?_
  rintro (e | res) v hv out hout
  · simp [Except.map] at hout
  · obtain ⟨-, run, rfl, hrun⟩ := hv
    refine ⟨run, (Except.ok.inj hout).symm, ?_⟩
    cases hrun with
    | stored hj hr hT hrow hst hsuits =>
      exact .stored (by rw [hj, h₁.journal]) hr hT hrow hst hsuits
    | found hT h => exact .found hT h

/-- The run that a call returns, in the tables before and after it. -/
inductive Returned (T : Interviews) (r : Id) (run : RecommendationRun) (T' : Interviews) : Prop
  /-- it was computed, for a request that was ready -/
  | computed {row : InterviewRequest} (hrow : T.requests r = some row)
      (hst : row.status = .readyForScheduling) (hrun : run.interviewRequestId = r)
      (hproposed : Proposed T run)
      (hT : T' = Write.force [.insertRun run, .setStatus r .recommended] T)
  /-- it was there -/
  | found {row : InterviewRequest} (hrow : T.requests r = some row)
      (hst : row.status = .recommended ∨ row.status = .booked ∨ row.status = .completed)
      (hlatest : IsLatest T run) (hrun : run.interviewRequestId = r) (hT : T' = T)

theorem returned_of_runs (hT : WellFormed w.db.toInterviews) {out : Response} {s' : Session}
    (hr : Runs machine C (handle pf (.generate userId r)) {} w (.ok out) s' w') :
    ∃ run, out = .recommendations (runToResponse run) ∧
      Returned w.db.toInterviews r run w'.db.toInterviews := by
  obtain ⟨⟨v, hv, hsees⟩, -⟩ := Runs.sound (faithful_alone _ _ C) (I := fun _ _ => True)
    (fun _ _ _ _ _ _ _ _ _ _ _ _ _ => trivial) hr rfl
    (delivers_handle (P := fun _ _ => True) (T := w.db.toInterviews)) trivial
  obtain ⟨run, hout, hrun⟩ := hv out rfl
  refine ⟨run, hout, ?_⟩
  subst hsees
  cases hrun with
  | stored _ hreq hT' hrow hst hsuits =>
    exact .computed (hrow trivial) hst hreq (hsuits trivial hT) hT'
  | found hT' h =>
    obtain ⟨row, hrow, hst⟩ := h.row trivial
    obtain ⟨pick, hlatest⟩ := h.latest trivial
    dsimp only at hT' hrow hlatest
    rcases hT' with hT' | hT'
    · rw [hT'] at hrow hlatest
      obtain ⟨htop, hreq⟩ := of_latestRun hlatest
      exact .found hrow hst htop hreq hT'
    · -- a generation that fails leaves no run to be found
      rw [hT'] at hrow
      obtain ⟨row₀, -, rfl⟩ : ∃ row₀, w.db.requests r = some row₀ ∧
          { row₀ with status := .failed } = row := by
        simpa [Write.apply] using hrow
      simp at hst

/-! ### When a slot can be booked -/

/-- The request is open, and nobody is in the way of the slot: for a run that is computed, it is the
candidate who must be free. -/
structure Bookable (T : Interviews) (r : Id) (slot : RecommendedSlot) : Prop where
  unbooked : ¬ Confirmed T r
  free : ∃ row, T.requests r = some row ∧
    ((row.status = .readyForScheduling ∧ ∀ p ∈ T.participants r, p.roleInInterview = .candidate →
      FreeAt T r p.userId slot.startTime slot.endTime) ∨
    (row.status = .recommended ∧ ∀ p ∈ T.participants r,
      FreeAt T r p.userId slot.startTime slot.endTime))

theorem find_confirmedFor_eq_none :
    T.events.find? (fun e => e.ConfirmedFor r) = none ↔ ¬ Confirmed T r := by
  rw [List.find?_eq_none, Confirmed]
  simp

/-- The check for conflicts finds nothing when everyone who takes part is free. -/
theorem confirmedFor_eq_nil (hT : WellFormed T) {tmin tmax : Instant} :
    confirmedFor T ((partsOf T r).map (·.2.id)) r tmin tmax = [] ↔
      ∀ p ∈ T.participants r, FreeAt T r p.userId tmin tmax := by
  constructor
  · intro hnil p hp e he hc hne ⟨q, hq, hqu⟩ ⟨h1, h2⟩
    have h := List.flatMap_eq_nil_iff.mp hnil e he
    rw [if_pos ⟨hc, hne, h1, h2⟩, List.map_eq_nil_iff, List.filter_eq_nil_iff] at h
    obtain ⟨x, hx, hxid⟩ := mem_partsOf hT ⟨p, hp, rfl⟩
    refine h q hq (decide_eq_true (List.mem_map.mpr ⟨x, hx, ?_⟩))
    rw [hxid, hqu]
  · intro hfree
    refine List.flatMap_eq_nil_iff.mpr fun e he => ?_
    split
    · next hcond =>
      obtain ⟨hc, hne, h1, h2⟩ := hcond
      rw [List.map_eq_nil_iff, List.filter_eq_nil_iff]
      intro q hq hmem
      obtain ⟨x, hx, hxid⟩ := List.mem_map.mp (of_decide_eq_true hmem)
      obtain ⟨p, hp, hjoin⟩ := List.mem_filterMap.mp hx
      obtain ⟨user, huser, rfl⟩ := Option.map_eq_some_iff.mp hjoin
      have hid : p.userId = q.userId := by rw [← hxid, hT.user_id _ _ huser]
      exact hfree p hp e he hc hne ⟨q, hq, hid.symm⟩ ⟨h1, h2⟩
    · rfl

/-- A slot is found in its run. -/
theorem slotWithRun_of_mem (hT : WellFormed T) (hrun : run ∈ T.runs) (hslot : slot ∈ run.slots) :
    slotWithRun T slot.id = some (slot, run) := by
  cases hfound : slotWithRun T slot.id with
  | none =>
    have hnone := List.findSome?_eq_none_iff.mp hfound run hrun
    rw [Option.map_eq_none_iff, List.find?_eq_none] at hnone
    exact absurd (decide_eq_true rfl) (hnone slot hslot)
  | some y =>
    obtain ⟨slot', run'⟩ := y
    obtain ⟨hrun', hslot', hid⟩ := of_slotWithRun hfound
    obtain ⟨rfl, rfl⟩ := hT.runs.slot run' hrun' run hrun slot' hslot' slot hslot hid
    rfl

/-- What the checks ask for, of a slot of the latest run. -/
theorem passes_iff_of_latest (hT : WellFormed T) (hlatest : IsLatest T run)
    (hr : run.interviewRequestId = r) (hslot : slot ∈ run.slots) :
    Passes T r slot.id ↔ (∃ row, T.requests r = some row ∧ row.status = .recommended) ∧
      ¬ Confirmed T r ∧ ∀ p ∈ T.participants r, FreeAt T r p.userId slot.startTime slot.endTime := by
  have hfound := slotWithRun_of_mem hT hlatest.1 hslot
  rw [passes_iff hfound, ← find_confirmedFor_eq_none, ← confirmedFor_eq_nil hT]
  constructor
  · intro h
    exact ⟨h.recommended, h.unbooked, h.unclashed⟩
  · rintro ⟨hst, hnone, hclash⟩
    exact ⟨hfound, hr, hlatest, hst, hnone, hclash⟩

/-- **A slot that is returned passes the checks exactly when it is bookable.** -/
theorem passes_iff_of_returned (hT : WellFormed T) (hT' : WellFormed T') (htimely : Timely T')
    (h : Returned T r run T') (hslot : slot ∈ run.slots) :
    Passes T' r slot.id ↔ Bookable T r slot := by
  cases h with
  | @computed row hrow hst hr hproposed htables =>
    subst hr
    have hruns : T'.runs = T.runs ++ [run] := by rw [htables]; rfl
    have hevents : T'.events = T.events := by rw [htables]; rfl
    have hparts : T'.participants = T.participants := by rw [htables]; rfl
    have hlatest : IsLatest T' run := by
      refine ⟨by simp [hruns], fun run' hrun' _ => ?_⟩
      rw [Timely, hruns, List.pairwise_append] at htimely
      rw [hruns] at hrun'
      rcases List.mem_append.mp hrun' with hrun' | hrun'
      · exact (htimely.2.2 run' hrun' run (List.mem_singleton_self run)).le
      · rw [List.mem_singleton.mp hrun']
    have hfree : ∀ p, FreeAt T' run.interviewRequestId p slot.startTime slot.endTime ↔
        FreeAt T run.interviewRequestId p slot.startTime slot.endTime := by
      intro p
      simp only [FreeAt, TakesPart, hevents, hparts]
    rw [passes_iff_of_latest hT' hlatest rfl hslot, Confirmed, hevents, hparts]
    simp only [hfree]
    constructor
    · rintro ⟨-, hnone, hall⟩
      exact ⟨hnone, row, hrow, .inl ⟨hst, fun p hp _ => hall p hp⟩⟩
    · rintro ⟨hnone, row', hrow', hcase⟩
      rw [hrow, Option.some.injEq] at hrow'
      subst hrow'
      refine ⟨⟨{ row with status := .recommended }, ?_, rfl⟩, hnone, fun p hp => ?_⟩
      · rw [htables]
        simp [Write.apply, hrow]
      rcases hcase with ⟨-, hcand⟩ | ⟨hrec, -⟩
      · -- the engine has looked at the panel, and the condition is about the candidate
        cases hrole : p.roleInInterview with
        | candidate => exact hcand p hp hrole
        | panelist => exact hproposed.free slot hslot p hp hrole
      · rw [hst] at hrec
        simp at hrec
  | @found row hrow hst hlatest hr htables =>
    subst htables
    rw [passes_iff_of_latest hT hlatest hr hslot]
    constructor
    · rintro ⟨⟨row', hrow', hrec⟩, hnone, hall⟩
      exact ⟨hnone, row', hrow', .inr ⟨hrec, hall⟩⟩
    · rintro ⟨hnone, row', hrow', hcase⟩
      rw [hrow, Option.some.injEq] at hrow'
      subst hrow'
      rcases hcase with ⟨hready, -⟩ | ⟨hrec, hall⟩
      · rw [hready] at hst
        simp at hst
      · exact ⟨⟨row, hrow, hrec⟩, hnone, hall⟩

theorem mem_of_mem_runToResponse (h : slot ∈ (runToResponse run).slots) : slot ∈ run.slots :=
  (List.perm_insertionSort _ run.slots).mem_iff.mp h

/-- **A recommended slot can be booked exactly when it is bookable.** The slots are those of a call of
`generate` after any sequence of operations, and the booking is the next call. -/
theorem bookable_of_reaches (h₀ : Initial w₀) (h : Reaches pf Any (fun _ _ => True) w₀ w)
    {out : Scheduling.RecommendationResponse} {s' : Session}
    (hr : Runs machine Any (handle pf (.generate userId r)) {} w (.ok (.recommendations out)) s' w')
    (hslot : slot ∈ out.slots) :
    (Passes w'.db.toInterviews r slot.id ↔ Bookable w.db.toInterviews r slot) ∧
      ∀ bookerId x s'' w'', Runs machine Any (handle pf (.book bookerId r slot.id)) {} w' x s'' w'' →
        (∀ e, x = .error e → e ∈ refusals → ¬ Bookable w.db.toInterviews r slot) ∧
        ∀ y, x = .ok y → Bookable w.db.toInterviews r slot := by
  obtain ⟨hclock, hT⟩ := clocked_of_reaches h₀ h
  obtain ⟨hclock', hT'⟩ := hclock.call hT hr
  obtain ⟨run, hout, hreturned⟩ := returned_of_runs hT hr
  obtain rfl : out = runToResponse run := by simpa using hout
  have hiff := passes_iff_of_returned hT hT' hclock'.timely hreturned (mem_of_mem_runToResponse hslot)
  refine ⟨hiff, fun bookerId x s'' w'' hbook => ?_⟩
  have hchecked := checked_of_runs hT' hclock'.timely hbook
  rw [← hiff]
  constructor
  · rintro e rfl
    exact hchecked
  · rintro y rfl
    obtain ⟨-, -, slot', run', hpassing, -⟩ := hchecked
    exact ⟨slot', run', hpassing⟩

/-! ### A sample -/

/-- A second panelist. -/
def moreUsers : Id → Option User := fun u =>
  if u = 4 then some { id := 4, email := "second@example.com", role := .panelist } else sampleUsers u

def largerWorld : World := { db := { users := moreUsers } }

theorem initial_largerWorld : Initial largerWorld where
  user_id u user h := by
    change moreUsers u = some user at h
    unfold moreUsers at h
    split at h
    · next hu =>
      obtain rfl := Option.some.inj h
      exact hu.symm
    · exact initial_sampleWorld.user_id u user h
  tables := rfl
  log := rfl

/-- An interview of the same candidate with the second panelist. -/
def secondCreate (r : Id) : Call × List Choice :=
  (.createRequest 1
    { candidateId := 2, roundType := .technical, durationMinutes := 45, bufferMinutes := 20
      panelistIds := [4]
      duration_pos := by decide, buffer_nonneg := by decide, panelistIds_nodup := by decide
      candidate_not_panelist := by decide },
    answered 2 ++ [pick r] ++ answered 5)

/-- The response offers a slot with the id. -/
def offers (slotId : Id) : Except Exc Response → Bool
  | .ok (.recommendations out) => out.slots.any fun slot => slot.id = slotId
  | _ => false

theorem of_offers {slotId : Id} {x : Except Exc Response} (h : offers slotId x) :
    ∃ out slot, x = .ok (.recommendations out) ∧ slot ∈ out.slots ∧ slot.id = slotId := by
  unfold offers at h
  split at h
  · next out =>
    obtain ⟨slot, hslot, hid⟩ := List.any_eq_true.mp h
    exact ⟨out, slot, rfl, hslot, of_decide_eq_true hid⟩
  · simp at h

/-- The error of a call. -/
def failsWith (e : Exc) : Except Exc Response → Bool
  | .error e' => e = e'
  | .ok _ => false

theorem of_failsWith {e : Exc} {x : Except Exc Response} (h : failsWith e x) : x = .error e := by
  cases x with
  | error e' => rw [show e = e' from of_decide_eq_true h]
  | ok y => simp [failsWith] at h

/-- A sequence, then a call of `generate`, then another call. -/
theorem reaches_then_then (calls : List (Call × List Choice)) (slotId : Id)
    (first second : Call × List Choice) {p : Except Exc Response → Bool}
    (h : (runCalls samplePlatform (fun _ _ _ _ _ => true) (fun _ _ => true) calls largerWorld).any
      fun w => (machine.run (fun _ _ _ _ _ => true) (handle samplePlatform first.1) first.2 {} w).any
        fun y => offers slotId y.1 && (machine.run (fun _ _ _ _ _ => true)
          (handle samplePlatform second.1) second.2 {} y.2.2).any fun z => p z.1) :
    ∃ w s' w' out slot x s'' w'', Reaches samplePlatform Any (fun _ _ => True) largerWorld w ∧
      Runs machine Any (handle samplePlatform first.1) {} w (.ok (.recommendations out)) s' w' ∧
      slot ∈ out.slots ∧ slot.id = slotId ∧
      Runs machine Any (handle samplePlatform second.1) {} w' x s'' w'' ∧ p x := by
  obtain ⟨w, x, s', w', hw, hgen, hp⟩ := reaches_then (C := Any) (fun _ _ _ _ _ => trivial)
    (fun _ _ _ => trivial) (p := fun _ x w' => offers slotId x && (machine.run (fun _ _ _ _ _ => true)
      (handle samplePlatform second.1) second.2 {} w').any fun z => p z.1) h
  obtain ⟨hoffers, hbook⟩ := Bool.and_eq_true_iff.mp hp
  obtain ⟨out, slot, rfl, hslot, hid⟩ := of_offers hoffers
  obtain ⟨⟨z, s'', w''⟩, hz, hp⟩ := (Option.any_eq_true _ _).mp hbook
  exact ⟨w, s', w', out, slot, z, s'', w'', hw, hgen, hslot, hid,
    (runs_of_run hz).mono fun _ _ _ _ _ => trivial, hp⟩

/-- A slot that is booked at once. -/
theorem bookable_of_reaches_sample : ∃ w : World, ∃ slot : RecommendedSlot, slot.id = 21 ∧
    Bookable w.db.toInterviews 10 slot := by
  obtain ⟨w, s', w', out, slot, x, s'', w'', hw, hgen, hslot, hid, hbook, hp⟩ := reaches_then_then
    [sampleCreate 10, sampleSubmit 10 540] 21 (sampleGenerate 10) (sampleBook 10)
    (p := fun x => x.toOption.isSome) (by decide +kernel)
  obtain ⟨-, hnext⟩ := bookable_of_reaches initial_largerWorld hw hgen hslot
  cases x with
  | error e => simp [Except.toOption] at hp
  | ok y =>
    change Runs machine Any (handle samplePlatform (.book 1 10 21)) {} w' _ s'' w'' at hbook
    rw [← hid] at hbook
    exact ⟨w, slot, hid, (hnext 1 _ s'' w'' hbook).2 y rfl⟩

/-- **A recommended slot that cannot be booked.** The candidate is booked at that time, with another
panelist. -/
theorem generate_offers_taken_slot : ∃ w s' w' out, ∃ slot : RecommendedSlot, ∃ s'' w'',
    Initial largerWorld ∧ Reaches samplePlatform Any (fun _ _ => True) largerWorld w ∧
    Runs machine Any (handle samplePlatform (.generate 1 40)) {} w (.ok (.recommendations out)) s' w' ∧
    slot ∈ out.slots ∧ ¬ Passes w'.db.toInterviews 40 slot.id ∧
    Runs machine Any (handle samplePlatform (.book 1 40 slot.id)) {} w' (.error (slotNoLongerAvailable
      "a participant is already booked for another interview at this time")) s'' w'' := by
  obtain ⟨w, s', w', out, slot, x, s'', w'', hw, hgen, hslot, hid, hbook, hp⟩ := reaches_then_then
    (sampleBooked 10 540 ++ [secondCreate 40, sampleSubmit 40 540]) 51 (sampleGenerate 40)
    (.book 1 40 51, answered 4 ++ [pick 43] ++ answered 10) (p := failsWith (slotNoLongerAvailable
      "a participant is already booked for another interview at this time")) (by decide +kernel)
  obtain rfl := of_failsWith hp
  change Runs machine Any (handle samplePlatform (.book 1 40 51)) {} w' _ s'' w'' at hbook
  rw [← hid] at hbook
  obtain ⟨hclock, hT⟩ := clocked_of_reaches initial_largerWorld hw
  obtain ⟨hclock', hT'⟩ := hclock.call hT hgen
  refine ⟨w, s', w', out, slot, s'', w'', initial_largerWorld, hw, hgen, hslot, ?_, hbook⟩
  exact checked_of_runs hT' hclock'.timely hbook (by simp [refusals])

end InterviewScheduler.System
