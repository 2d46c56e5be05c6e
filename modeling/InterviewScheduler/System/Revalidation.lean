import InterviewScheduler.Lifecycle.Runs
import InterviewScheduler.System.Bookable

/-! # What a booking looks at again

`book` looks again at the status of the request and at the other interviews. It looks neither at the
clock nor at the panelists' calendars: a slot is booked as it was computed, however long ago that was.
What the calendars had shown then is in the snapshot of the run. -/

namespace InterviewScheduler.System

open InterviewScheduler.Intervals InterviewScheduler.Engine InterviewScheduler.Core
open InterviewScheduler.Effects InterviewScheduler.Lifecycle InterviewScheduler.Interviews
open InterviewScheduler.Booking

variable {pf : Platform} {C : Condition Effect Choice Session World} {admits : Call → World → Prop}
  {r userId slotId : Id} {w₀ w w' : World} {slot : RecommendedSlot} {run : RecommendationRun}

/-- **The runs are as the engine has computed them, and the events are those of their slots**, after
every sequence of operations. -/
theorem runsSound_of_reaches (h₀ : Initial w₀) (h : Reaches pf Any (fun _ _ => True) w₀ w) :
    RunsSound w.db.toInterviews ∧ EventsProper w.db.toInterviews := by
  have hall : Reaches pf Any (OnDecline fun _ _ => True) w₀ w :=
    h.mono (fun _ _ _ _ => id) fun call w _ => by cases call <;> simp [OnDecline]
  refine (hall.keeps (J := fun T _ => RunsSound T ∧ EventsProper T)
    (fun ws T T' log _ hJ hstep _ => ⟨hstep.runsSound hJ.1, hstep.eventsProper hJ.1 hJ.2⟩)
    h₀.wellFormed ?_).2
  rw [h₀.tables]
  exact ⟨fun _ h => by simp at h, fun _ h => by simp at h⟩

/-- The event is still ahead, and no panelist of the request is busy at any instant of it, according to
the free/busy data. -/
def Revalidated (t : Instant) (freeBusy : Id → List TimeInterval) (T : Interviews)
    (e : InterviewEvent) : Prop :=
  t < e.startTime ∧ ∀ p ∈ T.participants e.interviewRequestId, p.roleInInterview = .panelist →
    ∀ x, e.startTime ≤ x → x < e.endTime → ∀ b ∈ freeBusy p.userId, ¬ (b.start ≤ x ∧ x < b.stop)

/-- The busy blocks of the panel when the run was computed. -/
def recordedBusy (run : RecommendationRun) : List TimeInterval :=
  (run.inputSnapshot.participants.filter fun q => q.isCandidate = false).flatMap busyOf

/-- Nothing has come up since the run was computed that meets the slot. -/
def StillFree (freeBusy : Id → List TimeInterval) (T : Interviews) (run : RecommendationRun)
    (slot : RecommendedSlot) : Prop :=
  ∀ p ∈ T.participants run.interviewRequestId, p.roleInInterview = .panelist →
    ∀ b ∈ freeBusy p.userId, b ∉ recordedBusy run → b.start < b.stop → Avoids slot b

/-- Two half-open intervals that are not empty meet in an instant. -/
theorem avoids_iff {b : TimeInterval} (hs : slot.startTime < slot.endTime) (hb : b.start < b.stop) :
    Avoids slot b ↔ ∀ x, slot.startTime ≤ x → x < slot.endTime → ¬ (b.start ≤ x ∧ x < b.stop) := by
  constructor
  · rintro h x h1 h2 ⟨h3, h4⟩
    exact h ⟨lt_of_le_of_lt h3 h2, lt_of_le_of_lt h1 h4⟩
  · rintro h ⟨h1, h2⟩
    exact h (max slot.startTime b.start) (le_max_left _ _) (max_lt hs h1)
      ⟨le_max_right _ _, max_lt h2 hb⟩

/-- What the engine has seen does not meet the slot. -/
theorem avoids_recorded (h : Sound run) (hslot : slot ∈ run.slots) {b : TimeInterval}
    (hb : b ∈ recordedBusy run) : Avoids slot b := by
  obtain ⟨q, hq, hb⟩ := List.mem_flatMap.mp hb
  obtain ⟨hq, hc⟩ := List.mem_filter.mp hq
  exact h.busy slot hslot q hq (of_decide_eq_true hc) b hb

/-- **An event that is booked is still ahead and meets no busy time exactly when its slot is still ahead
and nothing has come up since the run was computed.** -/
theorem revalidated_of_reaches (h₀ : Initial w₀) (h : Reaches pf Any (fun _ _ => True) w₀ w)
    {e : InterviewEvent} {s' : Session}
    (hr : Runs machine Any (handle pf (.book userId r slotId)) {} w (.ok (.event e)) s' w')
    (t : Instant) (freeBusy : Id → List TimeInterval) :
    ∃ slot run, slotWithRun w.db.toInterviews slotId = some (slot, run) ∧
      (Revalidated t freeBusy w.db.toInterviews e ↔
        t < slot.startTime ∧ StillFree freeBusy w.db.toInterviews run slot) := by
  obtain ⟨hclock, hT⟩ := clocked_of_reaches h₀ h
  obtain ⟨e', he', slot, run, hpassing, hreq, hstart, hend⟩ :=
    checked_of_runs hT hclock.timely hr
  obtain rfl : e = e' := by simpa using he'
  obtain ⟨hrun, hslot, -⟩ := of_slotWithRun hpassing.found
  have hsound := (runsSound_of_reaches h₀ h).1 run hrun
  have hproper := hsound.proper slot hslot
  refine ⟨slot, run, hpassing.found, ?_⟩
  rw [Revalidated, hstart, hend, hreq, StillFree, hpassing.request]
  refine and_congr_right fun _ => ⟨fun hfree p hp hrole b hb _ hlt => ?_,
    fun hfree p hp hrole x h1 h2 b hb hx => ?_⟩
  · exact (avoids_iff hproper hlt).mpr fun x h1 h2 => hfree p hp hrole x h1 h2 b hb
  · have hlt : b.start < b.stop := lt_of_le_of_lt hx.1 hx.2
    have havoids : Avoids slot b := by
      by_cases hrec : b ∈ recordedBusy run
      · exact avoids_recorded hsound hslot hrec
      · exact hfree p hp hrole b hb hrec hlt
    exact (avoids_iff hproper hlt).mp havoids x h1 h2 hx

/-! ### A sample -/

/-- The event that a call returns. -/
def eventOf : Except Exc Response → Option InterviewEvent
  | .ok (.event e) => some e
  | _ => none

theorem of_eventOf {x : Except Exc Response} {e : InterviewEvent} (h : eventOf x = some e) :
    x = .ok (.event e) := by
  unfold eventOf at h
  split at h
  · rw [Option.some.inj h]
  · simp at h

/-- A booking in Google Calendar, after a sequence. -/
theorem reaches_hosted_then (calls : List (Call × List Choice)) (call : Call × List Choice)
    {p : World → InterviewEvent → Bool}
    (h : (runCalls googlePlatform (fun _ _ _ _ _ => true) (fun _ _ => true) calls
      (connectedWorld none)).any fun w => (machine.run (fun _ _ _ _ _ => true)
        (handle googlePlatform call.1) call.2 {} w).any fun y => (eventOf y.1).any (p w)) :
    ∃ w e s' w', Reaches googlePlatform Any (fun _ _ => True) (connectedWorld none) w ∧
      Runs machine Any (handle googlePlatform call.1) {} w (.ok (.event e)) s' w' ∧ p w e := by
  obtain ⟨w, x, s', w', hw, hrun, hp⟩ := reaches_then (C := Any) (fun _ _ _ _ _ => trivial)
    (fun _ _ _ => trivial) (p := fun w x _ => (eventOf x).any (p w)) h
  obtain ⟨e, he, hp⟩ := (Option.any_eq_true _ _).mp hp
  obtain rfl := of_eventOf he
  exact ⟨w, e, s', w', hw, hrun, hp⟩

/-- The recommendations are asked for once more, after some time. -/
def hostedAgain (r : Id) (elapsed : ℕ) : Call × List Choice :=
  (.generate 1 r, [{ elapsed := elapsed }] ++ answered 10)

/-- A booking at once, while nobody is busy. -/
theorem revalidated_of_reaches_sample : ∃ w : World, ∃ slot run,
    slotWithRun w.db.toInterviews 21 = some (slot, run) ∧ w.now < slot.startTime ∧
      StillFree (fun _ => []) w.db.toInterviews run slot := by
  obtain ⟨w, e, s', w', hw, hrun, hp⟩ := reaches_hosted_then
    [sampleCreate 10, sampleSubmit 10 540, hostedGenerate 10 []] (hostedBook 10 0)
    (p := fun w e => e.provider = .google ∧ w.now < e.startTime) (by decide +kernel)
  obtain ⟨-, hahead⟩ := of_decide_eq_true hp
  obtain ⟨slot, run, hfound, hiff⟩ := revalidated_of_reaches
    (initial_connectedWorld none) hw hrun w.now fun _ => []
  exact ⟨w, slot, run, hfound, hiff.mp ⟨hahead, fun _ _ _ _ _ _ b hb => by simp at hb⟩⟩

/-- **A booking in the past.** The slot has begun when it is booked, in Google Calendar. -/
theorem book_takes_past_slot : ∃ w, ∃ e : InterviewEvent, ∃ s' w',
    Initial (connectedWorld none) ∧
    Reaches googlePlatform Any (fun _ _ => True) (connectedWorld none) w ∧
    Runs machine Any (handle googlePlatform (.book 1 10 21)) {} w (.ok (.event e)) s' w' ∧
    e.provider = .google ∧ ∀ freeBusy, ¬ Revalidated w.now freeBusy w.db.toInterviews e := by
  obtain ⟨w, e, s', w', hw, hrun, hp⟩ := reaches_hosted_then
    [sampleCreate 10, sampleSubmit 10 540, hostedGenerate 10 [], hostedAgain 10 100000000000]
    (hostedBook 10 0) (p := fun w e => e.provider = .google ∧ e.startTime < w.now) (by decide +kernel)
  obtain ⟨hgoogle, hpast⟩ := of_decide_eq_true hp
  exact ⟨w, e, s', w', initial_connectedWorld none, hw, hrun, hgoogle,
    fun freeBusy h => absurd h.1 (not_lt.mpr hpast.le)⟩

end InterviewScheduler.System
