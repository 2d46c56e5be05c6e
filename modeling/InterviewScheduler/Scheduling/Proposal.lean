import InterviewScheduler.Engine.Guarantees
import InterviewScheduler.Lifecycle.Invariants
import InterviewScheduler.Scheduling.Service

/-! # What a generated run proposes

From the engine's guarantees to the rows of a run: the slots meet no busy block of the snapshot and no
CONFIRMED interview of a panelist on another request. The candidate's other interviews are not in the
input. The input has no existing bookings either, so that the workload factor of every slot is 1. -/

namespace InterviewScheduler.Scheduling

open InterviewScheduler.Intervals InterviewScheduler.Engine InterviewScheduler.Core
open InterviewScheduler.Lifecycle
open InterviewScheduler.Booking (Part Parts partsOf confirmedFor)

variable {db : ZoneDatabase} {inp : EngineInput} {res : EngineResult} {s : ScoredSlot}

/-! ### One slot of the engine -/

theorem slot_proper (h : generateRecommendations db inp = .ok res) (hs : s ∈ res.slots) :
    s.startTime < s.endTime := by
  have hacc := (generateRecommendations_eq_ok.mp h).1
  obtain ⟨-, -, -, hend, -⟩ := exists_grid_of_mem_slots h hs
  have hpos := hacc.duration_pos
  rw [hend]
  unfold minutes
  lia

/-- The times of a slot are in the common free set. -/
theorem slot_subset (h : generateRecommendations db inp = .ok res) (hs : s ∈ res.slots) {t : Instant}
    (h1 : s.startTime ≤ t) (h2 : t < s.endTime) : t ∈ commonFreeSet db inp := by
  have hacc := (generateRecommendations_eq_ok.mp h).1
  have hbuf : 0 ≤ minutes inp.constraints.bufferMinutes := by
    have := hacc.buffer_nonneg
    unfold minutes
    lia
  refine slot_subset_commonFreeSet h hs ⟨?_, ?_⟩
  · lia
  · lia

/-- A slot meets no busy block of a panelist. -/
theorem slot_avoids (h : generateRecommendations db inp = .ok res) (hs : s ∈ res.slots)
    {p : Participant} (hp : p ∈ inp.participants) (hc : p.isCandidate = false) {b : TimeInterval}
    (hb : b ∈ busyOf p) : ¬ (b.start < s.endTime ∧ s.startTime < b.stop) := by
  rintro ⟨h1, h2⟩
  have hacc := (generateRecommendations_eq_ok.mp h).1
  have hproper := hacc.busyOf_proper hp b hb
  have hslot := slot_proper h hs
  -- the later of the two starts is a common point
  have hfree := slot_subset h hs (le_max_left s.startTime b.start) (max_lt hslot h1)
  exact hfree.2.2 p hp hc ⟨b, hb, le_max_right _ _, max_lt h2 hproper⟩

theorem slot_workload (h : generateRecommendations db inp = .ok res) (hs : s ∈ res.slots)
    (hnone : inp.existingBookings = fun _ => []) : s.scoreBreakdown.workloadBalance = 1 := by
  obtain ⟨iv, -, -, -, total, hscore⟩ := exists_grid_of_mem_slots h hs
  unfold score at hscore
  obtain ⟨x₁, -, hscore⟩ := Util.bind_eq_ok.mp hscore
  obtain ⟨x₂, -, hscore⟩ := Util.bind_eq_ok.mp hscore
  obtain ⟨x₃, -, hscore⟩ := Util.bind_eq_ok.mp hscore
  obtain ⟨x₄, hload, hscore⟩ := Util.bind_eq_ok.mp hscore
  obtain ⟨x₅, -, hscore⟩ := Util.bind_eq_ok.mp hscore
  rw [hnone] at hload
  obtain ⟨heq, -⟩ := Prod.mk.inj (Util.pure_eq_ok.mp hscore)
  rw [← heq]
  exact workloadBalance_of_none hload

/-! ### The windows -/

theorem foldl_min_le (l : List AvailabilityWindow) (x : Instant) :
    l.foldl (fun t v => min t v.startTime) x ≤ x ∧
      ∀ w ∈ l, l.foldl (fun t v => min t v.startTime) x ≤ w.startTime := by
  induction l generalizing x with
  | nil => simp
  | cons v l ih =>
    obtain ⟨h1, h2⟩ := ih (min x v.startTime)
    refine ⟨h1.trans (min_le_left _ _), fun w hw => ?_⟩
    rcases List.mem_cons.mp hw with rfl | hw
    · exact h1.trans (min_le_right _ _)
    · exact h2 w hw

theorem le_foldl_max (l : List AvailabilityWindow) (x : Instant) :
    x ≤ l.foldl (fun t v => max t v.endTime) x ∧
      ∀ w ∈ l, w.endTime ≤ l.foldl (fun t v => max t v.endTime) x := by
  induction l generalizing x with
  | nil => simp
  | cons v l ih =>
    obtain ⟨h1, h2⟩ := ih (max x v.endTime)
    refine ⟨(le_max_left _ _).trans h1, fun w hw => ?_⟩
    rcases List.mem_cons.mp hw with rfl | hw
    · exact (le_max_right _ _).trans h1
    · exact h2 w hw

theorem timeMin_le {windows : List AvailabilityWindow} {w : AvailabilityWindow} (hw : w ∈ windows) :
    timeMin windows ≤ w.startTime := by
  cases windows with
  | nil => simp at hw
  | cons v l =>
    obtain ⟨h1, h2⟩ := foldl_min_le l v.startTime
    rcases List.mem_cons.mp hw with rfl | hw
    · exact h1
    · exact h2 w hw

theorem le_timeMax {windows : List AvailabilityWindow} {w : AvailabilityWindow} (hw : w ∈ windows) :
    w.endTime ≤ timeMax windows := by
  cases windows with
  | nil => simp at hw
  | cons v l =>
    obtain ⟨h1, h2⟩ := le_foldl_max l v.endTime
    rcases List.mem_cons.mp hw with rfl | hw
    · exact h1
    · exact h2 w hw

section Input

variable {request : InterviewRequest} {avail : CandidateAvailability} {panelists : Parts}
  {ref : Instant} {windows : List AvailabilityWindow} {busy : Id → List BusyInterval}

/-- What the candidate offers lies between the first start and the last end. -/
theorem of_mem_candidateSet {t : Instant}
    (h : t ∈ candidateSet (engineInput request avail panelists ref windows busy)) :
    timeMin windows ≤ t ∧ t < timeMax windows := by
  obtain ⟨i, hi, h1, h2⟩ := h
  obtain ⟨v, hv, rfl⟩ := List.mem_map.mp hi
  obtain ⟨w, hw, rfl⟩ := List.mem_map.mp hv
  exact ⟨(timeMin_le hw).trans h1, lt_of_lt_of_le h2 (le_timeMax hw)⟩

/-! ### The run -/

variable {T : Interviews} {busyByUser : List (Id × List BusyInterval)} {pick pick' : ℕ}

/-- An interview of a panelist that meets the windows is in the panelist's busy blocks. -/
theorem mem_withInternal {users : List Id} {r u : Id} {tmin tmax : Instant} {e : InterviewEvent}
    (he : e ∈ T.events) (hc : e.status = .confirmed) (hne : e.interviewRequestId ≠ r)
    (hu : TakesPart T u e.interviewRequestId) (husers : u ∈ users) (h1 : e.startTime < tmax)
    (h2 : tmin < e.endTime) :
    (⟨.aware e.startTime, .aware e.endTime⟩ : BusyInterval) ∈
      withInternal busyByUser (inSomeOrder pick (confirmedFor T users r tmin tmax)) u := by
  have hentry : (u, e.startTime, e.endTime) ∈ confirmedFor T users r tmin tmax := by
    obtain ⟨p, hp, rfl⟩ := hu
    refine List.mem_flatMap.mpr ⟨e, he, ?_⟩
    rw [if_pos ⟨hc, hne, h1, h2⟩]
    exact List.mem_map.mpr ⟨p, List.mem_filter.mpr ⟨hp, by simpa using husers⟩, rfl⟩
  have hmem := (inSomeOrder_perm pick _).mem_iff.mpr hentry
  refine List.mem_append_right _ (List.mem_map.mpr ⟨_, List.mem_filter.mpr ⟨hmem, ?_⟩, rfl⟩)
  simp

/-- **A run that the engine has filled proposes slots that suit the panel.** -/
theorem proposed_of_engine (hT : WellFormed T) {r : Id} {run : RecommendationRun}
    (hpanel : panelists = (inSomeOrder pick (partsOf T r)).filter Part.isPanelist)
    (hne : panelists ≠ [])
    (hbusy : busy = withInternal busyByUser (inSomeOrder pick' (confirmedFor T
      (panelists.map (·.2.id)) r (timeMin windows) (timeMax windows))))
    (hinp : inp = engineInput request avail panelists ref windows busy)
    (hres : generateRecommendations db inp = .ok res) (hr : run.interviewRequestId = r)
    {simulated : Bool} (hsnap : run.inputSnapshot = snapshot inp simulated)
    (hslots : ∀ slot ∈ run.slots, ∃ s ∈ res.slots, slot.startTime = s.startTime ∧
      slot.endTime = s.endTime ∧ slot.scoreBreakdown = s.scoreBreakdown) : Proposed T run where
  panel := by
    obtain ⟨p, hp⟩ := List.exists_mem_of_ne_nil _ hne
    rw [hpanel] at hp
    obtain ⟨hp, hrole⟩ := List.mem_filter.mp hp
    obtain ⟨q, hq, hjoin⟩ := List.mem_filterMap.mp ((inSomeOrder_perm _ _).mem_iff.mp hp)
    obtain ⟨user, -, rfl⟩ := Option.map_eq_some_iff.mp hjoin
    rw [hr]
    exact ⟨q, hq, by simpa [Part.isPanelist] using hrole⟩
  proper slot hslot := by
    obtain ⟨s, hs, hstart, hend, -⟩ := hslots slot hslot
    rw [hstart, hend]
    exact slot_proper hres hs
  busy slot hslot q hq hcand b hb := by
    obtain ⟨s, hs, hstart, hend, -⟩ := hslots slot hslot
    rw [hsnap] at hq
    rw [Avoids, hstart, hend]
    exact slot_avoids hres hs hq hcand hb
  free slot hslot p hp hrole e he hc hneq hu := by
    obtain ⟨s, hs, hstart, hend, -⟩ := hslots slot hslot
    rw [hr] at hp hneq
    rintro ⟨h1, h2⟩
    rw [hend] at h1
    rw [hstart] at h2
    -- the panelist is in the input, with the interview among the busy blocks
    obtain ⟨user, huser⟩ := Option.ne_none_iff_exists'.mp (hT.participant_user r p hp)
    have hid : user.id = p.userId := hT.user_id _ _ huser
    have hpart : (p, user) ∈ panelists := by
      rw [hpanel]
      refine List.mem_filter.mpr ⟨(inSomeOrder_perm _ _).mem_iff.mpr ?_, ?_⟩
      · exact List.mem_filterMap.mpr ⟨p, hp, by simp [huser]⟩
      · simpa [Part.isPanelist] using hrole
    have hslot := slot_proper hres hs
    have hfirst := slot_subset hres hs le_rfl hslot
    have hlast := slot_subset hres hs (t := s.endTime - 1) (by lia) (by lia)
    rw [hinp] at hfirst hlast
    have hmin := (of_mem_candidateSet hfirst.1).1
    have hmax := (of_mem_candidateSet hlast.1).2
    have hin : (⟨.aware e.startTime, .aware e.endTime⟩ : BusyInterval) ∈ busy user.id := by
      rw [hbusy]
      refine mem_withInternal he hc hneq (by rwa [hid]) ?_ (by lia) (by lia)
      exact List.mem_map.mpr ⟨_, hpart, rfl⟩
    refine slot_avoids hres hs (p := { participantId := toString user.id, timezone := _, busy := _ })
      (by rw [hinp]; exact List.mem_cons_of_mem _ (List.mem_map.mpr ⟨_, hpart, rfl⟩)) rfl
      (List.mem_map.mpr ⟨_, hin, rfl⟩) ⟨h1, h2⟩
  workload slot hslot := by
    obtain ⟨s, hs, -, -, hbreak⟩ := hslots slot hslot
    rw [hbreak]
    exact slot_workload hres hs (by rw [hinp]; rfl)

end Input

end InterviewScheduler.Scheduling
