import InterviewScheduler.System.Revalidation

/-! # The balance of the workload

The engine balances the workload by the bookings that it is given, and the service gives it none: the
factor of every slot that is stored is 1. That is the average over the panel that it should be exactly
when no panelist has another interview on the day of the slot. -/

namespace InterviewScheduler.System

open InterviewScheduler.Engine InterviewScheduler.Core InterviewScheduler.Effects
open InterviewScheduler.Lifecycle InterviewScheduler.Interviews

variable {pf : Platform} {r : Id} {w₀ w w' : World} {slot : RecommendedSlot} {run : RecommendationRun}

/-! ### What the factor should be -/

/-- The zone in which a user's days are counted. -/
def zoneOf (pf : Platform) (T : Interviews) (userId : Id) : Zone :=
  pf.zones.zone (((T.users userId).map (·.timezone)).elim "UTC" fun tz => if tz = "" then "UTC" else tz)

/-- The user's CONFIRMED interviews on other requests that start on the local day of the slot. -/
def sameDay (pf : Platform) (T : Interviews) (r userId : Id) (slotStart : Instant) :
    List InterviewEvent :=
  T.events.filter fun e => e.status = .confirmed ∧ e.interviewRequestId ≠ r ∧
    ((T.participants e.interviewRequestId).any fun p => p.userId = userId) ∧
    (zoneOf pf T userId).localDate e.startTime = (zoneOf pf T userId).localDate slotStart

/-- The panelists of a request. -/
def panelOf (T : Interviews) (r : Id) : List Id :=
  ((T.participants r).filter fun p => p.roleInInterview = .panelist).map (·.userId)

/-- The share of a panelist with `n` other interviews. -/
def share (n : ℕ) : ℚ := 1 / (1 + n)

def averageShare (ns : List ℕ) : ℚ := (ns.map share).sum / ns.length

/-- The factor, with the other interviews of the panel. -/
def balancedLoad (pf : Platform) (T : Interviews) (r : Id) (slotStart : Instant) : ℚ :=
  averageShare ((panelOf T r).map fun u => (sameDay pf T r u slotStart).length)

theorem share_le_one (n : ℕ) : share n ≤ 1 := by
  have hn : (0 : ℚ) ≤ n := Nat.cast_nonneg n
  rw [share, div_le_one (by linarith)]
  linarith

theorem share_eq_one {n : ℕ} : share n = 1 ↔ n = 0 := by
  have hn : (0 : ℚ) ≤ n := Nat.cast_nonneg n
  rw [share, div_eq_one_iff_eq (by linarith)]
  constructor
  · intro h
    have hzero : (n : ℚ) = 0 := by linarith
    exact_mod_cast hzero
  · rintro rfl
    simp

/-- The shares are at most 1, and so is their sum at most their number. -/
theorem sum_share (ns : List ℕ) : (ns.map share).sum ≤ ns.length ∧
    ((ns.map share).sum = ns.length ↔ ∀ n ∈ ns, n = 0) := by
  induction ns with
  | nil => simp
  | cons n ns ih =>
    obtain ⟨hle, hiff⟩ := ih
    have hshare := share_le_one n
    simp only [List.map_cons, List.sum_cons, List.length_cons, List.forall_mem_cons]
    push_cast
    refine ⟨by linarith, fun h => ⟨share_eq_one.mp (by linarith), hiff.mp (by linarith)⟩, ?_⟩
    rintro ⟨rfl, hall⟩
    rw [hiff.mpr hall, share_eq_one.mpr rfl, add_comm]

/-- **The average is 1 exactly when all numbers are 0.** -/
theorem averageShare_eq_one {ns : List ℕ} (hne : ns ≠ []) : averageShare ns = 1 ↔ ∀ n ∈ ns, n = 0 := by
  have hpos : (ns.length : ℚ) ≠ 0 := by
    simpa using hne
  rw [averageShare, div_eq_one_iff_eq hpos, (sum_share ns).2]

/-! ### What it is -/

theorem runsStaffed_of_reaches (h₀ : Initial w₀) (h : Reaches pf Any (fun _ _ => True) w₀ w) :
    RunsStaffed w.db.toInterviews := by
  have hall : Reaches pf Any (OnDecline fun _ _ => True) w₀ w :=
    h.mono (fun _ _ _ _ => id) fun call w _ => by cases call <;> simp [OnDecline]
  refine (hall.keeps (J := fun T _ => RunsStaffed T)
    (fun ws T T' log hT hR hstep _ => hstep.runsStaffed hT hR) h₀.wellFormed ?_).2
  rw [h₀.tables]
  exact fun _ h => by simp at h

/-- **The workload factor of a stored slot is the average of the panel exactly when no panelist has another
interview on that day.** The slot is one of a run that is stored by the last call. -/
theorem balanced_of_reaches (h₀ : Initial w₀) (h : Reaches pf Any (fun _ _ => True) w₀ w)
    {call : Call} {x : Except Exc Response} {s' : Session}
    (hr : Runs machine Any (handle pf call) {} w x s' w') (hrun : run ∈ w'.db.runs)
    (hslot : slot ∈ run.slots) :
    slot.scoreBreakdown.workloadBalance =
        balancedLoad pf w'.db.toInterviews run.interviewRequestId slot.startTime ↔
      ∀ u ∈ panelOf w'.db.toInterviews run.interviewRequestId,
        sameDay pf w'.db.toInterviews run.interviewRequestId u slot.startTime = [] := by
  have h' : Reaches pf Any (fun _ _ => True) w₀ w' := .call h trivial hr
  rw [((runsSound_of_reaches h₀ h').1 run hrun).workload slot hslot, balancedLoad, eq_comm,
    averageShare_eq_one]
  · simp
  · obtain ⟨p, hp, hrole⟩ := (runsStaffed_of_reaches h₀ h' run hrun).panel
    refine List.map_eq_nil_iff.not.mpr (List.ne_nil_of_mem (a := p.userId) ?_)
    exact List.mem_map_of_mem (List.mem_filter.mpr ⟨hp, decide_eq_true hrole⟩)

/-! ### A sample -/

/-- A run of the generation for a request, after a sequence. -/
theorem reaches_generated (calls : List (Call × List Choice)) (r : Id) {p : World → Bool}
    (h : (runCalls samplePlatform (fun _ _ _ _ _ => true) (fun _ _ => true) calls sampleWorld).any
      fun w => (machine.run (fun _ _ _ _ _ => true) (handle samplePlatform (sampleGenerate r).1)
        (sampleGenerate r).2 {} w).any fun y => p y.2.2) :
    ∃ w x s' w', Reaches samplePlatform Any (fun _ _ => True) sampleWorld w ∧
      Runs machine Any (handle samplePlatform (.generate 1 r)) {} w x s' w' ∧ p w' := by
  obtain ⟨w, x, s', w', hw, hrun, hp⟩ := reaches_then (C := Any) (fun _ _ _ _ _ => trivial)
    (fun _ _ _ => trivial) (p := fun _ _ w' => p w') h
  exact ⟨w, x, s', w', hw, hrun, hp⟩

/-- A slot on a day without other interviews. -/
theorem balanced_of_reaches_sample : ∃ w : World, ∃ run ∈ w.db.runs, ∃ slot ∈ run.slots,
    slot.scoreBreakdown.workloadBalance =
      balancedLoad samplePlatform w.db.toInterviews run.interviewRequestId slot.startTime := by
  obtain ⟨w, x, s', w', hw, hgen, hp⟩ := reaches_generated [sampleCreate 10, sampleSubmit 10 540] 10
    (p := fun w => w.db.runs.any fun run => run.slots.any fun slot =>
      (panelOf w.db.toInterviews run.interviewRequestId).all fun u =>
        sameDay samplePlatform w.db.toInterviews run.interviewRequestId u slot.startTime = [])
    (by decide +kernel)
  obtain ⟨run, hrun, hp⟩ := List.any_eq_true.mp hp
  obtain ⟨slot, hslot, hp⟩ := List.any_eq_true.mp hp
  refine ⟨w', run, hrun, slot, hslot, ?_⟩
  exact (balanced_of_reaches initial_sampleWorld hw hgen hrun hslot).mpr fun u hu =>
    of_decide_eq_true (List.all_eq_true.mp hp u hu)

/-- **The workload is not balanced.** The panelist has an interview on that day; the factor of the slots
is 1, and should be one half. -/
theorem generate_ignores_workload : ∃ w x s' w', Initial sampleWorld ∧
    Reaches samplePlatform Any (fun _ _ => True) sampleWorld w ∧
    Runs machine Any (handle samplePlatform (.generate 1 40)) {} w x s' w' ∧
    ∃ run ∈ w'.db.runs, run.interviewRequestId = 40 ∧ (∀ run' ∈ w.db.runs, run'.interviewRequestId ≠ 40) ∧
      ∃ slot ∈ run.slots, slot.scoreBreakdown.workloadBalance = 1 ∧
        balancedLoad samplePlatform w'.db.toInterviews 40 slot.startTime = 1 / 2 := by
  have hrun : (runCalls samplePlatform (fun _ _ _ _ _ => true) (fun _ _ => true)
      (sampleBooked 10 540 ++ [sampleCreate 40, sampleSubmit 40 900]) sampleWorld).any fun w =>
      (machine.run (fun _ _ _ _ _ => true) (handle samplePlatform (sampleGenerate 40).1)
        (sampleGenerate 40).2 {} w).any fun y => (w.db.runs.all fun run => run.interviewRequestId ≠ 40) ∧
          y.2.2.db.runs.any fun run => run.interviewRequestId = 40 ∧ run.slots.any fun slot =>
            slot.scoreBreakdown.workloadBalance = 1 ∧
              balancedLoad samplePlatform y.2.2.db.toInterviews 40 slot.startTime = 1 / 2 := by
    decide +kernel
  obtain ⟨w, x, s', w', hw, hgen, hp⟩ := reaches_then (C := Any) (fun _ _ _ _ _ => trivial)
    (fun _ _ _ => trivial) (p := fun w _ w' => (w.db.runs.all fun run => run.interviewRequestId ≠ 40) ∧
      w'.db.runs.any fun run => run.interviewRequestId = 40 ∧ run.slots.any fun slot =>
        slot.scoreBreakdown.workloadBalance = 1 ∧
          balancedLoad samplePlatform w'.db.toInterviews 40 slot.startTime = 1 / 2) hrun
  obtain ⟨hnone, hp⟩ := of_decide_eq_true hp
  obtain ⟨run, hmem, hp⟩ := List.any_eq_true.mp hp
  obtain ⟨hreq, hp⟩ := of_decide_eq_true hp
  obtain ⟨slot, hslot, hp⟩ := List.any_eq_true.mp hp
  obtain ⟨hone, hhalf⟩ := of_decide_eq_true hp
  refine ⟨w, x, s', w', initial_sampleWorld, hw, hgen, run, hmem, hreq, fun run' hrun' => ?_, slot,
    hslot, hone, hhalf⟩
  exact of_decide_eq_true (List.all_eq_true.mp hnone run' hrun')

end InterviewScheduler.System
