import InterviewScheduler.Engine.Ranking

/-! # The range of the scores

Every factor is in `[0, 1]`, whatever the working hours are: the first two and the last are clamped or
the least of clamped numbers, and the workload is an average of numbers in `(0, 1]`. A weighted total is
then between 0 and the sum of the weights. -/

namespace InterviewScheduler.Engine

open InterviewScheduler.Intervals InterviewScheduler.Util

variable {db : ZoneDatabase} {inp : EngineInput}

/-- The range of a factor. -/
def InUnit (x : ℚ) : Prop := 0 ≤ x ∧ x ≤ 1

theorem inUnit_zero : InUnit 0 := ⟨le_rfl, zero_le_one⟩

theorem inUnit_one : InUnit 1 := ⟨zero_le_one, le_rfl⟩

theorem inUnit_clamp (x : ℚ) : InUnit (clamp x) := by
  unfold clamp
  split_ifs with h1 h2
  · exact inUnit_zero
  · exact inUnit_one
  · exact ⟨not_lt.mp h1, not_lt.mp h2⟩

theorem inUnit_minOrZero {xs : List ℚ} (h : ∀ x ∈ xs, InUnit x) : InUnit (minOrZero xs) := by
  unfold minOrZero
  cases hm : xs.min? with
  | none => exact inUnit_zero
  | some m => exact h m (List.min?_eq_some_iff.mp hm).1

/-- The results of a map are in the unit interval, if those of the calls are. -/
theorem inUnit_of_mapM {f : Participant → Except EngineError ℚ} {ps : List Participant} {xs : List ℚ}
    (hf : ∀ p x, f p = .ok x → InUnit x) (h : ps.mapM f = .ok xs) : ∀ x ∈ xs, InUnit x := by
  intro x hx
  obtain ⟨p, -, hp⟩ := forall₂_exists_left (mapM_eq_ok.mp h) hx
  exact hf p x hp

section Factors
variable {x : ℚ}

theorem inUnit_timezoneFairness {mid : Instant} {ps : List Participant} {wh : WorkingHours}
    (h : timezoneFairness db mid ps wh = .ok x) : InUnit x := by
  obtain ⟨xs, hxs, h⟩ := bind_eq_ok.mp h
  rw [← pure_eq_ok.mp h]
  refine inUnit_minOrZero (inUnit_of_mapM (fun p y hy => ?_) hxs)
  obtain ⟨q, -, hy⟩ := bind_eq_ok.mp hy
  rw [← pure_eq_ok.mp hy]
  exact inUnit_clamp _

theorem inUnit_comfortOne {wh : WorkingHours} {t : ℚ} (h : comfortOne wh t = .ok x) : InUnit x := by
  unfold comfortOne at h
  dsimp only at h
  split_ifs at h
  · rw [← pure_eq_ok.mp h]
    exact inUnit_one
  · obtain ⟨q, -, h⟩ := bind_eq_ok.mp h
    rw [← pure_eq_ok.mp h]
    exact inUnit_clamp _
  · obtain ⟨q, -, h⟩ := bind_eq_ok.mp h
    rw [← pure_eq_ok.mp h]
    exact inUnit_clamp _
  · rw [← pure_eq_ok.mp h]
    exact inUnit_zero

theorem inUnit_workingHoursComfort {mid : Instant} {ps : List Participant} {wh : WorkingHours}
    (h : workingHoursComfort db mid ps wh = .ok x) : InUnit x := by
  obtain ⟨xs, hxs, h⟩ := bind_eq_ok.mp h
  rw [← pure_eq_ok.mp h]
  exact inUnit_minOrZero (inUnit_of_mapM (fun p y hy => inUnit_comfortOne hy) hxs)

theorem inUnit_schedulingProximity {start ref : Instant} {n : ℤ}
    (h : schedulingProximity start ref n = .ok x) : InUnit x := by
  obtain ⟨horizon, -, h⟩ := bind_eq_ok.mp h
  obtain ⟨q, -, h⟩ := bind_eq_ok.mp h
  rw [← pure_eq_ok.mp h]
  exact inUnit_clamp _

/-- An average of numbers in the unit interval. -/
theorem inUnit_average {xs : List ℚ} (h : ∀ y ∈ xs, InUnit y) (hdiv : div xs.sum xs.length = .ok x) :
    InUnit x := by
  unfold div at hdiv
  split_ifs at hdiv with hlen
  have hsum : 0 ≤ xs.sum := List.sum_nonneg fun y hy => (h y hy).1
  have hle : xs.sum ≤ xs.length := by
    have := List.sum_le_card_nsmul xs 1 fun y hy => (h y hy).2
    simpa using this
  have hpos : (0 : ℚ) ≤ xs.length := Nat.cast_nonneg _
  rw [← Except.ok.inj hdiv]
  exact ⟨div_nonneg hsum hpos, div_le_one_of_le₀ hle hpos⟩

/-- One over one plus the number of interviews of a day. -/
theorem inUnit_share {n : ℕ} (h : div 1 (Floats.exact.round (1 + n)) = .ok x) : InUnit x := by
  unfold div at h
  split_ifs at h
  rw [← Except.ok.inj h, Floats.quot_exact, Floats.round_exact]
  constructor
  · positivity
  · refine div_le_one_of_le₀ ?_ (by positivity)
    simp

theorem inUnit_workloadBalance {start : Instant} {ps : List Participant}
    {bookings : String → List Instant} (h : workloadBalance db start ps bookings = .ok x) :
    InUnit x := by
  unfold workloadBalance at h
  split_ifs at h
  · rw [← pure_eq_ok.mp h]
    exact inUnit_one
  · obtain ⟨xs, hxs, h⟩ := bind_eq_ok.mp h
    refine inUnit_average (inUnit_of_mapM (fun p y hy => ?_) hxs) h
    obtain ⟨booked, -, hy⟩ := bind_eq_ok.mp hy
    exact inUnit_share hy

theorem inUnit_bufferQuality {before after : ℚ} {n : ℤ} (h : bufferQuality before after n = .ok x) :
    InUnit x := by
  unfold bufferQuality at h
  split_ifs at h
  · rw [← pure_eq_ok.mp h]
    exact inUnit_one
  · obtain ⟨q, -, h⟩ := bind_eq_ok.mp h
    rw [← pure_eq_ok.mp h]
    exact inUnit_clamp _

end Factors

/-- What is scored is in range. -/
structure InRange (weights : ScoringWeights) (breakdown : ScoreBreakdown) (total : ℚ) : Prop where
  factors : ∀ f, InUnit (breakdown.value f)
  total_nonneg : 0 ≤ total
  total_le : total ≤ (Factor.all.map weights.value).sum

/-- A weighted total of factors in the unit interval. -/
theorem inRange_weightedTotal {weights : ScoringWeights} (hw : ∀ f, 0 ≤ weights.value f)
    {breakdown : ScoreBreakdown} (h : ∀ f, InUnit (breakdown.value f)) :
    InRange weights breakdown (weightedTotal breakdown weights) := by
  have hterm : ∀ f, 0 ≤ weights.value f * breakdown.value f ∧
      weights.value f * breakdown.value f ≤ weights.value f := fun f =>
    ⟨mul_nonneg (hw f) (h f).1, mul_le_of_le_one_right (hw f) (h f).2⟩
  obtain ⟨h1, h1'⟩ := hterm .timezoneFairness
  obtain ⟨h2, h2'⟩ := hterm .workingHoursComfort
  obtain ⟨h3, h3'⟩ := hterm .schedulingProximity
  obtain ⟨h4, h4'⟩ := hterm .workloadBalance
  obtain ⟨h5, h5'⟩ := hterm .bufferQuality
  simp only [ScoringWeights.value, ScoreBreakdown.value] at h1 h1' h2 h2' h3 h3' h4 h4' h5 h5'
  refine ⟨h, ?_, ?_⟩
  · rw [weightedTotal_exact]
    linarith
  · simp only [weightedTotal_exact, Factor.all, List.map_cons, List.map_nil, List.sum_cons, List.sum_nil,
      ScoringWeights.value]
    linarith

/-- **Every score is in range**, whatever the slot is. -/
theorem inRange_score (hw : ∀ f, 0 ≤ inp.weights.value f) {iv : TimeInterval} {start : Instant}
    {breakdown : ScoreBreakdown} {total : ℚ} (h : score db inp iv start = .ok (breakdown, total)) :
    InRange inp.weights breakdown total := by
  unfold score at h
  obtain ⟨x₁, h₁, h⟩ := bind_eq_ok.mp h
  obtain ⟨x₂, h₂, h⟩ := bind_eq_ok.mp h
  obtain ⟨x₃, h₃, h⟩ := bind_eq_ok.mp h
  obtain ⟨x₄, h₄, h⟩ := bind_eq_ok.mp h
  obtain ⟨x₅, h₅, h⟩ := bind_eq_ok.mp h
  obtain ⟨rfl, rfl⟩ := Prod.mk.inj (pure_eq_ok.mp h)
  refine inRange_weightedTotal hw fun f => ?_
  cases f
  · exact inUnit_timezoneFairness h₁
  · exact inUnit_workingHoursComfort h₂
  · exact inUnit_schedulingProximity h₃
  · exact inUnit_workloadBalance h₄
  · exact inUnit_bufferQuality h₅

/-! ### Division by zero -/

/-- A start is scored when a slot fits. -/
theorem exists_grid_of_fits (h : Accepted db inp)
    (hfits : ∃ t, (buffered inp t).toSet ⊆ commonFreeSet db inp) :
    ∃ iv ∈ walked db inp, gridStarts inp.constraints iv ≠ [] := by
  obtain ⟨iv, hiv, hlong⟩ := (exists_fit_iff h).mp hfits
  exact ⟨iv, hiv, List.ne_nil_of_mem (first_mem_gridStarts h.step_pos hlong)⟩

/-- If the day cannot be measured, and a slot fits, the scoring of the first start divides by zero. -/
theorem zeroDivision_of_hours_eq (h : Accepted db inp) (hfit : HorizonFits inp ∧ Representable db inp)
    (heq : hours inp.constraints.workingHours.dayStart = hours inp.constraints.workingHours.dayEnd)
    (hfits : ∃ t, (buffered inp t).toSet ⊆ commonFreeSet db inp) :
    generateRecommendations db inp = .error .zeroDivisionError := by
  have honly := raisesOnly_generateRecommendations h hfit fun iv _ t _ =>
    raisesOnly_of_eq_error (rawSlot_of_hours_eq h iv t heq)
  refine honly.eq_error fun ⟨res, hres⟩ => ?_
  -- the start of the slot that fits would have been scored
  obtain ⟨iv, hiv, hgrid⟩ := exists_grid_of_fits h hfits
  obtain ⟨t, ht⟩ := List.exists_mem_of_ne_nil _ hgrid
  obtain ⟨⟨r, hscore⟩, -⟩ := scored_of_eq_ok hres hiv ht
  rw [score_of_hours_eq h iv t heq] at hscore
  cases hscore

/-- **Scoring is safe**: nothing is divided by zero, and what is scored is in range, on the grid and among the
returned slots. -/
structure ScoresSafely (db : ZoneDatabase) (inp : EngineInput) : Prop where
  noZeroDivision : generateRecommendations db inp ≠ .error .zeroDivisionError
  grid : ∀ iv ∈ walked db inp, ∀ t, OnGrid inp.constraints iv t →
    ∀ breakdown total, score db inp iv t = .ok (breakdown, total) → InRange inp.weights breakdown total
  slots : ∀ res, generateRecommendations db inp = .ok res →
    ∀ s ∈ res.slots, InRange inp.weights s.scoreBreakdown s.totalScore

/-- **When the scoring is safe.** On an accepted input with weights that are not negative, scores are always
in range, and nothing is divided by zero exactly if the working day starts and ends at different hours,
minutes or seconds, or no slot fits, or an `OverflowError` comes first. -/
theorem scoresSafely_iff (db : ZoneDatabase) (inp : EngineInput) (hv : validate db inp = .ok ())
    (hw : ∀ f, 0 ≤ inp.weights.value f) :
    ScoresSafely db inp ↔
      hours inp.constraints.workingHours.dayStart ≠ hours inp.constraints.workingHours.dayEnd ∨
      (¬ ∃ t, Set.Ico (t - minutes inp.constraints.bufferMinutes)
        (t + minutes inp.constraints.durationMinutes + minutes inp.constraints.bufferMinutes) ⊆
          commonFreeSet db inp) ∨
      ¬ Representable db inp := by
  obtain ⟨h, hh⟩ := validate_eq_ok.mp hv
  constructor
  · intro hsafe
    by_contra hno
    push Not at hno
    obtain ⟨heq, hfits, hr⟩ := hno
    exact hsafe.noZeroDivision (zeroDivision_of_hours_eq h ⟨hh, hr⟩ heq hfits)
  · intro hcond
    refine ⟨?_, fun iv _ t _ breakdown total hscore => inRange_score hw hscore, fun res hres s hs => ?_⟩
    · intro he
      have honly : RaisesOnly .overflowError (generateRecommendations db inp) := by
        rcases hcond with hne | hnone | hr
        · exact raisesOnly_of_dayMeasured h (.inl hne)
        · exact raisesOnly_of_dayMeasured h (.inr hnone)
        · exact raisesOnly_of_eq_error
            (generateRecommendations_of_not_representable h fun hfit => hr hfit.2)
      cases honly _ he
    · obtain ⟨-, -, raw, hraw, rfl⟩ := generateRecommendations_eq_ok.mp hres
      obtain ⟨r, hr, n, rfl⟩ := exists_toScoredSlot hs
      obtain ⟨iv, -, -, -, hscore⟩ := exists_of_mem_raw h hraw hr
      rw [(toScoredSlot_times inp.weights r n).2, totalScore_toScoredSlot]
      exact inRange_score hw hscore

/-- The sample with a day that ends before it starts: nothing is divided by zero. -/
theorem scoresSafely_iff_sample :
    ScoresSafely .utcOnly { sampleInput with constraints := { sampleInput.constraints with
      workingHours := { dayStart := .time 18 0, dayEnd := .time 9 0 } } } :=
  (scoresSafely_iff .utcOnly { sampleInput with constraints := { sampleInput.constraints with
    workingHours := { dayStart := .time 18 0, dayEnd := .time 9 0 } } } rfl
    (by intro f; cases f <;> decide +kernel)).mpr (.inl (mt hours_eq_iff.mp (by decide)))

/-! ### The hour that is shown twice -/

/-- The 25th of October 2026. -/
def clocksBack : Date := 20751

/-- London around that day: until one o'clock in UTC it is an hour ahead, so that the hour from one to two is
shown twice. -/
def london : Zone where
  localDate t := (Zone.fixed (if t < days clocksBack + minutes 60 then minutes 60 else 0)).localDate t
  localTime t := (Zone.fixed (if t < days clocksBack + minutes 60 then minutes 60 else 0)).localTime t
  toUtc d w :=
    let wall := days d + w.micros
    if wall < days clocksBack + minutes 60 ∨ (wall < days clocksBack + minutes 120 ∧ w.fold = false) then
      wall - minutes 60
    else wall

/-- A database that knows only London. -/
def londonOnly : ZoneDatabase where
  known name := name == "Europe/London"
  zone _ := london

/-- A working day from half past one to half past one, when it is shown again, for half an hour. -/
def repeatedHourInput : EngineInput where
  referenceTime := .aware (days (clocksBack - 1))
  participants :=
    [{ participantId := "c", timezone := "Europe/London", isCandidate := true },
      { participantId := "p", timezone := "Europe/London" }]
  candidateWindows := [⟨.aware (days clocksBack), .aware (days clocksBack + minutes 240)⟩]
  constraints := {
    durationMinutes := 30
    bufferMinutes := 0
    workingHours := {
      dayStart := .time 1 30
      dayEnd := { TimeOfDay.time 1 30 with fold := true } } }

/-- **A working day of an hour that is divided by zero.** -/
theorem repeated_hour_divides : validate londonOnly repeatedHourInput = .ok () ∧
    (∀ f, 0 ≤ repeatedHourInput.weights.value f) ∧ ¬ ScoresSafely londonOnly repeatedHourInput := by
  refine ⟨rfl, by intro f; cases f <;> decide +kernel, fun hsafe => hsafe.noZeroDivision ?_⟩
  decide +kernel

end InterviewScheduler.Engine
