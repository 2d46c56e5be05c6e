import Mathlib.Tactic.Linarith
import Mathlib.Tactic.Positivity
import Mathlib.Tactic.Ring
import InterviewScheduler.Engine.Validation

/-! # The grid, and when the engine returns

`mem_gridStarts`: the loop visits exactly the grid `start + buffer + k * step` of an interval, up to
the last start that leaves room for the interview and the buffer behind it; so its fuel suffices.

`score_ok`, `raisesOnly_score`, `score_of_hours_eq`: the only division of the scoring that can have a zero
divisor on an accepted input is the one by the half width of the working day, and what else it can raise is
an `OverflowError`. -/

namespace InterviewScheduler.Engine

open InterviewScheduler.Intervals InterviewScheduler.Util

/-! ### The grid of one interval -/

theorem mem_gridLoop {latest step : ℤ} (hs : 0 < step) {x : Instant} : ∀ (fuel : ℕ) (t : Instant),
    x ∈ gridLoop latest step fuel t ↔ ∃ k : ℕ, k < fuel ∧ x = t + k * step ∧ x ≤ latest
  | 0, t => by simp [gridLoop]
  | fuel + 1, t => by
    unfold gridLoop
    split_ifs with h
    · rw [List.mem_cons, mem_gridLoop hs fuel (t + step)]
      constructor
      · rintro (rfl | ⟨k, hk, rfl, hx⟩)
        · exact ⟨0, by lia, by simp, h⟩
        · exact ⟨k + 1, by lia, by push_cast; ring, hx⟩
      · rintro ⟨k, hk, rfl, hx⟩
        rcases k with _ | k
        · left; simp
        · exact Or.inr ⟨k, by lia, by push_cast; ring, hx⟩
    · simp only [List.not_mem_nil, false_iff, not_exists, not_and]
      rintro k - rfl hx
      have : 0 ≤ (k : ℤ) * step := by positivity
      lia

/-- The number of rounds of the loop is at most its fuel. -/
theorem rounds_lt {t latest step : ℤ} (hs : 0 < step) {k : ℕ} (hk : t + k * step ≤ latest) :
    k < ((latest - t) / step + 1).toNat := by
  have : (k : ℤ) ≤ (latest - t) / step := (Int.le_ediv_iff_mul_le hs).mpr (by linarith)
  omega

theorem mem_gridStarts {c : SchedulingConstraints} {iv : TimeInterval} {x : Instant}
    (hs : 0 < c.slotStepMinutes) :
    x ∈ gridStarts c iv ↔ ∃ k : ℕ,
      x = iv.start + minutes c.bufferMinutes + k * minutes c.slotStepMinutes ∧
        x ≤ iv.stop - minutes c.durationMinutes - minutes c.bufferMinutes := by
  have hs' : 0 < minutes c.slotStepMinutes := by unfold minutes; linarith
  unfold gridStarts
  dsimp only
  split_ifs with h
  · simp only [List.not_mem_nil, false_iff, not_exists, not_and]
    rintro k rfl hx
    have : 0 ≤ (k : ℤ) * minutes c.slotStepMinutes := by positivity
    linarith
  · rw [mem_gridLoop hs']
    constructor
    · rintro ⟨k, -, h1, h2⟩; exact ⟨k, h1, h2⟩
    · rintro ⟨k, rfl, h2⟩; exact ⟨k, rounds_lt hs' h2, rfl, h2⟩

/-- A gap that fits the interview and both buffers, exactly or with room to spare, has a start. -/
theorem first_mem_gridStarts {c : SchedulingConstraints} {iv : TimeInterval}
    (hs : 0 < c.slotStepMinutes)
    (h : minutes c.durationMinutes + 2 * minutes c.bufferMinutes ≤ iv.stop - iv.start) :
    iv.start + minutes c.bufferMinutes ∈ gridStarts c iv :=
  (mem_gridStarts hs).mpr ⟨0, by simp, by linarith⟩

/-- A gap that fits them exactly has no other start. -/
theorem gridStarts_of_exact {c : SchedulingConstraints} {iv : TimeInterval}
    (h : iv.stop - iv.start = minutes c.durationMinutes + 2 * minutes c.bufferMinutes) :
    gridStarts c iv = [iv.start + minutes c.bufferMinutes] := by
  have hlatest : iv.stop - minutes c.durationMinutes - minutes c.bufferMinutes =
      iv.start + minutes c.bufferMinutes := by linarith
  unfold gridStarts
  dsimp only
  rw [if_neg (by linarith), hlatest, sub_self, Int.zero_ediv]
  simp [gridLoop]

theorem gridStarts_eq_nil_iff {c : SchedulingConstraints} {iv : TimeInterval}
    (hs : 0 < c.slotStepMinutes) :
    gridStarts c iv = [] ↔
      iv.stop - iv.start < minutes c.durationMinutes + 2 * minutes c.bufferMinutes := by
  constructor
  · intro h
    by_contra hn
    have := first_mem_gridStarts hs (not_lt.mp hn)
    simp [h] at this
  · intro h
    unfold gridStarts
    dsimp only
    rw [if_pos h]

/-! ### Raw slots -/

section RawSlots

variable {db : ZoneDatabase} {inp : EngineInput} {iv : TimeInterval} {fl : Floats}

/-- A start that is scored has its slot, and there is a next start. -/
theorem rawSlot_eq_ok {t : Instant} {r : RawSlot} : rawSlot db inp iv t fl = .ok r ↔
    score db inp iv t fl = .ok (r.breakdown, r.total) ∧ r.start = t ∧
      r.stop = t + minutes inp.constraints.durationMinutes ∧
      IsDatetime (t + minutes inp.constraints.slotStepMinutes) := by
  constructor
  · intro h
    obtain ⟨⟨b, total⟩, hb, h⟩ := bind_eq_ok.mp h
    obtain ⟨next, hnext, h⟩ := bind_eq_ok.mp h
    rw [← pure_eq_ok.mp h]
    exact ⟨hb, rfl, rfl, (bounded_eq_ok.mp hnext).1⟩
  · obtain ⟨start, stop, b, total⟩ := r
    rintro ⟨hb, hstart, hstop, hnext⟩
    obtain rfl : start = t := hstart
    obtain rfl : stop = start + minutes inp.constraints.durationMinutes := hstop
    exact bind_eq_ok.mpr ⟨_, hb, bind_eq_ok.mpr ⟨_, bounded_of hnext, rfl⟩⟩

/-- The raw slots of an interval are its grid starts, scored. -/
theorem rawSlots_eq_ok {rs : List RawSlot} : rawSlots db inp iv fl = .ok rs ↔
    List.Forall₂ (fun t r => score db inp iv t fl = .ok (r.breakdown, r.total) ∧ r.start = t ∧
      r.stop = t + minutes inp.constraints.durationMinutes ∧
      IsDatetime (t + minutes inp.constraints.slotStepMinutes)) (gridStarts inp.constraints iv) rs := by
  simp only [rawSlots, mapM_eq_ok, rawSlot_eq_ok]

end RawSlots

/-! ### What the scoring can raise -/

theorem exists_div_ok {a b : ℚ} (hb : b ≠ 0) : ∃ q, div a b = .ok q := ⟨_, if_neg hb⟩

section Factors

variable {db : ZoneDatabase} {start : Instant} {ps : List Participant} {wh : WorkingHours}

theorem timezoneFairness_ok (h : hours wh.dayStart ≠ hours wh.dayEnd) :
    ∃ q, timezoneFairness db start ps wh = .ok q := by
  have hw : (hours wh.dayEnd - hours wh.dayStart) / 2 ≠ 0 := by
    intro he
    exact h (by linarith)
  refine exists_bind_eq_ok (exists_mapM_eq_ok.mpr fun p _ => ?_) fun _ _ => ⟨_, rfl⟩
  exact exists_bind_eq_ok (exists_div_ok hw) fun _ _ => ⟨_, rfl⟩

/-- The half width of a day that starts and ends at the same hour is zero. -/
theorem timezoneFairness_of_hours_eq (h : hours wh.dayStart = hours wh.dayEnd) (hps : ps ≠ []) :
    timezoneFairness db start ps wh = .error .zeroDivisionError := by
  obtain ⟨p, ps, rfl⟩ := List.exists_cons_of_ne_nil hps
  have hw : (hours wh.dayEnd - hours wh.dayStart) / 2 = 0 := by
    rw [h, sub_self, zero_div]
  unfold timezoneFairness
  simp only [Floats.quot_exact, Floats.sub_exact, hw, div, if_true, List.mapM_cons]
  rfl

theorem comfortOne_ok (x : ℚ) : ∃ q, comfortOne wh x = .ok q := by
  unfold comfortOne
  dsimp only
  split_ifs with h1 h2 h3
  · exact ⟨1, rfl⟩
  · -- the day starts before the core band, which `x` has not reached
    refine exists_bind_eq_ok (exists_div_ok ?_) fun _ _ => ⟨_, rfl⟩
    rw [Floats.sub_exact]
    intro he; linarith [h2.1, h2.2]
  · refine exists_bind_eq_ok (exists_div_ok ?_) fun _ _ => ⟨_, rfl⟩
    rw [Floats.sub_exact]
    intro he; linarith [h3.1, h3.2]
  · exact ⟨0, rfl⟩

theorem workingHoursComfort_ok : ∃ q, workingHoursComfort db start ps wh = .ok q :=
  exists_bind_eq_ok (exists_mapM_eq_ok.mpr fun _ _ => comfortOne_ok _) fun _ _ => ⟨_, rfl⟩

theorem schedulingProximity_ok {ref : Instant} {n : ℤ} (hn : 0 < n) (hf : IsFloat n) :
    ∃ q, schedulingProximity start ref n = .ok q := by
  refine exists_bind_eq_ok ⟨_, bounded_of hf⟩ fun horizon h => ?_
  obtain ⟨-, rfl⟩ := bounded_eq_ok.mp h
  exact exists_bind_eq_ok (exists_div_ok (Int.cast_ne_zero.mpr hn.ne')) fun _ _ => ⟨_, rfl⟩

theorem raisesOnly_schedulingProximity {ref : Instant} {n : ℤ} (hn : 0 < n) :
    RaisesOnly .overflowError (schedulingProximity start ref n) := by
  refine raisesOnly_bounded.bind fun horizon h => ?_
  obtain ⟨hf, rfl⟩ := bounded_eq_ok.mp h
  exact (raisesOnly_of_eq_ok (exists_div_ok (Int.cast_ne_zero.mpr hn.ne')).choose_spec).bind
    fun _ _ => raisesOnly_pure

/-- The share of one panelist. -/
theorem workload_ok {booked : List Date} {d : Date} :
    ∃ q, div 1 (Floats.exact.round (1 + booked.count d)) = .ok q :=
  exists_div_ok (by rw [Floats.round_exact]; positivity)

theorem average_ok {scores : List ℚ} (h : scores ≠ []) :
    ∃ q, div (Floats.exact.sum scores) (Floats.exact.round scores.length) = .ok q :=
  exists_div_ok (by rw [Floats.round_exact]; exact_mod_cast (List.length_pos_iff.mpr h).ne')

theorem workloadBalance_ok {bookings : String → List Instant}
    (h : ∀ p ∈ ps, ∀ b ∈ bookings p.participantId, IsDate ((db.zone p.timezone).localDate b)) :
    ∃ q, workloadBalance db start ps bookings = .ok q := by
  unfold workloadBalance
  split_ifs with hps
  · exact ⟨1, rfl⟩
  · refine exists_bind_eq_ok (exists_mapM_eq_ok.mpr fun p hp => ?_) fun qs hqs => average_ok ?_
    · refine exists_bind_eq_ok (exists_mapM_eq_ok.mpr fun b hb => ?_) fun _ _ => workload_ok
      exact ⟨_, bounded_of (h p hp b hb)⟩
    · rintro rfl
      exact hps (List.forall₂_nil_right_iff.mp (mapM_eq_ok.mp hqs))

theorem raisesOnly_workloadBalance {bookings : String → List Instant} :
    RaisesOnly .overflowError (workloadBalance db start ps bookings) := by
  unfold workloadBalance
  split_ifs with hps
  · exact raisesOnly_pure
  · refine (raisesOnly_mapM fun p hp => ?_).bind fun qs hqs => ?_
    · exact (raisesOnly_mapM fun b _ => raisesOnly_bounded).bind fun booked _ =>
        raisesOnly_of_eq_ok workload_ok.choose_spec
    · refine raisesOnly_of_eq_ok (average_ok ?_).choose_spec
      rintro rfl
      exact hps (List.forall₂_nil_right_iff.mp (mapM_eq_ok.mp hqs))

/-- With no bookings the factor is 1. -/
theorem workloadBalance_of_none {x : ℚ} (h : workloadBalance db start ps (fun _ => []) = .ok x) :
    x = 1 := by
  unfold workloadBalance at h
  split at h
  · exact (pure_eq_ok.mp h).symm
  · next hne =>
    obtain ⟨scores, hscores, hdiv⟩ := bind_eq_ok.mp h
    have hone : ∀ y ∈ scores, y = 1 := by
      intro y hy
      obtain ⟨p, -, hp⟩ := forall₂_exists_left (mapM_eq_ok.mp hscores) hy
      obtain ⟨booked, hbooked, hp⟩ := bind_eq_ok.mp hp
      rw [List.forall₂_nil_left_iff.mp (mapM_eq_ok.mp hbooked)] at hp
      simp only [List.count_nil, div, Floats.round_exact, Floats.quot_exact] at hp
      norm_num at hp
      exact hp.symm
    have hlen : scores.length ≠ 0 := by
      rw [← (mapM_eq_ok.mp hscores).length_eq]
      simpa using hne
    have hsum : scores.sum = scores.length := by
      rw [List.eq_replicate_of_mem hone]
      simp
    have hnz : (scores.length : ℚ) ≠ 0 := by exact_mod_cast hlen
    rw [Floats.sum_exact, Floats.round_exact, div, if_neg hnz, Floats.quot_exact, hsum, div_self hnz] at hdiv
    exact (Except.ok.inj hdiv).symm

theorem bufferQuality_ok (before after : ℚ) (n : ℤ) : ∃ q, bufferQuality before after n = .ok q := by
  unfold bufferQuality
  split_ifs with h
  · exact ⟨1, rfl⟩
  · refine exists_bind_eq_ok (exists_div_ok ?_) fun _ _ => ⟨_, rfl⟩
    rw [Floats.round_exact]
    exact_mod_cast (not_le.mp h).ne'

end Factors

/-- What the scoring computes, besides the slots, is within the bounds. -/
structure ScoresFit (db : ZoneDatabase) (inp : EngineInput) : Prop where
  horizon : IsFloat inp.constraints.proximityHorizonDays
  bookings : ∀ p ∈ inp.participants, p.isCandidate = false →
    ∀ b ∈ inp.existingBookings p.participantId, IsDate ((db.zone p.timezone).localDate b)

/-- What has been scored was within the bounds. -/
theorem scoresFit_of_score_eq_ok {db : ZoneDatabase} {inp : EngineInput} {iv : TimeInterval}
    {start : Instant} {fl : Floats} {r : ScoreBreakdown × ℚ} (h : score db inp iv start fl = .ok r) :
    ScoresFit db inp := by
  obtain ⟨_, -, h⟩ := bind_eq_ok.mp h
  obtain ⟨_, -, h⟩ := bind_eq_ok.mp h
  obtain ⟨_, hproximity, h⟩ := bind_eq_ok.mp h
  obtain ⟨_, hworkload, -⟩ := bind_eq_ok.mp h
  obtain ⟨_, hhorizon, -⟩ := bind_eq_ok.mp hproximity
  refine ⟨(bounded_eq_ok.mp hhorizon).1, fun p hp hpanelist b hb => ?_⟩
  have hmem : p ∈ inp.participants.filter (!·.isCandidate) :=
    List.mem_filter.mpr ⟨hp, by simp [hpanelist]⟩
  unfold workloadBalance at hworkload
  rw [if_neg (List.ne_nil_of_mem hmem)] at hworkload
  obtain ⟨shares, hshares, -⟩ := bind_eq_ok.mp hworkload
  obtain ⟨_, -, hshare⟩ := forall₂_exists_left (mapM_eq_ok.mp hshares).flip hmem
  obtain ⟨booked, hbooked, -⟩ := bind_eq_ok.mp hshare
  obtain ⟨_, -, hdate⟩ := forall₂_exists_left (mapM_eq_ok.mp hbooked).flip hb
  exact (bounded_eq_ok.mp hdate).1

section Score

variable {db : ZoneDatabase} {inp : EngineInput} (h : Accepted db inp) (iv : TimeInterval) (start : Instant)
include h

/-- **Scoring returns**, if the working day does not start and end at the same hour. -/
theorem score_ok (hf : ScoresFit db inp)
    (hw : hours inp.constraints.workingHours.dayStart ≠ hours inp.constraints.workingHours.dayEnd) :
    ∃ r, score db inp iv start = .ok r := by
  refine exists_bind_eq_ok (timezoneFairness_ok hw) fun _ _ => ?_
  refine exists_bind_eq_ok workingHoursComfort_ok fun _ _ => ?_
  refine exists_bind_eq_ok (schedulingProximity_ok h.proximity_pos hf.horizon) fun _ _ => ?_
  refine exists_bind_eq_ok (workloadBalance_ok fun p hp => ?_) fun _ _ => ?_
  · exact hf.bookings p (List.mem_filter.mp hp).1 (by simpa using (List.mem_filter.mp hp).2)
  · exact exists_bind_eq_ok (bufferQuality_ok _ _ _) fun _ _ => ⟨_, rfl⟩

theorem raisesOnly_score
    (hw : hours inp.constraints.workingHours.dayStart ≠ hours inp.constraints.workingHours.dayEnd) :
    RaisesOnly .overflowError (score db inp iv start) := by
  refine (raisesOnly_of_eq_ok (timezoneFairness_ok hw).choose_spec).bind fun _ _ => ?_
  refine (raisesOnly_of_eq_ok workingHoursComfort_ok.choose_spec).bind fun _ _ => ?_
  refine (raisesOnly_schedulingProximity h.proximity_pos).bind fun _ _ => ?_
  refine raisesOnly_workloadBalance.bind fun _ _ => ?_
  exact (raisesOnly_of_eq_ok (bufferQuality_ok _ _ _).choose_spec).bind fun _ _ => raisesOnly_pure

/-- It divides by zero if the day does. -/
theorem score_of_hours_eq
    (hw : hours inp.constraints.workingHours.dayStart = hours inp.constraints.workingHours.dayEnd) :
    score db inp iv start = .error .zeroDivisionError := by
  unfold score
  simp only [timezoneFairness_of_hours_eq hw h.participants_ne_nil]
  rfl

theorem raisesOnly_rawSlot
    (hw : hours inp.constraints.workingHours.dayStart ≠ hours inp.constraints.workingHours.dayEnd) :
    RaisesOnly .overflowError (rawSlot db inp iv start) :=
  (raisesOnly_score h iv start hw).bind fun _ _ => raisesOnly_bounded.bind fun _ _ => raisesOnly_pure

theorem rawSlot_of_hours_eq
    (hw : hours inp.constraints.workingHours.dayStart = hours inp.constraints.workingHours.dayEnd) :
    rawSlot db inp iv start = .error .zeroDivisionError := by
  unfold rawSlot
  rw [score_of_hours_eq h iv start hw]
  rfl

end Score

end InterviewScheduler.Engine
