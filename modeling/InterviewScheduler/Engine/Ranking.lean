import Mathlib.Data.Set.Card
import InterviewScheduler.Engine.Guarantees

/-! # The ranking

Every start of the grid over the common free intervals is scored once, and the engine returns the best of
them (`generateRecommendations_topN`): by descending total, the earlier start first when totals are
equal. -/

namespace InterviewScheduler.Engine

open InterviewScheduler.Intervals InterviewScheduler.Util

variable {db : ZoneDatabase} {inp : EngineInput} {fl : Floats}

/-! ### The grid over all intervals -/

/-- The start `t` is on the grid of the interval. -/
def OnGrid (c : SchedulingConstraints) (iv : TimeInterval) (t : Instant) : Prop :=
  ∃ k : ℕ, t = iv.start + minutes c.bufferMinutes + k * minutes c.slotStepMinutes ∧
    t ≤ iv.stop - minutes c.durationMinutes - minutes c.bufferMinutes

/-- The starts on the grids of the common free intervals. -/
def gridSlots (db : ZoneDatabase) (inp : EngineInput) : Set Instant :=
  {t | ∃ iv ∈ walked db inp, OnGrid inp.constraints iv t}

/-- The same, in the order in which they are scored. -/
def gridTimes (db : ZoneDatabase) (inp : EngineInput) : List Instant :=
  (walked db inp).flatMap (gridStarts inp.constraints)

theorem mem_gridTimes (h : Accepted db inp) {t : Instant} :
    t ∈ gridTimes db inp ↔ t ∈ gridSlots db inp := by
  rw [gridTimes, List.mem_flatMap]
  exact exists_congr fun iv => and_congr_right fun _ => mem_gridStarts h.step_pos

theorem pairwise_gridLoop {latest step : ℤ} (hs : 0 < step) (fuel : ℕ) (t : Instant) :
    (gridLoop latest step fuel t).Pairwise (· < ·) := by
  induction fuel generalizing t with
  | zero => exact .nil
  | succ fuel ih =>
    unfold gridLoop
    split_ifs with h
    · refine List.pairwise_cons.mpr ⟨fun x hx => ?_, ih (t + step)⟩
      obtain ⟨k, -, rfl, -⟩ := (mem_gridLoop hs fuel (t + step)).mp hx
      have : 0 ≤ (k : ℤ) * step := by positivity
      lia
    · exact .nil

/-- The loop visits every start once. -/
theorem pairwise_gridStarts (h : Accepted db inp) (iv : TimeInterval) :
    (gridStarts inp.constraints iv).Pairwise (· < ·) := by
  have hs : 0 < minutes inp.constraints.slotStepMinutes := by
    have := h.step_pos
    unfold minutes
    linarith
  unfold gridStarts
  dsimp only
  split_ifs
  · exact .nil
  · exact pairwise_gridLoop hs _ _

/-- A start lies in its interval. -/
theorem start_mem_of_grid (h : Accepted db inp) {iv : TimeInterval} {t : Instant}
    (ht : t ∈ gridStarts inp.constraints iv) : iv.start ≤ t ∧ t < iv.stop := by
  have hd := h.duration_pos
  have hb := h.buffer_nonneg
  refine buffered_subset h ht ⟨?_, ?_⟩
  · simp only [buffered]
    unfold minutes
    lia
  · simp only [buffered]
    unfold minutes
    lia

/-- **Every grid start is scored once**, also over all intervals: these do not meet. -/
theorem pairwise_gridTimes (h : Accepted db inp) : (gridTimes db inp).Pairwise (· < ·) := by
  obtain ⟨-, hproper, hgapped⟩ := walked_spec h
  refine List.pairwise_flatMap.mpr ⟨fun iv _ => pairwise_gridStarts h iv, ?_⟩
  refine hgapped.imp fun {iv iv'} hlt t ht t' ht' => ?_
  have h1 := (start_mem_of_grid h ht).2
  have h2 := (start_mem_of_grid h ht').1
  lia

/-- The grid is empty if no slot fits. -/
theorem gridSlots_eq_empty_iff (h : Accepted db inp) : gridSlots db inp = ∅ ↔
    ¬ ∃ t, (buffered inp t).toSet ⊆ commonFreeSet db inp := by
  rw [not_fits_iff h, Set.eq_empty_iff_forall_notMem]
  constructor
  · intro hnone iv hiv
    refine (gridStarts_eq_nil_iff h.step_pos).mp (List.eq_nil_iff_forall_not_mem.mpr fun t ht => ?_)
    exact hnone t ⟨iv, hiv, (mem_gridStarts h.step_pos).mp ht⟩
  · rintro hshort t ⟨iv, hiv, ht⟩
    have hmem := (mem_gridStarts h.step_pos).mpr ht
    rw [(gridStarts_eq_nil_iff h.step_pos).mpr (hshort iv hiv)] at hmem
    cases hmem

theorem ncard_gridSlots (h : Accepted db inp) :
    (gridSlots db inp).ncard = (gridTimes db inp).length := by
  have hset : gridSlots db inp = ((gridTimes db inp).toFinset : Set Instant) := by
    ext t
    rw [List.coe_toFinset]
    exact (mem_gridTimes h).symm
  rw [hset, Set.ncard_coe_finset, List.toFinset_card_of_nodup]
  exact (pairwise_gridTimes h).imp fun hlt => ne_of_lt hlt

/-! ### The raw slots -/

theorem map_start_rawSlots {iv : TimeInterval} {rs : List RawSlot}
    (h : rawSlots db inp iv fl = .ok rs) : rs.map (·.start) = gridStarts inp.constraints iv := by
  have hall := rawSlots_eq_ok.mp h
  clear h
  generalize gridStarts inp.constraints iv = ts at hall ⊢
  induction hall with
  | nil => rfl
  | cons hr _ ih => rw [List.map_cons, ih, hr.2.1]

/-- The raw slots of a run are the grid starts. -/
theorem map_start_raw {ivs : List TimeInterval} {raw : List (List RawSlot)}
    (h : List.Forall₂ (fun iv rs => rawSlots db inp iv fl = .ok rs) ivs raw) :
    raw.flatten.map (·.start) = ivs.flatMap (gridStarts inp.constraints) := by
  induction h with
  | nil => rfl
  | cons hrs _ ih =>
    rw [List.flatten_cons, List.map_append, List.flatMap_cons, ih, map_start_rawSlots hrs]

/-- A raw slot is a grid start of a free interval, with its end and its score. -/
theorem exists_of_mem_raw (hacc : Accepted db inp) {raw : List (List RawSlot)}
    (h : List.Forall₂ (fun iv rs => rawSlots db inp iv fl = .ok rs) (walked db inp) raw) {r : RawSlot}
    (hr : r ∈ raw.flatten) : ∃ iv ∈ walked db inp, OnGrid inp.constraints iv r.start ∧
      r.stop = r.start + minutes inp.constraints.durationMinutes ∧
      score db inp iv r.start fl = .ok (r.breakdown, r.total) := by
  obtain ⟨rs, hrs, hr⟩ := List.mem_flatten.mp hr
  obtain ⟨iv, hiv, hrow⟩ := forall₂_exists_left h hrs
  obtain ⟨t, ht, hscore, rfl, hstop, -⟩ := forall₂_exists_left (rawSlots_eq_ok.mp hrow) hr
  exact ⟨iv, hiv, (mem_gridStarts hacc.step_pos).mp ht, hstop, hscore⟩

/-! ### Sorting -/

/-- The order of the ranking, on totals and starts. -/
def Precedes (a b : ℚ × Instant) : Prop := b.1 < a.1 ∨ (a.1 = b.1 ∧ a.2 < b.2)

/-- What is ranked of a slot. -/
def RawSlot.key (r : RawSlot) : ℚ × Instant := (r.total, r.start)

def ScoredSlot.key (s : ScoredSlot) : ℚ × Instant := (s.totalScore, s.startTime)

instance : Std.Total rankLE where
  total a b := by
    unfold rankLE
    rcases lt_trichotomy a.total b.total with hlt | heq | hlt
    · exact .inr (.inl hlt)
    · rcases le_total a.start b.start with hle | hle
      · exact .inl (.inr ⟨heq, hle⟩)
      · exact .inr (.inr ⟨heq.symm, hle⟩)
    · exact .inl (.inl hlt)

instance : IsTrans RawSlot rankLE where
  trans a b c hab hbc := by
    unfold rankLE at *
    rcases hab with hab | ⟨hab, hab'⟩ <;> rcases hbc with hbc | ⟨hbc, hbc'⟩
    · exact .inl (hbc.trans hab)
    · exact .inl (hbc ▸ hab)
    · exact .inl (hab ▸ hbc)
    · exact .inr ⟨hab.trans hbc, hab'.trans hbc'⟩

/-- Slots with different starts are strictly ordered. -/
theorem precedes_of_rankLE {a b : RawSlot} (h : rankLE a b) (hne : a.start ≠ b.start) :
    Precedes a.key b.key := by
  rcases h with h | ⟨h, hle⟩
  · exact .inl h
  · exact .inr ⟨h, lt_of_le_of_ne hle hne⟩

/-- The sorted raw slots. -/
theorem pairwise_ranked {raw : List RawSlot} (hnodup : (raw.map (·.start)).Nodup) :
    (raw.insertionSort rankLE).Pairwise fun a b => Precedes a.key b.key := by
  have hdistinct : (raw.insertionSort rankLE).Pairwise fun a b => a.start ≠ b.start := by
    have hperm := (List.perm_insertionSort rankLE raw).map (·.start)
    exact List.pairwise_map.mp (hperm.nodup_iff.mpr hnodup)
  have hsorted := List.pairwise_insertionSort rankLE raw
  exact (hsorted.and hdistinct).imp fun h => precedes_of_rankLE h.1 h.2

/-! ### Truncation -/

theorem key_toScoredSlot (fl : Floats) (weights : ScoringWeights) (r : RawSlot) (n : ℕ) :
    (toScoredSlot weights r n fl).key = r.key := by
  unfold toScoredSlot
  split
  rfl

theorem totalScore_toScoredSlot (weights : ScoringWeights) (r : RawSlot) (n : ℕ) :
    (toScoredSlot weights r n fl).totalScore = r.total :=
  congrArg Prod.fst (key_toScoredSlot fl weights r n)

theorem startTime_toScoredSlot (weights : ScoringWeights) (r : RawSlot) (n : ℕ) :
    (toScoredSlot weights r n fl).startTime = r.start :=
  congrArg Prod.snd (key_toScoredSlot fl weights r n)

theorem toScoredSlot_times (weights : ScoringWeights) (r : RawSlot) (n : ℕ) :
    (toScoredSlot weights r n fl).endTime = r.stop ∧
      (toScoredSlot weights r n fl).scoreBreakdown = r.breakdown := by
  unfold toScoredSlot
  split
  exact ⟨rfl, rfl⟩

theorem rank_toScoredSlot (weights : ScoringWeights) (r : RawSlot) (n : ℕ) :
    (toScoredSlot weights r n fl).rank = n := by
  unfold toScoredSlot
  split
  rfl

/-- The ranked slots have the keys of the first raw slots in the order of the ranking. -/
theorem map_key_rankSlots (fl : Floats) (inp : EngineInput) (raw : List RawSlot) :
    (rankSlots inp raw fl).map ScoredSlot.key =
      ((raw.insertionSort rankLE).take inp.constraints.topN.toNat).map RawSlot.key := by
  unfold rankSlots
  refine List.ext_getElem (by simp) fun i h1 h2 => ?_
  simp only [List.getElem_map, List.getElem_mapIdx, key_toScoredSlot]

/-- A ranked slot is a raw slot with its rank. -/
theorem exists_toScoredSlot {raw : List RawSlot} {s : ScoredSlot} (hs : s ∈ rankSlots inp raw fl) :
    ∃ r ∈ raw, ∃ n, s = toScoredSlot inp.weights r n fl := by
  obtain ⟨i, hi, rfl⟩ := List.mem_mapIdx.mp hs
  exact ⟨_, (List.mem_insertionSort rankLE).mp (List.mem_of_mem_take (List.getElem_mem hi)), _, rfl⟩

theorem nodup_start_rankSlots {raw : List RawSlot} (hnodup : (raw.map (·.start)).Nodup) :
    ((rankSlots inp raw fl).map (·.startTime)).Nodup := by
  have hstarts : (rankSlots inp raw fl).map (·.startTime) =
      ((raw.insertionSort rankLE).take inp.constraints.topN.toNat).map (·.start) := by
    have hkeys := congrArg (List.map Prod.snd) (map_key_rankSlots fl inp raw)
    rw [List.map_map, List.map_map] at hkeys
    exact hkeys
  rw [hstarts]
  have hperm := (List.perm_insertionSort rankLE raw).map (·.start)
  exact (hperm.nodup_iff.mpr hnodup).sublist ((List.take_sublist _ _).map _)

theorem map_rank_rankSlots (raw : List RawSlot) :
    (rankSlots inp raw fl).map (·.rank) = List.range' 1 (rankSlots inp raw fl).length := by
  unfold rankSlots
  refine List.ext_getElem (by simp) fun i h1 h2 => ?_
  simp only [List.getElem_map, List.getElem_mapIdx, List.getElem_range', rank_toScoredSlot]
  omega

theorem length_rankSlots (raw : List RawSlot) :
    (rankSlots inp raw fl).length = min inp.constraints.topN.toNat raw.length := by
  unfold rankSlots
  rw [List.length_mapIdx, List.length_take, List.length_insertionSort]

theorem pairwise_rankSlots {raw : List RawSlot} (hnodup : (raw.map (·.start)).Nodup) :
    (rankSlots inp raw fl).Pairwise fun s s' => Precedes s.key s'.key := by
  have htake := (pairwise_ranked hnodup).sublist
    (List.take_sublist inp.constraints.topN.toNat (raw.insertionSort rankLE))
  rw [← List.pairwise_map (f := ScoredSlot.key) (R := Precedes), map_key_rankSlots, List.pairwise_map]
  exact htake

/-- **Nothing that is left out precedes a slot that is returned.** -/
theorem returned_or_preceded (inp : EngineInput) {raw : List RawSlot}
    (hnodup : (raw.map (·.start)).Nodup) {r : RawSlot} (hr : r ∈ raw) :
    (∃ s ∈ rankSlots inp raw fl, s.key = r.key) ∨
      ∀ s ∈ rankSlots inp raw fl, Precedes s.key r.key := by
  have hr := (List.mem_insertionSort rankLE).mpr hr
  have hall := pairwise_ranked hnodup
  rw [← List.take_append_drop inp.constraints.topN.toNat (raw.insertionSort rankLE)] at hr hall
  have hkeys := map_key_rankSlots fl inp raw
  rcases List.mem_append.mp hr with hr | hr
  · left
    have hmem := List.mem_map_of_mem (f := RawSlot.key) hr
    rw [← hkeys] at hmem
    exact List.mem_map.mp hmem
  · right
    intro s hs
    have hmem := List.mem_map_of_mem (f := ScoredSlot.key) hs
    rw [hkeys] at hmem
    obtain ⟨r', hr', hkey⟩ := List.mem_map.mp hmem
    rw [← hkey]
    exact (List.pairwise_append.mp hall).2.2 r' hr' r hr

/-! ### The top slots -/

/-- **Top-N ranking.** On an accepted input, if the working day can be measured, the engine returns when what
it computes is within the bounds of Python's dates and times, and raises an `OverflowError` when it is not. It
returns as many slots as it may, or all there are; each is a start of the grid with its score, their starts
are different, their ranks count from 1, they are ordered by total and start, and every other start of the
grid comes after all of them. -/
theorem generateRecommendations_topN (db : ZoneDatabase) (inp : EngineInput)
    (hv : validate db inp = .ok ())
    (hd : hours inp.constraints.workingHours.dayStart ≠ hours inp.constraints.workingHours.dayEnd ∨
      gridSlots db inp = ∅) :
    ((∃ res, generateRecommendations db inp = .ok res) ↔ Representable db inp ∧ GridFits db inp) ∧
    RaisesOnly .overflowError (generateRecommendations db inp) ∧
    ∀ res, generateRecommendations db inp = .ok res →
      (res.slots.length : ℤ) = min inp.constraints.topN (gridSlots db inp).ncard ∧
      (res.slots.map (·.startTime)).Nodup ∧
      res.slots.map (·.rank) = List.range' 1 res.slots.length ∧
      (∀ s ∈ res.slots, ∃ iv ∈ walked db inp, OnGrid inp.constraints iv s.startTime ∧
        s.endTime = s.startTime + minutes inp.constraints.durationMinutes ∧
        score db inp iv s.startTime = .ok (s.scoreBreakdown, s.totalScore)) ∧
      (res.slots.Pairwise fun s s' =>
        Precedes (s.totalScore, s.startTime) (s'.totalScore, s'.startTime)) ∧
      ∀ iv ∈ walked db inp, ∀ t, OnGrid inp.constraints iv t →
        ∃ breakdown total, score db inp iv t = .ok (breakdown, total) ∧
          ((∃ s ∈ res.slots, s.startTime = t ∧ s.totalScore = total) ∨
            ∀ s ∈ res.slots, Precedes (s.totalScore, s.startTime) (total, t)) := by
  obtain ⟨hacc, hh⟩ := validate_eq_ok.mp hv
  have hd : DayMeasured db inp := hd.imp_right fun hnone => (gridSlots_eq_empty_iff hacc).mp hnone
  refine ⟨generateRecommendations_returns_iff hacc hh hd, raisesOnly_of_dayMeasured hacc hd, fun res hres => ?_⟩
  obtain ⟨-, -, raw, hraw, rfl⟩ := generateRecommendations_eq_ok.mp hres
  have hstarts : raw.flatten.map (·.start) = gridTimes db inp := map_start_raw hraw
  have hnodup : (raw.flatten.map (·.start)).Nodup := by
    rw [hstarts]
    exact (pairwise_gridTimes hacc).imp fun hlt => ne_of_lt hlt
  refine ⟨?_, nodup_start_rankSlots hnodup, map_rank_rankSlots _, fun s hs => ?_,
    pairwise_rankSlots hnodup, fun iv hiv t ht => ?_⟩
  · have hlen : raw.flatten.length = (gridSlots db inp).ncard := by
      rw [ncard_gridSlots hacc, ← hstarts, List.length_map]
    have htop := hacc.topN_pos
    rw [length_rankSlots, hlen]
    omega
  · obtain ⟨r, hr, n, rfl⟩ := exists_toScoredSlot hs
    obtain ⟨iv, hiv, hgrid, hstop, hscore⟩ := exists_of_mem_raw hacc hraw hr
    obtain ⟨hend, hbreak⟩ := toScoredSlot_times inp.weights r n
    rw [hend, hbreak, totalScore_toScoredSlot, startTime_toScoredSlot]
    exact ⟨iv, hiv, hgrid, hstop, hscore⟩
  · -- the start has been scored, and is returned or comes later
    obtain ⟨rs, hrs, hrow⟩ := forall₂_exists_left hraw.flip hiv
    obtain ⟨r, hr, hscore, rfl, -⟩ := forall₂_exists_left (rawSlots_eq_ok.mp hrow).flip
      ((mem_gridStarts hacc.step_pos).mpr ht)
    refine ⟨r.breakdown, r.total, hscore, ?_⟩
    rcases returned_or_preceded inp hnodup (List.mem_flatten.mpr ⟨rs, hrs, hr⟩) with
      ⟨s, hs, hkey⟩ | hall
    · exact .inl ⟨s, hs, congrArg Prod.snd hkey, congrArg Prod.fst hkey⟩
    · exact .inr hall

/-- The sample is recommended slots with different starts, counted from 1. -/
theorem generateRecommendations_topN_sample :
    ∃ res, generateRecommendations .utcOnly sampleInput = .ok res ∧
      (res.slots.length : ℤ) = min (3 : ℤ) (gridSlots .utcOnly sampleInput).ncard ∧
      (res.slots.map (·.startTime)).Nodup ∧
      res.slots.map (·.rank) = List.range' 1 res.slots.length := by
  have hgen : (generateRecommendations .utcOnly sampleInput).toOption.isSome = true := by decide +kernel
  obtain ⟨res, hres⟩ := exists_of_isSome hgen
  obtain ⟨-, -, hall⟩ := generateRecommendations_topN .utcOnly sampleInput rfl
    (.inl (mt hours_eq_iff.mp (by decide)))
  obtain ⟨hlen, hnodup, hrank, -⟩ := hall res hres
  exact ⟨res, hres, hlen, hnodup, hrank⟩

/-- The sample on a grid of nearly ten thousand years. -/
def sparseInput : EngineInput :=
  { sampleInput with constraints := { sampleInput.constraints with slotStepMinutes := 5000000000 } }

/-- **There is one slot on the grid, and the engine does not return it**: the next start is not before the
year 10000. -/
theorem next_start_overflows : validate .utcOnly sparseInput = .ok () ∧
    (gridSlots .utcOnly sparseInput).ncard = 1 ∧
    generateRecommendations .utcOnly sparseInput = .error .overflowError := by
  have hv : validate .utcOnly sparseInput = .ok () := rfl
  refine ⟨hv, ?_, by decide +kernel⟩
  rw [ncard_gridSlots (validate_eq_ok.mp hv).1]
  decide +kernel

end InterviewScheduler.Engine
