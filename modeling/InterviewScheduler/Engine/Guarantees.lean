import InterviewScheduler.Engine.FreeSet
import InterviewScheduler.Engine.Grid

/-! # What the engine guarantees

* Soundness (`generateRecommendations_sound`): a recommended slot has the requested duration and,
  with the buffer on both sides, lies in what the candidate offers and in everybody's working hours
  and meets no busy block.
* Completeness (`generateRecommendations_complete`): if what it computes is within the bounds of Python's
  dates and times (`Representable`), the engine finds nothing exactly when no buffered slot fits into the
  common free set. If not, it raises an `OverflowError`.
* It returns exactly if also the grid and the scores are within the bounds (`GridFits`), unless the working
  day starts and ends at the same hour and a slot is to be scored (`generateRecommendations_returns_iff`). -/

namespace InterviewScheduler.Engine

open InterviewScheduler.Intervals InterviewScheduler.Util

variable {db : ZoneDatabase} {inp : EngineInput} {fl : Floats}

/-- The intervals the engine walks, when it gets that far. -/
def walked (db : ZoneDatabase) (inp : EngineInput) : List TimeInterval :=
  Unbounded.freeIntervals db inp (normalizeWindows inp.candidateWindows)

theorem walked_spec (h : Accepted db inp) :
    cover (walked db inp) = commonFreeSet db inp ∧ Canonical (walked db inp) :=
  freeIntervals_spec h

/-- The slot with the buffer on both sides. -/
def buffered (inp : EngineInput) (start : Instant) : TimeInterval :=
  ⟨start - minutes inp.constraints.bufferMinutes,
    start + minutes inp.constraints.durationMinutes + minutes inp.constraints.bufferMinutes⟩

/-! ### The run as facts -/

/-- The durations that are computed from the constraints are within the bounds. -/
structure DeltasFit (c : SchedulingConstraints) : Prop where
  duration : IsTimedelta (minutes c.durationMinutes)
  buffer : IsTimedelta (minutes c.bufferMinutes)
  step : IsTimedelta (minutes c.slotStepMinutes)
  buffers : IsTimedelta (2 * minutes c.bufferMinutes)
  needed : IsTimedelta (minutes c.durationMinutes + 2 * minutes c.bufferMinutes)

/-- **What is computed before the first slot is scored is within the bounds**: the local days of every
participant, and the durations. -/
structure Representable (db : ZoneDatabase) (inp : EngineInput) : Prop where
  days : ∀ p ∈ inp.participants,
    DaysFit (db.zone p.timezone) inp.constraints.workingHours (candidateSpan inp)
  deltas : DeltasFit inp.constraints

theorem timedeltas_eq_ok {c : SchedulingConstraints} {u : Unit} :
    timedeltas c = .ok u ↔ DeltasFit c := by
  simp only [timedeltas, timedelta, bind_eq_ok, bounded_eq_ok, pure_eq_ok]
  constructor
  · rintro ⟨_, ⟨h1, rfl⟩, _, ⟨h2, rfl⟩, _, ⟨h3, rfl⟩, _, ⟨h4, rfl⟩, _, ⟨h5, rfl⟩, -⟩
    exact ⟨h1, h2, h3, h4, h5⟩
  · rintro ⟨h1, h2, h3, h4, h5⟩
    exact ⟨_, ⟨h1, rfl⟩, _, ⟨h2, rfl⟩, _, ⟨h3, rfl⟩, _, ⟨h4, rfl⟩, _, ⟨h5, rfl⟩, trivial⟩

theorem raisesOnly_timedeltas {c : SchedulingConstraints} : RaisesOnly .overflowError (timedeltas c) := by
  refine raisesOnly_bounded.bind fun _ _ => raisesOnly_bounded.bind fun _ _ => ?_
  refine raisesOnly_bounded.bind fun _ _ => raisesOnly_bounded.bind fun _ _ => ?_
  exact raisesOnly_bounded.bind fun _ _ => raisesOnly_pure

/-- A run returns when the input is accepted, within the bounds, and every interval could be scored. -/
theorem generateRecommendations_eq_ok {res : EngineResult} :
    generateRecommendations db inp fl = .ok res ↔
      Accepted db inp ∧ (HorizonFits inp ∧ Representable db inp) ∧ ∃ raw,
        List.Forall₂ (fun iv rs => rawSlots db inp iv fl = .ok rs) (walked db inp) raw ∧
        res = { slots := rankSlots inp raw.flatten fl } := by
  simp only [generateRecommendations, bind_eq_ok, validate_eq_ok, freeIntervals_eq_ok, timedeltas_eq_ok,
    mapM_eq_ok, pure_eq_ok]
  constructor
  · rintro ⟨-, ⟨hacc, hhorizon⟩, _, ⟨hdays, rfl⟩, -, hdeltas, raw, hraw, rfl⟩
    exact ⟨hacc, ⟨hhorizon, hdays, hdeltas⟩, raw, hraw, rfl⟩
  · rintro ⟨hacc, ⟨hhorizon, hdays, hdeltas⟩, raw, hraw, rfl⟩
    exact ⟨(), ⟨hacc, hhorizon⟩, _, ⟨hdays, rfl⟩, (), hdeltas, raw, hraw, rfl⟩

/-- Otherwise an accepted input within the bounds raises what the scoring of a start raises. -/
theorem generateRecommendations_of_representable (h : Accepted db inp) (hh : HorizonFits inp)
    (hr : Representable db inp) : generateRecommendations db inp fl =
      ((walked db inp).mapM fun iv => rawSlots db inp iv fl) >>=
        fun raw => pure { slots := rankSlots inp raw.flatten fl } := by
  have hvalid : validate db inp = .ok () := validate_eq_ok.mpr ⟨h, hh⟩
  have hfree := freeIntervals_of_fit hr.days
  have hdeltas : timedeltas inp.constraints = .ok () := timedeltas_eq_ok.mpr hr.deltas
  unfold generateRecommendations
  rw [hvalid]
  simp only [bind, Except.bind]
  rw [hfree, hdeltas]
  rfl

/-- What is out of the bounds before the scoring raises an `OverflowError`. -/
theorem generateRecommendations_of_not_representable (h : Accepted db inp)
    (hr : ¬ (HorizonFits inp ∧ Representable db inp)) :
    generateRecommendations db inp fl = .error .overflowError := by
  by_cases hh : HorizonFits inp
  · have hvalid : validate db inp = .ok () := validate_eq_ok.mpr ⟨h, hh⟩
    unfold generateRecommendations
    rw [hvalid]
    by_cases hdays : ∀ p ∈ inp.participants,
        DaysFit (db.zone p.timezone) inp.constraints.workingHours (candidateSpan inp)
    · have hfree := freeIntervals_of_fit hdays
      have hdeltas : timedeltas inp.constraints = .error .overflowError :=
        raisesOnly_timedeltas.eq_error fun ⟨_, hok⟩ => hr ⟨hh, hdays, timedeltas_eq_ok.mp hok⟩
      simp only [bind, Except.bind]
      rw [hfree, hdeltas]
    · have hfree := freeIntervals_of_not_fit hdays
      simp only [bind, Except.bind]
      rw [hfree]
  · have hvalid := validate_of_not_fit h hh
    unfold generateRecommendations
    rw [hvalid]
    rfl

/-- The engine raises what the scoring of its starts raises. -/
theorem raisesOnly_generateRecommendations {e : EngineError} (h : Accepted db inp)
    (hfit : HorizonFits inp ∧ Representable db inp)
    (hslot : ∀ iv ∈ walked db inp, ∀ t ∈ gridStarts inp.constraints iv, RaisesOnly e (rawSlot db inp iv t)) :
    RaisesOnly e (generateRecommendations db inp) := by
  rw [generateRecommendations_of_representable h hfit.1 hfit.2]
  exact (raisesOnly_mapM fun iv hiv => raisesOnly_mapM fun t ht => hslot iv hiv t ht).bind
    fun _ _ => raisesOnly_pure

/-- **The engine rejects no accepted input**: what it raises is one of Python's own exceptions. -/
theorem generateRecommendations_not_rejected (h : Accepted db inp) {message : String} :
    generateRecommendations db inp ≠ .error (.schedulingEngineError message) := by
  intro he
  by_cases hfit : HorizonFits inp ∧ Representable db inp
  · by_cases hw : hours inp.constraints.workingHours.dayStart = hours inp.constraints.workingHours.dayEnd
    · have honly := raisesOnly_generateRecommendations h hfit fun iv _ t _ =>
        raisesOnly_of_eq_error (rawSlot_of_hours_eq h iv t hw)
      cases honly _ he
    · have honly := raisesOnly_generateRecommendations h hfit fun iv _ t _ => raisesOnly_rawSlot h iv t hw
      cases honly _ he
  · rw [generateRecommendations_of_not_representable h hfit] at he
    cases he

/-- A ranked slot is a raw slot. -/
theorem exists_of_mem_rankSlots {raw : List RawSlot} {s : ScoredSlot} (hs : s ∈ rankSlots inp raw fl) :
    ∃ r ∈ raw, s.startTime = r.start ∧ s.endTime = r.stop ∧ s.scoreBreakdown = r.breakdown := by
  obtain ⟨i, hi, rfl⟩ := List.mem_mapIdx.mp hs
  exact ⟨_, (List.mem_insertionSort rankLE).mp (List.mem_of_mem_take (List.getElem_mem hi)),
    rfl, rfl, rfl⟩

theorem rankSlots_eq_nil_iff (h : Accepted db inp) {raw : List RawSlot} :
    rankSlots inp raw fl = [] ↔ raw = [] := by
  have hn : inp.constraints.topN.toNat ≠ 0 := by have := h.topN_pos; omega
  rw [rankSlots, List.mapIdx_eq_nil_iff, List.take_eq_nil_iff]
  rw [← List.length_eq_zero_iff, ← List.length_eq_zero_iff, List.length_insertionSort]
  simp [hn]

/-- A returned slot is a grid slot of an interval the engine walked, with the score of its start. -/
theorem exists_grid_of_mem_slots {res : EngineResult}
    (hres : generateRecommendations db inp fl = .ok res) {s : ScoredSlot} (hs : s ∈ res.slots) :
    ∃ iv ∈ walked db inp, s.startTime ∈ gridStarts inp.constraints iv ∧
      s.endTime = s.startTime + minutes inp.constraints.durationMinutes ∧
      ∃ total, score db inp iv s.startTime fl = .ok (s.scoreBreakdown, total) := by
  obtain ⟨-, -, raw, hraw, rfl⟩ := generateRecommendations_eq_ok.mp hres
  obtain ⟨r, hr, hstart, hend, hbreak⟩ := exists_of_mem_rankSlots hs
  obtain ⟨rs, hrs, hr⟩ := List.mem_flatten.mp hr
  obtain ⟨iv, hiv, hrow⟩ := forall₂_exists_left hraw hrs
  obtain ⟨t, ht, hscore, hrt, hstop, -⟩ := forall₂_exists_left (rawSlots_eq_ok.mp hrow) hr
  rw [hstart, hend, hstop, hrt, hbreak]
  exact ⟨iv, hiv, ht, rfl, _, hscore⟩

/-- A grid slot and its buffers lie in the interval. -/
theorem buffered_subset (h : Accepted db inp) {iv : TimeInterval} {t : Instant}
    (ht : t ∈ gridStarts inp.constraints iv) : (buffered inp t).toSet ⊆ iv.toSet := by
  obtain ⟨k, rfl, hle⟩ := (mem_gridStarts h.step_pos).mp ht
  have hs : 0 < minutes inp.constraints.slotStepMinutes := by
    have := h.step_pos
    unfold minutes; linarith
  have hk : 0 ≤ (k : ℤ) * minutes inp.constraints.slotStepMinutes := by positivity
  rintro x ⟨h1, h2⟩
  simp only [buffered] at h1 h2
  exact ⟨by linarith, by linarith⟩

/-- A returned slot with its buffers lies in the common free set. -/
theorem slot_subset_commonFreeSet {res : EngineResult}
    (hres : generateRecommendations db inp fl = .ok res) {s : ScoredSlot} (hs : s ∈ res.slots) :
    Set.Ico (s.startTime - minutes inp.constraints.bufferMinutes)
      (s.endTime + minutes inp.constraints.bufferMinutes) ⊆ commonFreeSet db inp := by
  have hacc := (generateRecommendations_eq_ok.mp hres).1
  obtain ⟨iv, hiv, hgrid, hend, -⟩ := exists_grid_of_mem_slots hres hs
  rw [hend, ← (walked_spec hacc).1]
  exact (buffered_subset hacc hgrid).trans (toSet_subset_cover hiv)

/-! ### Soundness -/

/-- A small input: a candidate with two touching windows, 9 to 13 and 13 to 14 o'clock on day 0, and
one panelist, busy from 10 to 11, for an hour with a buffer of a quarter of an hour. -/
def sampleInput : EngineInput where
  referenceTime := .aware 0
  participants :=
    [{ participantId := "c", timezone := "UTC", isCandidate := true },
      { participantId := "p", timezone := "UTC", busy := [⟨.aware (minutes 600), .aware (minutes 660)⟩] }]
  candidateWindows := [⟨.aware (minutes 540), .aware (minutes 780)⟩,
    ⟨.aware (minutes 780), .aware (minutes 840)⟩]
  constraints := { durationMinutes := 60, bufferMinutes := 15 }

/-- **Engine soundness.** Every returned slot has the requested duration, and with its buffers it
lies in the candidate's windows and in every participant's working hours, and is disjoint from
every busy block of every panelist. -/
theorem generateRecommendations_sound (db : ZoneDatabase) (inp : EngineInput) (res : EngineResult)
    (hres : generateRecommendations db inp = .ok res) (s : ScoredSlot) (hs : s ∈ res.slots) :
    s.endTime - s.startTime = minutes inp.constraints.durationMinutes ∧
    (Set.Ico (s.startTime - minutes inp.constraints.bufferMinutes)
      (s.endTime + minutes inp.constraints.bufferMinutes) ⊆ candidateSet inp) ∧
    (∀ p ∈ inp.participants, Set.Ico (s.startTime - minutes inp.constraints.bufferMinutes)
      (s.endTime + minutes inp.constraints.bufferMinutes) ⊆ workingSet db inp p) ∧
    ∀ p ∈ inp.participants, p.isCandidate = false → ∀ b ∈ busyOf p,
      Disjoint (Set.Ico (s.startTime - minutes inp.constraints.bufferMinutes)
        (s.endTime + minutes inp.constraints.bufferMinutes)) b.toSet := by
  obtain ⟨iv, hiv, hgrid, hend, -⟩ := exists_grid_of_mem_slots hres hs
  have hfree := slot_subset_commonFreeSet hres hs
  refine ⟨by rw [hend]; ring, fun t ht => (hfree ht).1, fun p hp t ht => (hfree ht).2.1 p hp,
    fun p hp hc b hb => ?_⟩
  rw [Set.disjoint_left]
  exact fun t ht htb => (hfree ht).2.2 p hp hc ⟨b, hb, htb⟩

/-- The first slot of the sample keeps the hour, and the buffer before it starts when the panelist's
busy block ends. -/
theorem generateRecommendations_sound_sample :
    ∃ res, generateRecommendations .utcOnly sampleInput = .ok res ∧ ∃ s ∈ res.slots,
      s.endTime - s.startTime = minutes 60 ∧
      Disjoint (Set.Ico (s.startTime - minutes 15) (s.endTime + minutes 15))
        (Set.Ico (minutes 600) (minutes 660)) := by
  have hsome : ((generateRecommendations .utcOnly sampleInput).toOption.bind
      (·.slots.head?)).isSome = true := by decide +kernel
  obtain ⟨s, hs⟩ := Option.isSome_iff_exists.mp hsome
  obtain ⟨res, hres, hhead⟩ := Option.bind_eq_some_iff.mp hs
  have hres : generateRecommendations .utcOnly sampleInput = .ok res := by
    obtain ⟨r, hr⟩ := exists_of_isSome (Option.isSome_of_eq_some hres)
    rw [hr] at hres ⊢
    exact congrArg _ (Option.some.inj hres)
  have hmem := List.mem_of_mem_head? hhead
  obtain ⟨hlen, -, -, hbusy⟩ :=
    generateRecommendations_sound .utcOnly sampleInput res hres s hmem
  refine ⟨res, hres, s, hmem, hlen, ?_⟩
  exact hbusy _ (List.mem_cons_of_mem _ (List.mem_singleton.mpr rfl)) rfl
    ⟨minutes 600, minutes 660⟩ (List.mem_singleton.mpr rfl)

/-! ### Completeness -/

/-- The room a slot needs: its duration and the buffer on both sides. -/
def needed (inp : EngineInput) : ℤ :=
  minutes inp.constraints.durationMinutes + 2 * minutes inp.constraints.bufferMinutes

theorem needed_pos (h : Accepted db inp) : 0 < needed inp := by
  have h1 := h.duration_pos
  have h2 := h.buffer_nonneg
  unfold needed minutes; linarith

/-- Every walked interval is a maximal interval of the common free set. -/
theorem walked_isMaximal (h : Accepted db inp) {iv : TimeInterval} (hiv : iv ∈ walked db inp) :
    IsMaximal (commonFreeSet db inp) iv := by
  obtain ⟨hcover, hcan⟩ := walked_spec h
  rw [← hcover]
  exact hcan.isMaximal hiv

/-- No gap is split: an interval of the common free set lies in one walked interval. -/
theorem exists_walked_of_subset (h : Accepted db inp) {x y : Instant} (hxy : x < y)
    (hs : Set.Ico x y ⊆ commonFreeSet db inp) : ∃ iv ∈ walked db inp, iv.start ≤ x ∧ y ≤ iv.stop := by
  obtain ⟨hcover, hcan⟩ := walked_spec h
  rw [← hcover] at hs
  exact hcan.exists_of_Ico_subset hxy hs

/-- A buffered slot fits into the common free set when some walked interval is long enough. -/
theorem exists_fit_iff (h : Accepted db inp) :
    (∃ t, (buffered inp t).toSet ⊆ commonFreeSet db inp) ↔
      ∃ iv ∈ walked db inp, needed inp ≤ iv.stop - iv.start := by
  have hn := needed_pos h
  constructor
  · rintro ⟨t, ht⟩
    obtain ⟨iv, hiv, h1, h2⟩ := exists_walked_of_subset h
      (x := t - minutes inp.constraints.bufferMinutes)
      (by unfold needed at hn; simp only [buffered]; linarith) ht
    exact ⟨iv, hiv, by simp only [buffered] at h2; unfold needed; linarith⟩
  · rintro ⟨iv, hiv, hle⟩
    refine ⟨iv.start + minutes inp.constraints.bufferMinutes, ?_⟩
    exact (buffered_subset h (first_mem_gridStarts h.step_pos hle)).trans
      (walked_isMaximal h hiv).subset

/-- An interval too short for a slot yields no raw slot, and is not scored. -/
theorem rawSlots_of_short (h : Accepted db inp) {iv : TimeInterval}
    (hiv : iv.stop - iv.start < needed inp) : rawSlots db inp iv fl = .ok [] := by
  rw [rawSlots_eq_ok, (gridStarts_eq_nil_iff h.step_pos).mpr hiv]
  exact .nil

/-- The engine returns the empty list when it is within the bounds and every walked interval is too short, and
only then. -/
theorem generate_eq_empty_iff (h : Accepted db inp) :
    generateRecommendations db inp fl = .ok { slots := [] } ↔ (HorizonFits inp ∧ Representable db inp) ∧
      ∀ iv ∈ walked db inp, iv.stop - iv.start < needed inp := by
  rw [generateRecommendations_eq_ok]
  constructor
  · rintro ⟨-, hfit, raw, hraw, hres⟩
    refine ⟨hfit, fun iv hiv => ?_⟩
    have hnil := (rankSlots_eq_nil_iff h).mp (congrArg EngineResult.slots hres).symm
    obtain ⟨rs, hrs, hrow⟩ := forall₂_exists_left hraw.flip hiv
    rw [List.flatten_eq_nil_iff] at hnil
    rw [hnil rs hrs, rawSlots_eq_ok, List.forall₂_nil_right_iff] at hrow
    exact (gridStarts_eq_nil_iff h.step_pos).mp hrow
  · rintro ⟨hfit, hshort⟩
    refine ⟨h, hfit, (walked db inp).map fun _ => [], ?_, ?_⟩
    · rw [List.forall₂_map_right_iff, List.forall₂_same]
      exact fun iv hiv => rawSlots_of_short h (hshort iv hiv)
    · rw [(rankSlots_eq_nil_iff h).mpr (by simp)]

/-- When the engine returns no slot, it returns the empty result. -/
theorem exists_empty_iff : (∃ res, generateRecommendations db inp fl = .ok res ∧ res.slots = []) ↔
    generateRecommendations db inp fl = .ok { slots := [] } := by
  constructor
  · rintro ⟨res, hres, hnil⟩
    obtain ⟨-, -, raw, -, rfl⟩ := generateRecommendations_eq_ok.mp hres
    rw [hres]
    simp only at hnil
    rw [hnil]
  · exact fun hres => ⟨_, hres, rfl⟩

/-! ### The engine returns -/

/-- **What the loop over the grid computes is within the bounds**: the start after each that is scored, and
the scores. -/
structure GridFits (db : ZoneDatabase) (inp : EngineInput) : Prop where
  next : ∀ iv ∈ walked db inp, ∀ t ∈ gridStarts inp.constraints iv,
    IsDatetime (t + minutes inp.constraints.slotStepMinutes)
  scores : ∀ iv ∈ walked db inp, gridStarts inp.constraints iv ≠ [] → ScoresFit db inp

/-- The working day starts and ends at different hours, minutes or seconds, or nothing is scored. -/
def DayMeasured (db : ZoneDatabase) (inp : EngineInput) : Prop :=
  hours inp.constraints.workingHours.dayStart ≠ hours inp.constraints.workingHours.dayEnd ∨
    ¬ ∃ t, (buffered inp t).toSet ⊆ commonFreeSet db inp

/-- Wall times have the same fractional hours exactly if they differ at most in microsecond and fold. -/
theorem hours_eq_iff {a b : TimeOfDay} :
    hours a = hours b ↔ a.hour = b.hour ∧ a.minute = b.minute ∧ a.second = b.second := by
  have key : ∀ t : TimeOfDay, hours t * 3600 = ((t.hour * 60 + t.minute) * 60 + t.second : ℕ) := by
    intro t; rw [hours_exact]; push_cast; ring
  constructor
  · intro h
    have hab : ((a.hour * 60 + a.minute) * 60 + a.second : ℕ) =
        (b.hour * 60 + b.minute) * 60 + b.second := by
      have := (key a).symm.trans ((congrArg (· * 3600) h).trans (key b))
      exact_mod_cast this
    have hm := a.minute.isLt
    have hm' := b.minute.isLt
    have hs := a.second.isLt
    have hs' := b.second.isLt
    refine ⟨Fin.ext ?_, Fin.ext ?_, Fin.ext ?_⟩ <;> omega
  · rintro ⟨h1, h2, h3⟩
    rw [hours_exact, hours_exact, h1, h2, h3]

/-- A start is scored in an interval that is long enough. -/
theorem not_fits_iff (h : Accepted db inp) : (¬ ∃ t, (buffered inp t).toSet ⊆ commonFreeSet db inp) ↔
    ∀ iv ∈ walked db inp, iv.stop - iv.start < needed inp := by
  rw [exists_fit_iff h]
  push Not
  rfl

/-- A run that returns has scored every start of the grid, and computed the next one. -/
theorem scored_of_eq_ok {res : EngineResult} (hres : generateRecommendations db inp fl = .ok res)
    {iv : TimeInterval} (hiv : iv ∈ walked db inp) {t : Instant} (ht : t ∈ gridStarts inp.constraints iv) :
    (∃ r, score db inp iv t fl = .ok r) ∧ IsDatetime (t + minutes inp.constraints.slotStepMinutes) := by
  obtain ⟨-, -, raw, hraw, -⟩ := generateRecommendations_eq_ok.mp hres
  obtain ⟨rs, -, hrow⟩ := forall₂_exists_left hraw.flip hiv
  obtain ⟨r, -, hscore, -, -, hnext⟩ := forall₂_exists_left (rawSlots_eq_ok.mp hrow).flip ht
  exact ⟨⟨_, hscore⟩, hnext⟩

/-- So it has stayed within the bounds. -/
theorem gridFits_of_eq_ok {res : EngineResult} (hres : generateRecommendations db inp fl = .ok res) :
    GridFits db inp := by
  refine ⟨fun iv hiv t ht => (scored_of_eq_ok hres hiv ht).2, fun iv hiv hne => ?_⟩
  obtain ⟨t, ht⟩ := List.exists_mem_of_ne_nil _ hne
  obtain ⟨⟨r, hscore⟩, -⟩ := scored_of_eq_ok hres hiv ht
  exact scoresFit_of_score_eq_ok hscore

/-- Nothing is divided by zero, if no slot is scored by an empty working day. -/
theorem raisesOnly_of_dayMeasured (h : Accepted db inp) (hd : DayMeasured db inp) :
    RaisesOnly .overflowError (generateRecommendations db inp) := by
  by_cases hfit : HorizonFits inp ∧ Representable db inp
  · refine raisesOnly_generateRecommendations h hfit fun iv hiv t ht => ?_
    rcases hd with hne | hnone
    · exact raisesOnly_rawSlot h iv t hne
    · rw [(gridStarts_eq_nil_iff h.step_pos).mpr ((not_fits_iff h).mp hnone iv hiv)] at ht
      cases ht
  · exact raisesOnly_of_eq_error (generateRecommendations_of_not_representable h hfit)

/-- **The engine returns** within the bounds, if no slot is scored by an empty working day. -/
theorem generateRecommendations_returns (h : Accepted db inp) (hh : HorizonFits inp)
    (hr : Representable db inp) (hg : GridFits db inp) (hd : DayMeasured db inp) :
    ∃ res, generateRecommendations db inp = .ok res := by
  rcases hd with hne | hshort
  · obtain ⟨raw, hraw⟩ := exists_mapM_eq_ok.mpr fun iv (hiv : iv ∈ walked db inp) =>
      exists_mapM_eq_ok.mpr fun t (ht : t ∈ gridStarts inp.constraints iv) =>
        exists_bind_eq_ok (score_ok h iv t (hg.scores iv hiv (List.ne_nil_of_mem ht)) hne) fun r _ =>
          exists_bind_eq_ok ⟨_, bounded_of (hg.next iv hiv t ht)⟩ fun _ _ => ⟨_, rfl⟩
    exact ⟨_, generateRecommendations_eq_ok.mpr ⟨h, ⟨hh, hr⟩, raw, mapM_eq_ok.mp hraw, rfl⟩⟩
  · exact ⟨_, (generate_eq_empty_iff h).mpr ⟨⟨hh, hr⟩, (not_fits_iff h).mp hshort⟩⟩

/-- And only within the bounds. -/
theorem generateRecommendations_returns_iff (h : Accepted db inp) (hh : HorizonFits inp)
    (hd : DayMeasured db inp) :
    (∃ res, generateRecommendations db inp = .ok res) ↔ Representable db inp ∧ GridFits db inp := by
  constructor
  · rintro ⟨res, hres⟩
    obtain ⟨-, ⟨-, hr⟩, -⟩ := generateRecommendations_eq_ok.mp hres
    exact ⟨hr, gridFits_of_eq_ok hres⟩
  · rintro ⟨hr, hg⟩
    exact generateRecommendations_returns h hh hr hg hd

/-- **Engine completeness.** On an accepted input the engine returns an empty list exactly when what it
computes is within the bounds and no buffered slot fits into the common free set; out of the bounds it raises
an `OverflowError`. The intervals it walks are maximal intervals of this set, every interval of the set lies
in one of them, and one that is exactly as long as a buffered slot has one grid start. If the working day can
be measured, it returns exactly when also the loop over the grid stays within the bounds, and raises an
`OverflowError` otherwise. -/
theorem generateRecommendations_complete (db : ZoneDatabase) (inp : EngineInput)
    (hv : validate db inp = .ok ()) :
    ((∃ res, generateRecommendations db inp = .ok res ∧ res.slots = []) ↔ Representable db inp ∧
      ¬ ∃ t, Set.Ico (t - minutes inp.constraints.bufferMinutes)
        (t + minutes inp.constraints.durationMinutes + minutes inp.constraints.bufferMinutes) ⊆
          commonFreeSet db inp) ∧
    (¬ Representable db inp → generateRecommendations db inp = .error .overflowError) ∧
    (Representable db inp →
      freeIntervals db inp (normalizeWindows inp.candidateWindows) = .ok (walked db inp)) ∧
    (∀ iv ∈ walked db inp, IsMaximal (commonFreeSet db inp) iv) ∧
    (∀ x y, x < y → Set.Ico x y ⊆ commonFreeSet db inp →
      ∃ iv ∈ walked db inp, iv.start ≤ x ∧ y ≤ iv.stop) ∧
    (∀ iv ∈ walked db inp, iv.stop - iv.start = minutes inp.constraints.durationMinutes +
        2 * minutes inp.constraints.bufferMinutes →
      gridStarts inp.constraints iv = [iv.start + minutes inp.constraints.bufferMinutes]) ∧
    (DayMeasured db inp →
      ((∃ res, generateRecommendations db inp = .ok res) ↔ Representable db inp ∧ GridFits db inp) ∧
      RaisesOnly .overflowError (generateRecommendations db inp)) := by
  obtain ⟨h, hh⟩ := validate_eq_ok.mp hv
  refine ⟨?_, fun hr => generateRecommendations_of_not_representable h fun hfit => hr hfit.2,
    fun hr => freeIntervals_of_fit hr.days, fun iv hiv => walked_isMaximal h hiv,
    fun x y hxy hs => exists_walked_of_subset h hxy hs, fun iv _ hlen => gridStarts_of_exact hlen,
    fun hd => ⟨generateRecommendations_returns_iff h hh hd, raisesOnly_of_dayMeasured h hd⟩⟩
  have hfit := not_fits_iff h
  simp only [buffered, HalfOpen.toSet] at hfit
  rw [exists_empty_iff, generate_eq_empty_iff h, hfit]
  exact ⟨fun ⟨⟨_, hr⟩, hshort⟩ => ⟨hr, hshort⟩, fun ⟨hr, hshort⟩ => ⟨⟨hh, hr⟩, hshort⟩⟩

/-- On the sample a buffered hour fits, so the engine does not return an empty list. -/
theorem generateRecommendations_complete_sample :
    ¬ ∃ res, generateRecommendations .utcOnly sampleInput = .ok res ∧ res.slots = [] := by
  obtain ⟨hempty, -, -, hmax, -⟩ := generateRecommendations_complete .utcOnly sampleInput rfl
  have hiv : (⟨minutes 660, minutes 840⟩ : TimeInterval) ∈ walked .utcOnly sampleInput := by
    decide +kernel
  rw [hempty]
  refine fun hnone => hnone.2 ⟨minutes 675, Set.Subset.trans ?_ (hmax _ hiv).subset⟩
  rintro t ⟨h1, h2⟩
  exact ⟨by simp [sampleInput, minutes] at h1 ⊢; linarith,
    by simp [sampleInput, minutes] at h2 ⊢; linarith⟩

/-- The sample for two million million minutes. -/
def endlessInput : EngineInput :=
  { sampleInput with constraints := { sampleInput.constraints with durationMinutes := 2000000000000 } }

/-- **No slot fits, and the engine does not return an empty list**: a million million minutes are no
`timedelta`. -/
theorem timedelta_overflows : validate .utcOnly endlessInput = .ok () ∧
    (¬ ∃ t, Set.Ico (t - minutes endlessInput.constraints.bufferMinutes)
      (t + minutes endlessInput.constraints.durationMinutes +
        minutes endlessInput.constraints.bufferMinutes) ⊆ commonFreeSet .utcOnly endlessInput) ∧
    generateRecommendations .utcOnly endlessInput = .error .overflowError := by
  have hv : validate .utcOnly endlessInput = .ok () := rfl
  have hshort : ∀ iv ∈ walked .utcOnly endlessInput, iv.stop - iv.start < needed endlessInput := by
    decide +kernel
  exact ⟨hv, (not_fits_iff (validate_eq_ok.mp hv).1).mpr hshort, by decide +kernel⟩

end InterviewScheduler.Engine
