import InterviewScheduler.Engine.Pipeline

/-! # Free intervals over unbounded dates and times

The mathematics of steps 3 to 5, without the bounds of Python's dates and times. The engine's functions
compute the same when all working days that they look at are within the bounds (`DaysFit`), and raise an
`OverflowError` when they are not (`freeIntervals_of_fit`, `freeIntervals_of_not_fit`). -/

namespace InterviewScheduler.Engine

open InterviewScheduler.Intervals InterviewScheduler.Util

namespace Unbounded

/-- The windows of `n` local days from `d` on. -/
def workingDays (tz : Zone) (wh : WorkingHours) : ℕ → Date → List TimeInterval
  | 0, _ => []
  | n + 1, d => workingDay tz wh d :: workingDays tz wh n (d + 1)

def workingIntervals (db : ZoneDatabase) (participant : Participant) (span : TimeInterval)
    (wh : WorkingHours) : List TimeInterval :=
  let tz := db.zone participant.timezone
  let d := tz.localDate span.start
  let last := tz.localDate span.stop
  merge (workingDays tz wh (last + 1 - d).toNat d)

def participantFree (db : ZoneDatabase) (wh : WorkingHours) (span : TimeInterval)
    (mergedWindows : List TimeInterval) (p : Participant) : List TimeInterval :=
  let working := workingIntervals db p span wh
  let free :=
    if p.isCandidate then intersect working mergedWindows else subtract working (busyOf p)
  clip free span.start span.stop

def freeIntervals (db : ZoneDatabase) (inp : EngineInput) (windows : List TimeInterval) :
    List TimeInterval :=
  intersectAll (inp.participants.map
    (participantFree db inp.constraints.workingHours (spanOf windows) (merge windows)))

end Unbounded

/-- The window of a local day is within the bounds, and there is a next day. -/
structure DayFits (tz : Zone) (wh : WorkingHours) (d : Date) : Prop where
  start : IsDatetime (workingDay tz wh d).start
  stop : IsDatetime (workingDay tz wh d).stop
  next : IsDate (d + 1)

/-- The local days that a span touches are within the bounds. -/
structure DaysFit (tz : Zone) (wh : WorkingHours) (span : TimeInterval) : Prop where
  first : IsDate (tz.localDate span.start)
  last : IsDate (tz.localDate span.stop)
  days : ∀ d, tz.localDate span.start ≤ d → d ≤ tz.localDate span.stop → DayFits tz wh d

variable {db : ZoneDatabase} {inp : EngineInput} {tz : Zone} {wh : WorkingHours} {span : TimeInterval}
  {windows : List TimeInterval} {p : Participant} {l : List TimeInterval}

/-! ### The loop over the days -/

theorem workingDays_eq_ok {n : ℕ} {d : Date} : workingDays tz wh n d = .ok l ↔
    (∀ d', d ≤ d' → d' < d + n → DayFits tz wh d') ∧ l = Unbounded.workingDays tz wh n d := by
  induction n generalizing d l with
  | zero =>
    rw [workingDays, pure_eq_ok, eq_comm]
    refine ⟨fun h => ⟨fun d' h1 h2 => ?_, h⟩, And.right⟩
    rw [Nat.cast_zero, add_zero] at h2
    lia
  | succ n ih =>
    simp only [workingDays, Unbounded.workingDays, datetime, date, bind_eq_ok, bounded_eq_ok, pure_eq_ok]
    constructor
    · rintro ⟨_, ⟨hstart, rfl⟩, _, ⟨hstop, rfl⟩, _, ⟨hnext, rfl⟩, out, hout, rfl⟩
      obtain ⟨hdays, rfl⟩ := ih.mp hout
      refine ⟨fun d' h1 h2 => ?_, rfl⟩
      rcases eq_or_lt_of_le h1 with rfl | h1
      · exact ⟨hstart, hstop, hnext⟩
      · refine hdays d' (by lia) ?_
        push_cast at h2
        lia
    · rintro ⟨hdays, rfl⟩
      obtain ⟨hstart, hstop, hnext⟩ := hdays d le_rfl (by push_cast; lia)
      refine ⟨_, ⟨hstart, rfl⟩, _, ⟨hstop, rfl⟩, _, ⟨hnext, rfl⟩, _, ih.mpr ⟨fun d' h1 h2 => ?_, rfl⟩, rfl⟩
      exact hdays d' (by lia) (by push_cast; lia)

theorem raisesOnly_workingDays {n : ℕ} {d : Date} : RaisesOnly .overflowError (workingDays tz wh n d) := by
  induction n generalizing d with
  | zero => exact raisesOnly_pure
  | succ n ih =>
    refine raisesOnly_bounded.bind fun start _ => raisesOnly_bounded.bind fun stop _ => ?_
    exact raisesOnly_bounded.bind fun next _ => ih.bind fun out _ => raisesOnly_pure

theorem workingIntervals_eq_ok : workingIntervals db p span wh = .ok l ↔
    DaysFit (db.zone p.timezone) wh span ∧ l = Unbounded.workingIntervals db p span wh := by
  simp only [workingIntervals, Unbounded.workingIntervals, date, bind_eq_ok, bounded_eq_ok, pure_eq_ok,
    workingDays_eq_ok]
  constructor
  · rintro ⟨_, ⟨hfirst, rfl⟩, _, ⟨hlast, rfl⟩, _, ⟨hdays, rfl⟩, rfl⟩
    exact ⟨⟨hfirst, hlast, fun d h1 h2 => hdays d h1 (by lia)⟩, rfl⟩
  · rintro ⟨⟨hfirst, hlast, hdays⟩, rfl⟩
    exact ⟨_, ⟨hfirst, rfl⟩, _, ⟨hlast, rfl⟩, _, ⟨fun d h1 h2 => hdays d h1 (by lia), rfl⟩, rfl⟩

theorem raisesOnly_workingIntervals : RaisesOnly .overflowError (workingIntervals db p span wh) := by
  refine raisesOnly_bounded.bind fun d _ => raisesOnly_bounded.bind fun last _ => ?_
  exact raisesOnly_workingDays.bind fun out _ => raisesOnly_pure

/-! ### The loop over the participants -/

theorem participantFree_eq_ok {merged : List TimeInterval} : participantFree db wh span merged p = .ok l ↔
    DaysFit (db.zone p.timezone) wh span ∧ l = Unbounded.participantFree db wh span merged p := by
  simp only [participantFree, bind_eq_ok, pure_eq_ok, workingIntervals_eq_ok]
  constructor
  · rintro ⟨_, ⟨hdays, rfl⟩, rfl⟩
    exact ⟨hdays, rfl⟩
  · rintro ⟨hdays, rfl⟩
    exact ⟨_, ⟨hdays, rfl⟩, rfl⟩

theorem freeIntervals_eq_ok : freeIntervals db inp windows = .ok l ↔
    (∀ p ∈ inp.participants,
      DaysFit (db.zone p.timezone) inp.constraints.workingHours (spanOf windows)) ∧
      l = Unbounded.freeIntervals db inp windows := by
  simp only [freeIntervals, bind_eq_ok, pure_eq_ok, mapM_eq_ok, participantFree_eq_ok]
  unfold Unbounded.freeIntervals
  constructor
  · rintro ⟨free, hfree, rfl⟩
    refine ⟨fun p hp => ?_, ?_⟩
    · obtain ⟨x, -, hdays, -⟩ := forall₂_exists_left hfree.flip hp
      exact hdays
    · congr 1
      rw [← List.forall₂_eq_eq_eq, List.forall₂_map_right_iff]
      exact hfree.flip.imp fun _ _ h => h.2
  · rintro ⟨hdays, rfl⟩
    refine ⟨_, ?_, rfl⟩
    rw [List.forall₂_map_right_iff, List.forall₂_same]
    exact fun p hp => ⟨hdays p hp, rfl⟩

/-- **Within the bounds nothing overflows.** -/
theorem freeIntervals_of_fit (h : ∀ p ∈ inp.participants,
    DaysFit (db.zone p.timezone) inp.constraints.workingHours (spanOf windows)) :
    freeIntervals db inp windows = .ok (Unbounded.freeIntervals db inp windows) :=
  freeIntervals_eq_ok.mpr ⟨h, rfl⟩

theorem raisesOnly_freeIntervals : RaisesOnly .overflowError (freeIntervals db inp windows) :=
  (raisesOnly_mapM fun _ _ => raisesOnly_workingIntervals.bind fun _ _ => raisesOnly_pure).bind
    fun _ _ => raisesOnly_pure

theorem freeIntervals_of_not_fit (h : ¬ ∀ p ∈ inp.participants,
    DaysFit (db.zone p.timezone) inp.constraints.workingHours (spanOf windows)) :
    freeIntervals db inp windows = .error .overflowError :=
  raisesOnly_freeIntervals.eq_error fun ⟨_, hfree⟩ => h (freeIntervals_eq_ok.mp hfree).1

end InterviewScheduler.Engine
