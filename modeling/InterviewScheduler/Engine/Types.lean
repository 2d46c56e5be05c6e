import Mathlib.Data.Int.ConditionallyCompleteOrder
import Mathlib.Data.Rat.Defs
import Mathlib.Order.CompletePartialOrder
import Mathlib.Algebra.Order.Ring.Unbundled.Rat
import InterviewScheduler.Intervals.Cover

/-! # Data contracts of the scheduling engine

The plain data of `types.py`. An `Instant` is an aware datetime taken to UTC, counted in
microseconds (the resolution of Python's `datetime`); a difference of instants is a `timedelta`.
The bounds of both are checked where the engine computes one (`Bounds`). Scores are rationals, the values of
the code's floats.

A time zone is what `zoneinfo` makes of a name: its local calendar date and time of day at an
instant, and the instant of a local wall time. None of the three is assumed to be monotone, so that
gaps and folds of any kind are allowed. -/

namespace InterviewScheduler.Engine

open InterviewScheduler.Intervals

/-- Microseconds since the epoch, in UTC. -/
abbrev Instant := ℤ

/-- `timedelta(minutes=m)`. -/
def minutes (m : ℤ) : ℤ := m * 60000000

/-- `timedelta(days=d)`. -/
def days (d : ℤ) : ℤ := d * 86400000000

/-- A Python datetime: offset-aware, and given by its time in UTC, which is a datetime too, or naive and then
only a wall time. -/
inductive DateTime where
  | aware (utc : Instant)
  | naive (wall : ℤ)
  deriving DecidableEq, Repr

/-- `dt.astimezone(UTC)`. Python takes a naive datetime to be in the system's zone; the engine has
refused every naive datetime (`asUtc`) before it gets here. -/
def DateTime.astimezone : DateTime → Instant
  | aware utc => utc
  | naive wall => wall

/-- A `datetime.time`. -/
structure TimeOfDay where
  hour : Fin 24
  minute : Fin 60
  second : Fin 60
  microsecond : Fin 1000000
  /-- which of two instants is meant, when the wall time is shown twice -/
  fold : Bool := false
  deriving DecidableEq, Repr

/-- `time(hour, minute)` -/
def TimeOfDay.time (hour minute : ℕ) : TimeOfDay where
  hour := Fin.ofNat 24 hour
  minute := Fin.ofNat 60 minute
  second := 0
  microsecond := 0

/-- A local calendar day, in days since the epoch. -/
abbrev Date := ℤ

/-- A loaded `ZoneInfo`. -/
structure Zone where
  /-- `dt.astimezone(tz).date()` -/
  localDate : Instant → Date
  /-- the time of day of `dt.astimezone(tz)` -/
  localTime : Instant → TimeOfDay
  /-- `datetime.combine(d, t, tzinfo=tz).astimezone(UTC)`, with the fold of `t` -/
  toUtc : Date → TimeOfDay → Instant

/-- Microseconds since local midnight. -/
def TimeOfDay.micros (t : TimeOfDay) : ℤ :=
  (((t.hour * 60 + t.minute) * 60 + t.second : ℕ) : ℤ) * 1000000 + t.microsecond

/-- A zone with one fixed offset from UTC, as `Etc/GMT+5`; with offset 0, `UTC`. -/
def Zone.fixed (offset : ℤ) : Zone where
  localDate t := (t + offset) / days 1
  localTime t :=
    let s := (t + offset) / 1000000
    { hour := Fin.ofNat 24 (s / 3600 % 24).toNat, minute := Fin.ofNat 60 (s / 60 % 60).toNat
      second := Fin.ofNat 60 (s % 60).toNat, microsecond := Fin.ofNat 1000000 ((t + offset) % 1000000).toNat }
  toUtc d t := days d + t.micros - offset

/-- The IANA database: which names `ZoneInfo(name)` accepts, and what it loads for them. -/
structure ZoneDatabase where
  known : String → Bool
  zone : String → Zone

/-- A database that knows only `UTC`. -/
def ZoneDatabase.utcOnly : ZoneDatabase where
  known name := name == "UTC"
  zone _ := Zone.fixed 0

/-- What the engine raises. -/
inductive EngineError where
  | schedulingEngineError (message : String)
  | zeroDivisionError
  | overflowError
  deriving DecidableEq, Repr

/-- A half-open interval of instants. -/
abbrev TimeInterval := HalfOpen Instant

/-- Local-time working-hours preference. -/
structure WorkingHours where
  dayStart : TimeOfDay := .time 9 0
  dayEnd : TimeOfDay := .time 18 0
  coreStart : TimeOfDay := .time 10 0
  coreEnd : TimeOfDay := .time 17 0
  deriving DecidableEq, Repr

structure Participant where
  participantId : String
  timezone : String
  isCandidate : Bool := false
  /-- Busy blocks of a panelist; ignored for the candidate. -/
  busy : List (HalfOpen DateTime) := []
  deriving DecidableEq, Repr

/-- A window the candidate offers. -/
structure CandidateWindow where
  start : DateTime
  stop : DateTime
  deriving DecidableEq, Repr

structure ScoringWeights where
  timezoneFairness : ℚ := 30 / 100
  workingHoursComfort : ℚ := 20 / 100
  schedulingProximity : ℚ := 20 / 100
  workloadBalance : ℚ := 15 / 100
  bufferQuality : ℚ := 15 / 100
  deriving DecidableEq, Repr

structure SchedulingConstraints where
  durationMinutes : ℤ
  bufferMinutes : ℤ
  horizonDays : ℤ := 21
  proximityHorizonDays : ℤ := 14
  slotStepMinutes : ℤ := 15
  topN : ℤ := 3
  workingHours : WorkingHours := {}
  deriving DecidableEq, Repr

structure EngineInput where
  referenceTime : DateTime
  participants : List Participant
  candidateWindows : List CandidateWindow
  constraints : SchedulingConstraints
  /-- Interview start times already booked, by participant id. -/
  existingBookings : String → List Instant := fun _ => []
  weights : ScoringWeights := {}

structure ScoreBreakdown where
  timezoneFairness : ℚ
  workingHoursComfort : ℚ
  schedulingProximity : ℚ
  workloadBalance : ℚ
  bufferQuality : ℚ
  deriving DecidableEq, Repr

/-- `FACTOR_NAMES`. -/
inductive Factor where
  | timezoneFairness
  | workingHoursComfort
  | schedulingProximity
  | workloadBalance
  | bufferQuality
  deriving DecidableEq, Repr

structure ScoredSlot where
  startTime : Instant
  endTime : Instant
  totalScore : ℚ
  rank : ℕ
  scoreBreakdown : ScoreBreakdown
  explanation : String
  relevantReasoningFactors : List Factor
  deriving DecidableEq, Repr

/-- `ALGORITHM_VERSION`. -/
def algorithmVersion : String := "1.0.0"

structure EngineResult where
  slots : List ScoredSlot
  algorithmVersion : String := Engine.algorithmVersion
  deriving DecidableEq, Repr

end InterviewScheduler.Engine
