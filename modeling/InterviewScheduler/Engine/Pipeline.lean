import InterviewScheduler.Engine.IntervalMath
import InterviewScheduler.Engine.Explain

/-! # The ten-step pipeline

`engine.py`: validate, merge busy blocks, free intervals, intersect, candidate slots on the grid,
score, rank, and the top `n` with breakdown and explanation. Plain data in, plain data out; the only
parameters are the zone database that `ZoneInfo` reads, and the arithmetic of the scores, which is exact
unless another one is given. -/

namespace InterviewScheduler.Engine

open InterviewScheduler.Intervals

/-! ### Steps 1 and 2: validation -/

def raiseIf (c : Prop) [Decidable c] (message : String) : Except EngineError Unit :=
  if c then .error (.schedulingEngineError message) else .ok ()

def asUtc (dt : DateTime) (label : String) : Except EngineError Instant :=
  match dt with
  | .aware utc => .ok utc
  | .naive _ => .error (.schedulingEngineError (label ++ " must be timezone-aware"))

def validateConstraints (c : SchedulingConstraints) : Except EngineError Unit := do
  raiseIf (c.durationMinutes ≤ 0) "duration_minutes must be > 0"
  raiseIf (c.bufferMinutes < 0) "buffer_minutes must be >= 0"
  raiseIf (c.slotStepMinutes ≤ 0) "slot_step_minutes must be > 0"
  raiseIf (c.topN ≤ 0) "top_n must be > 0"
  raiseIf (c.proximityHorizonDays ≤ 0) "proximity_horizon_days must be > 0"

def validateBusy (b : HalfOpen DateTime) : Except EngineError Unit := do
  let e ← asUtc b.stop "busy.end"
  let s ← asUtc b.start "busy.start"
  raiseIf (e ≤ s) "busy interval end must be after start"

def validateParticipant (db : ZoneDatabase) (p : Participant) : Except EngineError Unit := do
  raiseIf (db.known p.timezone = false) ("invalid timezone: '" ++ p.timezone ++ "'")
  p.busy.forM validateBusy

def validateWindow (ref horizonEnd : Instant) (horizonDays : ℤ) (w : CandidateWindow) :
    Except EngineError Unit := do
  let s ← asUtc w.start "window.start"
  let e ← asUtc w.stop "window.end"
  raiseIf (e ≤ s) "window end must be after start"
  raiseIf (s < ref) "window start must not be in the past"
  raiseIf (horizonEnd < e)
    ("window must fall within " ++ toString horizonDays ++ " days of reference_time")

def validate (db : ZoneDatabase) (inp : EngineInput) : Except EngineError Unit := do
  let c := inp.constraints
  validateConstraints c
  let ref ← asUtc inp.referenceTime "reference_time"
  let horizon ← timedelta (days c.horizonDays)
  let horizonEnd ← datetime (ref + horizon)
  raiseIf ((inp.participants.filter (·.isCandidate)).length ≠ 1)
    "exactly one participant must be the candidate"
  raiseIf ((inp.participants.filter (!·.isCandidate)) = []) "at least one panelist is required"
  inp.participants.forM (validateParticipant db)
  raiseIf (inp.candidateWindows = []) "at least one candidate availability window is required"
  inp.candidateWindows.forM (validateWindow ref horizonEnd c.horizonDays)

def normalizeWindows (windows : List CandidateWindow) : List TimeInterval :=
  windows.map fun w => ⟨w.start.astimezone, w.stop.astimezone⟩

/-! ### Steps 3 to 5: free intervals -/

/-- The working-hours window of the local day `d`. -/
def workingDay (tz : Zone) (wh : WorkingHours) (d : Date) : TimeInterval :=
  ⟨tz.toUtc d wh.dayStart, tz.toUtc d wh.dayEnd⟩

/-- The loop `while d <= last`, one local day after the other. -/
def workingDays (tz : Zone) (wh : WorkingHours) : ℕ → Date → Except EngineError (List TimeInterval)
  | 0, _ => pure []
  | n + 1, d => do
    let start ← datetime (workingDay tz wh d).start
    let stop ← datetime (workingDay tz wh d).stop
    let next ← date (d + 1)
    let out ← workingDays tz wh n next
    pure (⟨start, stop⟩ :: out)

/-- Per local calendar day in `span`: the participant's working-hours window. -/
def workingIntervals (db : ZoneDatabase) (participant : Participant) (span : TimeInterval)
    (wh : WorkingHours) : Except EngineError (List TimeInterval) := do
  let tz := db.zone participant.timezone
  let d ← date (tz.localDate span.start)
  let last ← date (tz.localDate span.stop)
  let out ← workingDays tz wh (last + 1 - d).toNat d
  pure (merge out)

/-- `TimeInterval(min(w.start for w in windows), max(w.end for w in windows))`. -/
def spanOf (windows : List TimeInterval) : TimeInterval :=
  ⟨(windows.map (·.start)).min?.getD 0, (windows.map (·.stop)).max?.getD 0⟩

def busyOf (p : Participant) : List TimeInterval :=
  p.busy.map fun b => ⟨b.start.astimezone, b.stop.astimezone⟩

/-- The body of the loop over the participants in `_free_intervals`. -/
def participantFree (db : ZoneDatabase) (wh : WorkingHours) (span : TimeInterval)
    (mergedWindows : List TimeInterval) (p : Participant) : Except EngineError (List TimeInterval) := do
  let working ← workingIntervals db p span wh
  let free :=
    if p.isCandidate then intersect working mergedWindows else subtract working (busyOf p)
  pure (clip free span.start span.stop)

/-- What is free for all. -/
def intersectAll : List (List TimeInterval) → List TimeInterval
  | [] => []
  | common :: rest => rest.foldl intersect common

def freeIntervals (db : ZoneDatabase) (inp : EngineInput) (windows : List TimeInterval) :
    Except EngineError (List TimeInterval) := do
  let span := spanOf windows
  let wh := inp.constraints.workingHours
  let mergedWindows := merge windows
  let perParticipant ← inp.participants.mapM (participantFree db wh span mergedWindows)
  pure (intersectAll perParticipant)

/-! ### Steps 6 to 10: grid, score, rank -/

def score (db : ZoneDatabase) (inp : EngineInput) (interval : TimeInterval) (start : Instant)
    (fl : Floats := .exact) : Except EngineError (ScoreBreakdown × ℚ) := do
  let c := inp.constraints
  let dur := minutes c.durationMinutes
  let stop := start + dur
  let mid := start + dur / 2
  let panelists := inp.participants.filter (!·.isCandidate)
  let gapBefore := fl.quot (totalSeconds (start - interval.start) fl) 60
  let gapAfter := fl.quot (totalSeconds (interval.stop - stop) fl) 60
  let breakdown : ScoreBreakdown := {
    timezoneFairness := ← timezoneFairness db mid inp.participants c.workingHours fl
    workingHoursComfort := ← workingHoursComfort db mid inp.participants c.workingHours fl
    schedulingProximity :=
      ← schedulingProximity start inp.referenceTime.astimezone c.proximityHorizonDays fl
    workloadBalance := ← workloadBalance db start panelists inp.existingBookings fl
    bufferQuality := ← bufferQuality gapBefore gapAfter c.bufferMinutes fl }
  pure (breakdown, weightedTotal breakdown inp.weights fl)

/-- A scored candidate slot, an entry of `raw`. -/
structure RawSlot where
  start : Instant
  stop : Instant
  breakdown : ScoreBreakdown
  total : ℚ
  deriving DecidableEq, Repr

/-- The loop `while t <= latest` of one interval, at most `fuel` rounds of it. -/
def gridLoop (latest step : ℤ) : ℕ → Instant → List Instant
  | 0, _ => []
  | fuel + 1, t => if t ≤ latest then t :: gridLoop latest step fuel (t + step) else []

/-- `dur`, `buf`, `step` and `needed` -/
def timedeltas (c : SchedulingConstraints) : Except EngineError Unit := do
  let dur ← timedelta (minutes c.durationMinutes)
  let buf ← timedelta (minutes c.bufferMinutes)
  let _step ← timedelta (minutes c.slotStepMinutes)
  let buffers ← timedelta (2 * buf)
  let _needed ← timedelta (dur + buffers)

/-- The start times the loop visits in one interval; the fuel is the number of its rounds
(`mem_gridStarts`). They and the ends of the slots lie in the interval. -/
def gridStarts (c : SchedulingConstraints) (iv : TimeInterval) : List Instant :=
  let dur := minutes c.durationMinutes
  let buf := minutes c.bufferMinutes
  let step := minutes c.slotStepMinutes
  let needed := dur + 2 * buf
  if iv.stop - iv.start < needed then []
  else
    let t := iv.start + buf
    let latest := iv.stop - dur - buf
    gridLoop latest step ((latest - t) / step + 1).toNat t

/-- The body of the loop: a start is scored, and the next one is computed. -/
def rawSlot (db : ZoneDatabase) (inp : EngineInput) (iv : TimeInterval) (t : Instant)
    (fl : Floats := .exact) : Except EngineError RawSlot := do
  let (breakdown, total) ← score db inp iv t fl
  let _next ← datetime (t + minutes inp.constraints.slotStepMinutes)
  pure ⟨t, t + minutes inp.constraints.durationMinutes, breakdown, total⟩

def rawSlots (db : ZoneDatabase) (inp : EngineInput) (iv : TimeInterval) (fl : Floats := .exact) :
    Except EngineError (List RawSlot) :=
  (gridStarts inp.constraints iv).mapM fun t => rawSlot db inp iv t fl

/-- The sort key `(-total, start)`. -/
def rankLE (a b : RawSlot) : Prop := b.total < a.total ∨ (a.total = b.total ∧ a.start ≤ b.start)

instance : DecidableRel rankLE := fun a b =>
  inferInstanceAs (Decidable (b.total < a.total ∨ (a.total = b.total ∧ a.start ≤ b.start)))

/-- The body of the last loop: one of the top slots, with its rank. -/
def toScoredSlot (weights : ScoringWeights) (r : RawSlot) (rank : ℕ) (fl : Floats := .exact) :
    ScoredSlot :=
  let (explanation, factors) := buildExplanation r.breakdown weights fl
  ⟨r.start, r.stop, r.total, rank, r.breakdown, explanation, factors⟩

/-- Steps 9 and 10: rank by score, earlier start first on a tie, and keep the top `n`. -/
def rankSlots (inp : EngineInput) (raw : List RawSlot) (fl : Floats := .exact) : List ScoredSlot :=
  let ranked := raw.insertionSort rankLE
  (ranked.take inp.constraints.topN.toNat).mapIdx fun i r => toScoredSlot inp.weights r (i + 1) fl

/-- Run the full 10-step pipeline and return the ranked top-N. -/
def generateRecommendations (db : ZoneDatabase) (inp : EngineInput) (fl : Floats := .exact) :
    Except EngineError EngineResult := do
  validate db inp
  let windows := normalizeWindows inp.candidateWindows
  let commonFree ← freeIntervals db inp windows
  timedeltas inp.constraints
  let raw ← commonFree.mapM fun iv => rawSlots db inp iv fl
  pure { slots := rankSlots inp raw.flatten fl }

end InterviewScheduler.Engine
