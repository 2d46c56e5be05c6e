import InterviewScheduler.Engine.Bounds
import InterviewScheduler.Engine.Floats

/-! # The five scoring factors

`scoring.py`, over any arithmetic of floats. A division of the code is `div`, which raises like Python's on a
zero divisor.

The middle of a slot and its start are in a working day of every participant, so that their local times are
within the bounds of Python; those of earlier bookings need not be. -/

namespace InterviewScheduler.Engine

/-- Python's `/`. -/
def div (a b : ℚ) (fl : Floats := .exact) : Except EngineError ℚ :=
  if b = 0 then .error .zeroDivisionError else .ok (fl.quot a b)

def clamp (x : ℚ) : ℚ := if x < 0 then 0 else if 1 < x then 1 else x

/-- A time of day in fractional hours; microseconds and the fold do not count. -/
def hours (t : TimeOfDay) (fl : Floats := .exact) : ℚ :=
  fl.add (fl.add t.hour (fl.quot t.minute 60)) (fl.quot t.second 3600)

/-- Time of day, in fractional hours, at `dt` in the zone `tzName`. -/
def localHours (db : ZoneDatabase) (dt : Instant) (tzName : String) (fl : Floats := .exact) : ℚ :=
  hours ((db.zone tzName).localTime dt) fl

/-- `min(per_participant) if per_participant else 0.0`. -/
def minOrZero (xs : List ℚ) : ℚ := xs.min?.getD 0

/-- Fairness governed by the worst-off participant. -/
def timezoneFairness (db : ZoneDatabase) (slotMid : Instant) (participants : List Participant)
    (wh : WorkingHours) (fl : Floats := .exact) : Except EngineError ℚ := do
  let mid := fl.quot (fl.add (hours wh.dayStart fl) (hours wh.dayEnd fl)) 2
  let halfWidth := fl.quot (fl.sub (hours wh.dayEnd fl) (hours wh.dayStart fl)) 2
  let perParticipant ← participants.mapM fun p => do
    let q ← div |fl.sub (localHours db slotMid p.timezone fl) mid| halfWidth fl
    pure (clamp (fl.sub 1 q))
  pure (minOrZero perParticipant)

/-- `one` of `working_hours_comfort`: 1 inside the core band, linear decay to the day edge. -/
def comfortOne (wh : WorkingHours) (localMid : ℚ) (fl : Floats := .exact) : Except EngineError ℚ :=
  let dayStart := hours wh.dayStart fl
  let dayEnd := hours wh.dayEnd fl
  let coreStart := hours wh.coreStart fl
  let coreEnd := hours wh.coreEnd fl
  if coreStart ≤ localMid ∧ localMid ≤ coreEnd then pure 1
  else if dayStart ≤ localMid ∧ localMid < coreStart then do
    let q ← div (fl.sub localMid dayStart) (fl.sub coreStart dayStart) fl
    pure (clamp q)
  else if coreEnd < localMid ∧ localMid ≤ dayEnd then do
    let q ← div (fl.sub dayEnd localMid) (fl.sub dayEnd coreEnd) fl
    pure (clamp q)
  else pure 0

def workingHoursComfort (db : ZoneDatabase) (slotMid : Instant) (participants : List Participant)
    (wh : WorkingHours) (fl : Floats := .exact) : Except EngineError ℚ := do
  let perParticipant ← participants.mapM fun p =>
    comfortOne wh (localHours db slotMid p.timezone fl) fl
  pure (minOrZero perParticipant)

/-- `(b - a).total_seconds()` -/
def totalSeconds (δ : ℤ) (fl : Floats := .exact) : ℚ := fl.quot δ 1000000

def schedulingProximity (slotStart referenceTime : Instant) (horizonDays : ℤ) (fl : Floats := .exact) :
    Except EngineError ℚ := do
  let daysUntil := fl.quot (totalSeconds (slotStart - referenceTime) fl) 86400
  let horizon ← bounded IsFloat horizonDays
  let q ← div daysUntil (fl.round horizon) fl
  pure (clamp (fl.sub 1 q))

/-- Averaged across panelists: 1 when nobody else has an interview on that panelist's local day. -/
def workloadBalance (db : ZoneDatabase) (slotStart : Instant) (panelists : List Participant)
    (existingBookings : String → List Instant) (fl : Floats := .exact) : Except EngineError ℚ :=
  if panelists = [] then pure 1
  else do
    let scores ← panelists.mapM fun p => do
      let tz := db.zone p.timezone
      let localDay := tz.localDate slotStart
      let booked ← (existingBookings p.participantId).mapM fun b => date (tz.localDate b)
      let count := booked.count localDay
      div 1 (fl.round (1 + count)) fl
    div (fl.sum scores) (fl.round scores.length) fl

/-- Breathing room beyond the mandatory buffer. -/
def bufferQuality (gapBeforeMin gapAfterMin : ℚ) (bufferMinutes : ℤ) (fl : Floats := .exact) :
    Except EngineError ℚ :=
  if bufferMinutes ≤ 0 then pure 1
  else do
    let extra := fl.sub (min gapBeforeMin gapAfterMin) (fl.round bufferMinutes)
    let q ← div extra (fl.round bufferMinutes) fl
    pure (clamp q)

def weightedTotal (breakdown : ScoreBreakdown) (weights : ScoringWeights) (fl : Floats := .exact) : ℚ :=
  fl.add (fl.add (fl.add (fl.add
    (fl.mul weights.timezoneFairness breakdown.timezoneFairness)
    (fl.mul weights.workingHoursComfort breakdown.workingHoursComfort))
    (fl.mul weights.schedulingProximity breakdown.schedulingProximity))
    (fl.mul weights.workloadBalance breakdown.workloadBalance))
    (fl.mul weights.bufferQuality breakdown.bufferQuality)

/-! ### In exact arithmetic -/

theorem hours_exact (t : TimeOfDay) : hours t = t.hour + (t.minute : ℚ) / 60 + (t.second : ℚ) / 3600 := rfl

theorem weightedTotal_exact (breakdown : ScoreBreakdown) (weights : ScoringWeights) :
    weightedTotal breakdown weights = weights.timezoneFairness * breakdown.timezoneFairness
      + weights.workingHoursComfort * breakdown.workingHoursComfort
      + weights.schedulingProximity * breakdown.schedulingProximity
      + weights.workloadBalance * breakdown.workloadBalance
      + weights.bufferQuality * breakdown.bufferQuality := rfl

end InterviewScheduler.Engine
