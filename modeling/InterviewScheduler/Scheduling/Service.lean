import InterviewScheduler.Engine.Pipeline
import InterviewScheduler.Calendar.Service
import InterviewScheduler.Booking.Repository
import InterviewScheduler.Availability.Service

/-! # The scheduling service

`scheduling/service.py` with its repository: gather availability, free/busy data and internal
commitments, run the engine, and store the run with its slots. -/

namespace InterviewScheduler.Scheduling

open InterviewScheduler.Intervals InterviewScheduler.Engine InterviewScheduler.Core
open InterviewScheduler.Effects
open InterviewScheduler.Booking (Part Parts participantsWithUsers confirmedEventsForUsers)
open InterviewScheduler.Calendar (usableConnection getFreeBusy)

/-- `_AVAILABILITY_WINDOW`: 7 to 22 o'clock, in each interviewer's local time. -/
def availabilityWindow : WorkingHours where
  dayStart := .time 7 0
  dayEnd := .time 22 0
  coreStart := .time 9 0
  coreEnd := .time 18 0

/-- `_snapshot` -/
def snapshot (inp : EngineInput) (simulatedCalendar : Bool) : InputSnapshot where
  referenceTime := inp.referenceTime
  durationMinutes := inp.constraints.durationMinutes
  bufferMinutes := inp.constraints.bufferMinutes
  proximityHorizonDays := inp.constraints.proximityHorizonDays
  slotStepMinutes := inp.constraints.slotStepMinutes
  topN := inp.constraints.topN
  weights := inp.weights
  participants := inp.participants
  candidateWindows := inp.candidateWindows
  simulatedCalendar := simulatedCalendar

/-- `round(x, 3)`, half to even. -/
def round3 (x : ℚ) : ℚ :=
  let n := (x * 1000).floor
  let rest := x * 1000 - n
  let up := rest > 1 / 2 ∨ (rest = 1 / 2 ∧ n % 2 ≠ 0)
  (if up then n + 1 else n : ℤ) / 1000

structure RecommendationResponse where
  recommendationRunId : Id
  slots : List RecommendedSlot
  deriving DecidableEq, Repr

/-- `_run_to_response` -/
def runToResponse (run : RecommendationRun) : RecommendationResponse :=
  ⟨run.id, run.slots.insertionSort fun a b => a.rank ≤ b.rank⟩

/-! ### Repository -/

def slotRow (s : ScoredSlot) : M RecommendedSlot := do
  let id ← uuid4
  pure
    { id, startTime := s.startTime, endTime := s.endTime, totalScore := round3 s.totalScore
      scoreBreakdown := s.scoreBreakdown, explanation := s.explanation, rank := s.rank }

def createRun (requestId : Id) (algorithmVersion : String) (inputSnapshot : InputSnapshot)
    (slots : List ScoredSlot) : M RecommendationRun := do
  let id ← uuid4
  let slots ← Prog.forEach slotRow slots
  let generatedAt ← transactionTime
  let run : RecommendationRun :=
    { id, interviewRequestId := requestId, generatedAt, algorithmVersion, inputSnapshot, slots }
  dbAdd (.insertRun run)
  dbFlush
  pure run

def getLatestRun (requestId : Id) : M (Option RecommendationRun) := .perform (.latestRun requestId)

/-! ### Gathering the input -/

/-- Windows that have passed are dropped, and one in progress starts now. -/
def clipWindows (ref : Instant) (windows : List AvailabilityWindow) : List AvailabilityWindow :=
  (windows.filter fun w => ref < w.endTime).map fun w => { w with startTime := max w.startTime ref }

/-- `min` of the starts, for a list that is not empty. -/
def timeMin : List AvailabilityWindow → Instant
  | [] => 0
  | w :: ws => ws.foldl (fun t v => min t v.startTime) w.startTime

/-- `max` of the ends, for a list that is not empty. -/
def timeMax : List AvailabilityWindow → Instant
  | [] => 0
  | w :: ws => ws.foldl (fun t v => max t v.endTime) w.endTime

variable (pf : Platform)

/-- `busy_by_user` from the panelists' calendars: every connection is checked before the first
free/busy request is made. In simulated mode everyone is free. -/
def calendarBusy (panelists : Parts) (tmin tmax : Instant) : M (List (Id × List BusyInterval)) :=
  if pf.calendarSimulated then pure (panelists.map fun p => (p.2.id, []))
  else do
    let conns ← Prog.forEach (fun p : Part => do
      let conn ← usableConnection pf p.2
      pure (p.2.id, conn)) panelists
    Prog.forEach (fun (user, conn) => do
      let busy ← getFreeBusy pf conn tmin tmax
      pure (user, busy)) conns

/-- The internal commitments are added to the calendars' busy blocks. -/
def withInternal (busyByUser : List (Id × List BusyInterval))
    (internal : List (Id × Instant × Instant)) (user : Id) : List BusyInterval :=
  ((busyByUser.find? fun x => x.1 = user).map (·.2)).getD [] ++
    (internal.filter fun x => x.1 = user).map fun x => ⟨.aware x.2.1, .aware x.2.2⟩

def engineInput (request : InterviewRequest) (avail : CandidateAvailability) (panelists : Parts)
    (ref : Instant) (windows : List AvailabilityWindow) (busyOf : Id → List BusyInterval) :
    EngineInput where
  referenceTime := .aware ref
  participants :=
    { participantId := toString request.candidateId, timezone := avail.timezone,
      isCandidate := true } ::
    panelists.map fun p =>
      { participantId := toString p.2.id
        timezone := if p.2.timezone = "" then "UTC" else p.2.timezone
        busy := busyOf p.2.id }
  candidateWindows := windows.map fun w => ⟨.aware w.startTime, .aware w.endTime⟩
  constraints :=
    { durationMinutes := request.durationMinutes, bufferMinutes := request.bufferMinutes,
      workingHours := availabilityWindow }

/-- The engine's own exception becomes an `AppError`; any other one is not caught. -/
def runEngine (inp : EngineInput) : M EngineResult :=
  match generateRecommendations pf.zones inp with
  | .ok result => pure result
  | .error (.schedulingEngineError _) =>
    throw (.app .appError "the scheduling engine could not process this request")
  | .error .zeroDivisionError => throw (.builtin "ZeroDivisionError")
  | .error .overflowError => throw (.builtin "OverflowError")

/-! ### Generation -/

/-- `_fail` -/
def fail (actor : User) (requestId : Id) (reason : String) : M RecommendationResponse := do
  dbAdd (.setStatus requestId .failed)
  recordAudit actor "RECOMMENDATION_FAILED" requestId [("reason", reason)]
  dbCommit
  throw (.ofClass .noCommonAvailabilityError)

/-- The run is stored and the request becomes RECOMMENDED. -/
def persistRun (actor : User) (requestId : Id) (inp : EngineInput) (result : EngineResult) :
    M RecommendationResponse := do
  let run ← createRun requestId result.algorithmVersion (snapshot inp pf.calendarSimulated)
    result.slots
  dbAdd (.setStatus requestId .recommended)
  recordAudit actor "RECOMMENDATION_GENERATED" requestId
    [("recommendation_run_id", toString run.id), ("slot_count", toString result.slots.length)]
  dbCommit
  pure (runToResponse run)

/-- From the clipped windows to the stored run. -/
def recommend (actor : User) (requestId : Id) (request : InterviewRequest)
    (avail : CandidateAvailability) (panelists : Parts) (ref : Instant)
    (windows : List AvailabilityWindow) : M RecommendationResponse := do
  let busyByUser ← calendarBusy pf panelists (timeMin windows) (timeMax windows)
  let internal ← confirmedEventsForUsers (panelists.map (·.2.id)) requestId (timeMin windows)
    (timeMax windows)
  let inp := engineInput request avail panelists ref windows (withInternal busyByUser internal)
  let result ← runEngine pf inp
  if result.slots = [] then fail actor requestId "no_common_availability"
  else persistRun pf actor requestId inp result

/-- The part of `_generate_locked` for a request that is not yet RECOMMENDED. -/
def generateReady (actor : User) (requestId : Id) (request : InterviewRequest) :
    M RecommendationResponse := do
  Prog.raiseIf (request.status ≠ .readyForScheduling) (.ofClass .notReadyForSchedulingError)
  let avail ← Availability.getLatest requestId
  let avail ← Prog.orRaise avail (.ofClass .notReadyForSchedulingError)
  Prog.raiseIf (avail.windows = []) (.ofClass .notReadyForSchedulingError)
  let parts ← participantsWithUsers requestId
  let panelists := parts.filter Part.isPanelist
  Prog.raiseIf (panelists = []) (.ofClass .notReadyForSchedulingError)
  let ref ← now
  let windows := clipWindows ref avail.windows
  if windows = [] then fail actor requestId "all_windows_expired"
  else recommend pf actor requestId request avail panelists ref windows

/-- The latest run of a request that is RECOMMENDED already. -/
def existingRun (requestId : Id) (request : InterviewRequest) : M (Option RecommendationRun) :=
  if request.status = .recommended then getLatestRun requestId else pure none

/-- `_generate_locked` -/
def generateLocked (actor : User) (requestId : Id) : M RecommendationResponse := do
  let _ ← dbGet requestId
  let request ← dbRefresh requestId
  let existing ← existingRun requestId request
  match existing with
  | some run => pure (runToResponse run)
  | none => generateReady pf actor requestId request

/-- The caller that lost the lock waits for the run of the caller that holds it. -/
def waitForRun (requestId : Id) : ℕ → M RecommendationResponse
  | 0 => throw (.ofClass .notReadyForSchedulingError)
  | n + 1 => do
    asyncioSleep
    let _ ← dbGet requestId
    let fresh ← dbRefresh requestId
    Prog.raiseIf (fresh.status = .failed) (.ofClass .noCommonAvailabilityError)
    if fresh.status = .recommended ∨ fresh.status = .booked ∨ fresh.status = .completed then do
      let run ← getLatestRun requestId
      match run with
      | some run => pure (runToResponse run)
      | none => waitForRun requestId n
    else waitForRun requestId n

def generate (actor : User) (requestId : Id) : M RecommendationResponse := do
  let request ← dbGet requestId
  let request ← Prog.orRaise request (notFoundError "interview request not found")
  let existing ← existingRun requestId request
  match existing with
  | some run => pure (runToResponse run)
  | none =>
    tryCatch (redisLock (.recommend requestId) 30 (generateLocked pf actor requestId)) fun
      | .lockNotAcquired => waitForRun requestId 50
      | e => throw e

end InterviewScheduler.Scheduling
