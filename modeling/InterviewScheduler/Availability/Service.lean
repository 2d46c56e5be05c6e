import InterviewScheduler.Core.Calls
import InterviewScheduler.Engine.Bounds

/-! # Candidate availability

`availability/service.py` with its schema and repository. The windows of a submission are checked
against the clock when the request body is parsed, before the handler runs. -/

namespace InterviewScheduler.Availability

open InterviewScheduler.Engine InterviewScheduler.Core InterviewScheduler.Effects

/-- `AVAILABILITY_HORIZON_DAYS` -/
def availabilityHorizonDays : ℤ := 21

/-- `MAX_WINDOWS` -/
def maxWindows : ℕ := 10

/-- A body that passes the checks of its shape: at least one and at most ten windows, in UTC. -/
structure SubmitAvailabilityRequest where
  timezone : String
  windows : List AvailabilityWindow
  windows_ne_nil : windows ≠ []
  windows_le : windows.length ≤ maxWindows

/-- `_check_bounds` -/
def checkBounds (now : Instant) (w : AvailabilityWindow) : Except Exc Unit :=
  if w.endTime ≤ w.startTime then .error (.requestValidationError "end_time must be after start_time")
  else if w.startTime ≤ now then .error (.requestValidationError "start_time must be in the future")
  else if ¬ IsDatetime (now + days availabilityHorizonDays) then .error (.builtin "OverflowError")
  else if now + days availabilityHorizonDays < w.endTime then
    .error (.requestValidationError
      ("window must fall within " ++ toString availabilityHorizonDays ++ " days"))
  else .ok ()

variable (pf : Platform)

/-- The checks of the schema that need the zone database and the clock. -/
def validate (data : SubmitAvailabilityRequest) : M Unit := do
  Prog.raiseIf (pf.zones.known data.timezone = false)
    (.requestValidationError "not a valid IANA time zone")
  let _ ← Prog.forEach (fun w => do
    let t ← now
    match checkBounds t w with
    | .ok () => pure ()
    | .error e => throw e) data.windows

/-- `repository.create` -/
def create (requestId candidateId : Id) (timezone : String) (windows : List AvailabilityWindow) :
    M CandidateAvailability := do
  let id ← uuid4
  let submittedAt ← transactionTime
  let row : CandidateAvailability :=
    { id, interviewRequestId := requestId, candidateId, timezone, submittedAt, windows }
  dbAdd (.insertAvailability row)
  dbFlush
  pure row

/-- `repository.get_latest` -/
def latestAvailability (pick : ℕ) (db : Db) (requestId : Id) : Option CandidateAvailability :=
  latestBy (·.submittedAt) pick (db.availability.filter fun a => a.interviewRequestId = requestId)

def getLatest (requestId : Id) : M (Option CandidateAvailability) :=
  dbSelect fun pick db => latestAvailability pick db requestId

def submit (actor : User) (requestId : Id) (data : SubmitAvailabilityRequest) :
    M CandidateAvailability := do
  let request ← dbGet requestId
  let request ← Prog.orRaise request (notFoundError "interview request not found")
  Prog.raiseIf (actor.id ≠ request.candidateId)
    (.app .forbiddenError "only the request's own candidate may submit availability")
  Prog.raiseIf (request.status ≠ .awaitingCandidateAvailability)
    (.ofClass .requestNotAwaitingAvailabilityError)
  let row ← create requestId actor.id data.timezone data.windows
  dbAdd (.setStatus requestId .readyForScheduling)
  recordAudit actor "CANDIDATE_AVAILABILITY_SUBMITTED" requestId
    [("window_count", toString data.windows.length), ("timezone", data.timezone)]
  dbCommit
  -- `refresh(row, ["windows"])` reads the stored windows
  let stored ← dbSelect fun _ db => db.availability.find? fun a => a.id = row.id
  pure (stored.getD row)

end InterviewScheduler.Availability
