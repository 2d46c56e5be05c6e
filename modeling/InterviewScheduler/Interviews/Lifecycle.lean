import InterviewScheduler.Booking.Service
import InterviewScheduler.Scheduling.Service
import InterviewScheduler.Interviews.Service

/-! # Lifecycle transitions

`interviews/lifecycle.py`: decline, reschedule, cancel, the outcome of an interview and the next round.
The first three take the booking lock, cancel the Google event outside of any database transaction,
then change the status in one transaction. -/

namespace InterviewScheduler.Interviews

open InterviewScheduler.Core InterviewScheduler.Effects
open InterviewScheduler.Booking (Part Parts participantsWithUsers getConfirmedEvent
  organiserConnection createReconciliationTask)
open InterviewScheduler.Calendar (accessTokenOf)

/-- `_TERMINAL` -/
def terminal : List RequestStatus := [.cancelled, .completed]

/-- `_load` -/
def load (requestId : Id) : M InterviewRequest := do
  let request ← dbGet requestId
  Prog.orRaise request (notFoundError "interview request not found")

/-- `_emails` -/
def emails (parts : Parts) : M (String × List String) := do
  let candidate ← Prog.orRaise (parts.find? Part.isCandidate) (.builtin "RuntimeError")
  pure (candidate.2.email, (parts.filter Part.isPanelist).map (·.2.email))

/-- `{"reason": reason} if reason else {}` -/
def reasonMetadata (reason : Option (Text 1000)) : List (String × String) :=
  ((Notifications.truthy (reason.map (·.val))).map (("reason", ·))).toList

variable (pf : Platform)

/-! ### The active event -/

/-- The Google call of `_cancel_active_event`; an `AppError` on the way counts as not deleted. -/
def deleteFromCalendar (parts : Parts) (event : InterviewEvent) : M Bool :=
  tryCatch
    (do
      let organiser ← organiserConnection pf (parts.filter Part.isPanelist)
      let token ← accessTokenOf pf organiser
      Calendar.deleteEvent token event.calendarEventId)
    fun e => if e.isApp then pure false else throw e

/-- `_cancel_active_event`: a Google failure still cancels the row, and opens a task. -/
def cancelActiveEvent (parts : Parts) (event : InterviewEvent) (trigger : String) : M Unit :=
  if event.provider = .simulated then dbAdd (.cancelEvent event.id)
  else do
    let deleted ← deleteFromCalendar pf parts event
    dbAdd (.cancelEvent event.id)
    if deleted then pure ()
    else
      createReconciliationTask event.calendarEventId "CANCEL_DELETE_FAILED" [("trigger", trigger)]
        (some event.id) false

/-- The CONFIRMED event of the request is cancelled, when there is one. -/
def cancelConfirmed (parts : Parts) (requestId : Id) (trigger : String) :
    M (Option InterviewEvent) := do
  let event ← getConfirmedEvent requestId
  match event with
  | some e => do
    cancelActiveEvent pf parts e trigger
    pure (some e)
  | none => pure none

/-! ### After the commit -/

/-- `_notify`, for an event that was cancelled -/
def notify (event : Option InterviewEvent) (ntype : NotificationType) (parts : Parts)
    (reason : Option (Text 1000)) : M Unit :=
  match event with
  | none => pure ()
  | some event => do
    let (candidateEmail, panelistEmails) ← emails parts
    Notifications.logFailure (Notifications.sendLifecycleNotification pf event ntype candidateEmail
      panelistEmails (reason.map (·.val)))

/-- `_retrigger_recommendations` -/
def retriggerRecommendations (actor : User) (requestId : Id) : M Unit := do
  let request ← dbGet requestId
  match request with
  | none => pure ()
  | some _ => do
    dbAdd (.setStatus requestId .readyForScheduling)
    dbCommit
    let _ ← Prog.attempt (Scheduling.generate pf actor requestId)

/-! ### Decline, reschedule, cancel -/

/-- The critical section of `decline`. -/
def declineLocked (actor : User) (requestId : Id) (parts : Parts) (reason : Option (Text 1000)) :
    M (Option InterviewEvent × RequestStatus) := do
  let request ← load requestId
  dbAddSide (.setResponse requestId actor.id .declined)
  if request.status = .booked then do
    let event ← cancelConfirmed pf parts requestId "decline"
    dbAdd (.setStatus requestId .rescheduling)
    recordAudit actor "INTERVIEW_DECLINED" requestId (reasonMetadata reason)
    dbCommit
    pure (event, .rescheduling)
  else do
    dbAdd (.setStatus requestId .readyForScheduling)
    recordAudit actor "INTERVIEW_DECLINED" requestId (reasonMetadata reason)
    dbCommit
    pure (none, .readyForScheduling)

def decline (actor : User) (requestId : Id) (reason : Option (Text 1000)) : M RequestStatus := do
  let _ ← load requestId
  -- nothing keeps the instance
  dbExpunge requestId
  let parts ← participantsWithUsers requestId
  Prog.raiseIf (¬ parts.any fun p => p.2.id = actor.id ∧ p.isPanelist)
    (.app .forbiddenError "only an assigned panelist may decline this interview")
  let (event, resp) ← redisLock (.booking requestId) 10
    (declineLocked pf actor requestId parts reason)
  notify pf event .decline parts reason
  if resp = .rescheduling then do
    retriggerRecommendations pf actor requestId
    pure resp
  else pure resp

/-- The critical section of `reschedule` and of `cancel`: re-check, cancel the event, set the status. -/
def transitionLocked (actor : User) (requestId : Id) (parts : Parts) (reason : Option (Text 1000))
    (allowed : RequestStatus → Bool) (refused : Exc) (trigger : String) (status : RequestStatus)
    (action : String) : M (Option InterviewEvent) := do
  let request ← load requestId
  Prog.raiseIf (allowed request.status = false) refused
  let event ← cancelConfirmed pf parts requestId trigger
  dbAdd (.setStatus requestId status)
  recordAudit actor action requestId (reasonMetadata reason)
  dbCommit
  pure event

def reschedulable (status : RequestStatus) : Bool := status = .booked

def rescheduleLocked (actor : User) (requestId : Id) (parts : Parts)
    (reason : Option (Text 1000)) : M (Option InterviewEvent) :=
  transitionLocked pf actor requestId parts reason reschedulable (.ofClass .notBookedError)
    "reschedule" .rescheduling "INTERVIEW_RESCHEDULE_REQUESTED"

def reschedule (actor : User) (requestId : Id) (reason : Option (Text 1000)) :
    M RequestStatus := do
  let request ← load requestId
  Prog.raiseIf (reschedulable request.status = false) (.ofClass .notBookedError)
  let parts ← participantsWithUsers requestId
  let event ← redisLock (.booking requestId) 10 (rescheduleLocked pf actor requestId parts reason)
  notify pf event .reschedule parts reason
  retriggerRecommendations pf actor requestId
  pure .rescheduling

def cancellable (status : RequestStatus) : Bool := status ∉ terminal

def cancelLocked (actor : User) (requestId : Id) (parts : Parts) (reason : Option (Text 1000)) :
    M (Option InterviewEvent) :=
  transitionLocked pf actor requestId parts reason cancellable (.ofClass .requestAlreadyTerminalError)
    "cancel" .cancelled "INTERVIEW_CANCELLED"

def cancel (actor : User) (requestId : Id) (reason : Option (Text 1000)) : M RequestStatus := do
  let request ← load requestId
  Prog.raiseIf (cancellable request.status = false) (.ofClass .requestAlreadyTerminalError)
  let parts ← participantsWithUsers requestId
  let event ← redisLock (.booking requestId) 10 (cancelLocked pf actor requestId parts reason)
  notify pf event .cancellation parts reason
  pure .cancelled

/-! ### Outcome and next round -/

/-- A no-show needs the grace period after the scheduled start to have passed. -/
def checkGrace (requestId : Id) (outcome : Outcome) : M Unit :=
  if outcome = .noShow then do
    let event ← getConfirmedEvent requestId
    match event with
    | none => pure ()
    | some event => do
      let t ← now
      Prog.raiseIf (t < event.startTime + Engine.minutes pf.interviewNoShowGraceMinutes)
        (.ofClass .noShowGraceActiveError)
  else pure ()

def recordOutcome (actor : User) (requestId : Id) (outcome : Outcome)
    (notes : Option (Text 2000)) : M InterviewRequestOut := do
  let request ← load requestId
  Prog.raiseIf (request.status ≠ .booked ∧ request.status ≠ .completed)
    (.ofClass .outcomeNotAllowedError)
  checkGrace pf requestId outcome
  dbAdd (.setOutcome requestId outcome (notes.map (·.val)))
  dbAdd (.setStatus requestId .completed)
  recordAudit actor "INTERVIEW_OUTCOME_RECORDED" requestId
    [("outcome", outcome.name), ("round_number", toString request.roundNumber)]
  dbCommit
  let stored ← getWithParticipants requestId
  Prog.orRaise stored (.builtin "AttributeError")

structure NextRoundRequest where
  roundType : RoundType
  durationMinutes : ℤ
  bufferMinutes : ℤ := 15
  panelistIds : List Id
  title : Option (Text 200) := none
  company : Option (Text 200) := none
  duration_pos : 0 < durationMinutes
  buffer_nonneg : 0 ≤ bufferMinutes
  panelistIds_ne_nil : panelistIds ≠ []
  /-- `_dedupe_next` -/
  panelistIds_nodup : panelistIds.Nodup

def createNextRound (actor : User) (requestId : Id) (data : NextRoundRequest) :
    M InterviewRequestOut := do
  let parent ← load requestId
  Prog.raiseIf (parent.status ≠ .completed ∨ parent.outcome ≠ some .passed)
    (.ofClass .nextRoundNotAllowedError)
  let found ← getUsers data.panelistIds
  Prog.raiseIf (missingIds data.panelistIds found ≠ [])
    (notFoundError ("unknown user id(s): " ++ idList (missingIds data.panelistIds found)))
  Prog.raiseIf (wrongRole data.panelistIds found ≠ [])
    (invalidParticipantError ("not a PANELIST: " ++ idList (wrongRole data.panelistIds found)))
  Prog.raiseIf (parent.candidateId ∈ data.panelistIds)
    (invalidParticipantError "the candidate cannot also be a panelist")
  let child ← create
    { id := 0, candidateId := parent.candidateId, createdBy := actor.id, roundType := data.roundType,
      durationMinutes := data.durationMinutes, bufferMinutes := data.bufferMinutes,
      status := .awaitingCandidateAvailability
      title := (data.title.map (·.val)).or parent.title
      company := (data.company.map (·.val)).or parent.company
      roundNumber := parent.roundNumber + 1, parentRequestId := some requestId }
    data.panelistIds
  recordAudit actor "NEXT_ROUND_CREATED" child.id
    [("parent_request_id", toString requestId), ("round_number", toString child.roundNumber)]
  dbCommit
  let participants ← participantRows child.id
  pure ⟨child, participants⟩

end InterviewScheduler.Interviews
