import InterviewScheduler.Calendar.Service
import InterviewScheduler.Notifications.Service
import InterviewScheduler.Booking.Repository

/-! # Booking

The eight steps of `booking/service.py`: lock, re-validate, check for conflicts, create the calendar
event, then one transaction for the event row, the status and the selected slot, then the commit. What
fails after the calendar event exists is compensated: the event is deleted, or a reconciliation task
is opened for it. -/

namespace InterviewScheduler.Booking

open InterviewScheduler.Engine InterviewScheduler.Core InterviewScheduler.Effects
open InterviewScheduler.Calendar (usableConnection accessTokenOf)
open InterviewScheduler.Notifications (roundTitle truthy)

variable (pf : Platform)

def slotNoLongerAvailable (message : String) : Exc := .app .slotNoLongerAvailableError message

/-- The panelist who hosts the event: the first by user id. -/
def firstById : Parts → Option Part
  | [] => none
  | p :: ps => some (ps.foldl (fun best q => if q.2.id < best.2.id then q else best) p)

/-- The event is hosted on the first assigned panelist's calendar. -/
def organiserConnection (panelists : Parts) : M CalendarConnection := do
  let organiser ← Prog.orRaise (firstById panelists) (.builtin "IndexError")
  usableConnection pf organiser.2

/-- A token-free summary of a failure, without the `detail` text of the library. -/
def safeError (e : Exc) : List (String × String) := [("type", e.typeName)]

/-- The task of a compensation that failed; when it cannot be stored either, that is only logged. -/
def reportOrphan (calendarEventId : String) (originalError : Exc) : M Unit :=
  tryCatch
    (createReconciliationTask calendarEventId "COMPENSATING_DELETE_FAILED"
      (safeError originalError ++ [("phase", "db_persist")]) none true)
    fun _ => pure ()

/-- `_compensate` -/
def compensate (organiserToken calendarEventId : String) (originalError : Exc) : M Unit := do
  let deleted ← Calendar.deleteEvent organiserToken calendarEventId
  if deleted then pure () else reportOrphan calendarEventId originalError

/-- What step 4 yields: a Google event with the organiser's token, or a simulated one. -/
structure Hosted where
  organiserToken : Option String
  calEventId : String
  calMeetingLink : Option String
  provider : Provider

/-- The body of the calendar event. -/
def eventDraft (request : InterviewRequest) (startTime endTime : Instant)
    (attendeeEmails : List String) : EventDraft :=
  let label := String.intercalate " · "
    ([truthy request.company, truthy request.title].filterMap id)
  { summary := roundTitle request.roundType ++ " interview" ++
      (if label = "" then "" else " — " ++ label)
    description := String.intercalate "\n"
      (["Scheduled via Smart Interview Scheduler.", ""] ++
        ((truthy request.company).map ("Company: " ++ ·)).toList ++
        ((truthy request.title).map ("Role: " ++ ·)).toList ++
        ["Round: " ++ roundTitle request.roundType])
    start := startTime
    stop := endTime
    attendeeEmails }

/-- Steps 4 and 5. -/
def hostEvent (request : InterviewRequest) (slot : RecommendedSlot) (panelists : Parts)
    (candidateEmail : String) : M Hosted :=
  if pf.calendarSimulated then do
    let id ← uuid4
    pure ⟨none, "sim-" ++ toString id, none, .simulated⟩
  else do
    let organiser ← organiserConnection pf panelists
    let organiserToken ← accessTokenOf pf organiser
    let cal ← Calendar.createEvent organiserToken
      (eventDraft request slot.startTime slot.endTime (candidateEmail :: panelists.map (·.2.email)))
    pure ⟨some organiserToken, cal.eventId, cal.meetingLink, .google⟩

/-- Steps 6 and 7: the transaction. -/
def persist (actor : User) (requestId : Id) (slot : RecommendedSlot) (hosted : Hosted) :
    M InterviewEvent := do
  let event ← insertInterviewEvent requestId slot.startTime slot.endTime hosted.calEventId
    hosted.calMeetingLink hosted.provider
  dbAdd (.setStatus requestId .booked)
  dbAdd (.selectSlot slot.id)
  recordAudit actor "INTERVIEW_BOOKED" requestId
    [("interview_event_id", toString event.id), ("calendar_event_id", hosted.calEventId),
      ("provider", hosted.provider.name)]
  dbCommit
  pure event

/-- The handlers of the transaction: roll back, compensate, and report. -/
def persistFailed (hosted : Hosted) (e : Exc) : M InterviewEvent := do
  dbRollback
  match hosted.organiserToken with
  | some token => compensate token hosted.calEventId e
  | none => pure ()
  if e = .integrityError then
    throw (slotNoLongerAvailable "this request was booked by someone else")
  else throw (.ofClass .bookingPersistenceFailedError)

/-- What is needed for the confirmation after the commit. -/
structure Booked where
  event : InterviewEvent
  candidateEmail : String
  panelistEmails : List String
  roundType : RoundType
  title : Option String
  company : Option String

/-- Steps 2 to 7, under the lock. -/
def bookLocked (actor : User) (requestId : Id) (slot : RecommendedSlot) : M Booked := do
  let request ← dbRefresh requestId
  Prog.raiseIf (request.status ≠ .recommended)
    (slotNoLongerAvailable "this request can no longer be booked")
  let confirmed ← getConfirmedEvent requestId
  Prog.raiseIf (confirmed ≠ none) (slotNoLongerAvailable "this request is already booked")
  let parts ← participantsWithUsers requestId
  let panelists := parts.filter Part.isPanelist
  let candidate ← Prog.orRaise (parts.find? Part.isCandidate) (.builtin "RuntimeError")
  let clashes ← confirmedEventsForUsers (parts.map (·.2.id)) requestId slot.startTime slot.endTime
  Prog.raiseIf (clashes ≠ [])
    (slotNoLongerAvailable "a participant is already booked for another interview at this time")
  let hosted ← hostEvent pf request slot panelists candidate.2.email
  let event ← tryCatch (persist actor requestId slot hosted) (persistFailed hosted)
  pure
    { event, candidateEmail := candidate.2.email, panelistEmails := panelists.map (·.2.email),
      roundType := request.roundType, title := request.title, company := request.company }

def book (actor : User) (requestId slotId : Id) : M InterviewEvent := do
  let found ← getSlotWithRun slotId
  let (slot, run) ← Prog.orRaise found (notFoundError "recommended slot not found for this request")
  Prog.raiseIf (run.interviewRequestId ≠ requestId)
    (notFoundError "recommended slot not found for this request")
  let request ← dbGet requestId
  let request ← Prog.orRaise request (notFoundError "interview request not found")
  let latest ← latestRunId requestId
  Prog.raiseIf (some run.id ≠ latest)
    (slotNoLongerAvailable "this recommendation is no longer current")
  Prog.raiseIf (request.status ≠ .recommended)
    (slotNoLongerAvailable "this request can no longer be booked")
  let booked ← tryCatch (redisLock (.booking requestId) 10 (bookLocked pf actor requestId slot)) fun
    | .lockNotAcquired =>
      throw (slotNoLongerAvailable "a booking is already in progress for this request")
    | e => throw e
  -- the booking is durable: a failed confirmation is logged, with the id of the event
  Notifications.logFailure (Notifications.sendBookingConfirmation pf booked.event booked.candidateEmail
    booked.panelistEmails booked.roundType booked.title booked.company)
  pure booked.event

end InterviewScheduler.Booking
