import InterviewScheduler.Core.Calls

/-! # The booking repository

`booking/repository.py`: the queries on slots, events and participants, and the rows that a booking and
its compensation add. -/

namespace InterviewScheduler.Booking

open InterviewScheduler.Engine InterviewScheduler.Core InterviewScheduler.Effects

/-- A participant with the row of the user. -/
abbrev Part := InterviewParticipant × User

abbrev Parts := List Part

/-- The user ids of a panel. -/
def Part.isPanelist (p : Part) : Bool := p.1.roleInInterview = .panelist

def Part.isCandidate (p : Part) : Bool := p.1.roleInInterview = .candidate

def getSlotWithRun (slotId : Id) : M (Option (RecommendedSlot × RecommendationRun)) :=
  .perform (.slotWithRun slotId)

def latestRunId (requestId : Id) : M (Option Id) := do
  let run ← Prog.perform (.latestRun requestId)
  pure (run.map (·.id))

def getConfirmedEvent (requestId : Id) : M (Option InterviewEvent) :=
  .perform (.confirmedEvent requestId)

/-- The join of participants and users. -/
def partsOf (T : Interviews) (requestId : Id) : Parts :=
  (T.participants requestId).filterMap fun p => (T.users p.userId).map (p, ·)

def participantsWithUsers (requestId : Id) : M Parts :=
  dbSelect fun pick db => inSomeOrder pick (partsOf db.toInterviews requestId)

/-- `(user_id, start, end)` of every CONFIRMED event of another request with one of the users. -/
def confirmedFor (T : Interviews) (userIds : List Id) (excludeRequestId : Id)
    (overlapsStart overlapsEnd : Instant) : List (Id × Instant × Instant) :=
  T.events.flatMap fun e =>
    if e.status = .confirmed ∧ e.interviewRequestId ≠ excludeRequestId ∧
        e.startTime < overlapsEnd ∧ overlapsStart < e.endTime then
      ((T.participants e.interviewRequestId).filter (·.userId ∈ userIds)).map
        fun p => (p.userId, e.startTime, e.endTime)
    else []

def confirmedEventsForUsers (userIds : List Id) (excludeRequestId : Id)
    (overlapsStart overlapsEnd : Instant) : M (List (Id × Instant × Instant)) :=
  if userIds = [] then pure []
  else dbSelect fun pick db => inSomeOrder pick
    (confirmedFor db.toInterviews userIds excludeRequestId overlapsStart overlapsEnd)

def insertInterviewEvent (requestId : Id) (startTime endTime : Instant) (calendarEventId : String)
    (meetingLink : Option String) (provider : Provider) : M InterviewEvent := do
  let id ← uuid4
  let event : InterviewEvent :=
    { id, interviewRequestId := requestId, startTime, endTime, calendarEventId, meetingLink, provider,
      status := .confirmed }
  dbAdd (.insertEvent event)
  dbFlush
  pure event

def createReconciliationTask (externalCalendarEventId reason : String)
    (metadata : List (String × String)) (interviewEventId : Option Id) (commit : Bool) : M Unit := do
  dbAddSide (.insertTask
    { interviewEventId, externalCalendarEventId, reason, status := .open, metadata })
  if commit then dbCommit else dbFlush

end InterviewScheduler.Booking
