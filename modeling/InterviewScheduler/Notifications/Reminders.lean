import InterviewScheduler.Booking.Repository
import InterviewScheduler.Notifications.Service

/-! # Reminders

`scripts/send_reminders.py`, with the REMINDER branch of `send_lifecycle_notification`. -/

namespace InterviewScheduler.Notifications

open InterviewScheduler.Engine InterviewScheduler.Core InterviewScheduler.Effects
open InterviewScheduler.Booking (Part participantsWithUsers)

variable (pf : Platform)

/-- A REMINDER, with the context of the interview. -/
def sendReminder (event : InterviewEvent) (candidateEmail : String) (panelistEmails : List String)
    (title company : Option String) (roundType : Option RoundType) : M NotificationStatus :=
  let link := (truthy event.meetingLink).getD
    "(no video link — SIMULATED booking; Google Calendar not configured)"
  let lines := ["This is a reminder for your upcoming interview.\n"] ++
    ((truthy company).map ("Company: " ++ ·)).toList ++ ((truthy title).map ("Role:  " ++ ·)).toList ++
    (roundType.map fun r => "Round: " ++ roundTitle r).toList ++
    ["When:  " ++ whenText event.startTime, "Join:  " ++ link ++ "\n"]
  dispatch pf event.id .reminder
    { recipient := candidateEmail, cc := panelistEmails, subject := (lifecycleCopy .reminder).1
      textBody := "\n".intercalate lines }

/-- The events that have a REMINDER row, once for each. -/
def remindedIds (db : Db) : List Id :=
  (db.notifications.filter (·.notificationType = .reminder)).map (·.interviewEventId)

/-- CONFIRMED events that start after `now` and by the horizon, without a REMINDER row. -/
def dueEvents (now horizon : Instant) (db : Db) : List InterviewEvent :=
  db.events.filter fun e =>
    e.status = .confirmed ∧ now < e.startTime ∧ e.startTime ≤ horizon ∧ e.id ∉ remindedIds db

/-- The body of the loop. Without a candidate `next` raises, in a coroutine, `RuntimeError`. -/
def remind (event : InterviewEvent) : M NotificationStatus := do
  let rows ← participantsWithUsers event.interviewRequestId
  let candidate ← Prog.orRaise (rows.find? Part.isCandidate) (.builtin "RuntimeError")
  let request ← dbGet event.interviewRequestId
  sendReminder pf event candidate.2.email ((rows.filter Part.isPanelist).map (·.2.email))
    (request.bind (·.title)) (request.bind (·.company)) (request.map (·.roundType))

/-- `minutes=N` in microseconds -/
def window (minutes : ℤ) : ℤ := minutes * 60000000

/-- `process_due_reminders` -/
def processDueReminders (minutes : ℤ) : M ℕ := do
  let t ← now
  let events ← dbSelect fun pick db => inSomeOrder pick (dueEvents t (t + window minutes) db)
  let sent ← Prog.forEach (remind pf) events
  pure sent.length

end InterviewScheduler.Notifications
