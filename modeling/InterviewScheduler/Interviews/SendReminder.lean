import InterviewScheduler.Interviews.Lifecycle
import InterviewScheduler.Notifications.Reminders

/-! # A reminder on demand

`send_reminder_now` of `interviews/lifecycle.py`: an administrator has the reminder of a booked interview
sent, without waiting for the script. -/

namespace InterviewScheduler.Interviews

open InterviewScheduler.Core InterviewScheduler.Effects
open InterviewScheduler.Booking (participantsWithUsers getConfirmedEvent)

structure ReminderSent where
  deliveryStatus : NotificationStatus
  recipient : String
  cc : List String
  deriving DecidableEq, Repr

variable (pf : Platform)

/-- The notice, once the interview is found. -/
def remindOf (requestId : Id) (request : InterviewRequest) (event : InterviewEvent) :
    M ReminderSent := do
  let parts ← participantsWithUsers requestId
  let (candidateEmail, panelistEmails) ← emails parts
  let status ← Notifications.sendReminder pf event candidateEmail panelistEmails request.title
    request.company (some request.roundType)
  pure ⟨status, candidateEmail, panelistEmails⟩

def sendReminderNow (requestId : Id) : M ReminderSent := do
  let request ← load requestId
  let event ← getConfirmedEvent requestId
  let event ← Prog.orRaise event (.ofClass .notBookedError)
  remindOf pf requestId request event

end InterviewScheduler.Interviews
