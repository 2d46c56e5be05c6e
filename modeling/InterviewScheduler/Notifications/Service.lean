import InterviewScheduler.Core.Calls

/-! # Notifications

`notifications/service.py`: the confirmation of a booking and the notices of a decline, a reschedule or
a cancellation. Each writes one `notification_logs` row and commits it. -/

namespace InterviewScheduler.Notifications

open InterviewScheduler.Engine InterviewScheduler.Core InterviewScheduler.Effects

/-! ### Texts -/

/-- `round_type.title()` -/
def roundTitle : RoundType → String
  | .screening => "Screening"
  | .technical => "Technical"
  | .managerial => "Managerial"
  | .hr => "Hr"

/-- Year, month and day of a day count from 1970-01-01 (proleptic Gregorian calendar). -/
def civil (days : ℤ) : ℤ × ℤ × ℤ :=
  let z := days + 719468
  let era := z / 146097
  let doe := z % 146097
  let yoe := (doe - doe / 1460 + doe / 36524 - doe / 146096) / 365
  let doy := doe - (365 * yoe + yoe / 4 - yoe / 100)
  let mp := (5 * doy + 2) / 153
  let month := if mp < 10 then mp + 3 else mp - 9
  (yoe + era * 400 + (if month ≤ 2 then 1 else 0), month, doy - (153 * mp + 2) / 5 + 1)

def weekdays : List String :=
  ["Thursday", "Friday", "Saturday", "Sunday", "Monday", "Tuesday", "Wednesday"]

def months : List String :=
  ["January", "February", "March", "April", "May", "June", "July", "August", "September", "October",
    "November", "December"]

/-- Two digits, as `%d`, `%H` and `%M`. -/
def pad2 (n : ℤ) : String := (if n < 10 then "0" else "") ++ toString n

/-- `_when`: `strftime("%A %d %B %Y, %H:%M UTC")` -/
def whenText (t : Instant) : String :=
  let day := t / 86400000000
  let minute := t / 60000000 % 1440
  let (year, month, dayOfMonth) := civil day
  weekdays.getD (day % 7).toNat "" ++ " " ++ pad2 dayOfMonth ++ " " ++
    months.getD (month - 1).toNat "" ++ " " ++ toString year ++ ", " ++ pad2 (minute / 60) ++ ":" ++
    pad2 (minute % 60) ++ " UTC"

example : whenText 1767225600000000 = "Thursday 01 January 2026, 00:00 UTC" := by decide +kernel

/-- An optional text that is there and not empty. -/
def truthy (s : Option String) : Option String := s.filter (· ≠ "")

/-- `_LIFECYCLE_COPY` -/
def lifecycleCopy : NotificationType → String × String
  | .decline => ("Interview needs rescheduling", "an interviewer has declined this time")
  | .reschedule => ("Interview reschedule requested", "a reschedule has been requested")
  | .cancellation => ("Interview cancelled", "this interview has been cancelled")
  | .reminder => ("Interview reminder", "this is a reminder for your upcoming interview")
  | .confirmation => ("", "")

/-! ### Dispatch -/

variable (pf : Platform)

/-- The delivery of a configured client, whose failures are recorded and dropped. -/
def deliver (msg : EmailMessage) : M NotificationStatus :=
  tryCatch (do Prog.perform (.sendMail msg); pure .sent) fun _ => pure .failed

/-- `_dispatch` -/
def dispatch (interviewEventId : Id) (notificationType : NotificationType) (msg : EmailMessage) :
    M NotificationStatus := do
  let status ← if pf.sendGridConfigured then deliver msg else pure .simulated
  dbAddSide (.insertNotification
    { interviewEventId, channel := "EMAIL", notificationType, recipient := msg.recipient, status })
  dbFlush
  dbCommit
  pure status

/-- The `except Exception` of the callers: the message that is logged names `event.id`. -/
def logFailure (send : M NotificationStatus) : M Unit :=
  tryCatch (do let _ ← send; pure ()) fun _ => readAttribute

def sendBookingConfirmation (event : InterviewEvent) (candidateEmail : String)
    (panelistEmails : List String) (roundType : RoundType) (title company : Option String) :
    M NotificationStatus :=
  let link := (truthy event.meetingLink).getD
    "(no video link — SIMULATED booking; Google Calendar not configured)"
  let context := ((truthy company).elim "" fun c => "Company: " ++ c ++ "\n") ++
    ((truthy title).elim "" fun t => "Role:  " ++ t ++ "\n")
  let body := "Your interview is confirmed.\n\n" ++ context ++
    "Round: " ++ roundTitle roundType ++ "\n" ++
    "When:  " ++ whenText event.startTime ++ "\n" ++
    "Join:  " ++ link ++ "\n\n" ++
    "This time is also on the interviewers' calendars.\n"
  dispatch pf event.id .confirmation
    { recipient := candidateEmail, cc := panelistEmails
      subject := "Interview confirmed — " ++ roundTitle roundType ++ " round", textBody := body }

/-- A DECLINE, RESCHEDULE or CANCELLATION notice. -/
def sendLifecycleNotification (event : InterviewEvent) (notificationType : NotificationType)
    (candidateEmail : String) (panelistEmails : List String) (reason : Option String) :
    M NotificationStatus :=
  let (subject, phrase) := lifecycleCopy notificationType
  let body := "Regarding the interview on " ++ whenText event.startTime ++ ": " ++ phrase ++ ".\n" ++
    ((truthy reason).elim "" fun r => "\nReason given: " ++ r ++ "\n") ++
    (if notificationType ≠ .cancellation then "\nWe will follow up with a new time shortly.\n" else "")
  dispatch pf event.id notificationType
    { recipient := candidateEmail, cc := panelistEmails, subject, textBody := body }

end InterviewScheduler.Notifications
