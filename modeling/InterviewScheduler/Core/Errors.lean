import InterviewScheduler.Core.Models

/-! # Errors

The `AppError` subclasses that the modelled services raise, with their code, HTTP status and default
message, and the exceptions of the libraries below them. -/

namespace InterviewScheduler.Core

/-- The subclasses of `AppError`; `appError` is the base class. -/
inductive ErrorClass where
  | appError
  | notAuthenticatedError
  | forbiddenError
  | notFoundError
  | invalidParticipantError
  | requestLockedForEditingError
  | requestNotAwaitingAvailabilityError
  | notReadyForSchedulingError
  | panelistCalendarNotConnectedError
  | calendarConnectionRevokedError
  | calendarConnectionExpiredError
  | noCommonAvailabilityError
  | calendarSyncFailedError
  | slotNoLongerAvailableError
  | calendarEventCreationFailedError
  | bookingPersistenceFailedError
  | notBookedError
  | requestAlreadyTerminalError
  | outcomeNotAllowedError
  | noShowGraceActiveError
  | nextRoundNotAllowedError
  deriving DecidableEq, Repr

namespace ErrorClass

def statusCode : ErrorClass → ℕ
  | appError => 500
  | notAuthenticatedError => 401
  | forbiddenError => 403
  | notFoundError => 404
  | invalidParticipantError => 422
  | requestLockedForEditingError => 409
  | requestNotAwaitingAvailabilityError => 409
  | notReadyForSchedulingError => 409
  | panelistCalendarNotConnectedError => 424
  | calendarConnectionRevokedError => 424
  | calendarConnectionExpiredError => 424
  | noCommonAvailabilityError => 422
  | calendarSyncFailedError => 502
  | slotNoLongerAvailableError => 409
  | calendarEventCreationFailedError => 502
  | bookingPersistenceFailedError => 500
  | notBookedError => 409
  | requestAlreadyTerminalError => 409
  | outcomeNotAllowedError => 409
  | noShowGraceActiveError => 409
  | nextRoundNotAllowedError => 409

def code : ErrorClass → String
  | appError => "INTERNAL_ERROR"
  | notAuthenticatedError => "NOT_AUTHENTICATED"
  | forbiddenError => "FORBIDDEN"
  | notFoundError => "NOT_FOUND"
  | invalidParticipantError => "INVALID_PARTICIPANT"
  | requestLockedForEditingError => "REQUEST_LOCKED_FOR_EDITING"
  | requestNotAwaitingAvailabilityError => "REQUEST_NOT_AWAITING_AVAILABILITY"
  | notReadyForSchedulingError => "NOT_READY_FOR_SCHEDULING"
  | panelistCalendarNotConnectedError => "PANELIST_CALENDAR_NOT_CONNECTED"
  | calendarConnectionRevokedError => "CALENDAR_CONNECTION_REVOKED"
  | calendarConnectionExpiredError => "CALENDAR_CONNECTION_EXPIRED"
  | noCommonAvailabilityError => "NO_COMMON_AVAILABILITY"
  | calendarSyncFailedError => "CALENDAR_SYNC_FAILED"
  | slotNoLongerAvailableError => "SLOT_NO_LONGER_AVAILABLE"
  | calendarEventCreationFailedError => "CALENDAR_EVENT_CREATION_FAILED"
  | bookingPersistenceFailedError => "BOOKING_PERSISTENCE_FAILED"
  | notBookedError => "NOT_BOOKED"
  | requestAlreadyTerminalError => "REQUEST_ALREADY_TERMINAL"
  | outcomeNotAllowedError => "OUTCOME_NOT_ALLOWED"
  | noShowGraceActiveError => "NO_SHOW_GRACE_ACTIVE"
  | nextRoundNotAllowedError => "NEXT_ROUND_NOT_ALLOWED"

/-- The class attribute `message`. -/
def message : ErrorClass → String
  | appError => "Something went wrong."
  | notAuthenticatedError => "Authentication is required."
  | forbiddenError => "Your role does not permit this action."
  | notFoundError => "Resource not found."
  | invalidParticipantError => "A referenced participant is missing or has the wrong role."
  | requestLockedForEditingError =>
    "This interview request can no longer be edited in its current state."
  | requestNotAwaitingAvailabilityError =>
    "This interview request is not awaiting candidate availability."
  | notReadyForSchedulingError => "This interview request is not ready for scheduling."
  | panelistCalendarNotConnectedError =>
    "A required panelist has not connected their Google Calendar."
  | calendarConnectionRevokedError =>
    "A required panelist's Google Calendar connection has been revoked."
  | calendarConnectionExpiredError =>
    "A required panelist's Google Calendar connection has expired."
  | noCommonAvailabilityError => "No time slot works for every participant."
  | calendarSyncFailedError =>
    "Could not retrieve calendar availability from Google. Please retry."
  | slotNoLongerAvailableError => "This slot is no longer available. Please choose another."
  | calendarEventCreationFailedError =>
    "The Google Calendar event could not be created. The booking did not complete."
  | bookingPersistenceFailedError => "The booking could not be saved and did not complete."
  | notBookedError => "This interview request has no booked slot to reschedule."
  | requestAlreadyTerminalError => "This interview request is already cancelled or completed."
  | outcomeNotAllowedError => "An outcome can only be recorded for a booked interview."
  | noShowGraceActiveError => "The no-show grace period has not elapsed yet."
  | nextRoundNotAllowedError =>
    "A next round can only be created from a completed, passed interview."

end ErrorClass

/-- An exception. -/
inductive Exc where
  | app (cls : ErrorClass) (message : String)
  /-- a request body that its schema rejects -/
  | requestValidationError (message : String)
  /-- the lock is held by someone else -/
  | lockNotAcquired
  | calendarAuthError
  | calendarTransportError
  /-- `sqlalchemy.exc.IntegrityError` -/
  | integrityError
  /-- any other failure of a database call -/
  | databaseError
  /-- a database call on a session whose transaction failed and was not rolled back -/
  | pendingRollbackError
  | redisError
  | sendGridError
  | tokenCryptoError
  /-- a built-in exception of Python, by name -/
  | builtin (name : String)
  deriving DecidableEq, Repr

namespace Exc

/-- `Cls()` -/
def ofClass (cls : ErrorClass) : Exc := app cls cls.message

/-- `type(exc).__name__`, with one name for the subclasses of `AppError`. -/
def typeName : Exc → String
  | app _ _ => "AppError"
  | requestValidationError _ => "RequestValidationError"
  | lockNotAcquired => "LockNotAcquired"
  | calendarAuthError => "CalendarAuthError"
  | calendarTransportError => "CalendarTransportError"
  | integrityError => "IntegrityError"
  | databaseError => "OperationalError"
  | pendingRollbackError => "PendingRollbackError"
  | redisError => "RedisError"
  | sendGridError => "RuntimeError"
  | tokenCryptoError => "TokenCryptoError"
  | builtin name => name

/-- `except AppError` -/
def isApp : Exc → Bool
  | app _ _ => true
  | _ => false

end Exc

end InterviewScheduler.Core
