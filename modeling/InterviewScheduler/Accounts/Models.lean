import InterviewScheduler.Core.Models

/-! # Users and invitations

The rows of `models.py` that accounts and invitations are about, with the tables that their operations
read beside them, and the errors that they raise. -/

namespace InterviewScheduler.Accounts

open InterviewScheduler.Intervals InterviewScheduler.Engine
open InterviewScheduler.Core (Id Role RoundType RoleInInterview ResponseStatus NotificationStatus
  InterviewRequest InterviewParticipant)

/-! ### Rows -/

/-- `users.auth_provider` -/
inductive AuthProvider where
  | password
  | google
  deriving DecidableEq, Repr

structure User where
  id : Id
  email : String
  name : String
  role : Role
  authProvider : AuthProvider
  timezone : String := "UTC"
  passwordHash : Option String := none
  tokenVersion : ℕ := 0
  archivedAt : Option Instant := none
  deriving DecidableEq, Repr

/-- `participant_invitations.status` -/
inductive InvitationStatus where
  | pending
  | accepted
  | declined
  | unavailable
  | expired
  deriving DecidableEq, Repr

/-- `_TERMINAL_RESPONSE_STATUSES` -/
def terminalResponseStatuses : List InvitationStatus := [.accepted, .declined, .unavailable]

/-- The invitation has been answered. -/
def InvitationStatus.Terminal (s : InvitationStatus) : Prop := s ∈ terminalResponseStatuses

instance (s : InvitationStatus) : Decidable s.Terminal := inferInstanceAs (Decidable (_ ∈ _))

structure ParticipantInvitation where
  id : Id
  interviewRequestId : Id
  userId : Id
  role : RoleInInterview
  tokenHash : String
  status : InvitationStatus
  requiresAccountSetup : Bool
  expiresAt : Instant
  sentAt : Option Instant := none
  sendCount : ℕ := 0
  deliveryStatus : Option NotificationStatus := none
  respondedAt : Option Instant := none
  responseReason : Option String := none
  deriving DecidableEq, Repr

/-- The invitation is the one for this participant. -/
def ParticipantInvitation.For (row : ParticipantInvitation) (requestId userId : Id) : Prop :=
  row.interviewRequestId = requestId ∧ row.userId = userId

instance (row : ParticipantInvitation) (r u : Id) : Decidable (row.For r u) :=
  inferInstanceAs (Decidable (_ ∧ _))

structure AuditLog where
  actorId : Option Id
  actorRole : Role
  action : String
  entityType : String
  entityId : Id
  metadata : List (String × String)
  deriving DecidableEq, Repr

/-! ### Tables -/

structure Tables where
  users : List User := []
  requests : Id → Option InterviewRequest := fun _ => none
  /-- `interview_participants`, by request -/
  participants : Id → List InterviewParticipant := fun _ => []
  /-- `interview_participants.response_status`, by request and user -/
  responses : Id → Id → ResponseStatus := fun _ _ => .pending
  invitations : List ParticipantInvitation := []
  audits : List AuditLog := []

namespace Tables

def user (T : Tables) (userId : Id) : Option User := T.users.find? fun u => u.id = userId

def userByEmail (T : Tables) (email : String) : Option User := T.users.find? fun u => u.email = email

def invitationFor (T : Tables) (requestId userId : Id) : Option ParticipantInvitation :=
  T.invitations.find? fun row => row.For requestId userId

def invitationByTokenHash (T : Tables) (tokenHash : String) : Option ParticipantInvitation :=
  T.invitations.find? fun row => row.tokenHash = tokenHash

end Tables

/-! ### Writes -/

/-- A pending change: a row that was added or attributes that were set. -/
inductive Write where
  | insertUser (row : User)
  | setPasswordHash (userId : Id) (loaded : Option String) (passwordHash : String)
  | setArchivedAt (userId : Id) (archivedAt : Option Instant)
  | insertInvitation (row : ParticipantInvitation)
  /-- the attributes of an instance, as they were loaded and as they are now -/
  | updateInvitation (loaded row : ParticipantInvitation)
  | setResponse (requestId userId : Id) (status : ResponseStatus)
  | insertAudit (row : AuditLog)
  deriving DecidableEq, Repr

/-- An UPDATE has the columns whose attributes have changed; the others keep what is stored. -/
def changed {α : Type} [DecidableEq α] (loaded new stored : α) : α :=
  if new = loaded then stored else new

namespace ParticipantInvitation

/-- The stored row after the UPDATE of an instance. -/
def overwrite (stored loaded row : ParticipantInvitation) : ParticipantInvitation where
  id := stored.id
  interviewRequestId := stored.interviewRequestId
  userId := stored.userId
  role := stored.role
  tokenHash := changed loaded.tokenHash row.tokenHash stored.tokenHash
  status := changed loaded.status row.status stored.status
  requiresAccountSetup :=
    changed loaded.requiresAccountSetup row.requiresAccountSetup stored.requiresAccountSetup
  expiresAt := changed loaded.expiresAt row.expiresAt stored.expiresAt
  sentAt := changed loaded.sentAt row.sentAt stored.sentAt
  sendCount := changed loaded.sendCount row.sendCount stored.sendCount
  deliveryStatus := changed loaded.deliveryStatus row.deliveryStatus stored.deliveryStatus
  respondedAt := changed loaded.respondedAt row.respondedAt stored.respondedAt
  responseReason := changed loaded.responseReason row.responseReason stored.responseReason

end ParticipantInvitation

namespace Write

def apply (T : Tables) : Write → Tables
  | insertUser row => { T with users := T.users ++ [row] }
  | setPasswordHash u loaded h =>
    { T with
      users := T.users.map fun x =>
        if x.id = u then { x with passwordHash := changed loaded (some h) x.passwordHash } else x }
  | setArchivedAt u t =>
    { T with users := T.users.map fun x => if x.id = u then { x with archivedAt := t } else x }
  | insertInvitation row => { T with invitations := T.invitations ++ [row] }
  | updateInvitation loaded row =>
    { T with
      invitations := T.invitations.map fun x =>
        if x.id = loaded.id then x.overwrite loaded row else x }
  | setResponse r u st =>
    { T with responses := Function.update T.responses r (Function.update (T.responses r) u st) }
  | insertAudit row => { T with audits := T.audits ++ [row] }

/-- The write breaks a constraint of the schema: a primary key, a foreign key, the unique e-mail address,
`uq_participant_invitations_token_hash` or `uq_participant_invitations_request_user`. -/
def violates (T : Tables) : Write → Bool
  | insertUser row => T.users.any fun u => u.id = row.id ∨ u.email = row.email
  | insertInvitation row =>
    (T.requests row.interviewRequestId).isNone || (T.user row.userId).isNone ||
      T.invitations.any fun x =>
        x.id = row.id ∨ x.tokenHash = row.tokenHash ∨ x.For row.interviewRequestId row.userId
  | updateInvitation loaded row =>
    T.invitations.any fun x =>
      x.id ≠ loaded.id ∧ row.tokenHash ≠ loaded.tokenHash ∧ x.tokenHash = row.tokenHash
  | _ => false

/-- All writes in order, or `none` when one of them breaks a constraint. -/
def applyAll : List Write → Tables → Option Tables
  | [], T => some T
  | y :: ys, T => if y.violates T then none else applyAll ys (y.apply T)

end Write

/-! ### Errors -/

/-- The subclasses of `AppError`. -/
inductive ErrorClass where
  | emailAlreadyRegisteredError
  | invalidCredentialsError
  | invalidGoogleTokenError
  | notFoundError
  | invalidParticipantError
  | roleConflictError
  | invitationNotFoundError
  | invitationExpiredError
  | invitationAlreadyRespondedError
  | accountAlreadyClaimedError
  | accountSetupNotRequiredError
  deriving DecidableEq, Repr

namespace ErrorClass

def statusCode : ErrorClass → ℕ
  | emailAlreadyRegisteredError => 409
  | invalidCredentialsError => 401
  | invalidGoogleTokenError => 401
  | notFoundError => 404
  | invalidParticipantError => 422
  | roleConflictError => 422
  | invitationNotFoundError => 404
  | invitationExpiredError => 409
  | invitationAlreadyRespondedError => 409
  | accountAlreadyClaimedError => 409
  | accountSetupNotRequiredError => 409

def code : ErrorClass → String
  | emailAlreadyRegisteredError => "EMAIL_ALREADY_REGISTERED"
  | invalidCredentialsError => "INVALID_CREDENTIALS"
  | invalidGoogleTokenError => "INVALID_GOOGLE_TOKEN"
  | notFoundError => "NOT_FOUND"
  | invalidParticipantError => "INVALID_PARTICIPANT"
  | roleConflictError => "ROLE_CONFLICT"
  | invitationNotFoundError => "INVITATION_NOT_FOUND"
  | invitationExpiredError => "INVITATION_EXPIRED"
  | invitationAlreadyRespondedError => "INVITATION_ALREADY_RESPONDED"
  | accountAlreadyClaimedError => "ACCOUNT_ALREADY_CLAIMED"
  | accountSetupNotRequiredError => "ACCOUNT_SETUP_NOT_REQUIRED"

/-- The class attribute `message`. -/
def message : ErrorClass → String
  | emailAlreadyRegisteredError => "An account with this email already exists."
  | invalidCredentialsError => "Incorrect email or password."
  | invalidGoogleTokenError => "The Google token could not be verified."
  | notFoundError => "Resource not found."
  | invalidParticipantError => "A referenced participant is missing or has the wrong role."
  | roleConflictError => "An account with this email already exists with a different role."
  | invitationNotFoundError => "This invitation link is invalid."
  | invitationExpiredError => "This invitation has expired. Ask the recruiter to resend it."
  | invitationAlreadyRespondedError => "This invitation has already been responded to."
  | accountAlreadyClaimedError => "This account already has a password set. Please log in instead."
  | accountSetupNotRequiredError => "This invitation does not require account setup."

end ErrorClass

/-- An exception. -/
inductive Exc where
  | app (cls : ErrorClass) (message : String)
  /-- `sqlalchemy.exc.IntegrityError` -/
  | integrityError
  /-- any other failure of a database call -/
  | databaseError
  /-- a database call on a session whose transaction failed and was not rolled back -/
  | pendingRollbackError
  /-- the load of an expired attribute outside of an await -/
  | missingGreenlet
  | sendGridError
  | builtin (name : String)
  deriving DecidableEq, Repr

/-- `Cls()` -/
def Exc.ofClass (cls : ErrorClass) : Exc := app cls cls.message

end InterviewScheduler.Accounts
