import InterviewScheduler.Accounts.Auth
import InterviewScheduler.Notifications.Service

/-! # Invitations

`invitations/service.py` with its repository and schemas: issuance, the public resolution of a token, the
response, and the claim of an account. -/

namespace InterviewScheduler.Accounts

open InterviewScheduler.Intervals InterviewScheduler.Engine InterviewScheduler.Effects
open InterviewScheduler.Core (Id Role RoundType RoleInInterview ResponseStatus NotificationStatus
  InterviewRequest InterviewParticipant inSomeOrder)
open InterviewScheduler.Notifications (roundTitle truthy)

/-! ### Schemas -/

structure InvitationSummary where
  id : Id
  userId : Id
  role : RoleInInterview
  status : InvitationStatus
  requiresAccountSetup : Bool
  deliveryStatus : Option NotificationStatus
  sendCount : ℕ
  expiresAt : Instant
  inviteUrl : InviteUrl
  deriving DecidableEq, Repr

structure InvitationPublicOut where
  role : RoleInInterview
  status : InvitationStatus
  requiresAccountSetup : Bool
  accountClaimed : Bool
  interviewTitle : Option String
  interviewCompany : Option String
  roundType : RoundType
  durationMinutes : ℤ
  deriving DecidableEq, Repr

/-- `RespondRequest.response` -/
inductive ResponseValue where
  | accepted
  | declined
  | unavailable
  deriving DecidableEq, Repr

/-- The response as a status of the invitation. -/
def ResponseValue.status : ResponseValue → InvitationStatus
  | accepted => .accepted
  | declined => .declined
  | unavailable => .unavailable

/-- The response as a status of the participant. -/
def ResponseValue.responseStatus : ResponseValue → ResponseStatus
  | accepted => .accepted
  | declined => .declined
  | unavailable => .unavailable

def ResponseValue.name : ResponseValue → String
  | accepted => "ACCEPTED"
  | declined => "DECLINED"
  | unavailable => "UNAVAILABLE"

/-- A participant's role as the role of a user. -/
def userRole : RoleInInterview → Role
  | .panelist => .panelist
  | .candidate => .candidate

def roleName : RoleInInterview → String
  | .panelist => "PANELIST"
  | .candidate => "CANDIDATE"

def deliveryName : NotificationStatus → String
  | .sent => "SENT"
  | .failed => "FAILED"
  | .simulated => "SIMULATED"

/-! ### The repositories -/

/-- `participants_with_users` -/
def participantsWithUsers (requestId : Id) (pick : ℕ) (T : Tables) : List (InterviewParticipant × User) :=
  inSomeOrder pick ((T.participants requestId).filterMap fun p => (T.user p.userId).map fun u => (p, u))

/-- `repository.apply`: a new row, with the id that the database gives it, or a rotation of the existing
one. -/
def apply (row : Option ParticipantInvitation) (id requestId userId : Id) (role : RoleInInterview)
    (tokenHash : String) (requiresAccountSetup : Bool) (expiresAt : Instant) : ParticipantInvitation :=
  match row with
  | none =>
    { id, interviewRequestId := requestId, userId, role, tokenHash, status := .pending,
      requiresAccountSetup, expiresAt, sendCount := 0 }
  | some row =>
    { row with
      tokenHash, status := .pending, requiresAccountSetup, expiresAt, respondedAt := none,
      responseReason := none }

variable (pf : Platform)

/-! ### Issuance -/

/-- `_send_invite_email` -/
def sendInviteEmail (user : User) (request : InterviewRequest) (rawToken : String) :
    M NotificationStatus := do
  let label := (truthy request.title).getD (roundTitle request.roundType ++ " round")
  let msg : InviteEmail :=
    { recipient := user.email, label, durationMinutes := request.durationMinutes,
      url := ⟨pf.frontendBaseUrl, rawToken⟩ }
  if pf.sendGridConfigured then
    tryCatch (do
      Prog.perform (.sendMail msg)
      pure .sent)
      fun _ => pure .failed
  else pure .simulated

/-- The row of one participant is added or rotated, and flushed. -/
def flushRow (existing : Option ParticipantInvitation) (requestId : Id) (participant : InterviewParticipant)
    (user : User) (tokenHash : String) (expiresAt : Instant) : M ParticipantInvitation :=
  match existing with
  | none => do
    let id ← newId
    let row := apply none id requestId user.id participant.roleInInterview tokenHash
      user.passwordHash.isNone expiresAt
    dbAdd (.insertInvitation row)
    dbFlush
    pure row
  | some loaded => do
    let row := apply (some loaded) loaded.id requestId user.id participant.roleInInterview tokenHash
      user.passwordHash.isNone expiresAt
    dbAdd (.updateInvitation loaded row)
    dbFlush
    pure row

/-- After an `IntegrityError`: reload the row that another session has created, and rotate it. The rollback
has expired `user`. -/
def retryRow (requestId : Id) (participant : InterviewParticipant) (user : User) (tokenHash : String)
    (expiresAt : Instant) : M ParticipantInvitation := do
  dbRollback
  .perform .loadExpired
  let existing ← .perform (.invitationFor requestId user.id)
  let existing ← Prog.orRaise existing .integrityError
  flushRow (some existing) requestId participant user tokenHash expiresAt

/-- `except IntegrityError` -/
def conflicted (requestId : Id) (participant : InterviewParticipant) (user : User) (tokenHash : String)
    (expiresAt : Instant) : Exc → M (ParticipantInvitation × Bool)
  | .integrityError => do
    let row ← retryRow requestId participant user tokenHash expiresAt
    pure (row, true)
  | e => throw e

/-- One round of the loop of `issue_for_request`; no summary stands for `continue`. -/
def issueForParticipant (actor : User) (requestId : Id) (request : InterviewRequest) (expiresAt : Instant)
    (part : InterviewParticipant × User) : M (Option InvitationSummary) := do
  let participant := part.1
  let user := part.2
  let existing ← .perform (.invitationFor requestId user.id)
  if existing.any fun row => row.status ∈ terminalResponseStatuses then pure none
  else do
    let rawToken ← .perform .tokenUrlsafe
    let tokenHash := pf.sha256Hex rawToken
    let (row, isResend) ← tryCatch (do
      let row ← flushRow existing requestId participant user tokenHash expiresAt
      pure (row, existing.isSome)) (conflicted requestId participant user tokenHash expiresAt)
    let deliveryStatus ← sendInviteEmail pf user request rawToken
    let sentAt ← now
    let sent := { row with
      deliveryStatus := some deliveryStatus, sentAt := some sentAt, sendCount := row.sendCount + 1 }
    dbAdd (.updateInvitation row sent)
    recordAudit
      { actorId := some actor.id
        actorRole := actor.role
        action := "INVITATION_ISSUED"
        entityType := "participant_invitation"
        entityId := sent.id
        metadata := [("user_id", toString user.id), ("role", roleName participant.roleInInterview),
          ("resent", toString isResend), ("delivery_status", deliveryName deliveryStatus)] }
    pure (some
      { id := sent.id
        userId := user.id
        role := participant.roleInInterview
        status := sent.status
        requiresAccountSetup := sent.requiresAccountSetup
        deliveryStatus := sent.deliveryStatus
        sendCount := sent.sendCount
        expiresAt := sent.expiresAt
        inviteUrl := ⟨pf.frontendBaseUrl, rawToken⟩ })

def issueForRequest (actor : User) (requestId : Id) : M (List InvitationSummary) := do
  let request ← dbSelect fun _ T => T.requests requestId
  let request ← Prog.orRaise request (.app .notFoundError "interview request not found")
  let parts ← dbSelect (participantsWithUsers requestId)
  let t ← now
  let expiresAt := t + minutes (60 * pf.invitationTtlHours)
  let out ← Prog.forEach (issueForParticipant pf actor requestId request expiresAt) parts
  dbCommit
  pure out.reduceOption

/-! ### The public operations -/

/-- `_resolve_active` -/
def resolveActive (rawToken : String) : M ParticipantInvitation := do
  let row ← dbSelect fun _ T => T.invitationByTokenHash (pf.sha256Hex rawToken)
  let row ← Prog.orRaise row (.ofClass .invitationNotFoundError)
  if row.status = .pending then do
    let t ← now
    if row.expiresAt ≤ t then do
      dbAdd (.updateInvitation row { row with status := .expired })
      dbCommit
      pure { row with status := .expired }
    else pure row
  else pure row

/-- `_public_out` -/
def publicOut (row : ParticipantInvitation) : M InvitationPublicOut := do
  let request ← dbSelect fun _ T => T.requests row.interviewRequestId
  let user ← getUser row.userId
  let user ← Prog.orRaise user (.builtin "AttributeError")
  let request ← Prog.orRaise request (.builtin "AttributeError")
  pure
    { role := row.role
      status := row.status
      requiresAccountSetup := row.requiresAccountSetup
      accountClaimed := user.passwordHash.isSome
      interviewTitle := request.title
      interviewCompany := request.company
      roundType := request.roundType
      durationMinutes := request.durationMinutes }

def getByToken (rawToken : String) : M InvitationPublicOut := do
  let row ← resolveActive pf rawToken
  publicOut row

def respondToInvitation (rawToken : String) (response : ResponseValue) (reason : Option String) :
    M InvitationPublicOut := do
  let row ← resolveActive pf rawToken
  Prog.raiseIf (row.status = .expired) (.ofClass .invitationExpiredError)
  Prog.raiseIf (row.status ≠ .pending) (.ofClass .invitationAlreadyRespondedError)
  Prog.raiseIf (response = .unavailable ∧ row.role ≠ .panelist)
    (.app .invalidParticipantError "only a panelist invitation can be marked UNAVAILABLE")
  let t ← now
  let answered := { row with
    status := response.status, respondedAt := some t, responseReason := reason }
  dbAdd (.updateInvitation row answered)
  let participant ← dbSelect fun _ T =>
    (T.participants row.interviewRequestId).find? fun p => p.userId = row.userId
  if participant.isSome then
    dbAdd (.setResponse row.interviewRequestId row.userId response.responseStatus)
  recordAudit
    { actorId := none
      actorRole := userRole row.role
      action := "INVITATION_RESPONDED"
      entityType := "participant_invitation"
      entityId := row.id
      metadata := [("response", response.name), ("role", roleName row.role)] }
  dbCommit
  publicOut answered

def claimAccount (rawToken password : String) : M TokenPair := do
  let row ← resolveActive pf rawToken
  Prog.raiseIf (row.status = .expired) (.ofClass .invitationExpiredError)
  Prog.raiseIf (row.requiresAccountSetup = false) (.ofClass .accountSetupNotRequiredError)
  let user ← getUser row.userId
  let user ← Prog.orRaise user (.ofClass .invitationNotFoundError)
  Prog.raiseIf user.passwordHash.isSome (.ofClass .accountAlreadyClaimedError)
  let passwordHash ← hashPassword pf password
  dbAdd (.setPasswordHash user.id user.passwordHash passwordHash)
  recordAudit
    { actorId := some user.id
      actorRole := user.role
      action := "ACCOUNT_CLAIMED"
      entityType := "user"
      entityId := user.id
      metadata := [("email", user.email)] }
  dbCommit
  pure (tokenPair user)

end InterviewScheduler.Accounts
