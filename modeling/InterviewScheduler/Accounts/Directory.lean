import InterviewScheduler.Accounts.Calls
import InterviewScheduler.Accounts.Tokens

/-! # Provisioning, the bootstrap of an administrator, and the refresh

The rest of `auth/service.py` and `users/service.py`: accounts that an administrator provisions, the
administrators that are registered with the bootstrap secret, and access tokens for a refresh token. -/

namespace InterviewScheduler.Accounts

open InterviewScheduler.Engine InterviewScheduler.Effects
open InterviewScheduler.Core (Id Role)

/-! ### Refusals -/

/-- The subclasses of `AppError` that these routes raise outside of a `try`. -/
inductive RefusalClass where
  | refreshTokenInvalidError
  | refreshTokenRevokedError
  | notAuthenticatedError
  | forbiddenError
  deriving DecidableEq, Repr

namespace RefusalClass

def statusCode : RefusalClass → ℕ
  | refreshTokenInvalidError => 401
  | refreshTokenRevokedError => 401
  | notAuthenticatedError => 401
  | forbiddenError => 403

def code : RefusalClass → String
  | refreshTokenInvalidError => "REFRESH_TOKEN_INVALID"
  | refreshTokenRevokedError => "REFRESH_TOKEN_REVOKED"
  | notAuthenticatedError => "NOT_AUTHENTICATED"
  | forbiddenError => "FORBIDDEN"

/-- The class attribute `message`. -/
def message : RefusalClass → String
  | refreshTokenInvalidError => "The refresh token is invalid or expired."
  | refreshTokenRevokedError => "The refresh token has been revoked."
  | notAuthenticatedError => "Authentication is required."
  | forbiddenError => "Your role does not permit this action."

end RefusalClass

structure Refusal where
  cls : RefusalClass
  message : String
  deriving DecidableEq, Repr

/-- `Cls()` -/
def Refusal.ofClass (cls : RefusalClass) : Refusal := ⟨cls, cls.message⟩

/-! ### Settings and requests -/

/-- How the application is deployed. -/
structure Deployment (Token : Type) extends TokenSettings Token where
  platform : Platform
  /-- empty when there is no bootstrap -/
  adminBootstrapToken : String := ""

structure ProvisionUserRequest where
  email : String
  name : String
  role : Role
  timezone : String := "UTC"
  /-- `Literal["CANDIDATE", "PANELIST"]` -/
  role_ne_admin : role ≠ .admin

/-- `users.role` -/
def roleValue : Role → String
  | .admin => "ADMIN"
  | .candidate => "CANDIDATE"
  | .panelist => "PANELIST"

variable {Token : Type} (dep : Deployment Token)

/-! ### Who is calling -/

/-- `get_current_user` -/
def getCurrentUser (credentials : Option Token) : M (Except Refusal User) :=
  match credentials with
  | none => pure (.error (.ofClass .notAuthenticatedError))
  | some token => do
    let t ← now
    match (decodeToken dep.toTokenSettings token .access t).bind (·.sub) with
    | none => pure (.error ⟨.notAuthenticatedError, "Invalid or expired access token."⟩)
    | some userId => do
      let user ← getUser userId
      pure (user.elim (.error ⟨.notAuthenticatedError, "Invalid or expired access token."⟩) .ok)

/-! ### `users/service.py` -/

/-- `except IntegrityError`: another session has created a user with the e-mail address. -/
def provisionFailed (email : String) (role : Role) : Exc → M (User × Bool)
  | .integrityError => do
    dbRollback
    let existing ← getByEmail email
    let existing ← Prog.orRaise (existing.filter (·.role = role)) (.ofClass .roleConflictError)
    pure (existing, false)
  | e => throw e

/-- `provision`: the user, and whether it was created. -/
def provision (actorId : Id) (data : ProvisionUserRequest) : M (User × Bool) := do
  let existing ← getByEmail data.email
  match existing with
  | some existing => do
    Prog.raiseIf (existing.role ≠ data.role) (.ofClass .roleConflictError)
    pure (existing, false)
  | none =>
    tryCatch (do
      let user ← createUser data.email data.name data.role .password data.timezone none
      recordAudit
        { actorId := some actorId
          actorRole := .admin
          action := "USER_PROVISIONED"
          entityType := "user"
          entityId := user.id
          metadata := [("email", data.email), ("role", roleValue data.role)] }
      dbCommit
      pure (user, true)) (provisionFailed data.email data.role)

/-- `POST /users`, for an administrator -/
def provisionUser (credentials : Option Token) (data : ProvisionUserRequest) :
    M (Except Refusal (User × Bool)) := do
  let caller ← getCurrentUser dep credentials
  match caller with
  | .error refusal => pure (.error refusal)
  | .ok admin =>
    if admin.role ≠ .admin then pure (.error (.ofClass .forbiddenError))
    else .ok <$> provision admin.id data

/-! ### `auth/service.py` -/

def isAscii (s : String) : Bool := s.toList.all fun c => c.toNat < 128

/-- `secrets.compare_digest`, which takes ASCII strings only -/
def compareDigest (a b : String) : M Bool :=
  if isAscii a && isAscii b then pure (a = b) else throw (.builtin "TypeError")

/-- The provided token is the configured one. -/
def checkBootstrapToken (providedToken : Option String) : M Bool :=
  match providedToken with
  | none => pure false
  | some provided =>
    if dep.adminBootstrapToken = "" ∨ provided = "" then pure false
    else compareDigest provided dep.adminBootstrapToken

/-- `except IntegrityError`, as for `register` -/
def bootstrapFailed : Exc → M User := registrationFailed

/-- `bootstrap_admin` -/
def bootstrapAdmin (data : RegisterRequest) (providedToken : Option String) : M TokenPair := do
  let admitted ← checkBootstrapToken dep providedToken
  Prog.raiseIf (admitted = false) (.ofClass .notFoundError)
  let user ← tryCatch (do
    let passwordHash ← hashPassword dep.platform data.password
    let user ← createUser data.email data.name .admin .password data.timezone (some passwordHash)
    recordAudit
      { actorId := some user.id
        actorRole := .admin
        action := "ADMIN_BOOTSTRAPPED"
        entityType := "user"
        entityId := user.id
        metadata := [("email", data.email)] }
    dbCommit
    pure user) bootstrapFailed
  pure (tokenPair user)

/-- `refresh` -/
def refresh (refreshToken : Token) : M (Except Refusal AccessToken) := do
  let t ← now
  match decodeToken dep.toTokenSettings refreshToken .refresh t with
  | none => pure (.error (.ofClass .refreshTokenInvalidError))
  | some payload =>
    match payload.sub with
    | none => pure (.error (.ofClass .refreshTokenInvalidError))
    | some userId => do
      let user ← getUser userId
      match user with
      | none => pure (.error (.ofClass .refreshTokenInvalidError))
      | some user =>
        if payload.tokenVersion ≠ some user.tokenVersion then
          pure (.error (.ofClass .refreshTokenRevokedError))
        else pure (.ok { sub := user.id, role := user.role })

/-! ### All calls -/

/-- The calls about accounts. -/
inductive DirectoryCall (Token : Type) where
  | account (call : Call)
  | provisionUser (credentials : Option Token) (data : ProvisionUserRequest)
  | bootstrapAdmin (data : RegisterRequest) (providedToken : Option String)
  | refresh (refreshToken : Token)

inductive Reply where
  | account (out : Response)
  | provisioned (out : Except Refusal (User × Bool))
  | tokens (pair : TokenPair)
  | access (out : Except Refusal AccessToken)
  deriving DecidableEq

def serve : DirectoryCall Token → M Reply
  | .account call => .account <$> handle dep.platform call
  | .provisionUser credentials data => .provisioned <$> provisionUser dep credentials data
  | .bootstrapAdmin data providedToken => .tokens <$> bootstrapAdmin dep data providedToken
  | .refresh refreshToken => .access <$> refresh dep refreshToken

end InterviewScheduler.Accounts
