import InterviewScheduler.Accounts.World

/-! # Registration, logins and the archive

`auth/service.py` with its repository, and the operations of `users/service.py` that change a user. A
token is the claims of its JWT, without the times. -/

namespace InterviewScheduler.Accounts

open InterviewScheduler.Engine InterviewScheduler.Effects
open InterviewScheduler.Core (Id Role)

/-! ### Tokens -/

/-- `create_access_token` -/
structure AccessToken where
  sub : Id
  role : Role
  deriving DecidableEq, Repr

/-- `create_refresh_token` -/
structure RefreshToken where
  sub : Id
  tokenVersion : ℕ
  deriving DecidableEq, Repr

structure UserSummary where
  id : Id
  role : Role
  deriving DecidableEq, Repr

structure TokenPair where
  accessToken : AccessToken
  refreshToken : RefreshToken
  user : UserSummary
  deriving DecidableEq, Repr

/-- `_token_pair` -/
def tokenPair (user : User) : TokenPair where
  accessToken := { sub := user.id, role := user.role }
  refreshToken := { sub := user.id, tokenVersion := user.tokenVersion }
  user := { id := user.id, role := user.role }

/-! ### `auth/repository.py` -/

def getByEmail (email : String) : M (Option User) := dbSelect fun _ T => T.userByEmail email

/-- `db.get(User, user_id)` -/
def getUser (userId : Id) : M (Option User) := dbSelect fun _ T => T.user userId

/-- `repository.create` -/
def createUser (email name : String) (role : Role) (authProvider : AuthProvider) (timezone : String)
    (passwordHash : Option String) : M User := do
  let id ← newId
  let user : User := { id, email, name, role, authProvider, timezone, passwordHash }
  dbAdd (.insertUser user)
  dbFlush
  -- `refresh(user)`
  dbSelect fun _ _ => ()
  pure user

/-! ### `auth/service.py` -/

structure RegisterRequest where
  email : String
  password : String
  name : String
  timezone : String := "UTC"
  deriving DecidableEq, Repr

structure LoginRequest where
  email : String
  password : String
  deriving DecidableEq, Repr

variable (pf : Platform)

/-- `except IntegrityError`: another session has registered the e-mail address. -/
def registrationFailed : Exc → M User
  | .integrityError => do
    dbRollback
    throw (.ofClass .emailAlreadyRegisteredError)
  | e => throw e

def register (data : RegisterRequest) : M User := do
  let existing ← getByEmail data.email
  Prog.raiseIf existing.isSome (.ofClass .emailAlreadyRegisteredError)
  tryCatch (do
    let passwordHash ← hashPassword pf data.password
    let user ← createUser data.email data.name .candidate .password data.timezone (some passwordHash)
    dbCommit
    pure user) registrationFailed

def login (data : LoginRequest) : M TokenPair := do
  let user ← getByEmail data.email
  let user ← Prog.orRaise user (.ofClass .invalidCredentialsError)
  let passwordHash ← Prog.orRaise user.passwordHash (.ofClass .invalidCredentialsError)
  Prog.raiseIf user.archivedAt.isSome (.ofClass .invalidCredentialsError)
  Prog.raiseIf (verifyPassword pf data.password passwordHash = false)
    (.ofClass .invalidCredentialsError)
  pure (tokenPair user)

def googleLogin (idToken : String) : M TokenPair := do
  let identity ← verifyIdToken pf idToken
  let user ← getByEmail identity.email
  match user with
  | none => do
    let user ← createUser identity.email identity.name .candidate .google "UTC" none
    dbCommit
    pure (tokenPair user)
  | some user => pure (tokenPair user)

/-! ### `users/service.py` -/

def setArchived (actorId userId : Id) (archived : Bool) : M User := do
  let user ← getUser userId
  let user ← Prog.orRaise user (.app .notFoundError "user not found")
  Prog.raiseIf (user.role ≠ .candidate)
    (.app .invalidParticipantError "only a CANDIDATE account can be archived")
  let archivedAt ← if archived then some <$> now else pure none
  dbAdd (.setArchivedAt user.id archivedAt)
  recordAudit
    { actorId := some actorId
      actorRole := .admin
      action := if archived then "CANDIDATE_ARCHIVED" else "CANDIDATE_UNARCHIVED"
      entityType := "user"
      entityId := user.id
      metadata := [("email", user.email)] }
  dbCommit
  pure { user with archivedAt }

end InterviewScheduler.Accounts
