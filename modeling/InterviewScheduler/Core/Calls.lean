import Mathlib.Data.List.Permutation
import InterviewScheduler.Core.World

/-! # The calls the services are written with

One definition for each effect, the lock of `locks.py`, the audit writer of `audit.py` and the checks
of `deps.py`. `Platform` holds what the process is configured with. -/

namespace InterviewScheduler.Core

open InterviewScheduler.Engine InterviewScheduler.Effects

/-- Settings, the zone database, and the encryption of tokens (`none` is a `TokenCryptoError`). -/
structure Platform where
  zones : ZoneDatabase
  encrypt : String → Option String
  decrypt : String → Option String
  /-- `settings.calendar_simulated` -/
  calendarSimulated : Bool
  /-- `settings.interview_no_show_grace_minutes` -/
  interviewNoShowGraceMinutes : ℤ := 15
  /-- `SendGridClient.configured` -/
  sendGridConfigured : Bool

/-! ### The session -/

def dbGet (requestId : Id) : M (Option InterviewRequest) := .perform (.get requestId)

def dbRefresh (requestId : Id) : M InterviewRequest := .perform (.refresh requestId)

def dbExpunge (requestId : Id) : M Unit := .perform (.expunge requestId)

def dbSelect {α : Type} (query : ℕ → Db → α) : M α := .perform (.select query)

def transactionTime : M Instant := .perform .transactionTime

/-- An attribute of a row that was committed before is read, for a log message. -/
def readAttribute : M Unit := .perform .readAttribute

def dbAdd (w : Write) : M Unit := .perform (.stage w)

def dbAddSide (w : SideWrite) : M Unit := .perform (.stageSide w)

def dbFlush : M Unit := .perform .flush

def dbCommit : M Unit := .perform .commit

def dbRollback : M Unit := .perform .rollback

/-- The rows of a SELECT without ORDER BY, in some order. -/
def inSomeOrder {α : Type} (pick : ℕ) (rows : List α) : List α :=
  rows.permutations.getD pick rows

theorem inSomeOrder_perm {α : Type} (pick : ℕ) (rows : List α) : (inSomeOrder pick rows).Perm rows := by
  unfold inSomeOrder
  rw [List.getD_eq_getElem?_getD]
  cases h : rows.permutations[pick]? with
  | none => exact .refl _
  | some l => exact List.mem_permutations.mp (List.mem_of_getElem? h)

/-- The order of the rows is one of them. -/
theorem inSomeOrder_length {α : Type} (rows : List α) :
    inSomeOrder rows.permutations.length rows = rows := by
  simp [inSomeOrder]

theorem inSomeOrder_eq_nil {α : Type} {pick : ℕ} {rows : List α} :
    inSomeOrder pick rows = [] ↔ rows = [] := by
  have h := (inSomeOrder_perm pick rows).length_eq
  rw [← List.length_eq_zero_iff, h, List.length_eq_zero_iff]

/-! ### Time, ids and Redis -/

def uuid4 : M Id := .perform .uuid4

def now : M Instant := .perform .now

def asyncioSleep : M Unit := .perform .sleep

/-- `redis_lock(key, ttl_seconds)` around a block. When Redis is down the block runs without the
lock; an exception of the release is dropped. -/
def redisLock {α : Type} (key : LockKey) (ttlSeconds : ℕ) (block : M α) : M α := do
  let token ← uuid4
  let held ← Prog.attempt (.perform (.setNx key token ttlSeconds))
  match held with
  | .ok true => block.finallyDo (.perform (.release key token))
  | .ok false => throw .lockNotAcquired
  | .error _ => block

/-! ### Audit -/

def recordAudit (actor : User) (action : String) (entityId : Id)
    (metadata : List (String × String)) : M Unit := do
  dbAddSide (.insertAudit
    { actorId := actor.id, actorRole := actor.role, action, entityType := "interview_request",
      entityId, metadata })
  dbFlush

/-! ### Who may call -/

def notFoundError (message : String) : Exc := .app .notFoundError message

/-- The user of the access token. -/
def getCurrentUser (userId : Id) : M User := do
  let user ← dbSelect fun _ db => db.users userId
  Prog.orRaise user (.app .notAuthenticatedError "Invalid or expired access token.")

def requireRole (user : User) (role : Role) : M Unit :=
  Prog.raiseIf (user.role ≠ role) (.ofClass .forbiddenError)

/-- An ADMIN, or the CANDIDATE of the request. The request that it loads is not kept. -/
def adminOrOwningCandidate (user : User) (requestId : Id) : M Unit :=
  match user.role with
  | .admin => pure ()
  | .candidate => do
    let request ← dbGet requestId
    dbExpunge requestId
    Prog.raiseIf (request.any fun row => row.candidateId ≠ user.id) (.ofClass .forbiddenError)
  | .panelist => throw (.ofClass .forbiddenError)

end InterviewScheduler.Core
