import InterviewScheduler.Effects.Machine
import InterviewScheduler.Accounts.Models

/-! # What the account and invitation handlers can do, and what answers it

As for the scheduling handlers (`Core.World`), a handler runs in a session of its own, and one `Effect` is
what happens between two points at which another handler may run.

* A changed attribute or an added row is pending until `commit`, which applies all pending writes or none
  of them; `flush` tells whether they break a constraint.
* A failed flush or commit discards what is pending, and the session answers every call with an error
  until `rollback`. A rollback expires the instances that the session has loaded.
* Reads see what is committed (READ COMMITTED); the handlers never read their own pending writes.

What the outside world decides is in a `Choice`. It may also let another session commit an invitation,
just before a flush, that breaks a constraint together with what is pending. -/

namespace InterviewScheduler.Accounts

open InterviewScheduler.Intervals InterviewScheduler.Engine InterviewScheduler.Effects
open InterviewScheduler.Core (Id RoundType)

/-! ### Outside the database -/

/-- The identity that the claims of an ID token state. -/
structure GoogleIdentity where
  email : String
  name : String
  deriving DecidableEq, Repr

/-- `_invite_url`, with the base URL of the frontend. -/
structure InviteUrl where
  frontendBaseUrl : String
  rawToken : String
  deriving DecidableEq, Repr

def InviteUrl.text (url : InviteUrl) : String := url.frontendBaseUrl ++ "/invite/" ++ url.rawToken

/-- An invitation by e-mail, with what its texts are made of. -/
structure InviteEmail where
  recipient : String
  label : String
  durationMinutes : ℤ
  url : InviteUrl
  deriving DecidableEq, Repr

def InviteEmail.subject (msg : InviteEmail) : String := "Interview invitation — " ++ msg.label

def InviteEmail.textBody (msg : InviteEmail) : String :=
  "You've been invited to an interview (" ++ msg.label ++ ", " ++ toString msg.durationMinutes ++
    " minutes).\n\n" ++ "Respond here: " ++ msg.url.text ++ "\n"

/-! ### Session and world -/

structure Session where
  pending : List Write := []
  /-- the transaction has failed and was not rolled back -/
  invalid : Bool := false
  /-- there was a rollback, and no flush since -/
  retrying : Bool := false
  /-- the writes that a failure has discarded; a record that no handler reads -/
  discarded : List Write := []
  deriving DecidableEq, Repr

structure World where
  db : Tables
  now : Instant := 0
  /-- the raw tokens and the ids that were drawn so far -/
  minted : List String := []
  drawn : List Id := []
  /-- the e-mails that were sent -/
  outbox : List InviteEmail := []

namespace Session

/-- A database call fails. -/
def fail (s : Session) : Session :=
  { s with pending := [], invalid := true, discarded := s.discarded ++ s.pending }

def stage (s : Session) (y : Write) : Session := { s with pending := s.pending ++ [y] }

def flushed (s : Session) : Session := { s with retrying := false }

def committed (s : Session) : Session := { s with pending := [], retrying := false }

def rollback (s : Session) : Session :=
  { pending := [], invalid := false, retrying := true, discarded := s.discarded ++ s.pending }

end Session

/-! ### Effects -/

inductive Effect : Type → Type 1
  /-- a SELECT; the number settles the order of its rows -/
  | select {α : Type} (query : ℕ → Tables → α) : Effect α
  /-- the SELECT of a participant's invitation -/
  | invitationFor (requestId userId : Id) : Effect (Option ParticipantInvitation)
  /-- an attribute of an instance is read that a rollback may have expired -/
  | loadExpired : Effect Unit
  | stage (y : Write) : Effect Unit
  | flush : Effect Unit
  | commit : Effect Unit
  | rollback : Effect Unit
  /-- `gen_random_uuid()` -/
  | newId : Effect Id
  /-- `secrets.token_urlsafe(32)` -/
  | tokenUrlsafe : Effect String
  /-- `bcrypt.gensalt()` -/
  | gensalt : Effect String
  /-- `datetime.now(UTC)` -/
  | now : Effect Instant
  | sendMail (msg : InviteEmail) : Effect Unit
  /-- the check of the signature, issuer, audience and times of an ID token -/
  | verifyOauth2Token (idToken : String) : Effect Unit

/-- What the outside world answers. -/
inductive Answer where
  | ok
  | fail
  | pick (n : ℕ)
  | text (s : String)
  /-- another session has just committed this invitation -/
  | conflict (row : ParticipantInvitation)
  deriving DecidableEq, Repr

structure Choice where
  /-- the microseconds that pass before the effect -/
  elapsed : ℕ := 0
  answer : Answer := .ok
  deriving DecidableEq, Repr

def World.elapse (w : World) (c : Choice) : World := { w with now := w.now + c.elapsed }

abbrev Result (β : Type) := Option (Except Exc β × Session × World)

/-- A database call: an error in a failed transaction, a failure, or what `answer` says. -/
def dbCall {β : Type} (a : Answer) (s : Session) (w : World) (answer : ℕ → Result β) : Result β :=
  if s.invalid then some (.error .pendingRollbackError, s.fail, w)
  else match a with
    | .ok => answer 0
    | .pick n => answer n
    | .fail => some (.error .databaseError, s.fail, w)
    | _ => none

/-- The flush of what is pending: the unit of work reports a constraint that breaks. -/
def flushPending (s : Session) (w : World) : Result Unit :=
  match Write.applyAll s.pending w.db with
  | some _ => some (.ok (), s.flushed, w)
  | none => some (.error .integrityError, s.fail, w)

def commitPending (s : Session) (w : World) : Result Unit :=
  match Write.applyAll s.pending w.db with
  | some T => some (.ok (), s.committed, { w with db := T })
  | none => some (.error .integrityError, s.fail, w)

/-- A flush that comes after the commit of `row` by another session, and fails for it. -/
def conflictingFlush (row : ParticipantInvitation) (s : Session) (w : World) : Result Unit :=
  let db := (Write.insertInvitation row).apply w.db
  if s.invalid = false ∧ (Write.insertInvitation row).violates w.db = false ∧
      Write.applyAll s.pending db = none then
    some (.error .integrityError, s.fail, { w with db })
  else none

/-- The answer to an effect, once the time of the choice has passed. -/
def respond {β : Type} (o : Effect β) (a : Answer) (s : Session) (w : World) : Result β :=
  match o with
  | .select query => dbCall a s w fun n => some (.ok (query n w.db), s, w)
  | .invitationFor r u => dbCall a s w fun _ => some (.ok (w.db.invitationFor r u), s, w)
  | .loadExpired =>
    match a with
    | .ok => some (.ok (), s, w)
    | .fail => some (.error .missingGreenlet, s, w)
    | _ => none
  | .stage y => some (.ok (), s.stage y, w)
  | .flush =>
    match a with
    | .conflict row => conflictingFlush row s w
    | a => dbCall a s w fun _ => flushPending s w
  | .commit => dbCall a s w fun _ => commitPending s w
  | .rollback => some (.ok (), s.rollback, w)
  | .newId =>
    match a with
    | .pick n => if n ∈ w.drawn then none else some (.ok n, s, { w with drawn := n :: w.drawn })
    | _ => none
  | .tokenUrlsafe =>
    match a with
    | .text raw =>
      if raw ∈ w.minted then none else some (.ok raw, s, { w with minted := raw :: w.minted })
    | _ => none
  | .gensalt =>
    match a with
    | .text salt => some (.ok salt, s, w)
    | _ => none
  | .now => some (.ok w.now, s, w)
  | .sendMail msg =>
    match a with
    | .ok => some (.ok (), s, { w with outbox := w.outbox ++ [msg] })
    | .fail => some (.error .sendGridError, s, w)
    | _ => none
  | .verifyOauth2Token _ =>
    match a with
    | .ok => some (.ok (), s, w)
    | .fail => some (.error (.ofClass .invalidGoogleTokenError), s, w)
    | _ => none

def exec {β : Type} (o : Effect β) (c : Choice) (s : Session) (w : World) : Result β :=
  respond o c.answer s (w.elapse c)

/-- The machine that runs the handlers. -/
def machine : Machine Effect Exc Choice Session World := ⟨exec⟩

/-- A handler, or a part of one. -/
abbrev M := Prog Effect Exc

/-! ### The calls the services are written with -/

/-- Settings, and the functions of the hash libraries; `none` is a `ValueError` of bcrypt. -/
structure Platform where
  sha256Hex : String → String
  /-- the claims of an ID token -/
  googleIdentity : String → GoogleIdentity
  hashpw : String → String → Option String
  checkpw : String → String → Option Bool
  frontendBaseUrl : String := "http://localhost:3000"
  invitationTtlHours : ℤ := 168
  /-- `SendGridClient.configured` -/
  sendGridConfigured : Bool

def dbSelect {α : Type} (query : ℕ → Tables → α) : M α := .perform (.select query)

def dbAdd (y : Write) : M Unit := .perform (.stage y)

def dbFlush : M Unit := .perform .flush

def dbCommit : M Unit := .perform .commit

def dbRollback : M Unit := .perform .rollback

def newId : M Id := .perform .newId

def now : M Instant := .perform .now

/-- `record_audit` -/
def recordAudit (row : AuditLog) : M Unit := do
  dbAdd (.insertAudit row)
  dbFlush

/-- `hash_password` -/
def hashPassword (pf : Platform) (password : String) : M String := do
  let salt ← .perform .gensalt
  Prog.orRaise (pf.hashpw password salt) (.builtin "ValueError")

/-- `verify_id_token` -/
def verifyIdToken (pf : Platform) (idToken : String) : M GoogleIdentity := do
  .perform (.verifyOauth2Token idToken)
  pure (pf.googleIdentity idToken)

/-- `verify_password` -/
def verifyPassword (pf : Platform) (password passwordHash : String) : Bool :=
  (pf.checkpw password passwordHash).getD false

end InterviewScheduler.Accounts
