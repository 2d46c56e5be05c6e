import InterviewScheduler.Effects.Machine
import InterviewScheduler.Core.Errors

/-! # What a request handler can do, and what answers it

A handler runs in a session of SQLAlchemy (`Session`) against the database, Redis, Google Calendar and
SendGrid (`World`). One `Effect` is what happens between two points at which another handler may run:
a database statement, a Redis command, an HTTP call. `exec` answers it.

* `get` returns the instance that the session already holds, without a database read
  (`expire_on_commit=False`); `refresh` reads the row again.
* A changed attribute or an added row is pending until `commit`, which applies all pending writes or
  none of them. Setting an attribute to the value it has is no change.
* After a failed database call the session answers every call with an error until `rollback`.
* A flush that fails rolls the transaction back, which expires the instances: the attributes of a row that
  was committed before cannot be read any more.
* Reads see what is committed (READ COMMITTED); the handlers never read their own pending writes.

What the outside world decides is in a `Choice`: the time that passes, which lock entries expire, and
whether a call fails. `Session.trace` and `World.log` are auxiliary: they record what happened, and no
handler reads them. -/

namespace InterviewScheduler.Core

open InterviewScheduler.Intervals InterviewScheduler.Engine InterviewScheduler.Effects

/-! ### Outside the database -/

/-- `lock:booking:{id}` and `lock:recommend:{id}` -/
inductive LockKey where
  | booking (requestId : Id)
  | recommend (requestId : Id)
  deriving DecidableEq, Repr

/-- `freebusy:{user_id}:{digest of the range}` -/
structure FreeBusyKey where
  userId : Id
  timeMin : Instant
  timeMax : Instant
  deriving DecidableEq, Repr

abbrev BusyInterval := HalfOpen DateTime

structure TokenBundle where
  accessToken : String
  refreshToken : Option String
  expiresIn : ℤ
  scope : String
  deriving DecidableEq, Repr

structure CalendarEvent where
  eventId : String
  meetingLink : Option String
  htmlLink : Option String
  deriving DecidableEq, Repr

/-- The body of an `events.insert`. -/
structure EventDraft where
  summary : String
  description : String
  start : Instant
  stop : Instant
  attendeeEmails : List String
  deriving DecidableEq, Repr

structure EmailMessage where
  recipient : String
  cc : List String
  subject : String
  textBody : String
  deriving DecidableEq, Repr

/-- The events of Google Calendar that this system has created and deleted. -/
structure Google where
  created : List String := []
  deleted : List String := []
  deriving DecidableEq, Repr

/-! ### The record of what happened -/

/-- A committed change of a request's status. -/
structure StatusChange where
  requestId : Id
  before : RequestStatus
  after : RequestStatus
  deriving DecidableEq, Repr

/-- A status as it was read from the database, and the length of `World.log` then. -/
structure Reading where
  status : RequestStatus
  logged : ℕ
  deriving DecidableEq, Repr

/-- The request whose operations the lock excludes. -/
def LockKey.requestId : LockKey → Id
  | booking r => r
  | recommend r => r

/-- The critical section of a call: its lock with the token of the entry (`none` when Redis is down), the
status that was committed when it began and the length of `World.log` then, the last reading of the
request before, the last status the call has read since, and the last one that it has read from the
database since its last write. -/
structure Critical where
  key : LockKey
  token : Option Id
  entered : Option RequestStatus
  logged : ℕ
  loaded : Option Reading
  decided : Option RequestStatus := none
  reread : Option RequestStatus := none
  deriving DecidableEq, Repr

/-- The lookup of a request's CONFIRMED event: what it found, and the number of stored events then. -/
structure Lookup where
  requestId : Id
  event : Option Id
  stored : ℕ
  deriving DecidableEq, Repr

/-- The lookup of a slot: the slot and the run that it was found in. -/
structure Finding where
  slotId : Id
  runId : Id
  deriving DecidableEq, Repr

/-- The lookup of a request's latest run: what it found, the number of runs of the request then, and the
status of the request as it was last read before. -/
structure Ranking where
  requestId : Id
  run : Option RecommendationRun
  stored : ℕ
  read : Option RequestStatus
  deriving DecidableEq, Repr

structure Trace where
  /-- the last database read of each request -/
  reads : Id → Option Reading := fun _ => none
  critical : Option Critical := none
  looked : Option Lookup := none
  found : Option Finding := none
  ranked : Option Ranking := none
  /-- the writes to the interview tables that the call has committed -/
  journal : List Write := []
  /-- the calendar events that the call has created and not yet accounted for -/
  owed : List String := []
  /-- the calendar events that the call has deleted since its last commit, other than its own -/
  dropped : List String := []
  /-- the calendar events whose deletion or reconciliation task the database refused to record -/
  lost : List String := []

/-- The calendar event that a CONFIRMED row refers to. -/
def Write.references : Write → List String
  | .insertEvent row => if row.status = .confirmed then [row.calendarEventId] else []
  | _ => []

/-- The calendar event that an OPEN reconciliation task is about. -/
def SideWrite.reports : SideWrite → List String
  | .insertTask row => if row.status = .open then [row.externalCalendarEventId] else []
  | _ => []

/-- The row of a notification is added. -/
def SideWrite.isNotification : SideWrite → Bool
  | .insertNotification _ => true
  | _ => false

/-- A calendar connection is changed. -/
def SideWrite.isRenewal : SideWrite → Bool
  | .setConnectionStatus _ _ => true
  | .setAccessToken _ _ _ => true
  | _ => false

namespace Trace

def commit (t : Trace) (ws : List Write) (side : List SideWrite) : Trace :=
  { t with
    journal := t.journal ++ ws
    owed := t.owed.filter fun id => id ∉ ws.flatMap Write.references ∧ id ∉ side.flatMap SideWrite.reports
    dropped := []
    critical := if ws = [] then t.critical else t.critical.map fun c => { c with reread := none } }

def fail (t : Trace) (side : List SideWrite) : Trace :=
  { t with
    owed := t.owed.filter fun id => id ∉ side.flatMap SideWrite.reports
    dropped := []
    lost := t.lost ++ t.dropped ++ side.flatMap SideWrite.reports }

def delete (t : Trace) (id : String) : Trace :=
  if id ∈ t.owed then { t with owed := t.owed.filter (· ≠ id) }
  else { t with dropped := t.dropped ++ [id] }

/-- A status was read, inside the critical section or not. -/
def decide (t : Trace) (status : RequestStatus) : Trace :=
  { t with critical := t.critical.map fun c => { c with decided := some status } }

/-- The status of a request was read from the database. -/
def reread (t : Trace) (requestId : Id) (status : RequestStatus) : Trace :=
  { t with
    critical := t.critical.map fun c =>
      if c.key.requestId = requestId then { c with reread := some status } else c }

/-- A row was read from the database, when the log had the given length. -/
def read (t : Trace) (requestId : Id) (status : RequestStatus) (logged : ℕ) : Trace :=
  (({ t with reads := Function.update t.reads requestId (some ⟨status, logged⟩) } : Trace).decide
    status).reread requestId status

end Trace

/-! ### Queries -/

/-- `ORDER BY key DESC LIMIT 1`; rows with equal keys may come in any order. -/
def latestBy {α : Type} (key : α → Instant) (pick : ℕ) (rows : List α) : Option α :=
  let top := rows.filter fun x => rows.all fun y => key y ≤ key x
  top[pick % top.length]?

/-- A slot, with its run. -/
def slotWithRun (T : Interviews) (slotId : Id) : Option (RecommendedSlot × RecommendationRun) :=
  T.runs.findSome? fun run => (run.slots.find? fun s => s.id = slotId).map (·, run)

/-- The runs of a request. -/
def runsOf (T : Interviews) (requestId : Id) : List RecommendationRun :=
  T.runs.filter fun run => run.interviewRequestId = requestId

def latestRun (pick : ℕ) (T : Interviews) (requestId : Id) : Option RecommendationRun :=
  latestBy (·.generatedAt) pick (runsOf T requestId)

/-! ### Session and world -/

structure Session where
  /-- the identity map of `InterviewRequest`, with the attributes as the handler sees them -/
  copies : Id → Option InterviewRequest := fun _ => none
  pending : List Write := []
  side : List SideWrite := []
  /-- the transaction has failed and was not rolled back -/
  invalid : Bool := false
  /-- the rows of the last commit were expired by a rollback since -/
  expired : Bool := false
  /-- when the current transaction began, which is what `now()` gives in it -/
  began : Option Instant := none
  trace : Trace := {}

structure World where
  db : Db
  locks : LockKey → Option Id := fun _ => none
  cache : FreeBusyKey → Option (List BusyInterval) := fun _ => none
  google : Google := {}
  now : Instant := 0
  log : List StatusChange := []

/-- The committed status of a request. -/
def World.status (w : World) (requestId : Id) : Option RequestStatus :=
  (w.db.requests requestId).map (·.status)

namespace Session

/-- A statement is executed: it begins a transaction when there is none. -/
def touch (s : Session) (w : World) : Session :=
  { s with began := some (s.began.getD w.now) }

/-- A database call fails. -/
def fail (s : Session) : Session :=
  { s with
    copies := fun _ => none
    pending := []
    side := []
    invalid := true
    trace := s.trace.fail s.side }

/-- The transaction is rolled back, and the attributes of every instance are to be loaded again. -/
def expire (s : Session) : Session := { s with expired := true }

/-- The row of a request is loaded from the database. -/
def load (s : Session) (w : World) (requestId : Id) (row : Option InterviewRequest) : Session :=
  { s with
    copies := Function.update s.copies requestId row
    trace := match row with
      | some row => s.trace.read requestId row.status w.log.length
      | none => s.trace }

def committed (s : Session) : Session :=
  { s with
    pending := []
    side := []
    invalid := false
    expired := false
    began := none
    trace := s.trace.commit s.pending s.side }

def rollback (s : Session) : Session :=
  { s with
    copies := fun _ => none
    pending := []
    side := []
    invalid := false
    expired := true
    began := none
    trace := s.trace.fail s.side }

/-- The attributes of the instance that the session holds. -/
def modifyCopy (s : Session) (requestId : Id) (f : InterviewRequest → InterviewRequest) : Session :=
  { s with copies := Function.update s.copies requestId ((s.copies requestId).map f) }

/-- An attribute is set or a row is added. -/
def stage (s : Session) : Write → Session
  | .setStatus r st =>
    if (s.copies r).any fun row => row.status = st then s
    else { s.modifyCopy r fun row => { row with status := st } with
      pending := s.pending ++ [.setStatus r st] }
  | .setOutcome r o notes =>
    { s.modifyCopy r fun row => { row with outcome := some o, outcomeNotes := notes } with
      pending := s.pending ++ [.setOutcome r o notes] }
  | .setDetails r rt d b =>
    { s.modifyCopy r fun row => { row with
        roundType := rt.column row.roundType
        durationMinutes := d.column row.durationMinutes
        bufferMinutes := b.column row.bufferMinutes } with
      pending := s.pending ++ [.setDetails r rt d b] }
  | w => { s with pending := s.pending ++ [w] }

end Session

/-- The status changes of a commit of `ws` that takes the tables from `T` to `T'`. -/
def statusChanges (ws : List Write) (T T' : Interviews) : List StatusChange :=
  (ws.filterMap Write.statusTarget).filterMap fun r =>
    match T.requests r, T'.requests r with
    | some row, some row' =>
      if row.status = row'.status then none else some ⟨r, row.status, row'.status⟩
    | _, _ => none

/-- The database after a commit of `s` that takes the interview tables to `T`. -/
def World.commit (w : World) (s : Session) (T : Interviews) : World :=
  { w with
    db := s.side.foldl SideWrite.apply { w.db with toInterviews := T }
    log := w.log ++ statusChanges s.pending w.db.toInterviews T }

/-! ### Effects -/

inductive Effect : Type → Type 1
  /-- `db.get(InterviewRequest, id)` -/
  | get (requestId : Id) : Effect (Option InterviewRequest)
  /-- `db.refresh(request)` -/
  | refresh (requestId : Id) : Effect InterviewRequest
  /-- the last reference to the instance goes, and with it its entry in the identity map -/
  | expunge (requestId : Id) : Effect Unit
  /-- a SELECT; the number settles what SQL leaves open, as the order of rows -/
  | select {α : Type} (query : ℕ → Db → α) : Effect α
  /-- the SELECT of a request's CONFIRMED event -/
  | confirmedEvent (requestId : Id) : Effect (Option InterviewEvent)
  /-- the SELECT of a user's calendar connection -/
  | connectionOf (userId : Id) : Effect (Option CalendarConnection)
  /-- the SELECT of a slot with its run -/
  | slotWithRun (slotId : Id) : Effect (Option (RecommendedSlot × RecommendationRun))
  /-- the SELECT of a request's latest run -/
  | latestRun (requestId : Id) : Effect (Option RecommendationRun)
  /-- `now()` of the database, the default of the timestamp columns -/
  | transactionTime : Effect Instant
  /-- an attribute of a row of the last commit is read -/
  | readAttribute : Effect Unit
  | stage (w : Write) : Effect Unit
  | stageSide (w : SideWrite) : Effect Unit
  | flush : Effect Unit
  | commit : Effect Unit
  | rollback : Effect Unit
  | uuid4 : Effect Id
  /-- `datetime.now(UTC)` -/
  | now : Effect Instant
  | sleep : Effect Unit
  /-- `SET key token NX EX ttl` -/
  | setNx (key : LockKey) (token : Id) (ttlSeconds : ℕ) : Effect Bool
  /-- the release script: `DEL` if the entry is the caller's -/
  | release (key : LockKey) (token : Id) : Effect Unit
  | cacheGet (key : FreeBusyKey) : Effect (Option (List BusyInterval))
  | cacheSet (key : FreeBusyKey) (busy : List BusyInterval) : Effect Unit
  | createEvent (accessToken : String) (draft : EventDraft) : Effect CalendarEvent
  | deleteEvent (accessToken eventId : String) : Effect Unit
  | freeBusy (accessToken : String) (timeMin timeMax : Instant) : Effect (List BusyInterval)
  | refreshToken (refreshToken : String) : Effect TokenBundle
  | sendMail (msg : EmailMessage) : Effect Unit

/-- What the outside world answers. -/
inductive Answer where
  | ok
  /-- the call fails: the database, Redis, the transport, the mail service -/
  | fail
  /-- Google rejects the grant -/
  | auth
  | pick (n : ℕ)
  | event (e : CalendarEvent)
  | busy (blocks : List BusyInterval)
  | tokens (bundle : TokenBundle)
  deriving DecidableEq, Repr

structure Choice where
  /-- the microseconds that pass before the effect, beyond the one that every effect takes -/
  elapsed : ℕ := 0
  /-- the lock entries whose TTL runs out before it -/
  expired : List LockKey := []
  /-- the cache entries whose TTL runs out before it -/
  evicted : List FreeBusyKey := []
  answer : Answer := .ok
  deriving DecidableEq, Repr

def World.elapse (w : World) (c : Choice) : World :=
  { w with
    now := w.now + c.elapsed + 1
    locks := fun k => if k ∈ c.expired then none else w.locks k
    cache := fun k => if k ∈ c.evicted then none else w.cache k }

abbrev Result (β : Type) := Option (Except Exc β × Session × World)

/-- A database call: an error in a failed transaction, a failure, or what `answer` says. -/
def dbCall {β : Type} (a : Answer) (s : Session) (w : World) (answer : ℕ → Result β) : Result β :=
  if s.invalid then some (.error .pendingRollbackError, s.fail, w)
  else match a with
    | .ok => answer 0
    | .pick n => answer n
    | .fail => some (.error .databaseError, s.fail, w)
    | _ => none

/-- A call that answers or fails, without an effect on the session. -/
def outerCall {β : Type} (a : Answer) (e : Exc) (s : Session) (w : World) (answer : Result β) :
    Result β :=
  match a with
  | .ok => answer
  | .fail => some (.error e, s, w)
  | _ => none

/-- A call of the Google client, which raises its two exceptions only. -/
def googleCall {β : Type} (a : Answer) (s : Session) (w : World) (answer : Answer → Result β) :
    Result β :=
  match a with
  | .fail => some (.error .calendarTransportError, s, w)
  | .auth => some (.error .calendarAuthError, s, w)
  | a => answer a

/-- The critical section that begins. -/
def Session.entry (s : Session) (w : World) (key : LockKey) (token : Option Id) : Critical where
  key := key
  token := token
  entered := w.status key.requestId
  logged := w.log.length
  loaded := s.trace.reads key.requestId

/-- The lock was taken, or Redis is down and the call goes on without it. -/
def Session.enter (s : Session) (w : World) (key : LockKey) (token : Option Id) : Session :=
  { s with trace := { s.trace with critical := some (s.entry w key token) } }

/-- The lock was released. -/
def Session.leave (s : Session) : Session := { s with trace := { s.trace with critical := none } }

/-- A slot was looked up. -/
def Session.find (s : Session) (x : Option (RecommendedSlot × RecommendationRun)) : Session :=
  { s with trace := { s.trace with found := x.map fun (slot, run) => ⟨slot.id, run.id⟩ } }

/-- The latest run was looked up. -/
def Session.rank (s : Session) (w : World) (requestId : Id) (run : Option RecommendationRun) :
    Session :=
  { s with trace := { s.trace with ranked := some ⟨requestId, run,
    (runsOf w.db.toInterviews requestId).length, (s.trace.reads requestId).map (·.status)⟩ } }

/-- The answer to an effect, once the time of the choice has passed. -/
def respond {β : Type} (o : Effect β) (a : Answer) (s : Session) (w : World) : Result β :=
  match o with
  | .get r =>
    match s.copies r with
    | some row => some (.ok (some row), { s with trace := s.trace.decide row.status }, w)
    | none => dbCall a s w fun _ =>
        some (.ok (w.db.requests r), (s.touch w).load w r (w.db.requests r), w)
  | .refresh r => dbCall a s w fun _ =>
      match w.db.requests r with
      | some row => some (.ok row, (s.touch w).load w r (some row), w)
      | none => some (.error (.builtin "InvalidRequestError"), s, w)
  | .expunge r => some (.ok (), { s with copies := Function.update s.copies r none }, w)
  | .select query => dbCall a s w fun n => some (.ok (query n w.db), s.touch w, w)
  | .confirmedEvent r => dbCall a s w fun _ =>
      let event := w.db.events.find? fun e => e.ConfirmedFor r
      some (.ok event, { s.touch w with
        trace := { s.trace with looked := some ⟨r, event.map (·.id), w.db.events.length⟩ } }, w)
  | .connectionOf u => dbCall a s w fun _ => some (.ok (w.db.connections u), s.touch w, w)
  | .slotWithRun slotId => dbCall a s w fun _ =>
      let x := Core.slotWithRun w.db.toInterviews slotId
      some (.ok x, (s.touch w).find x, w)
  | .latestRun r => dbCall a s w fun pick =>
      let run := Core.latestRun pick w.db.toInterviews r
      some (.ok run, (s.touch w).rank w r run, w)
  | .transactionTime => some (.ok (s.began.getD w.now), s.touch w, w)
  | .readAttribute =>
    if s.expired then some (.error .pendingRollbackError, s, w) else some (.ok (), s, w)
  | .stage x => some (.ok (), s.stage x, w)
  | .stageSide x => some (.ok (), { s with side := s.side ++ [x] }, w)
  | .flush => dbCall a s.expire w fun _ =>
      match Write.applyAll s.pending w.db.toInterviews with
      | some _ => some (.ok (), s.touch w, w)
      | none => some (.error .integrityError, s.expire.fail, w)
  | .commit => dbCall a s w fun _ =>
      match Write.applyAll s.pending w.db.toInterviews with
      | some T => some (.ok (), s.committed, w.commit s T)
      | none => some (.error .integrityError, s.expire.fail, w)
  | .rollback => some (.ok (), s.rollback, w)
  | .uuid4 =>
    match a with
    | .pick n => some (.ok n, s, w)
    | _ => none
  | .now => some (.ok w.now, s, w)
  | .sleep => some (.ok (), s, w)
  | .setNx key token _ =>
    match a with
    | .ok =>
      if (w.locks key).isSome then some (.ok false, s, w)
      else some (.ok true, s.enter w key (some token),
        { w with locks := Function.update w.locks key (some token) })
    | .fail => some (.error .redisError, s.enter w key none, w)
    | _ => none
  | .release key token => outerCall a .redisError s.leave w <| some (.ok (), s.leave,
      if w.locks key = some token then { w with locks := Function.update w.locks key none } else w)
  | .cacheGet key => outerCall a .redisError s w <| some (.ok (w.cache key), s, w)
  | .cacheSet key busy => outerCall a .redisError s w <|
      some (.ok (), s, { w with cache := Function.update w.cache key (some busy) })
  | .createEvent _ _ => googleCall a s w fun
      | .event e =>
        if e.eventId ∈ w.google.created ∨ e.eventId ∈ w.google.deleted then none
        else some (.ok e, { s with trace := { s.trace with owed := s.trace.owed ++ [e.eventId] } },
          { w with google := { w.google with created := w.google.created ++ [e.eventId] } })
      | _ => none
  | .deleteEvent _ id => googleCall a s w fun
      | .ok => some (.ok (), { s with trace := s.trace.delete id },
          { w with google := { w.google with deleted := w.google.deleted ++ [id] } })
      | _ => none
  | .freeBusy _ _ _ => googleCall a s w fun
      | .busy blocks => some (.ok blocks, s, w)
      | _ => none
  | .refreshToken _ => googleCall a s w fun
      | .tokens bundle => some (.ok bundle, s, w)
      | _ => none
  | .sendMail _ => outerCall a .sendGridError s w <| some (.ok (), s, w)

def exec {β : Type} (o : Effect β) (c : Choice) (s : Session) (w : World) : Result β :=
  respond o c.answer s (w.elapse c)

/-- The machine that runs the handlers. -/
def machine : Machine Effect Exc Choice Session World := ⟨exec⟩

/-- A handler, or a part of one. -/
abbrev M := Prog Effect Exc

end InterviewScheduler.Core
