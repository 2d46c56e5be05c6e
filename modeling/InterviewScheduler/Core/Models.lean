import Mathlib.Logic.Function.Basic
import Mathlib.Tactic.SplitIfs
import InterviewScheduler.Engine.Types

/-! # The tables

The rows of `models.py` that the scheduling code reads and writes. `Interviews` holds the tables that
an interview's lifecycle is about; `Db` adds the ones that record what happened beside it (calendar
connections, responses, reconciliation tasks, the audit log and notifications).

An id stands for a UUID. A column with a fixed set of values is an enumeration. -/

namespace InterviewScheduler.Core

open InterviewScheduler.Intervals InterviewScheduler.Engine

abbrev Id := ℕ

/-! ### Enumerations -/

/-- `users.role` -/
inductive Role where
  | admin
  | panelist
  | candidate
  deriving DecidableEq, Repr

inductive RoundType where
  | screening
  | technical
  | managerial
  | hr
  deriving DecidableEq, Repr

def RoundType.name : RoundType → String
  | screening => "SCREENING"
  | technical => "TECHNICAL"
  | managerial => "MANAGERIAL"
  | hr => "HR"

/-- `interview_requests.status` -/
inductive RequestStatus where
  | draft
  | awaitingCandidateAvailability
  | readyForScheduling
  | recommended
  | booked
  | completed
  | rescheduling
  | failed
  | cancelled
  deriving DecidableEq, Repr

/-- `EDITABLE_STATUSES` -/
def editableStatuses : List RequestStatus := [.draft, .awaitingCandidateAvailability]

inductive Outcome where
  | passed
  | rejected
  | noShow
  deriving DecidableEq, Repr

def Outcome.name : Outcome → String
  | passed => "PASSED"
  | rejected => "REJECTED"
  | noShow => "NO_SHOW"

inductive RoleInInterview where
  | panelist
  | candidate
  deriving DecidableEq, Repr

inductive ResponseStatus where
  | pending
  | accepted
  | declined
  | unavailable
  deriving DecidableEq, Repr

inductive EventStatus where
  | confirmed
  | cancelled
  deriving DecidableEq, Repr

inductive Provider where
  | google
  | simulated
  deriving DecidableEq, Repr

def Provider.name : Provider → String
  | google => "GOOGLE"
  | simulated => "SIMULATED"

inductive ConnectionStatus where
  | connected
  | expired
  | revoked
  | disconnected
  deriving DecidableEq, Repr

inductive TaskStatus where
  | open
  | resolved
  deriving DecidableEq, Repr

inductive NotificationType where
  | confirmation
  | reminder
  | decline
  | cancellation
  | reschedule
  deriving DecidableEq, Repr

inductive NotificationStatus where
  | sent
  | failed
  | simulated
  deriving DecidableEq, Repr

/-! ### Rows -/

structure User where
  id : Id
  email : String
  role : Role
  timezone : String := "UTC"
  deriving DecidableEq, Repr

structure InterviewRequest where
  id : Id
  candidateId : Id
  createdBy : Id
  roundType : RoundType
  durationMinutes : ℤ
  bufferMinutes : ℤ
  status : RequestStatus
  title : Option String := none
  company : Option String := none
  outcome : Option Outcome := none
  outcomeNotes : Option String := none
  roundNumber : ℕ := 1
  parentRequestId : Option Id := none
  deriving DecidableEq, Repr

/-- A participant, without the `response_status` column, which is kept in `Db.responses`. -/
structure InterviewParticipant where
  userId : Id
  roleInInterview : RoleInInterview
  deriving DecidableEq, Repr

structure AvailabilityWindow where
  startTime : Instant
  endTime : Instant
  deriving DecidableEq, Repr

structure CandidateAvailability where
  id : Id
  interviewRequestId : Id
  candidateId : Id
  timezone : String
  submittedAt : Instant
  windows : List AvailabilityWindow
  deriving DecidableEq, Repr

/-- `input_snapshot`: what the engine ran against, with instants where the JSON has ISO strings. -/
structure InputSnapshot where
  referenceTime : DateTime
  durationMinutes : ℤ
  bufferMinutes : ℤ
  proximityHorizonDays : ℤ
  slotStepMinutes : ℤ
  topN : ℤ
  weights : ScoringWeights
  participants : List Participant
  candidateWindows : List CandidateWindow
  simulatedCalendar : Bool := false
  deriving DecidableEq, Repr

structure RecommendedSlot where
  id : Id
  startTime : Instant
  endTime : Instant
  totalScore : ℚ
  scoreBreakdown : ScoreBreakdown
  explanation : String
  rank : ℕ
  isSelected : Bool := false
  deriving DecidableEq, Repr

structure RecommendationRun where
  id : Id
  interviewRequestId : Id
  generatedAt : Instant
  algorithmVersion : String
  inputSnapshot : InputSnapshot
  slots : List RecommendedSlot
  deriving DecidableEq, Repr

structure InterviewEvent where
  id : Id
  interviewRequestId : Id
  startTime : Instant
  endTime : Instant
  calendarEventId : String
  meetingLink : Option String
  provider : Provider
  status : EventStatus
  deriving DecidableEq, Repr

/-- The event holds its request's booking. -/
def InterviewEvent.ConfirmedFor (e : InterviewEvent) (requestId : Id) : Prop :=
  e.interviewRequestId = requestId ∧ e.status = .confirmed

instance (e : InterviewEvent) (r : Id) : Decidable (e.ConfirmedFor r) :=
  inferInstanceAs (Decidable (_ ∧ _))

/-- A user's connection for the provider `GOOGLE`. -/
structure CalendarConnection where
  userId : Id
  status : ConnectionStatus
  accessTokenEncrypted : Option String
  refreshTokenEncrypted : Option String
  tokenExpiresAt : Option Instant
  deriving DecidableEq, Repr

structure ReconciliationTask where
  interviewEventId : Option Id
  externalCalendarEventId : String
  reason : String
  status : TaskStatus
  metadata : List (String × String)
  deriving DecidableEq, Repr

structure AuditLog where
  actorId : Id
  actorRole : Role
  action : String
  entityType : String
  entityId : Id
  metadata : List (String × String)
  deriving DecidableEq, Repr

structure NotificationLog where
  interviewEventId : Id
  channel : String
  notificationType : NotificationType
  recipient : String
  status : NotificationStatus
  deriving DecidableEq, Repr

/-! ### Tables -/

/-- The tables of the interview lifecycle. -/
structure Interviews where
  users : Id → Option User
  requests : Id → Option InterviewRequest := fun _ => none
  /-- `interview_participants`, by request -/
  participants : Id → List InterviewParticipant := fun _ => []
  availability : List CandidateAvailability := []
  runs : List RecommendationRun := []
  events : List InterviewEvent := []

/-- The whole database. -/
structure Db extends Interviews where
  /-- `interview_participants.response_status`, by request and user -/
  responses : Id → Id → ResponseStatus := fun _ _ => .pending
  connections : Id → Option CalendarConnection := fun _ => none
  tasks : List ReconciliationTask := []
  audits : List AuditLog := []
  notifications : List NotificationLog := []

/-! ### Writes -/

/-- A field of a PATCH body: absent, null, or a value. -/
inductive Patch (α : Type) where
  | unset
  | null
  | value (a : α)
  deriving DecidableEq, Repr

namespace Patch

variable {α : Type}

def isSet : Patch α → Bool
  | unset => false
  | _ => true

def isNull : Patch α → Bool
  | null => true
  | _ => false

/-- The column after `setattr`, if the database takes it. -/
def column (old : α) : Patch α → α
  | value a => a
  | _ => old

/-- A value that is given does not have the property. -/
def lacks (P : α → Bool) : Patch α → Bool
  | value a => !P a
  | _ => false

end Patch

/-- An `INTEGER` column holds 32 bits. -/
def fitsInteger (n : ℤ) : Bool := -2147483648 ≤ n ∧ n ≤ 2147483647

/-- A pending change of the interview tables: an attribute that was set, or a row that was added. -/
inductive Write where
  /-- a request with its participants -/
  | insertRequest (row : InterviewRequest) (participants : List InterviewParticipant)
  | setStatus (requestId : Id) (status : RequestStatus)
  | setOutcome (requestId : Id) (outcome : Outcome) (notes : Option String)
  /-- the columns an administrator may edit -/
  | setDetails (requestId : Id) (roundType : Patch RoundType)
      (durationMinutes bufferMinutes : Patch ℤ)
  /-- the participants but the candidate are replaced -/
  | replacePanelists (requestId : Id) (panelistIds : List Id)
  | insertAvailability (row : CandidateAvailability)
  | insertRun (row : RecommendationRun)
  | selectSlot (slotId : Id)
  | insertEvent (row : InterviewEvent)
  | cancelEvent (eventId : Id)
  deriving DecidableEq, Repr

/-- A pending change of the other tables. -/
inductive SideWrite where
  | setResponse (requestId userId : Id) (status : ResponseStatus)
  | setConnectionStatus (userId : Id) (status : ConnectionStatus)
  | setAccessToken (userId : Id) (accessTokenEncrypted : String) (tokenExpiresAt : Instant)
  | insertTask (row : ReconciliationTask)
  | insertAudit (row : AuditLog)
  | insertNotification (row : NotificationLog)
  deriving DecidableEq, Repr

namespace Interviews

/-- Change one request. -/
def modifyRequest (T : Interviews) (requestId : Id) (f : InterviewRequest → InterviewRequest) :
    Interviews :=
  { T with requests := Function.update T.requests requestId ((T.requests requestId).map f) }

/-- `uq_interview_events_one_confirmed`: the request has a CONFIRMED event. -/
def hasConfirmed (T : Interviews) (requestId : Id) : Bool :=
  T.events.any fun e => decide (e.ConfirmedFor requestId)

end Interviews

/-- The slots of a run after one of them was selected. -/
def RecommendationRun.select (slotId : Id) (run : RecommendationRun) : RecommendationRun :=
  { run with slots := run.slots.map fun s => if s.id = slotId then { s with isSelected := true } else s }

@[simp] theorem RecommendationRun.select_id (slotId : Id) (run : RecommendationRun) :
    (run.select slotId).id = run.id := rfl

@[simp] theorem RecommendationRun.select_requestId (slotId : Id) (run : RecommendationRun) :
    (run.select slotId).interviewRequestId = run.interviewRequestId := rfl

@[simp] theorem RecommendationRun.select_generatedAt (slotId : Id) (run : RecommendationRun) :
    (run.select slotId).generatedAt = run.generatedAt := rfl

/-- No slot of the run is selected. -/
def RecommendationRun.Unselected (run : RecommendationRun) : Prop :=
  ∀ slot ∈ run.slots, slot.isSelected = false

/-- What never changes of a stored run. -/
structure RunKey where
  id : Id
  interviewRequestId : Id
  generatedAt : Instant
  slotIds : List Id
  deriving DecidableEq, Repr

def RecommendationRun.key (run : RecommendationRun) : RunKey :=
  ⟨run.id, run.interviewRequestId, run.generatedAt, run.slots.map (·.id)⟩

@[simp] theorem RecommendationRun.select_key (slotId : Id) (run : RecommendationRun) :
    (run.select slotId).key = run.key := by
  have hid : ∀ s : RecommendedSlot,
      (if s.id = slotId then { s with isSelected := true } else s).id = s.id := by
    intro s
    split <;> rfl
  simp only [key, select_id, select_requestId, select_generatedAt, RunKey.mk.injEq, true_and]
  simp [select, hid]

/-- The event after its cancellation, when its id is the given one. -/
def InterviewEvent.cancel (eventId : Id) (e : InterviewEvent) : InterviewEvent :=
  if e.id = eventId then { e with status := .cancelled } else e

namespace Write

def apply (T : Interviews) : Write → Interviews
  | insertRequest row ps =>
    { T with
      requests := Function.update T.requests row.id (some row)
      participants := Function.update T.participants row.id ps }
  | setStatus r st => T.modifyRequest r fun row => { row with status := st }
  | setOutcome r o notes => T.modifyRequest r fun row =>
      { row with outcome := some o, outcomeNotes := notes }
  | setDetails r rt d b => T.modifyRequest r fun row =>
      { row with
        roundType := rt.column row.roundType
        durationMinutes := d.column row.durationMinutes
        bufferMinutes := b.column row.bufferMinutes }
  | replacePanelists r ids =>
    { T with
      participants := Function.update T.participants r
        ((T.participants r).filter (·.roleInInterview = .candidate) ++ ids.map (⟨·, .panelist⟩)) }
  | insertAvailability row => { T with availability := T.availability ++ [row] }
  | insertRun row => { T with runs := T.runs ++ [row] }
  | selectSlot s => { T with runs := T.runs.map (RecommendationRun.select s) }
  | insertEvent row => { T with events := T.events ++ [row] }
  | cancelEvent e => { T with events := T.events.map (InterviewEvent.cancel e) }

/-- The write breaks a constraint of the schema: a primary key, a foreign key, NOT NULL, the range of
INTEGER, `uq_interview_participants_request_user`, or `uq_interview_events_one_confirmed`. The unit of
work emits the INSERTs of a new panel before the DELETEs of the old one, so that a panelist in both
breaks the unique constraint. It is the driver that refuses an integer out of range, with an exception
of its own, which no handler tells from an `IntegrityError`. -/
def violates (T : Interviews) : Write → Bool
  | insertRequest row ps =>
    (T.requests row.id).isSome || !decide (ps.map (·.userId)).Nodup ||
      (ps.any fun p => (T.users p.userId).isNone) || !fitsInteger row.durationMinutes ||
      !fitsInteger row.bufferMinutes
  | setDetails _ rt d b =>
    rt.isNull || d.isNull || b.isNull || d.lacks fitsInteger || b.lacks fitsInteger
  | replacePanelists r ids =>
    !decide ids.Nodup || (ids.any fun u => (T.users u).isNone) ||
      (T.participants r).any fun p => decide (p.userId ∈ ids)
  | insertAvailability row => (T.requests row.interviewRequestId).isNone
  | insertRun row =>
    (T.requests row.interviewRequestId).isNone || (T.runs.any fun run => run.id == row.id) ||
      !decide (row.slots.map (·.id)).Nodup ||
      T.runs.any fun run => run.slots.any fun s => decide (s.id ∈ row.slots.map (·.id))
  | insertEvent row =>
    (T.requests row.interviewRequestId).isNone || (T.events.any fun e => e.id == row.id) ||
      (decide (row.status = .confirmed) && T.hasConfirmed row.interviewRequestId)
  | _ => false

/-- All writes of a transaction, or `none` when one breaks a constraint. -/
def applyAll : List Write → Interviews → Option Interviews
  | [], T => some T
  | w :: ws, T => if w.violates T then none else applyAll ws (w.apply T)

/-- The request whose status the write sets. -/
def statusTarget : Write → Option Id
  | setStatus r _ => some r
  | _ => none

end Write

def SideWrite.apply (db : Db) : SideWrite → Db
  | setResponse r u st =>
    { db with responses := Function.update db.responses r (Function.update (db.responses r) u st) }
  | setConnectionStatus u st =>
    { db with
      connections := Function.update db.connections u
        ((db.connections u).map fun c => { c with status := st }) }
  | setAccessToken u tok exp =>
    { db with
      connections := Function.update db.connections u ((db.connections u).map fun c =>
        { c with accessTokenEncrypted := some tok, tokenExpiresAt := some exp, status := .connected }) }
  | insertTask row => { db with tasks := db.tasks ++ [row] }
  | insertAudit row => { db with audits := db.audits ++ [row] }
  | insertNotification row => { db with notifications := db.notifications ++ [row] }

/-- One request is changed, the others are not. -/
@[simp] theorem Interviews.modifyRequest_requests (T : Interviews) (r x : Id)
    (f : InterviewRequest → InterviewRequest) :
    (T.modifyRequest r f).requests x = if x = r then (T.requests r).map f else T.requests x := by
  simp [modifyRequest, Function.update_apply]

@[simp] theorem InterviewEvent.cancel_id (i : Id) (e : InterviewEvent) : (e.cancel i).id = e.id := by
  unfold InterviewEvent.cancel; split <;> rfl

@[simp] theorem InterviewEvent.cancel_requestId (i : Id) (e : InterviewEvent) :
    (e.cancel i).interviewRequestId = e.interviewRequestId := by
  unfold InterviewEvent.cancel; split <;> rfl

/-- An event that is still CONFIRMED is not the one that was cancelled. -/
theorem InterviewEvent.cancel_confirmed {i : Id} {e : InterviewEvent}
    (h : (e.cancel i).status = .confirmed) : e.cancel i = e ∧ e.id ≠ i := by
  unfold InterviewEvent.cancel at h ⊢
  split_ifs at h ⊢ with hi
  exact ⟨rfl, hi⟩

/-! ### Lemmas on writes -/

namespace Write

/-- The writes applied, whether they break a constraint or not. -/
def force (ws : List Write) (T : Interviews) : Interviews := ws.foldl apply T

@[simp] theorem force_nil (T : Interviews) : force [] T = T := rfl

@[simp] theorem force_cons (w : Write) (ws : List Write) (T : Interviews) :
    force (w :: ws) T = force ws (w.apply T) := rfl

theorem applyAll_cons_eq_some {w : Write} {ws : List Write} {T T' : Interviews} :
    applyAll (w :: ws) T = some T' ↔ w.violates T = false ∧ applyAll ws (w.apply T) = some T' := by
  rw [applyAll]
  cases w.violates T <;> simp

theorem applyAll_append_eq_some {ws ws' : List Write} {T T' : Interviews} :
    applyAll (ws ++ ws') T = some T' ↔ ∃ T₁, applyAll ws T = some T₁ ∧ applyAll ws' T₁ = some T' := by
  induction ws generalizing T with
  | nil => simp [applyAll]
  | cons w ws ih =>
    rw [List.cons_append, applyAll_cons_eq_some, ih]
    simp only [applyAll_cons_eq_some, and_assoc, exists_and_left]

theorem applyAll_eq_force {ws : List Write} {T T' : Interviews} (h : applyAll ws T = some T') :
    T' = force ws T := by
  induction ws generalizing T with
  | nil => simpa [applyAll, eq_comm] using h
  | cons w ws ih => exact ih (applyAll_cons_eq_some.mp h).2

/-- What a new request with its participants meets. -/
structure Inserts (T : Interviews) (row : InterviewRequest) (ps : List InterviewParticipant) : Prop where
  fresh : T.requests row.id = none
  nodup : (ps.map (·.userId)).Nodup
  users : ∀ p ∈ ps, T.users p.userId ≠ none
  durationMinutes : fitsInteger row.durationMinutes
  bufferMinutes : fitsInteger row.bufferMinutes

theorem violates_insertRequest {T : Interviews} {row : InterviewRequest}
    {ps : List InterviewParticipant} :
    (insertRequest row ps).violates T = false ↔ Inserts T row ps := by
  simp only [violates, Bool.or_eq_false_iff, Option.isSome_eq_false_iff, Option.isNone_iff_eq_none,
    Bool.not_eq_false', decide_eq_true_eq, List.any_eq_false]
  exact ⟨fun ⟨⟨⟨⟨h1, h2⟩, h3⟩, h4⟩, h5⟩ => ⟨h1, h2, h3, h4, h5⟩,
    fun h => ⟨⟨⟨⟨h.fresh, h.nodup⟩, h.users⟩, h.durationMinutes⟩, h.bufferMinutes⟩⟩

/-- **A row stays, and its status changes only when it is set.** -/
theorem status_applyAll {ws : List Write} {T T' : Interviews} (h : applyAll ws T = some T') {r : Id}
    {row : InterviewRequest} (hrow : T.requests r = some row) :
    ∃ row', T'.requests r = some row' ∧
      (row'.status = row.status ∨ .setStatus r row'.status ∈ ws) := by
  -- the induction is on the writes; each keeps the row, and only `setStatus` its status
  induction ws generalizing T row with
  | nil =>
    simp only [applyAll, Option.some.injEq] at h
    exact ⟨row, h ▸ hrow, .inl rfl⟩
  | cons w ws ih =>
    obtain ⟨hv, h⟩ := applyAll_cons_eq_some.mp h
    have hstep : ∃ row₁, (w.apply T).requests r = some row₁ ∧
        (row₁.status = row.status ∨ w = .setStatus r row₁.status) := by
      cases w with
      | insertRequest new ps =>
        have hne : r ≠ new.id := by
          rintro rfl
          simp [violates, hrow] at hv
        exact ⟨row, by simp [apply, hne, hrow], .inl rfl⟩
      | setStatus x st =>
        by_cases hx : r = x
        · subst hx
          exact ⟨{ row with status := st }, by simp [apply, hrow], .inr rfl⟩
        · exact ⟨row, by simp [apply, hx, hrow], .inl rfl⟩
      | setOutcome x o n =>
        by_cases hx : r = x
        · subst hx
          exact ⟨{ row with outcome := some o, outcomeNotes := n }, by simp [apply, hrow], .inl rfl⟩
        · exact ⟨row, by simp [apply, hx, hrow], .inl rfl⟩
      | setDetails x rt d b =>
        by_cases hx : r = x
        · subst hx
          simp [apply, hrow]
        · exact ⟨row, by simp [apply, hx, hrow], .inl rfl⟩
      | _ => exact ⟨row, hrow, .inl rfl⟩
    obtain ⟨row₁, h₁, hst₁⟩ := hstep
    obtain ⟨row', h', hst'⟩ := ih h h₁
    refine ⟨row', h', ?_⟩
    rcases hst' with hst' | hst'
    · rcases hst₁ with hst₁ | rfl
      · exact .inl (hst'.trans hst₁)
      · exact .inr (hst' ▸ List.mem_cons_self)
    · exact .inr (List.mem_cons_of_mem _ hst')

/-- Nothing writes to the users. -/
theorem users_applyAll {ws : List Write} {T T' : Interviews} (h : applyAll ws T = some T') :
    T'.users = T.users := by
  induction ws generalizing T with
  | nil =>
    simp only [applyAll, Option.some.injEq] at h
    rw [h]
  | cons w ws ih =>
    rw [ih (applyAll_cons_eq_some.mp h).2]
    cases w <;> rfl

/-- A request that does not exist is not there before it is inserted. -/
theorem requests_force_of_none {ws : List Write} {T : Interviews} {r : Id}
    (h : T.requests r = none) (hnew : ∀ row ps, .insertRequest row ps ∈ ws → row.id ≠ r) :
    (force ws T).requests r = none := by
  induction ws generalizing T with
  | nil => exact h
  | cons w ws ih =>
    refine ih ?_ fun row ps hmem => hnew row ps (List.mem_cons_of_mem _ hmem)
    cases w with
    | insertRequest row ps =>
      have hne : r ≠ row.id := (hnew row ps List.mem_cons_self).symm
      simp [apply, hne, h]
    | setStatus x st => by_cases hx : r = x <;> simp_all [apply]
    | setOutcome x o n => by_cases hx : r = x <;> simp_all [apply]
    | setDetails x rt d b => by_cases hx : r = x <;> simp_all [apply]
    | _ => exact h

/-- A status that is set, and no other one, is the status afterwards. -/
theorem status_of_set {ws : List Write} {T T' : Interviews} (h : applyAll ws T = some T') {r : Id}
    {row : InterviewRequest} (hrow : T.requests r = some row) {st : RequestStatus}
    (hset : .setStatus r st ∈ ws) (huniq : ∀ x, .setStatus r x ∈ ws → x = st) :
    ∃ row', T'.requests r = some row' ∧ row'.status = st := by
  induction ws generalizing T row with
  | nil => simp at hset
  | cons w ws ih =>
    obtain ⟨hv, h⟩ := applyAll_cons_eq_some.mp h
    by_cases hlater : .setStatus r st ∈ ws
    · have hone : applyAll [w] T = some (w.apply T) := by simp [applyAll, hv]
      obtain ⟨row₁, h₁, -⟩ := status_applyAll hone hrow
      exact ih h h₁ hlater fun x hx => huniq x (List.mem_cons_of_mem _ hx)
    · -- the first write is the last one that sets the status
      obtain rfl : .setStatus r st = w := (List.mem_cons.mp hset).resolve_right hlater
      have h₁ : (apply T (.setStatus r st)).requests r = some { row with status := st } := by
        simp [apply, hrow]
      obtain ⟨row', h', hst⟩ := status_applyAll h h₁
      refine ⟨row', h', hst.elim id fun hmem => ?_⟩
      exact huniq _ (List.mem_cons_of_mem _ hmem)

/-- Without a cancellation every event stays as it is. -/
theorem mem_events_force {ws : List Write} {T : Interviews} {e : InterviewEvent} (h : e ∈ T.events)
    (hnone : ∀ id, .cancelEvent id ∉ ws) : e ∈ (force ws T).events := by
  induction ws generalizing T with
  | nil => exact h
  | cons w ws ih =>
    have hrest : ∀ id, .cancelEvent id ∉ ws := fun id hid => hnone id (List.mem_cons_of_mem _ hid)
    refine ih ?_ hrest
    cases w with
    | insertEvent new => exact List.mem_append_left _ h
    | cancelEvent id => exact absurd List.mem_cons_self (hnone id)
    | _ => exact h

/-- **A CONFIRMED event was there and is not cancelled, or is inserted.** -/
theorem confirmed_force {ws : List Write} {T : Interviews} {e : InterviewEvent}
    (h : e ∈ (force ws T).events) (hc : e.status = .confirmed) :
    (e ∈ T.events ∧ .cancelEvent e.id ∉ ws) ∨ .insertEvent e ∈ ws := by
  induction ws generalizing T with
  | nil => exact .inl ⟨h, by simp⟩
  | cons w ws ih =>
    rcases ih h with ⟨h, hnot⟩ | h
    · cases w with
      | insertEvent new =>
        rcases List.mem_append.mp h with h | h
        · exact .inl ⟨h, by simpa using hnot⟩
        · exact .inr (by simp [List.mem_singleton.mp h])
      | cancelEvent i =>
        obtain ⟨e₀, h₀, rfl⟩ := List.mem_map.mp h
        obtain ⟨hsame, hid⟩ := InterviewEvent.cancel_confirmed hc
        rw [hsame] at hnot ⊢
        exact .inl ⟨h₀, by simp [hid, hnot]⟩
      | _ => exact .inl ⟨h, by simpa using hnot⟩
    · exact .inr (List.mem_cons_of_mem _ h)

/-- The availability of a request stays when none is added. -/
theorem availability_force {ws : List Write} {T : Interviews} {r : Id}
    (hnew : ∀ a, .insertAvailability a ∈ ws → a.interviewRequestId ≠ r) :
    (force ws T).availability.filter (fun a => a.interviewRequestId = r) =
      T.availability.filter fun a => a.interviewRequestId = r := by
  induction ws generalizing T with
  | nil => rfl
  | cons w ws ih =>
    rw [force_cons, ih fun a ha => hnew a (List.mem_cons_of_mem _ ha)]
    cases w with
    | insertAvailability a =>
      have hne := hnew a List.mem_cons_self
      simp [apply, List.filter_append, hne]
    | _ => rfl

/-- **Runs are only added.** -/
theorem keys_force (ws : List Write) (T : Interviews) :
    T.runs.map RecommendationRun.key <+: (force ws T).runs.map RecommendationRun.key := by
  induction ws generalizing T with
  | nil => exact List.prefix_rfl
  | cons w ws ih =>
    refine List.IsPrefix.trans ?_ (ih (w.apply T))
    cases w with
    | insertRun run =>
      rw [apply, List.map_append]
      exact List.prefix_append _ _
    | selectSlot slotId =>
      have hkeys : RecommendationRun.key ∘ RecommendationRun.select slotId =
          RecommendationRun.key := by
        funext run
        simp
      simp [apply, hkeys]
    | _ => exact List.prefix_rfl

/-- The runs stay when none is added and no slot is selected. -/
theorem runs_force {ws : List Write} {T : Interviews} (hins : ∀ run, .insertRun run ∉ ws)
    (hsel : ∀ id, .selectSlot id ∉ ws) : (force ws T).runs = T.runs := by
  induction ws generalizing T with
  | nil => rfl
  | cons w ws ih =>
    have hrest := ih (T := w.apply T) (fun run hmem => hins run (List.mem_cons_of_mem _ hmem))
      fun id hmem => hsel id (List.mem_cons_of_mem _ hmem)
    rw [force_cons, hrest]
    cases w with
    | insertRun run => exact absurd List.mem_cons_self (hins run)
    | selectSlot id => exact absurd List.mem_cons_self (hsel id)
    | _ => rfl

theorem length_events_apply (w : Write) (T : Interviews) :
    T.events.length ≤ (w.apply T).events.length := by
  cases w <;> simp [apply, Interviews.modifyRequest]

/-- No event is removed. -/
theorem length_events_force (ws : List Write) (T : Interviews) :
    T.events.length ≤ (force ws T).events.length := by
  induction ws generalizing T with
  | nil => exact le_rfl
  | cons w ws ih => exact (length_events_apply w T).trans (ih _)

/-- An old event that is CONFIRMED was so before. -/
theorem mem_take_force {ws : List Write} {T : Interviews} {e : InterviewEvent} {n : ℕ}
    (hn : n ≤ T.events.length) (h : e ∈ (force ws T).events.take n) (hc : e.status = .confirmed) :
    e ∈ T.events.take n := by
  induction ws generalizing T with
  | nil => exact h
  | cons w ws ih =>
    replace h := ih (hn.trans (length_events_apply w T)) h
    cases w with
    | insertEvent new => rwa [apply, List.take_append_of_le_length hn] at h
    | cancelEvent i =>
      rw [apply, ← List.map_take] at h
      obtain ⟨e₀, h₀, rfl⟩ := List.mem_map.mp h
      rwa [(InterviewEvent.cancel_confirmed hc).1]
    | _ => exact h

end Write

end InterviewScheduler.Core
