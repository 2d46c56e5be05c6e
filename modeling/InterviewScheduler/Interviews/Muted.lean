import InterviewScheduler.Interviews.Footprint

/-! # The muted parts

The checks, the lookups, the calendar and the notices store no row of a request, add no entry to the audit
log and change no response. A class of effects that admits the rest (`Muted`) admits them. -/

namespace InterviewScheduler.Interviews

open InterviewScheduler.Engine InterviewScheduler.Core InterviewScheduler.Effects
open InterviewScheduler.Booking (Part Parts)
open Prog

/-- The effect is a look at what is stored, or a pause. -/
def looks {β : Type} : Effect β → Bool
  | .get _ => true
  | .refresh _ => true
  | .latestRun _ => true
  | .sleep => true
  | _ => false

/-- The effect writes nothing, or a connection, a task or a notice. -/
def muted {β : Type} : Effect β → Bool
  | .stage _ => false
  | .stageSide (.insertAudit _) => false
  | .stageSide (.setResponse _ _ _) => false
  | _ => true

/-- The class admits the muted effects. -/
def Muted (E : ∀ β : Type, Effect β → Prop) : Prop := ∀ {β : Type} (o : Effect β), muted o = true → E β o

variable {E : ∀ β : Type, Effect β → Prop} {pf : Platform} {α : Type} {user : User} {r userId : Id}
  {parts : Parts} {request : InterviewRequest} {event : InterviewEvent} {found : Option InterviewEvent}
  {conn : CalendarConnection} {slot : RecommendedSlot} {ids : List Id} {candidateId eventId : Option Id} {tmin tmax : Instant}
  {data : Availability.SubmitAvailabilityRequest} {outcome : Outcome} {reason : Option (Text 1000)}
  {email token id text : String} {metadata : List (String × String)} {commit : Bool} {e : Exc}
  {kind : NotificationType} {msg : EmailMessage}

/-- Who waits for a run only looks. -/
theorem looks_waitForRun (hE : ∀ {β : Type} (o : Effect β), looks o = true → E β o) {n : ℕ} :
    (Scheduling.waitForRun r n).Uses E := by
  induction n with
  | zero => exact uses_throw
  | succ n ih =>
    refine uses_bind (uses_perform (hE _ rfl)) fun _ => ?_
    refine uses_bind (uses_perform (hE _ rfl)) fun _ => ?_
    refine uses_bind (uses_perform (hE _ rfl)) fun fresh => uses_bind uses_raiseIf fun _ => ?_
    split
    · refine uses_bind (uses_perform (hE _ rfl)) fun run => ?_
      cases run with
      | none => exact ih
      | some run => exact uses_pure
    · exact ih

section Muted

variable (hE : Muted E)

include hE

/-! ### Checks and lookups -/

theorem muted_getCurrentUser : (getCurrentUser userId).Uses E :=
  uses_bind (uses_perform (hE _ rfl)) fun _ => uses_orRaise

theorem muted_adminOrOwningCandidate : (adminOrOwningCandidate user r).Uses E := by
  unfold adminOrOwningCandidate
  split
  · exact uses_pure
  · refine uses_bind (uses_perform (hE _ rfl)) fun _ => ?_
    exact uses_bind (uses_perform (hE _ rfl)) fun _ => uses_raiseIf
  · exact uses_throw

theorem muted_load : (load r).Uses E := uses_bind (uses_perform (hE _ rfl)) fun _ => uses_orRaise

theorem muted_getUsers : (getUsers ids).Uses E := by
  unfold getUsers
  split
  · exact uses_pure
  · exact uses_perform (hE _ rfl)

theorem muted_resolveRoles :
    (resolveRoles candidateId ids).Uses E :=
  uses_bind (muted_getUsers hE) fun _ => uses_bind uses_raiseIf fun _ =>
    uses_bind uses_raiseIf fun _ => uses_raiseIf

theorem muted_getWithParticipants : (getWithParticipants r).Uses E := by
  refine uses_bind (uses_perform (hE _ rfl)) fun request => ?_
  cases request with
  | none => exact uses_pure
  | some row => exact uses_bind (uses_perform (hE _ rfl)) fun _ => uses_pure

theorem muted_validate :
    (Availability.validate pf data).Uses E := by
  refine uses_bind uses_raiseIf fun _ => uses_bind (uses_forEach fun window => ?_) fun _ => uses_pure
  refine uses_bind (uses_perform (hE _ rfl)) fun t => ?_
  split
  · exact uses_pure
  · exact uses_throw

theorem muted_checkGrace : (checkGrace pf r outcome).Uses E := by
  unfold checkGrace
  split
  · refine uses_bind (uses_perform (hE _ rfl)) fun event => ?_
    cases event with
    | none => exact uses_pure
    | some event => exact uses_bind (uses_perform (hE _ rfl)) fun _ => uses_raiseIf
  · exact uses_pure

theorem muted_confirmedEventsForUsers :
    (Booking.confirmedEventsForUsers ids r tmin tmax).Uses E := by
  unfold Booking.confirmedEventsForUsers
  split
  · exact uses_pure
  · exact uses_perform (hE _ rfl)

/-! ### The calendar -/

theorem muted_refresh :
    (Calendar.refresh pf conn email).Uses E := by
  have hstatus : ∀ st, (Calendar.setStatus conn st).Uses E := fun st =>
    uses_bind (uses_perform (hE _ rfl)) fun _ => uses_bind (uses_perform (hE _ rfl)) fun _ => uses_pure
  have htoken : ∀ token t, (Calendar.updateAccessToken conn token t).Uses E := fun token t =>
    uses_bind (uses_perform (hE _ rfl)) fun _ => uses_bind (uses_perform (hE _ rfl)) fun _ => uses_pure
  unfold Calendar.refresh
  split
  · exact uses_bind (hstatus _) fun _ => uses_bind (uses_perform (hE _ rfl)) fun _ => uses_throw
  · refine uses_bind (uses_tryCatch (uses_bind uses_orRaise fun _ => uses_perform (hE _ rfl)) fun e => ?_)
      fun bundle => ?_
    · cases e with
      | calendarAuthError =>
        exact uses_bind (hstatus _) fun _ => uses_bind (uses_perform (hE _ rfl)) fun _ => uses_throw
      | _ => exact uses_throw
    · refine uses_bind uses_orRaise fun _ => uses_bind (uses_perform (hE _ rfl)) fun t => ?_
      exact uses_bind (htoken _ _) fun _ => uses_bind (uses_perform (hE _ rfl)) fun _ => uses_pure

theorem muted_usableConnection : (Calendar.usableConnection pf user).Uses E := by
  refine uses_bind (uses_perform (hE _ rfl)) fun conn => uses_bind uses_orRaise fun conn => ?_
  refine uses_bind uses_raiseIf fun _ => uses_bind uses_raiseIf fun _ => ?_
  refine uses_bind (uses_perform (hE _ rfl)) fun t => ?_
  split
  · exact muted_refresh hE
  · exact uses_pure

theorem muted_getFreeBusy :
    (Calendar.getFreeBusy pf conn tmin tmax).Uses E := by
  refine uses_bind (uses_attempt (uses_perform (hE _ rfl))) fun cached => ?_
  split
  · exact uses_pure
  · refine uses_bind (Calendar.uses_googleError ?_) fun busy => ?_
    · exact uses_bind uses_orRaise fun _ => uses_perform (hE _ rfl)
    · exact uses_bind (uses_attempt (uses_perform (hE _ rfl))) fun _ => uses_pure

theorem muted_deleteEvent : (Calendar.deleteEvent token id).Uses E :=
  Calendar.uses_deleteEvent (hE _ rfl)

theorem muted_organiserConnection : (Booking.organiserConnection pf parts).Uses E :=
  uses_bind uses_orRaise fun _ => (muted_usableConnection hE)

theorem muted_calendarBusy :
    (Scheduling.calendarBusy pf parts tmin tmax).Uses E := by
  unfold Scheduling.calendarBusy
  split
  · exact uses_pure
  · refine uses_bind (uses_forEach fun p => ?_) fun conns => uses_forEach fun conn => ?_
    · exact uses_bind (muted_usableConnection hE) fun _ => uses_pure
    · exact uses_bind (muted_getFreeBusy hE) fun _ => uses_pure

theorem muted_hostEvent :
    (Booking.hostEvent pf request slot parts email).Uses E := by
  unfold Booking.hostEvent
  split
  · exact uses_bind (uses_perform (hE _ rfl)) fun _ => uses_pure
  · refine uses_bind (muted_organiserConnection hE) fun _ => uses_bind uses_orRaise fun _ => ?_
    exact uses_bind (Calendar.uses_googleError (uses_perform (hE _ rfl))) fun _ => uses_pure

theorem muted_createReconciliationTask :
    (Booking.createReconciliationTask id text metadata eventId commit).Uses E := by
  refine uses_bind (uses_perform (hE _ rfl)) fun _ => ?_
  split
  · exact uses_perform (hE _ rfl)
  · exact uses_perform (hE _ rfl)

theorem muted_compensate : (Booking.compensate token id e).Uses E := by
  refine uses_bind (muted_deleteEvent hE) fun deleted => ?_
  split
  · exact uses_pure
  · exact uses_tryCatch (muted_createReconciliationTask hE) fun _ => uses_pure

theorem muted_deleteFromCalendar :
    (deleteFromCalendar pf parts event).Uses E := by
  refine uses_tryCatch ?_ fun e => ?_
  · refine uses_bind (muted_organiserConnection hE) fun _ => uses_bind uses_orRaise fun _ => ?_
    exact muted_deleteEvent hE
  · split
    · exact uses_pure
    · exact uses_throw

/-! ### Runs -/

theorem muted_existingRun : (Scheduling.existingRun r request).Uses E := by
  unfold Scheduling.existingRun
  split
  · exact uses_perform (hE _ rfl)
  · exact uses_pure

/-! ### Locks and notices -/

theorem muted_redisLock {key : LockKey} {ttl : ℕ} {block : M α} (hblock : block.Uses E) :
    (redisLock key ttl block).Uses E := by
  refine uses_bind (uses_perform (hE _ rfl)) fun token => ?_
  refine uses_bind (uses_attempt (uses_perform (hE _ rfl))) fun held => ?_
  rcases held with e | (_ | _)
  · exact hblock
  · exact uses_throw
  · exact uses_finallyDo hblock (uses_perform (hE _ rfl))

theorem muted_dispatch :
    (Notifications.dispatch pf r kind msg).Uses E := by
  have hdeliver : (Notifications.deliver msg).Uses E :=
    uses_tryCatch (uses_bind (uses_perform (hE _ rfl)) fun _ => uses_pure) fun _ => uses_pure
  have hstore : ∀ status : NotificationStatus, (do
      dbAddSide (.insertNotification
        { interviewEventId := r, channel := "EMAIL", notificationType := kind, recipient := msg.recipient,
          status })
      dbFlush
      dbCommit
      pure status : M NotificationStatus).Uses E := fun status =>
    uses_bind (uses_perform (hE _ rfl)) fun _ => uses_bind (uses_perform (hE _ rfl)) fun _ =>
      uses_bind (uses_perform (hE _ rfl)) fun _ => uses_pure
  unfold Notifications.dispatch
  split
  · exact uses_bind hdeliver hstore
  · exact uses_bind uses_pure hstore

/-- A notice, and the log of its failure. -/
theorem muted_notice :
    (Notifications.logFailure (Notifications.dispatch pf r kind msg)).Uses E :=
  uses_tryCatch (uses_bind (muted_dispatch hE) fun _ => uses_pure) fun _ => uses_perform (hE _ rfl)

theorem muted_notify :
    (notify pf found kind parts reason).Uses E := by
  unfold notify
  cases found with
  | none => exact uses_pure
  | some event =>
    refine uses_bind (uses_bind uses_orRaise fun _ => uses_pure) fun emails => ?_
    exact muted_notice hE

end Muted

end InterviewScheduler.Interviews
