import InterviewScheduler.Core.Following
import InterviewScheduler.Interviews.ApiSpec

/-! # What the handlers can do at all

Whatever is answered, a handler performs effects of a few kinds only. A class of effects that admits
what every service needs (`Serves`), and the writes of one operation, admits the operation. -/

namespace InterviewScheduler.Interviews

open InterviewScheduler.Engine InterviewScheduler.Core InterviewScheduler.Effects
open InterviewScheduler.Booking (Parts)
open Prog

/-- The internal effects, and the locks. -/
structure Attends (E : ∀ β : Type, Effect β → Prop) : Prop where
  internal : Internal E
  setNx : ∀ key token ttl, E _ (.setNx key token ttl)
  release : ∀ key token, E _ (.release key token)

/-- The ordinary effects, and the locks. -/
structure Serves (E : ∀ β : Type, Effect β → Prop) : Prop where
  ordinary : Ordinary E
  setNx : ∀ key token ttl, E _ (.setNx key token ttl)
  release : ∀ key token, E _ (.release key token)

theorem Serves.attends {E : ∀ β : Type, Effect β → Prop} (hE : Serves E) : Attends E :=
  ⟨fun o ho => hE.ordinary o (Effect.ordinary_of_internal ho), hE.setNx, hE.release⟩

variable {pf : Platform} {E : ∀ β : Type, Effect β → Prop} {α : Type} {actor user : User}
  {r slotId : Id} {parts : Parts} {event : Option InterviewEvent} {reason : Option (Text 1000)}

/-! ### The parts -/

section Attends

variable (hE : Attends E)

include hE

theorem uses_redisLock {key : LockKey} {ttl : ℕ} {block : M α} (hblock : block.Uses E) :
    (redisLock key ttl block).Uses E := by
  refine uses_bind (uses_perform (hE.internal _ rfl)) fun token => ?_
  refine uses_bind (uses_attempt (uses_perform (hE.setNx _ _ _))) fun held => ?_
  rcases held with e | (_ | _)
  · exact hblock
  · exact uses_throw
  · exact uses_finallyDo hblock (uses_perform (hE.release _ _))

theorem uses_dispatch {eventId : Id} {kind : NotificationType} {msg : EmailMessage} :
    (Notifications.dispatch pf eventId kind msg).Uses E := by
  have hdeliver : (Notifications.deliver msg).Uses E :=
    uses_tryCatch (uses_bind (uses_perform (hE.internal _ rfl)) fun _ => uses_pure) fun _ => uses_pure
  unfold Notifications.dispatch
  split
  · refine uses_bind hdeliver fun status => uses_bind (uses_perform (hE.internal _ rfl)) fun _ => ?_
    refine uses_bind (uses_perform (hE.internal _ rfl)) fun _ => ?_
    exact uses_bind (uses_perform (hE.internal _ rfl)) fun _ => uses_pure
  · refine uses_bind uses_pure fun status => uses_bind (uses_perform (hE.internal _ rfl)) fun _ => ?_
    refine uses_bind (uses_perform (hE.internal _ rfl)) fun _ => ?_
    exact uses_bind (uses_perform (hE.internal _ rfl)) fun _ => uses_pure

/-- A notice, and the log of its failure. -/
theorem uses_notice {eventId : Id} {kind : NotificationType} {msg : EmailMessage} :
    (Notifications.logFailure (Notifications.dispatch pf eventId kind msg)).Uses E :=
  uses_tryCatch (uses_bind (uses_dispatch hE) fun _ => uses_pure) fun _ =>
    uses_perform (hE.internal _ rfl)

theorem uses_notify {kind : NotificationType} : (notify pf event kind parts reason).Uses E := by
  unfold notify
  cases event with
  | none => exact uses_pure
  | some event =>
    refine uses_bind (uses_bind uses_orRaise fun _ => uses_pure) fun emails => ?_
    exact uses_notice hE

theorem uses_waitForRun {n : ℕ} : (Scheduling.waitForRun r n).Uses E := by
  induction n with
  | zero => exact uses_throw
  | succ n ih =>
    refine uses_bind (uses_perform (hE.internal _ rfl)) fun _ => ?_
    refine uses_bind (uses_perform (hE.internal _ rfl)) fun _ => ?_
    refine uses_bind (uses_perform (hE.internal _ rfl)) fun fresh => uses_bind uses_raiseIf fun _ => ?_
    split
    · refine uses_bind (uses_perform (hE.internal _ rfl)) fun run => ?_
      cases run with
      | none => exact ih
      | some run => exact uses_pure
    · exact ih

theorem uses_getCurrentUser {userId : Id} : (getCurrentUser userId).Uses E :=
  uses_bind (uses_perform (hE.internal _ rfl)) fun _ => uses_orRaise

theorem uses_adminOrOwningCandidate : (adminOrOwningCandidate user r).Uses E := by
  unfold adminOrOwningCandidate
  split
  · exact uses_pure
  · refine uses_bind (uses_perform (hE.internal _ rfl)) fun _ => ?_
    exact uses_bind (uses_perform (hE.internal _ rfl)) fun _ => uses_raiseIf
  · exact uses_throw

theorem uses_getUsers {ids : List Id} : (getUsers ids).Uses E := by
  unfold getUsers
  split
  · exact uses_pure
  · exact uses_perform (hE.internal _ rfl)

theorem uses_resolveRoles {candidateId : Option Id} {ids : List Id} :
    (resolveRoles candidateId ids).Uses E :=
  uses_bind (uses_getUsers hE) fun _ => uses_bind uses_raiseIf fun _ =>
    uses_bind uses_raiseIf fun _ => uses_raiseIf

theorem uses_getWithParticipants : (getWithParticipants r).Uses E := by
  refine uses_bind (uses_perform (hE.internal _ rfl)) fun request => ?_
  cases request with
  | none => exact uses_pure
  | some row => exact uses_bind (uses_perform (hE.internal _ rfl)) fun _ => uses_pure

theorem uses_create {row : InterviewRequest} {ids : List Id}
    (hinsert : ∀ id, E _ (.stage (.insertRequest { row with id }
      (⟨row.candidateId, .candidate⟩ :: ids.map (⟨·, .panelist⟩))))) : (create row ids).Uses E :=
  uses_bind (uses_perform (hE.internal _ rfl)) fun id => uses_bind (uses_perform (hinsert id)) fun _ =>
    uses_bind (uses_perform (hE.internal _ rfl)) fun _ => uses_pure

end Attends

section Serves

variable (hE : Serves E)

include hE

theorem uses_generate (hcache : ∀ key busy, E _ (.cacheSet key busy))
    (hrun : ∀ run, Scheduling.Produced pf run → E _ (.stage (.insertRun run)))
    (hst : ∀ st, st = .recommended ∨ st = .failed → E _ (.stage (.setStatus r st))) :
    (Scheduling.generate pf actor r).Uses E := by
  refine uses_bind (uses_perform (hE.ordinary _ rfl)) fun request => uses_bind uses_orRaise fun row => ?_
  refine uses_bind (Scheduling.uses_existingRun hE.attends.internal) fun existing => ?_
  cases existing with
  | some run => exact uses_pure
  | none =>
    refine uses_tryCatch (uses_redisLock hE.attends
      (Scheduling.uses_generateLocked hE.ordinary hcache hrun hst)) ?_
    intro e
    cases e with
    | lockNotAcquired => exact uses_waitForRun hE.attends
    | _ => exact uses_throw

theorem uses_retriggerRecommendations (hcache : ∀ key busy, E _ (.cacheSet key busy))
    (hrun : ∀ run, Scheduling.Produced pf run → E _ (.stage (.insertRun run)))
    (hst : ∀ st, st = .readyForScheduling ∨ st = .recommended ∨ st = .failed →
      E _ (.stage (.setStatus r st))) : (retriggerRecommendations pf actor r).Uses E := by
  refine uses_bind (uses_perform (hE.ordinary _ rfl)) fun request => ?_
  cases request with
  | none => exact uses_pure
  | some row =>
    refine uses_bind (uses_perform (hst _ (.inl rfl))) fun _ => ?_
    refine uses_bind (uses_perform (hE.ordinary _ rfl)) fun _ => ?_
    exact uses_bind (uses_attempt (uses_generate hE hcache hrun fun st h => hst st (.inr h))) fun _ => uses_pure

end Serves

/-! ### Every handler -/

/-- A new request has its candidate and a panel, and lasts. -/
structure Founded (row : InterviewRequest) (ps : List InterviewParticipant) : Prop where
  panel : ∃ ids : List Id, ps = ⟨row.candidateId, .candidate⟩ :: ids.map (⟨·, .panelist⟩)
  duration_pos : 0 < row.durationMinutes
  buffer_nonneg : 0 ≤ row.bufferMinutes

/-- The writes that a call may stage. -/
def Call.Writes (pf : Platform) (call : Call) : Write → Prop
  | .insertRequest row ps => Founded row ps
  | .setDetails _ _ d b => (∀ n, d = .value n → 0 < n) ∧ ∀ n, b = .value n → 0 ≤ n
  | .setStatus r st => call.Sets r st
  | .insertRun run => Scheduling.Produced pf run
  | .insertAvailability _ => ∃ userId r data, call = .submit userId r data
  | .insertEvent _ => ∃ userId r slotId, call = .book userId r slotId
  | _ => True

/-- The calls that may evaluate a request. -/
def Call.evaluates : Call → Bool
  | .generate _ _ => true
  | .decline _ _ _ => true
  | .reschedule _ _ _ => true
  | _ => false

/-- The class admits what the call may do. -/
structure Admits (pf : Platform) (E : ∀ β : Type, Effect β → Prop) (call : Call) : Prop extends
    Serves E where
  createEvent : ∀ token draft, E _ (.createEvent token draft)
  deleteEvent : ∀ token id, E _ (.deleteEvent token id)
  cacheSet : call.evaluates = true → ∀ key busy, E _ (.cacheSet key busy)
  stage : ∀ y, call.Writes pf y → E _ (.stage y)

/-- The calls that have nothing to do with a calendar. -/
def Call.internal : Call → Bool
  | .generate _ _ => false
  | .book _ _ _ => false
  | .decline _ _ _ => false
  | .reschedule _ _ _ => false
  | .cancel _ _ _ => false
  | _ => true

/-- The effects of a handler that has nothing to do with a calendar. -/
theorem uses_internal {call : Call} (hE : Attends E) (hstage : ∀ y, call.Writes pf y → E _ (.stage y))
    (hcall : call.internal = true) : (handle pf call).Uses E := by
  have hplain : ∀ {β : Type} {o : Effect β}, o.internal = true → (perform o : M β).Uses E :=
    fun ho => uses_perform (hE.internal _ ho)
  cases call with
  | createRequest userId data =>
    refine uses_bind (uses_getCurrentUser hE) fun user => uses_bind uses_raiseIf fun _ => uses_map ?_
    refine uses_bind (uses_resolveRoles hE) fun _ => uses_bind (uses_create hE fun _ =>
      hstage (.insertRequest _ _) ⟨⟨_, rfl⟩, data.duration_pos, data.buffer_nonneg⟩) fun row => ?_
    refine uses_bind (Booking.uses_recordAudit hE.internal) fun _ => ?_
    exact uses_bind (hplain rfl) fun _ => uses_pure
  | updateRequest userId r data =>
    refine uses_bind (uses_getCurrentUser hE) fun user => uses_bind uses_raiseIf fun _ => uses_map ?_
    refine uses_bind (uses_getWithParticipants hE) fun found => uses_bind uses_orRaise fun out => ?_
    refine uses_bind uses_raiseIf fun _ => ?_
    split
    · exact uses_pure
    · have hpanel : (updatePanel r data.panelistIds).Uses E := by
        cases data.panelistIds with
        | unset => exact uses_pure
        | null => exact uses_throw
        | value ids =>
          refine uses_bind (uses_resolveRoles hE) fun _ => uses_bind (uses_perform (hstage _ trivial)) fun _ => ?_
          exact uses_bind (uses_forEach fun _ => hplain rfl) fun _ => hplain rfl
      have hdetails : (updateDetails r data).Uses E := by
        unfold updateDetails
        split
        · exact uses_perform (hstage _ ⟨data.duration_pos, data.buffer_nonneg⟩)
        · exact uses_pure
      refine uses_bind hpanel fun _ => uses_bind hdetails fun _ => ?_
      refine uses_bind (Booking.uses_recordAudit hE.internal) fun _ => uses_bind (hplain rfl) fun _ => ?_
      exact uses_bind (uses_getWithParticipants hE) fun _ => uses_orRaise
  | submit userId r data =>
    refine uses_bind (uses_getCurrentUser hE) fun user => uses_bind uses_raiseIf fun _ => ?_
    have hvalidate : (Availability.validate pf data).Uses E := by
      refine uses_bind uses_raiseIf fun _ => uses_bind (uses_forEach fun window => ?_) fun _ => uses_pure
      refine uses_bind (hplain rfl) fun t => ?_
      split
      · exact uses_pure
      · exact uses_throw
    refine uses_bind hvalidate fun _ => uses_map ?_
    refine uses_bind (hplain rfl) fun _ => uses_bind uses_orRaise fun row => ?_
    refine uses_bind uses_raiseIf fun _ => uses_bind uses_raiseIf fun _ => uses_bind ?_ fun stored => ?_
    · refine uses_bind (hplain rfl) fun _ => uses_bind (hplain rfl) fun _ => ?_
      exact uses_bind (uses_perform (hstage _ ⟨_, _, _, rfl⟩)) fun _ => uses_bind (hplain rfl) fun _ => uses_pure
    · refine uses_bind (uses_perform (hstage _ ⟨rfl, rfl⟩)) fun _ => ?_
      refine uses_bind (Booking.uses_recordAudit hE.internal) fun _ => uses_bind (hplain rfl) fun _ => ?_
      exact uses_bind (hplain rfl) fun _ => uses_pure
  | recordOutcome userId r outcome notes =>
    refine uses_bind (uses_getCurrentUser hE) fun user => uses_bind uses_raiseIf fun _ => uses_map ?_
    refine uses_bind (Interviews.uses_load hE.internal) fun row => uses_bind uses_raiseIf fun _ => ?_
    have hgrace : (checkGrace pf r outcome).Uses E := by
      unfold checkGrace
      split
      · refine uses_bind (hplain rfl) fun event => ?_
        cases event with
        | none => exact uses_pure
        | some event => exact uses_bind (hplain rfl) fun _ => uses_raiseIf
      · exact uses_pure
    refine uses_bind hgrace fun _ => uses_bind (uses_perform (hstage _ trivial)) fun _ => ?_
    refine uses_bind (uses_perform (hstage _ ⟨rfl, rfl⟩)) fun _ => ?_
    refine uses_bind (Booking.uses_recordAudit hE.internal) fun _ => uses_bind (hplain rfl) fun _ => ?_
    exact uses_bind (uses_getWithParticipants hE) fun _ => uses_orRaise
  | createNextRound userId r data =>
    refine uses_bind (uses_getCurrentUser hE) fun user => uses_bind uses_raiseIf fun _ => uses_map ?_
    refine uses_bind (Interviews.uses_load hE.internal) fun row => uses_bind uses_raiseIf fun _ => ?_
    refine uses_bind (uses_getUsers hE) fun found => uses_bind uses_raiseIf fun _ => ?_
    refine uses_bind uses_raiseIf fun _ => uses_bind uses_raiseIf fun _ => ?_
    refine uses_bind (uses_create hE fun _ => hstage (.insertRequest _ _)
      ⟨⟨_, rfl⟩, data.duration_pos, data.buffer_nonneg⟩) fun child => ?_
    refine uses_bind (Booking.uses_recordAudit hE.internal) fun _ => uses_bind (hplain rfl) fun _ => ?_
    exact uses_bind (hplain rfl) fun _ => uses_pure
  | _ => simp [Call.internal] at hcall

/-- **The effects of a handler**: the ordinary ones, the locks, the calendar events and the writes of
its operation. -/
theorem uses_handle {call : Call} (hE : Admits pf E call) : (handle pf call).Uses E := by
  have hown : ∀ {user : User} {r : Id}, (adminOrOwningCandidate user r).Uses E :=
    uses_adminOrOwningCandidate hE.toServes.attends
  have hplain : ∀ {β : Type} {o : Effect β}, o.ordinary = true → (perform o : M β).Uses E :=
    fun ho => uses_perform (hE.ordinary _ ho)
  have hretrigger : ∀ {actor : User} (r : Id), call.evaluates = true →
      (∀ st, st = .readyForScheduling ∨ st = .recommended ∨ st = .failed → call.Sets r st) →
        (retriggerRecommendations pf actor r).Uses E := fun r hcall hst =>
    uses_retriggerRecommendations hE.toServes (hE.cacheSet hcall)
      (fun run h => hE.stage (.insertRun run) h) fun st h => hE.stage (.setStatus r st) (hst st h)
  cases call with
  | generate userId r =>
    refine uses_bind (uses_getCurrentUser hE.toServes.attends) fun user => uses_bind hown fun _ => uses_map ?_
    exact uses_generate hE.toServes (hE.cacheSet rfl) (fun run h => hE.stage (.insertRun run) h) fun st h =>
      hE.stage (.setStatus r st) ⟨rfl, h⟩
  | book userId r slotId =>
    refine uses_bind (uses_getCurrentUser hE.toServes.attends) fun user => uses_bind hown fun _ => uses_map ?_
    refine uses_bind (hplain rfl) fun found => uses_bind uses_orRaise fun found => ?_
    refine uses_bind uses_raiseIf fun _ => uses_bind (hplain rfl) fun request => ?_
    refine uses_bind uses_orRaise fun row => uses_bind (uses_bind (hplain rfl) fun _ => uses_pure) ?_
    refine fun latest => uses_bind uses_raiseIf fun _ => uses_bind uses_raiseIf fun _ => ?_
    refine uses_bind (uses_tryCatch (uses_redisLock hE.toServes.attends (Booking.uses_bookLocked hE.ordinary
      hE.createEvent hE.deleteEvent (fun _ _ _ _ => hE.stage _ ⟨_, _, _, rfl⟩) (hE.stage _ ⟨rfl, rfl⟩)
      (hE.stage _ trivial))) fun e => ?_) ?_
    · cases e <;> exact uses_throw
    · exact fun booked => uses_bind (uses_notice hE.toServes.attends) fun _ => uses_pure
  | decline userId r reason =>
    refine uses_bind (uses_getCurrentUser hE.toServes.attends) fun user => ?_
    refine uses_bind uses_raiseIf fun _ => uses_map ?_
    refine uses_bind (Interviews.uses_load hE.toServes.attends.internal) fun _ => uses_bind (hplain rfl) fun _ => ?_
    refine uses_bind (hplain rfl) fun parts => uses_bind uses_raiseIf fun _ => ?_
    refine uses_bind (uses_redisLock hE.toServes.attends (uses_declineLocked hE.ordinary hE.deleteEvent
      (fun _ => hE.stage _ trivial) fun st h => hE.stage (.setStatus r st) ⟨rfl, by tauto⟩)) fun resp => ?_
    refine uses_bind (uses_notify hE.toServes.attends) fun _ => ?_
    split
    · exact uses_bind (hretrigger r rfl fun st h => ⟨rfl, .inr h⟩) fun _ => uses_pure
    · exact uses_pure
  | reschedule userId r reason =>
    refine uses_bind (uses_getCurrentUser hE.toServes.attends) fun user => uses_bind hown fun _ => uses_map ?_
    refine uses_bind (Interviews.uses_load hE.toServes.attends.internal) fun row => ?_
    refine uses_bind uses_raiseIf fun _ => ?_
    refine uses_bind (hplain rfl) fun parts => ?_
    refine uses_bind (uses_redisLock hE.toServes.attends (uses_transitionLocked hE.ordinary hE.deleteEvent
      (fun _ => hE.stage _ trivial) (hE.stage _ ⟨rfl, .inl rfl⟩))) fun event => ?_
    refine uses_bind (uses_notify hE.toServes.attends) fun _ => ?_
    exact uses_bind (hretrigger r rfl fun st h => ⟨rfl, .inr h⟩) fun _ => uses_pure
  | cancel userId r reason =>
    refine uses_bind (uses_getCurrentUser hE.toServes.attends) fun user => ?_
    refine uses_bind uses_raiseIf fun _ => uses_map ?_
    refine uses_bind (Interviews.uses_load hE.toServes.attends.internal) fun row => ?_
    refine uses_bind uses_raiseIf fun _ => ?_
    refine uses_bind (hplain rfl) fun parts => ?_
    refine uses_bind (uses_redisLock hE.toServes.attends (uses_transitionLocked hE.ordinary hE.deleteEvent
      (fun _ => hE.stage _ trivial) (hE.stage _ ⟨rfl, rfl⟩))) fun event => ?_
    exact uses_bind (uses_notify hE.toServes.attends) fun _ => uses_pure
  | _ => exact uses_internal hE.toServes.attends hE.stage rfl

/-! ### What is staged -/

/-- The write that is staged, if one is, is one of the operation. -/
def Stages (pf : Platform) (call : Call) (β : Type) (o : Effect β) : Prop :=
  ∀ y, o.staged = some y → call.Writes pf y

/-- **Every handler stages writes of its operation only.** -/
theorem stages_handle (call : Call) : (handle pf call).Uses (Stages pf call) := by
  have hserves : Serves (Stages pf call) :=
    ⟨fun o ho y hy => by cases o <;> simp [Effect.staged, Effect.ordinary] at hy ho,
      fun _ _ _ _ hy => by simp [Effect.staged] at hy, fun _ _ _ hy => by simp [Effect.staged] at hy⟩
  refine uses_handle ⟨hserves, fun _ _ _ hy => by simp [Effect.staged] at hy,
    fun _ _ _ hy => by simp [Effect.staged] at hy, fun _ _ _ _ hy => by simp [Effect.staged] at hy,
    fun y hy z hz => ?_⟩
  obtain rfl : y = z := Option.some.inj hz
  exact hy

/-! ### New runs -/

/-- The run that is stored, if one is, has no selected slot. -/
def StoresFresh (β : Type) : Effect β → Prop
  | .stage (.insertRun run) => run.Unselected
  | _ => True

theorem StoresFresh.of_staged {β : Type} {o : Effect β} (h : StoresFresh β o) {run : RecommendationRun}
    (hrun : o.staged = some (.insertRun run)) : run.Unselected := by
  cases o with
  | stage y =>
    obtain rfl : y = .insertRun run := Option.some.inj hrun
    exact h
  | _ => simp [Effect.staged] at hrun

/-- **Every handler stores its runs without a selected slot.** -/
theorem storesFresh_handle (call : Call) : (handle pf call).Uses StoresFresh := by
  refine (stages_handle call).mono fun o ho => ?_
  cases o with
  | stage y =>
    cases y with
    | insertRun run => exact (ho _ rfl : Scheduling.Produced pf run).unselected
    | _ => trivial
  | _ => trivial

end InterviewScheduler.Interviews
