import InterviewScheduler.Interviews.Muted
import InterviewScheduler.Interviews.Warranting

/-! # Who signs an entry

An entry of the audit log has the id and the role of a user, and a response is set for a user. Every
operation writes its own entries only, about its request and in the name of its caller (`Scribes`). -/

namespace InterviewScheduler.Interviews

open InterviewScheduler.Engine InterviewScheduler.Core InterviewScheduler.Effects
open InterviewScheduler.Booking (Part Parts)
open Prog

/-- The entry that an operation writes. -/
def entryOf (actor : User) (action : String) (r : Id) (metadata : List (String × String)) : AuditLog :=
  { actorId := actor.id, actorRole := actor.role, action, entityType := "interview_request", entityId := r,
    metadata }

/-- The class admits the muted effects, every write, and the entries of the actor that are in `L`. -/
structure Scribes (E : ∀ β : Type, Effect β → Prop) (actor : User) (L : String → Id → Prop) : Prop where
  muted : Muted E
  stage : ∀ y, E _ (.stage y)
  audit : ∀ action r metadata, L action r → E _ (.stageSide (.insertAudit (entryOf actor action r metadata)))

variable {E : ∀ β : Type, Effect β → Prop} {pf : Platform} {actor : User} {L : String → Id → Prop} {r : Id}
  {parts : Parts} {reason : Option (Text 1000)} {row : InterviewRequest}

section Scribes

variable (hE : Scribes E actor L)

include hE

theorem scribes_recordAudit {action : String} {metadata : List (String × String)} (hL : L action r) :
    (recordAudit actor action r metadata).Uses E :=
  uses_bind (uses_perform (hE.audit _ _ _ hL)) fun _ => uses_perform (hE.muted _ rfl)

/-- The end of a transaction. -/
theorem scribes_finish {β : Type} {action : String} {metadata : List (String × String)} {p : M β}
    (hL : L action r) (hp : p.Uses E) : (do recordAudit actor action r metadata; dbCommit; p).Uses E :=
  uses_bind (scribes_recordAudit hE hL) fun _ => uses_bind (uses_perform (hE.muted _ rfl)) fun _ => hp

theorem scribes_create {ids : List Id} : (create row ids).Uses E :=
  uses_bind (uses_perform (hE.muted _ rfl)) fun _ => uses_bind (uses_perform (hE.stage _)) fun _ =>
    uses_bind (uses_perform (hE.muted _ rfl)) fun _ => uses_pure

theorem scribes_createRequest {data : CreateInterviewRequest} (hL : ∀ r, L "INTERVIEW_REQUEST_CREATED" r) :
    (createRequest actor data).Uses E := by
  refine uses_bind (muted_resolveRoles hE.muted) fun _ => uses_bind (scribes_create hE) fun out => ?_
  exact scribes_finish hE (hL _) uses_pure

theorem scribes_createNextRound {data : NextRoundRequest} (hL : ∀ r, L "NEXT_ROUND_CREATED" r) :
    (createNextRound actor r data).Uses E := by
  refine uses_bind (muted_load hE.muted) fun parent => uses_bind uses_raiseIf fun _ => ?_
  refine uses_bind (muted_getUsers hE.muted) fun found => uses_bind uses_raiseIf fun _ => ?_
  refine uses_bind uses_raiseIf fun _ => uses_bind uses_raiseIf fun _ => ?_
  refine uses_bind (scribes_create hE) fun child => scribes_finish hE (hL _) ?_
  exact uses_bind (uses_perform (hE.muted _ rfl)) fun _ => uses_pure

theorem scribes_updateRequest {data : UpdateInterviewRequest}
    (hresponse : ∀ ids, data.panelistIds = .value ids → ∀ u ∈ ids, E _ (.stageSide (.setResponse r u .pending)))
    (hL : L "INTERVIEW_REQUEST_UPDATED" r) : (updateRequest actor r data).Uses E := by
  have hpanel : (updatePanel r data.panelistIds).Uses E := by
    cases hids : data.panelistIds with
    | unset => exact uses_pure
    | null => exact uses_throw
    | value ids =>
      refine uses_bind (muted_resolveRoles hE.muted) fun _ => uses_bind (uses_perform (hE.stage _)) fun _ => ?_
      refine uses_bind (uses_forEach_mem fun u hu => ?_) fun _ => uses_perform (hE.muted _ rfl)
      exact uses_perform (hresponse ids hids u hu)
  have hdetails : (updateDetails r data).Uses E := by
    unfold updateDetails
    split
    · exact uses_perform (hE.stage _)
    · exact uses_pure
  refine uses_bind (muted_getWithParticipants hE.muted) fun found => uses_bind uses_orRaise fun out => ?_
  refine uses_bind uses_raiseIf fun _ => ?_
  split
  · exact uses_pure
  · refine uses_bind hpanel fun _ => uses_bind hdetails fun _ => scribes_finish hE hL ?_
    exact uses_bind (muted_getWithParticipants hE.muted) fun _ => uses_orRaise

theorem scribes_submit {data : Availability.SubmitAvailabilityRequest}
    (hL : L "CANDIDATE_AVAILABILITY_SUBMITTED" r) : (Availability.submit actor r data).Uses E := by
  refine uses_bind (uses_perform (hE.muted _ rfl)) fun _ => uses_bind uses_orRaise fun row => ?_
  refine uses_bind uses_raiseIf fun _ => uses_bind uses_raiseIf fun _ => uses_bind ?_ fun stored => ?_
  · refine uses_bind (uses_perform (hE.muted _ rfl)) fun _ => uses_bind (uses_perform (hE.muted _ rfl)) fun _ => ?_
    refine uses_bind (uses_perform (hE.stage _)) fun _ => ?_
    exact uses_bind (uses_perform (hE.muted _ rfl)) fun _ => uses_pure
  · refine uses_bind (uses_perform (hE.stage _)) fun _ => scribes_finish hE hL ?_
    exact uses_bind (uses_perform (hE.muted _ rfl)) fun _ => uses_pure

theorem scribes_recordOutcome {outcome : Outcome} {notes : Option (Text 2000)}
    (hL : L "INTERVIEW_OUTCOME_RECORDED" r) : (recordOutcome pf actor r outcome notes).Uses E := by
  refine uses_bind (muted_load hE.muted) fun row => uses_bind uses_raiseIf fun _ => ?_
  refine uses_bind (muted_checkGrace hE.muted) fun _ => uses_bind (uses_perform (hE.stage _)) fun _ => ?_
  refine uses_bind (uses_perform (hE.stage _)) fun _ => scribes_finish hE hL ?_
  exact uses_bind (muted_getWithParticipants hE.muted) fun _ => uses_orRaise

/-! ### Recommendations -/

theorem scribes_fail {text : String} (hL : L "RECOMMENDATION_FAILED" r) :
    (Scheduling.fail actor r text).Uses E :=
  uses_bind (uses_perform (hE.stage _)) fun _ => scribes_finish hE hL uses_throw

theorem scribes_persistRun {inp : EngineInput} {result : EngineResult} (hL : L "RECOMMENDATION_GENERATED" r) :
    (Scheduling.persistRun pf actor r inp result).Uses E := by
  have hslot : ∀ slot, (Scheduling.slotRow slot).Uses E := fun slot =>
    uses_bind (uses_perform (hE.muted _ rfl)) fun _ => uses_pure
  have hcreate : (Scheduling.createRun r result.algorithmVersion
      (Scheduling.snapshot inp pf.calendarSimulated) result.slots).Uses E := by
    refine uses_bind (uses_perform (hE.muted _ rfl)) fun _ => uses_bind (uses_forEach hslot) fun slots => ?_
    refine uses_bind (uses_perform (hE.muted _ rfl)) fun _ => uses_bind (uses_perform (hE.stage _)) fun _ => ?_
    exact uses_bind (uses_perform (hE.muted _ rfl)) fun _ => uses_pure
  refine uses_bind hcreate fun run => uses_bind (uses_perform (hE.stage _)) fun _ => ?_
  exact scribes_finish hE hL uses_pure

theorem scribes_generate (hgenerated : L "RECOMMENDATION_GENERATED" r) (hfailed : L "RECOMMENDATION_FAILED" r) :
    (Scheduling.generate pf actor r).Uses E := by
  have hready : ∀ row, (Scheduling.generateReady pf actor r row).Uses E := by
    intro row
    refine uses_bind uses_raiseIf fun _ => uses_bind (uses_perform (hE.muted _ rfl)) fun avail => ?_
    refine uses_bind uses_orRaise fun avail => uses_bind uses_raiseIf fun _ => ?_
    refine uses_bind (uses_perform (hE.muted _ rfl)) fun parts => uses_bind uses_raiseIf fun _ => ?_
    refine uses_bind (uses_perform (hE.muted _ rfl)) fun ref => ?_
    dsimp only
    split
    · exact scribes_fail hE hfailed
    · refine uses_bind (muted_calendarBusy hE.muted) fun busy => ?_
      refine uses_bind (muted_confirmedEventsForUsers hE.muted) fun internal => ?_
      refine uses_bind Scheduling.uses_runEngine fun result => ?_
      split
      · exact scribes_fail hE hfailed
      · exact scribes_persistRun hE hgenerated
  have hlocked : (Scheduling.generateLocked pf actor r).Uses E := by
    refine uses_bind (uses_perform (hE.muted _ rfl)) fun _ => ?_
    refine uses_bind (uses_perform (hE.muted _ rfl)) fun row => ?_
    refine uses_bind (muted_existingRun hE.muted) fun existing => ?_
    cases existing with
    | some run => exact uses_pure
    | none => exact hready row
  refine uses_bind (uses_perform (hE.muted _ rfl)) fun request => uses_bind uses_orRaise fun row => ?_
  refine uses_bind (muted_existingRun hE.muted) fun existing => ?_
  cases existing with
  | some run => exact uses_pure
  | none =>
    refine uses_tryCatch (muted_redisLock hE.muted hlocked) fun e => ?_
    cases e with
    | lockNotAcquired =>
      refine looks_waitForRun fun o ho => hE.muted o ?_
      cases o <;> first | rfl | cases ho
    | _ => exact uses_throw

theorem scribes_retrigger (hgenerated : L "RECOMMENDATION_GENERATED" r) (hfailed : L "RECOMMENDATION_FAILED" r) :
    (retriggerRecommendations pf actor r).Uses E := by
  refine uses_bind (uses_perform (hE.muted _ rfl)) fun request => ?_
  cases request with
  | none => exact uses_pure
  | some row =>
    refine uses_bind (uses_perform (hE.stage _)) fun _ => uses_bind (uses_perform (hE.muted _ rfl)) fun _ => ?_
    exact uses_bind (uses_attempt (scribes_generate hE hgenerated hfailed)) fun _ => uses_pure

/-! ### Bookings -/

theorem scribes_bookLocked {slot : RecommendedSlot} (hL : L "INTERVIEW_BOOKED" r) :
    (Booking.bookLocked pf actor r slot).Uses E := by
  have hpersist : ∀ hosted, (Booking.persist actor r slot hosted).Uses E := by
    intro hosted
    refine uses_bind ?_ fun event => ?_
    · refine uses_bind (uses_perform (hE.muted _ rfl)) fun _ => uses_bind (uses_perform (hE.stage _)) fun _ => ?_
      exact uses_bind (uses_perform (hE.muted _ rfl)) fun _ => uses_pure
    · refine uses_bind (uses_perform (hE.stage _)) fun _ => uses_bind (uses_perform (hE.stage _)) fun _ => ?_
      exact scribes_finish hE hL uses_pure
  have hfailed : ∀ hosted e, (Booking.persistFailed hosted e).Uses E := by
    intro hosted e
    have hthrow : (if e = .integrityError then
          throw (Booking.slotNoLongerAvailable "this request was booked by someone else")
        else throw (.ofClass .bookingPersistenceFailedError) : M InterviewEvent).Uses E := by
      split
      · exact uses_throw
      · exact uses_throw
    refine uses_bind (uses_perform (hE.muted _ rfl)) fun _ => ?_
    cases hosted.organiserToken with
    | none => exact hthrow
    | some token => exact uses_bind (muted_compensate hE.muted) fun _ => hthrow
  refine uses_bind (uses_perform (hE.muted _ rfl)) fun request => uses_bind uses_raiseIf fun _ => ?_
  refine uses_bind (uses_perform (hE.muted _ rfl)) fun event => uses_bind uses_raiseIf fun _ => ?_
  refine uses_bind (uses_perform (hE.muted _ rfl)) fun parts => uses_bind uses_orRaise fun candidate => ?_
  refine uses_bind (muted_confirmedEventsForUsers hE.muted) fun clashes => uses_bind uses_raiseIf fun _ => ?_
  refine uses_bind (muted_hostEvent hE.muted) fun hosted => ?_
  exact uses_bind (uses_tryCatch (hpersist hosted) (hfailed hosted)) fun _ => uses_pure

theorem scribes_book {slotId : Id} (hL : L "INTERVIEW_BOOKED" r) : (Booking.book pf actor r slotId).Uses E := by
  refine uses_bind (uses_perform (hE.muted _ rfl)) fun found => uses_bind uses_orRaise fun found => ?_
  refine uses_bind uses_raiseIf fun _ => uses_bind (uses_perform (hE.muted _ rfl)) fun request => ?_
  refine uses_bind uses_orRaise fun row => ?_
  refine uses_bind (uses_bind (uses_perform (hE.muted _ rfl)) fun _ => uses_pure) fun latest => ?_
  refine uses_bind uses_raiseIf fun _ => uses_bind uses_raiseIf fun _ => uses_bind ?_ fun booked => ?_
  · refine uses_tryCatch (muted_redisLock hE.muted (scribes_bookLocked hE hL)) fun e => ?_
    cases e <;> exact uses_throw
  · exact uses_bind (muted_notice hE.muted) fun _ => uses_pure

/-! ### Transitions -/

theorem scribes_cancelConfirmed {trigger : String} : (cancelConfirmed pf parts r trigger).Uses E := by
  refine uses_bind (uses_perform (hE.muted _ rfl)) fun event => ?_
  cases event with
  | none => exact uses_pure
  | some e =>
    refine uses_bind ?_ fun _ => uses_pure
    unfold cancelActiveEvent
    split
    · exact uses_perform (hE.stage _)
    · refine uses_bind (muted_deleteFromCalendar hE.muted) fun deleted => ?_
      refine uses_bind (uses_perform (hE.stage _)) fun _ => ?_
      split
      · exact uses_pure
      · exact muted_createReconciliationTask hE.muted

theorem scribes_transitionLocked {allowed : RequestStatus → Bool} {refused : Exc} {trigger action : String}
    {status : RequestStatus} (hL : L action r) :
    (transitionLocked pf actor r parts reason allowed refused trigger status action).Uses E := by
  refine uses_bind (muted_load hE.muted) fun row => uses_bind uses_raiseIf fun _ => ?_
  refine uses_bind (scribes_cancelConfirmed hE) fun event => uses_bind (uses_perform (hE.stage _)) fun _ => ?_
  exact scribes_finish hE hL uses_pure

theorem scribes_cancel (hL : L "INTERVIEW_CANCELLED" r) : (cancel pf actor r reason).Uses E := by
  refine uses_bind (muted_load hE.muted) fun row => uses_bind uses_raiseIf fun _ => ?_
  refine uses_bind (uses_perform (hE.muted _ rfl)) fun parts => ?_
  refine uses_bind (muted_redisLock hE.muted (scribes_transitionLocked hE hL)) fun event => ?_
  exact uses_bind (muted_notify hE.muted) fun _ => uses_pure

theorem scribes_reschedule (hL : L "INTERVIEW_RESCHEDULE_REQUESTED" r)
    (hgenerated : L "RECOMMENDATION_GENERATED" r) (hfailed : L "RECOMMENDATION_FAILED" r) :
    (reschedule pf actor r reason).Uses E := by
  refine uses_bind (muted_load hE.muted) fun row => uses_bind uses_raiseIf fun _ => ?_
  refine uses_bind (uses_perform (hE.muted _ rfl)) fun parts => ?_
  refine uses_bind (muted_redisLock hE.muted (scribes_transitionLocked hE hL)) fun event => ?_
  refine uses_bind (muted_notify hE.muted) fun _ => ?_
  exact uses_bind (scribes_retrigger hE hgenerated hfailed) fun _ => uses_pure

theorem scribes_decline (hresponse : E _ (.stageSide (.setResponse r actor.id .declined)))
    (hL : L "INTERVIEW_DECLINED" r) (hgenerated : L "RECOMMENDATION_GENERATED" r)
    (hfailed : L "RECOMMENDATION_FAILED" r) : (decline pf actor r reason).Uses E := by
  have hlocked : ∀ parts, (declineLocked pf actor r parts reason).Uses E := by
    intro parts
    refine uses_bind (muted_load hE.muted) fun row => uses_bind (uses_perform hresponse) fun _ => ?_
    split
    · refine uses_bind (scribes_cancelConfirmed hE) fun event => ?_
      exact uses_bind (uses_perform (hE.stage _)) fun _ => scribes_finish hE hL uses_pure
    · exact uses_bind (uses_perform (hE.stage _)) fun _ => scribes_finish hE hL uses_pure
  refine uses_bind (muted_load hE.muted) fun _ => uses_bind (uses_perform (hE.muted _ rfl)) fun _ => ?_
  refine uses_bind (uses_perform (hE.muted _ rfl)) fun parts => uses_bind uses_raiseIf fun _ => ?_
  refine uses_bind (muted_redisLock hE.muted (hlocked parts)) fun resp => ?_
  refine uses_bind (muted_notify hE.muted) fun _ => ?_
  split
  · exact uses_bind (scribes_retrigger hE hgenerated hfailed) fun _ => uses_pure
  · exact uses_pure

end Scribes

end InterviewScheduler.Interviews
