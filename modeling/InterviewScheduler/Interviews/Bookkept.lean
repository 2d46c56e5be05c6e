import InterviewScheduler.Interviews.Bookkeeping
import InterviewScheduler.Interviews.Muted
import InterviewScheduler.Interviews.Warranting

/-! # Every handler keeps the audit log

Each transaction of a handler that stores a row, records an outcome or cancels an interview adds the entry
for it (`bookkept_handle`). -/

namespace InterviewScheduler.Interviews

open InterviewScheduler.Engine InterviewScheduler.Core InterviewScheduler.Effects
open InterviewScheduler.Booking (Part Parts)
open Prog

variable {pf : Platform} {about : Option Id} {α β : Type} {actor user : User} {r : Id}
  {row : InterviewRequest} {parts : Parts} {v : Draft} {φ : β → Draft → Prop}

theorem muted_plain : Muted Plain := by
  intro β o ho
  cases o with
  | stage y => cases ho
  | stageSide y =>
    cases y with
    | insertAudit a => cases ho
    | _ => rfl
  | _ => rfl

theorem idle_of_looks {o : Effect α} (ho : looks o = true) : Idle α o := by
  cases o <;> first | rfl | cases ho

/-- A muted part, and what follows. -/
theorem wp_bind_muted {p : M α} {f : α → M β} (hp : Muted Plain → p.Uses Plain)
    (hf : ∀ a, wp (bookkeeping about) (f a) (Leaves φ) {}) :
    wp (bookkeeping about) (p >>= f) (Leaves φ) {} :=
  wp_bind_plain (hp muted_plain) hf

theorem wp_clean_pure {a : α} : wp (bookkeeping about) (pure a) Clean {} := wp_pure rfl

theorem wp_clean_map {p : M α} {f : α → β} (hp : wp (bookkeeping about) p Clean v) :
    wp (bookkeeping about) (f <$> p) Clean v := by
  refine wp_map (wp_mono hp fun x v' hv => ?_)
  cases x with
  | ok a => exact hv
  | error e => trivial

/-! ### A row and its entry -/

theorem logged_of_deed {y : Write} {x : Deed × Id} (hy : deedOf y = some x) : logged y = true := by
  cases y with
  | setOutcome => rfl
  | cancelEvent => rfl
  | _ => exact Option.isSome_iff_exists.mpr ⟨x, hy⟩

/-- The entry of a deed closes its transaction. -/
theorem wp_bind_deed {y : Write} {d : Deed} {p : M β} {metadata : List (String × String)}
    (hopen : Opening y) (hy : deedOf y = some (d, r)) (hp : wp (bookkeeping about) p (Leaves φ) {}) :
    wp (bookkeeping about) (do recordAudit actor d.action r metadata; dbCommit; p) (Leaves φ) ⟨[y], []⟩ :=
  wp_bind_recordAudit fun _ ha => wp_bind_complete (complete_deed hopen hy ha) hp

/-- A row is added, and the database has taken it. -/
theorem wp_stored {y : Write} {x : Deed × Id} {a : α} (hy : deedOf y = some x) :
    wp (bookkeeping about) (do dbAdd y; dbFlush; pure a) (Leaves fun a' v' => a' = a ∧ v' = ⟨[y], []⟩) {} :=
  wp_bind_logged (logged_of_deed hy) (wp_bind_idle rfl fun _ => wp_pure ⟨rfl, rfl⟩)

theorem wp_create {ids : List Id} :
    wp (bookkeeping about) (create row ids) (Leaves fun out v' =>
      (createdAs out = createdAs row ∧ out.outcome = row.outcome) ∧
        ∃ ps, v' = ⟨[.insertRequest out ps], []⟩) {} := by
  refine wp_bind_idle rfl fun id => ?_
  refine wp_mono (wp_stored (y := .insertRequest { row with id } _) rfl) ?_
  rintro (e | out) v' hv'
  · trivial
  · obtain ⟨rfl, rfl⟩ := hv'
    exact ⟨⟨rfl, rfl⟩, _, rfl⟩

/-- A new request and the entry for it. -/
theorem wp_bind_created {ids : List Id} {d : Deed} (hd : createdAs row = d) (hrow : row.outcome = none)
    {metadata : InterviewRequest → List (String × String)} {f : InterviewRequest → M β}
    (hf : ∀ out, wp (bookkeeping about) (f out) Clean {}) :
    wp (bookkeeping about) (do
      let out ← create row ids
      recordAudit actor d.action out.id (metadata out)
      dbCommit
      f out) Clean {} := by
  refine wp_bind_leaves wp_create ?_
  rintro out v' ⟨⟨hout, houtcome⟩, ps, rfl⟩
  refine wp_bind_deed (houtcome.trans hrow) ?_ (hf out)
  change some (createdAs out, out.id) = _
  rw [hout, hd]

theorem bookkept_createRequest {data : CreateInterviewRequest} :
    wp (bookkeeping about) (createRequest actor data) Clean {} :=
  wp_bind_muted muted_resolveRoles fun _ => wp_bind_created (d := .created) rfl rfl fun _ => wp_clean_pure

theorem bookkept_createNextRound {data : NextRoundRequest} :
    wp (bookkeeping about) (createNextRound actor r data) Clean {} := by
  refine wp_bind_muted muted_load fun parent => wp_bind_unless ?_
  refine wp_bind_muted muted_getUsers fun found => ?_
  refine wp_bind_unless (wp_bind_unless (wp_bind_unless ?_))
  refine wp_bind_created (d := .continued) rfl rfl fun out => ?_
  exact wp_bind_idle rfl fun _ => wp_clean_pure

theorem bookkept_submit {data : Availability.SubmitAvailabilityRequest} :
    wp (bookkeeping about) (Availability.submit actor r data) Clean {} := by
  have hstore : wp (bookkeeping about) (Availability.create r actor.id data.timezone data.windows)
      (Leaves fun a v' => a.interviewRequestId = r ∧ v' = ⟨[.insertAvailability a], []⟩) {} := by
    refine wp_bind_idle rfl fun id => wp_bind_idle rfl fun t => ?_
    refine wp_mono (wp_stored (x := (.submitted, r)) rfl) ?_
    rintro (e | a) v' hv'
    · trivial
    · obtain ⟨rfl, rfl⟩ := hv'
      exact ⟨rfl, rfl⟩
  refine wp_bind_idle rfl fun request => wp_bind_given fun row _ => wp_bind_unless (wp_bind_unless ?_)
  refine wp_bind_leaves hstore ?_
  rintro a v' ⟨rfl, rfl⟩
  refine wp_bind_idle rfl fun _ => wp_bind_deed (d := .submitted) trivial rfl ?_
  exact wp_bind_idle rfl fun _ => wp_clean_pure

/-! ### Runs -/

theorem bookkept_fail {reason : String} :
    wp (bookkeeping about) (Scheduling.fail actor r reason) Clean {} := by
  refine wp_bind_idle rfl fun _ => wp_bind_recordAudit fun a ha => ?_
  refine wp_bind_complete (complete_entry fun d => ?_) (wp_throw trivial)
  rw [ha.1]
  cases d <;> decide

theorem bookkept_persistRun {inp : EngineInput} {result : EngineResult} :
    wp (bookkeeping about) (Scheduling.persistRun pf actor r inp result) Clean {} := by
  have hslot : ∀ slot, (Scheduling.slotRow slot).Uses Plain := fun slot =>
    uses_bind (uses_perform rfl) fun _ => uses_pure
  have hstore : wp (bookkeeping about) (Scheduling.createRun r result.algorithmVersion
      (Scheduling.snapshot inp pf.calendarSimulated) result.slots)
      (Leaves fun run v' => run.interviewRequestId = r ∧ v' = ⟨[.insertRun run], []⟩) {} := by
    refine wp_bind_idle rfl fun id => wp_bind_plain (uses_forEach hslot) fun slots => ?_
    refine wp_bind_idle rfl fun t => wp_mono (wp_stored (x := (.generated, r)) rfl) ?_
    rintro (e | run) v' hv'
    · trivial
    · obtain ⟨rfl, rfl⟩ := hv'
      exact ⟨rfl, rfl⟩
  refine wp_bind_leaves hstore ?_
  rintro run v' ⟨rfl, rfl⟩
  exact wp_bind_idle rfl fun _ => wp_bind_deed (d := .generated) trivial rfl wp_clean_pure

theorem bookkept_generateLocked :
    wp (bookkeeping about) (Scheduling.generateLocked pf actor r) Clean {} := by
  refine wp_bind_idle rfl fun _ => wp_bind_idle rfl fun request => ?_
  refine wp_bind_muted muted_existingRun fun existing => ?_
  cases existing with
  | some run => exact wp_clean_pure
  | none =>
    refine wp_bind_unless (wp_bind_idle rfl fun avail => wp_bind_given fun avail _ => wp_bind_unless ?_)
    refine wp_bind_idle rfl fun parts => wp_bind_unless (wp_bind_idle rfl fun ref => ?_)
    refine wp_ite (fun _ => bookkept_fail) fun _ => ?_
    refine wp_bind_muted muted_calendarBusy fun busy => ?_
    refine wp_bind_muted muted_confirmedEventsForUsers fun internal => ?_
    refine wp_bind_plain Scheduling.uses_runEngine fun result => ?_
    exact wp_ite (fun _ => bookkept_fail) fun _ => bookkept_persistRun

/-- Who has lost the lock stores nothing. -/
theorem bookkept_generate : wp (bookkeeping about) (Scheduling.generate pf actor r) (fun _ _ => True) {} := by
  refine wp_mono (Q := Leaves fun _ _ => True) ?_ fun _ _ _ => trivial
  refine wp_bind_idle rfl fun request => wp_bind_given fun row _ => ?_
  refine wp_bind_muted muted_existingRun fun existing => ?_
  cases existing with
  | some run => exact wp_pure trivial
  | none =>
    refine wp_tryCatch (wp_mono (wp_clean_lock bookkept_generateLocked) ?_)
    rintro (e | out) v' hv'
    · cases e with
      | lockNotAcquired =>
        exact wp_mono (wp_idle (looks_waitForRun fun _ ho => idle_of_looks ho)) fun x v _ => leaves_any x v
      | _ => trivial
    · trivial

/-! ### Bookings -/

theorem bookkept_persist {slot : RecommendedSlot} {hosted : Booking.Hosted} :
    wp (bookkeeping about) (Booking.persist actor r slot hosted) Clean {} := by
  have hstore : wp (bookkeeping about) (Booking.insertInterviewEvent r slot.startTime slot.endTime
      hosted.calEventId hosted.calMeetingLink hosted.provider)
      (Leaves fun e v' => (e.interviewRequestId = r ∧ e.status = .confirmed) ∧
        v' = ⟨[.insertEvent e], []⟩) {} := by
    refine wp_bind_idle rfl fun id => wp_mono (wp_stored (x := (.booked, r)) rfl) ?_
    rintro (e | event) v' hv'
    · trivial
    · obtain ⟨rfl, rfl⟩ := hv'
      exact ⟨⟨rfl, rfl⟩, rfl⟩
  refine wp_bind_leaves hstore ?_
  rintro event v' ⟨⟨rfl, hconfirmed⟩, rfl⟩
  refine wp_bind_idle rfl fun _ => wp_bind_idle rfl fun _ => ?_
  exact wp_bind_deed (d := .booked) hconfirmed rfl wp_clean_pure

/-- What a failed transaction has staged is rolled back first. -/
theorem bookkept_persistFailed {hosted : Booking.Hosted} {e : Exc} :
    wp (bookkeeping about) (Booking.persistFailed hosted e) Clean v := by
  refine wp_bind (wp_perform trivial ?_)
  rintro (e' | a) v' hstep
  · trivial
  obtain rfl := hstep
  have hthrow : wp (bookkeeping about) (if e = .integrityError then
        throw (Booking.slotNoLongerAvailable "this request was booked by someone else")
      else throw (.ofClass .bookingPersistenceFailedError) : M InterviewEvent) Clean {} :=
    wp_ite (fun _ => wp_throw trivial) fun _ => wp_throw trivial
  cases hosted.organiserToken with
  | none => exact hthrow
  | some token => exact wp_bind_muted muted_compensate fun _ => hthrow

theorem bookkept_bookLocked {slot : RecommendedSlot} :
    wp (bookkeeping about) (Booking.bookLocked pf actor r slot) Clean {} := by
  refine wp_bind_idle rfl fun request => wp_bind_unless (wp_bind_idle rfl fun event => wp_bind_unless ?_)
  refine wp_bind_idle rfl fun parts => wp_bind_given fun candidate _ => ?_
  refine wp_bind_muted muted_confirmedEventsForUsers fun clashes => wp_bind_unless ?_
  refine wp_bind_muted muted_hostEvent fun hosted => ?_
  have hpersist : wp (bookkeeping about) (tryCatch (Booking.persist actor r slot hosted)
      (Booking.persistFailed hosted)) Clean {} := by
    refine wp_tryCatch (wp_mono bookkept_persist ?_)
    rintro (e | event) v' hv'
    · exact bookkept_persistFailed
    · exact hv'
  exact wp_bind_clean hpersist fun _ => wp_clean_pure

theorem bookkept_book {slotId : Id} :
    wp (bookkeeping about) (Booking.book pf actor r slotId) Clean {} := by
  refine wp_bind_idle rfl fun found => wp_bind_given fun found _ => wp_bind_unless ?_
  refine wp_bind_idle rfl fun request => wp_bind_given fun row _ => ?_
  refine wp_bind_plain (uses_bind (uses_perform rfl) fun _ => uses_pure) fun latest => ?_
  refine wp_bind_unless (wp_bind_unless ?_)
  refine wp_bind_clean (wp_tryCatch (wp_mono (wp_clean_lock bookkept_bookLocked) ?_)) fun booked => ?_
  · rintro (e | booked) v' hv'
    · cases e <;> trivial
    · exact hv'
  · exact wp_bind_plain (muted_notice muted_plain) fun _ => wp_clean_pure

/-! ### Transitions -/

/-- At most one interview was cancelled, and no entry added yet. -/
def Draft.Releasing (v : Draft) : Prop := v = {} ∨ ∃ i, v = ⟨[.cancelEvent i], []⟩

/-- The entry of a release closes its transaction. -/
theorem wp_bind_release {action : String} {metadata : List (String × String)} {p : M β}
    (hv : v.Releasing) (hr : about = some r) (haction : action ∈ releaseActions)
    (hp : wp (bookkeeping about) p (Leaves φ) {}) :
    wp (bookkeeping about) (do recordAudit actor action r metadata; dbCommit; p) (Leaves φ) v := by
  have hother : ∀ {d : Deed} {a : AuditLog}, Entry action r a → a.action ≠ d.action := by
    intro d a ha hd
    rw [ha.1] at hd
    have hnot : d.action ∉ releaseActions := by cases d <;> decide
    exact hnot (hd ▸ haction)
  have hcount : ∀ {x : Id} {a : AuditLog}, Entry action r a → about = some x → 1 ≤ releaseEntries [a] x := by
    intro x a ha hx
    obtain rfl : r = x := Option.some.inj (hr.symm.trans hx)
    simp [releaseEntries, ha.1, ha.2, haction]
  rcases hv with rfl | ⟨i, rfl⟩
  · exact wp_bind_recordAudit fun a ha => wp_bind_complete (complete_entry fun d => hother ha) hp
  · refine wp_bind_recordAudit fun a ha => wp_bind_complete ?_ hp
    refine complete_other (fun y hy => ?_) (fun d => hother ha) (fun x o notes hy => ?_)
      fun x hx => hcount ha hx
    · rw [List.mem_singleton.mp hy]
      rfl
    · exact absurd (List.mem_singleton.mp hy) (by simp)

theorem bookkept_cancelActiveEvent {event : InterviewEvent} {trigger : String} :
    wp (bookkeeping about) (cancelActiveEvent pf parts event trigger)
      (Leaves fun _ v' => v' = ⟨[.cancelEvent event.id], []⟩) {} := by
  refine wp_ite (fun _ => ?_) fun _ => ?_
  · refine wp_perform trivial ?_
    rintro (e | a) v' hstep
    · trivial
    · exact hstep
  · refine wp_bind_muted muted_deleteFromCalendar fun deleted => wp_bind_logged rfl ?_
    refine wp_ite (fun _ => wp_pure rfl) fun _ => ?_
    refine wp_bind_idle rfl fun _ => wp_perform trivial ?_
    rintro (e | a) v' hstep
    · trivial
    · exact hstep

theorem bookkept_cancelConfirmed {trigger : String} :
    wp (bookkeeping about) (cancelConfirmed pf parts r trigger) (Leaves fun _ v' => v'.Releasing) {} := by
  refine wp_bind_idle rfl fun event => ?_
  cases event with
  | none => exact wp_pure (.inl rfl)
  | some e =>
    refine wp_bind_leaves bookkept_cancelActiveEvent ?_
    rintro a v' rfl
    exact wp_pure (.inr ⟨_, rfl⟩)

theorem bookkept_declineLocked {reason : Option (Text 1000)} (hr : about = some r) :
    wp (bookkeeping about) (declineLocked pf actor r parts reason) Clean {} := by
  refine wp_bind_muted muted_load fun row => wp_bind_idle rfl fun _ => ?_
  refine wp_ite (fun _ => ?_) fun _ => ?_
  · refine wp_bind_leaves bookkept_cancelConfirmed fun event v' hv' => wp_bind_idle rfl fun _ => ?_
    exact wp_bind_release hv' hr (by decide) wp_clean_pure
  · exact wp_bind_idle rfl fun _ => wp_bind_release (.inl rfl) hr (by decide) wp_clean_pure

theorem bookkept_transitionLocked {reason : Option (Text 1000)} {allowed : RequestStatus → Bool}
    {refused : Exc} {trigger action : String} {status : RequestStatus} (hr : about = some r)
    (haction : action ∈ releaseActions) :
    wp (bookkeeping about) (transitionLocked pf actor r parts reason allowed refused trigger status action)
      Clean {} := by
  refine wp_bind_muted muted_load fun row => wp_bind_unless ?_
  refine wp_bind_leaves bookkept_cancelConfirmed fun event v' hv' => wp_bind_idle rfl fun _ => ?_
  exact wp_bind_release hv' hr haction wp_clean_pure

/-- The run that is asked for at last may leave anything behind: nothing is committed after it. -/
theorem bookkept_retrigger :
    wp (bookkeeping about) (retriggerRecommendations pf actor r) (Leaves fun _ _ => True) {} := by
  refine wp_bind_idle rfl fun request => ?_
  cases request with
  | none => exact wp_pure trivial
  | some row =>
    refine wp_bind_idle rfl fun _ => wp_bind_complete complete_empty ?_
    exact wp_bind_attempt (wp_mono bookkept_generate fun _ _ _ => wp_pure trivial)

theorem bookkept_decline {reason : Option (Text 1000)} (hr : about = some r) :
    wp (bookkeeping about) (decline pf actor r reason) (Leaves fun _ _ => True) {} := by
  refine wp_bind_muted muted_load fun _ => wp_bind_idle rfl fun _ => ?_
  refine wp_bind_idle rfl fun parts => wp_bind_unless ?_
  refine wp_bind_clean (wp_clean_lock (bookkept_declineLocked hr)) fun x => ?_
  refine wp_bind_muted muted_notify fun _ => wp_ite (fun _ => ?_) fun _ => wp_pure trivial
  exact wp_bind_leaves bookkept_retrigger fun _ _ _ => wp_pure trivial

theorem bookkept_reschedule {reason : Option (Text 1000)} (hr : about = some r) :
    wp (bookkeeping about) (reschedule pf actor r reason) (Leaves fun _ _ => True) {} := by
  refine wp_bind_muted muted_load fun row => wp_bind_unless (wp_bind_idle rfl fun parts => ?_)
  refine wp_bind_clean (wp_clean_lock (bookkept_transitionLocked hr (by decide))) fun event => ?_
  refine wp_bind_muted muted_notify fun _ => ?_
  exact wp_bind_leaves bookkept_retrigger fun _ _ _ => wp_pure trivial

theorem bookkept_cancel {reason : Option (Text 1000)} (hr : about = some r) :
    wp (bookkeeping about) (cancel pf actor r reason) Clean {} := by
  refine wp_bind_muted muted_load fun row => wp_bind_unless (wp_bind_idle rfl fun parts => ?_)
  refine wp_bind_clean (wp_clean_lock (bookkept_transitionLocked hr (by decide))) fun event => ?_
  exact wp_bind_muted muted_notify fun _ => wp_clean_pure

/-! ### Changes of a request -/

theorem bookkept_recordOutcome {outcome : Outcome} {notes : Option (Text 2000)} :
    wp (bookkeeping about) (recordOutcome pf actor r outcome notes) Clean {} := by
  refine wp_bind_muted muted_load fun row => wp_bind_unless ?_
  refine wp_bind_muted muted_checkGrace fun _ => wp_bind_logged rfl (wp_bind_idle rfl fun _ => ?_)
  refine wp_bind_recordAudit fun a ha => wp_bind_complete (complete_other ?_ ?_ ?_ ?_) ?_
  · intro y hy
    obtain rfl := List.mem_singleton.mp hy
    rfl
  · intro d
    rw [ha.1]
    cases d <;> decide
  · intro x o notes' hy
    have heq := List.mem_singleton.mp hy
    rw [Write.setOutcome.injEq] at heq
    obtain ⟨rfl, -⟩ := heq
    exact ha
  · exact fun _ _ => Nat.zero_le _
  · exact wp_bind_muted muted_getWithParticipants fun stored => wp_orRaise (fun _ => trivial) fun _ _ => rfl

theorem plain_updatePanel {ids : Patch (List Id)} : (updatePanel r ids).Uses Plain := by
  cases ids with
  | unset => exact uses_pure
  | null => exact uses_throw
  | value ids =>
    refine uses_bind (muted_resolveRoles muted_plain) fun _ => uses_bind (uses_perform rfl) fun _ => ?_
    exact uses_bind (uses_forEach fun _ => uses_perform rfl) fun _ => uses_perform rfl

theorem bookkept_updateRequest {data : UpdateInterviewRequest} :
    wp (bookkeeping about) (updateRequest actor r data) Clean {} := by
  have hdetails : (updateDetails r data).Uses Plain := by
    unfold updateDetails
    split
    · exact uses_perform rfl
    · exact uses_pure
  refine wp_bind_muted muted_getWithParticipants fun found => wp_bind_given fun out _ => wp_bind_unless ?_
  refine wp_ite (fun _ => wp_clean_pure) fun _ => ?_
  refine wp_bind_plain plain_updatePanel fun _ => wp_bind_plain hdetails fun _ => ?_
  refine wp_bind_recordAudit fun a ha => wp_bind_complete (complete_entry fun d => ?_) ?_
  · rw [ha.1]
    cases d <;> decide
  · exact wp_bind_muted muted_getWithParticipants fun stored => wp_orRaise (fun _ => trivial) fun _ _ => rfl

/-! ### Every handler -/

/-- **Every transaction of a handler adds the entries for what it stores.** -/
theorem bookkept_handle (call : Call) :
    wp (bookkeeping call.about) (handle pf call) (fun _ _ => True) {} := by
  refine wp_mono (Q := Leaves fun _ _ => True) ?_ fun _ _ _ => trivial
  have hclean : ∀ {p : M Response} {v : Draft}, wp (bookkeeping call.about) p Clean v →
      wp (bookkeeping call.about) p (Leaves fun _ _ => True) v := fun hp =>
    wp_mono hp fun x v _ => leaves_any x v
  cases call with
  | createRequest userId data =>
    refine wp_bind_muted muted_getCurrentUser fun user => wp_bind_unless (hclean ?_)
    exact wp_clean_map bookkept_createRequest
  | updateRequest userId r data =>
    refine wp_bind_muted muted_getCurrentUser fun user => wp_bind_unless (hclean ?_)
    exact wp_clean_map bookkept_updateRequest
  | submit userId r data =>
    refine wp_bind_muted muted_getCurrentUser fun user => wp_bind_unless ?_
    exact wp_bind_muted muted_validate fun _ => hclean (wp_clean_map bookkept_submit)
  | generate userId r =>
    refine wp_bind_muted muted_getCurrentUser fun user => wp_bind_muted muted_adminOrOwningCandidate fun _ => ?_
    exact wp_map (wp_mono bookkept_generate fun _ v _ => leaves_any _ v)
  | book userId r slotId =>
    refine wp_bind_muted muted_getCurrentUser fun user => wp_bind_muted muted_adminOrOwningCandidate fun _ => ?_
    exact hclean (wp_clean_map bookkept_book)
  | decline userId r reason =>
    refine wp_bind_muted muted_getCurrentUser fun user => wp_bind_unless ?_
    exact wp_map (wp_mono (bookkept_decline rfl) fun _ v _ => leaves_any _ v)
  | reschedule userId r reason =>
    refine wp_bind_muted muted_getCurrentUser fun user => wp_bind_muted muted_adminOrOwningCandidate fun _ => ?_
    exact wp_map (wp_mono (bookkept_reschedule rfl) fun _ v _ => leaves_any _ v)
  | cancel userId r reason =>
    refine wp_bind_muted muted_getCurrentUser fun user => wp_bind_unless (hclean ?_)
    exact wp_clean_map (bookkept_cancel rfl)
  | recordOutcome userId r outcome notes =>
    refine wp_bind_muted muted_getCurrentUser fun user => wp_bind_unless (hclean ?_)
    exact wp_clean_map bookkept_recordOutcome
  | createNextRound userId r data =>
    refine wp_bind_muted muted_getCurrentUser fun user => wp_bind_unless (hclean ?_)
    exact wp_clean_map bookkept_createNextRound

end InterviewScheduler.Interviews
