import InterviewScheduler.Booking.Spec
import InterviewScheduler.Scheduling.Spec
import InterviewScheduler.Interviews.Lifecycle

/-! # What the lifecycle transitions do

Each of `decline`, `reschedule` and `cancel` commits one transaction under the lock: the release of the
request, or the way back to scheduling of one that is not booked. `decline` and `reschedule` go on with
a second one, outside of the lock, that makes a released request READY_FOR_SCHEDULING. -/

namespace InterviewScheduler.Interviews

open InterviewScheduler.Engine InterviewScheduler.Core InterviewScheduler.Effects
open InterviewScheduler.Lifecycle
open InterviewScheduler.Booking (Parts organiserConnection createReconciliationTask)

variable {alone : Prop} {may : May} {P : Interviews → Id → Prop} {s s' : Session} {T : Interviews}
  {pf : Platform} {actor : User} {r : Id} {row : InterviewRequest} {parts : Parts}
  {st : RequestStatus} {α : Type}

/-! ### The active event -/

theorem wp_deleteFromCalendar (hs : s.Calm) {event : InterviewEvent}
    {Q : Except Exc Bool → Session × Interviews → Prop}
    (herr : ∀ e s', s.Ended s' → Q (.error e) (s', T))
    (hkept : ∀ s', s.Same s' → Q (.ok false) (s', T))
    (hgone : ∀ s', s.Same s' →
      Q (.ok true) ({ s' with trace := s'.trace.delete event.calendarEventId }, T)) :
    wp (lifecycle alone may P) (deleteFromCalendar pf parts event) Q (s, T) := by
  -- an `AppError` leaves the session as it was
  have hcaught : ∀ e s', (s.Same s' ∨ e.isApp = false ∧ s.Broken s') →
      wp (lifecycle alone may P) (if e.isApp then pure false else throw e) Q (s', T) := by
    intro e s' h
    split
    · next happ =>
      rcases h with h | ⟨hnot, -⟩
      · exact hkept s' h
      · rw [happ] at hnot
        exact absurd hnot (by simp)
    · exact herr e s' (ended_of_asked hs h)
  have horganiser : wp (lifecycle alone may P)
      (organiserConnection pf (parts.filter Booking.Part.isPanelist)) (Asked s T) (s, T) :=
    asked_bind hs asked_orRaise fun _ _ h => Calendar.asked_usableConnection h
  refine wp_tryCatch (wp_bind_asked horganiser hcaught fun conn s₁ h₁ => ?_)
  refine wp_bind_asked asked_orRaise (fun e s' h => hcaught e s' ?_) fun token s₂ h₂ => ?_
  · exact h.imp h₁.trans fun h => ⟨h.1, h.2.of_same h₁⟩
  · have h := h₁.trans h₂
    exact Calendar.wp_deleteEvent' (hkept s₂ h) (hgone s₂ h)

/-- What the cancellation of the active event leaves. -/
structure Releasing (s : Session) (event : Option InterviewEvent) (s' : Session) : Prop where
  copies : s'.copies = s.copies
  pending : s'.pending = cancelWrites event
  trace : ∃ ids, s'.trace = { s.trace with dropped := ids } ∧
    ∀ id ∈ ids, ∃ e, event = some e ∧ e.calendarEventId = id ∧ e.provider = .google

theorem wp_cancelActiveEvent (hs : s.Calm) {event : InterviewEvent} {trigger : String}
    {Q : Except Exc Unit → Session × Interviews → Prop}
    (herr : ∀ e s', s.Ended s' → Q (.error e) (s', T))
    (hok : ∀ s', Releasing s (some event) s' → Q (.ok ()) (s', T)) :
    wp (lifecycle alone may P) (cancelActiveEvent pf parts event trigger) Q (s, T) := by
  have hstage : ∀ s₁ : Session, s.Same s₁ →
      Releasing s (some event) (s₁.stage (.cancelEvent event.id)) := fun s₁ h =>
    ⟨h.copies, by simp [Session.stage, (h.calm hs).pending, cancelWrites], [],
      by rw [← hs.dropped]; exact h.trace, by simp⟩
  unfold cancelActiveEvent
  split
  · exact wp_dbAdd (hok _ (hstage s (.refl s)))
  · next hprovider =>
    replace hprovider : event.provider = .google := by
      cases h : event.provider <;> simp_all
    refine wp_bind (wp_deleteFromCalendar hs herr (fun s₁ h₁ => ?_) fun s₁ h₁ => ?_)
    · -- the event is still there: a task is opened with the cancellation of the row
      obtain ⟨hc, hp, ids, ht, hids⟩ := hstage s₁ h₁
      refine wp_bind (wp_dbAdd (wp_bind (wp_dbAddSide (wp_dbFlush (fun e _ => ?_) fun w => ?_))))
      · refine herr _ _ ⟨(Session.ended_fail _ ?_).toClosed, ?_⟩
        · exact (h₁.calm hs).owed
        · change s₁.trace.journal = _
          rw [h₁.trace]
      · exact hok _ ⟨hc, hp, ids, ht, hids⟩
    · refine wp_bind (wp_dbAdd (hok _ ⟨h₁.copies, ?_, [event.calendarEventId], ?_, ?_⟩))
      · simp [Session.stage, (h₁.calm hs).pending, cancelWrites]
      · have howed := hs.owed
        simp [Session.stage, Trace.delete, h₁.trace, howed, hs.dropped]
      · intro id hid
        exact ⟨event, rfl, (List.mem_singleton.mp hid).symm, hprovider⟩

/-- The session after the lookup of the CONFIRMED event and its cancellation. -/
structure Cancelling (alone : Prop) (r : Id) (row : InterviewRequest) (s₀ : Session)
    (event : Option InterviewEvent) (s₁ s' : Session) (T : Interviews) : Prop where
  guarded : GuardedOnce alone (.booking r) r row s₀ s₁ T
  releasing : Releasing s₁ event s'
  looked : ∃ n, s₁.trace.looked = some ⟨r, event.map (·.id), n⟩
  found : alone → T.events.find? (fun e => e.ConfirmedFor r) = event

theorem wp_cancelConfirmed {s₀ : Session} (h : GuardedOnce alone (.booking r) r row s₀ s T)
    {trigger : String}
    {Q : Except Exc (Option InterviewEvent) → Session × Interviews → Prop}
    (herr : ∀ e s', s₀.Ended s' → Q (.error e) (s', T))
    (hok : ∀ event s₁ s', Cancelling alone r row s₀ event s₁ s' T → Q (.ok event) (s', T)) :
    wp (lifecycle alone may P) (cancelConfirmed pf parts r trigger) Q (s, T) := by
  refine wp_bind (wp_confirmedEvent (fun e _ => herr e _ ?_) fun w event hevent hT => ?_)
  · exact h.ended_of_ended (s.ended_fail h.owed)
  have hfound : alone → T.events.find? (fun e => e.ConfirmedFor r) = event := fun ha => by
    rw [← hT ha]
    exact hevent.symm
  replace h := h.look w ⟨r, event.map (·.id), w.db.events.length⟩
  cases event with
  | none =>
    refine hok _ _ _ ⟨h, ⟨rfl, h.pending, [], ?_, by simp⟩, ⟨_, rfl⟩, hfound⟩
    have hdropped := h.dropped
    simp_all
  | some e =>
    refine wp_bind (wp_cancelActiveEvent h.toCalm
      (fun _ _ he => herr _ _ (h.ended_of_ended he)) fun s₁ h₁ => ?_)
    exact hok _ _ _ ⟨h, h₁, ⟨_, rfl⟩, hfound⟩

/-! ### The effects of the critical sections -/

section Uses

open Prog

variable {E : ∀ β : Type, Effect β → Prop}

theorem uses_load (hE : Internal E) : (load r).Uses E :=
  uses_bind (uses_perform (hE _ rfl)) fun _ => uses_orRaise

variable (hE : Ordinary E)

include hE

theorem uses_cancelActiveEvent {e : InterviewEvent} {trigger : String}
    (hdelete : ∀ token id, E _ (.deleteEvent token id)) (hcancel : E _ (.stage (.cancelEvent e.id))) :
    (cancelActiveEvent pf parts e trigger).Uses E := by
  have hgone : (deleteFromCalendar pf parts e).Uses E := by
    refine uses_tryCatch ?_ fun e => ?_
    · refine uses_bind (Booking.uses_organiserConnection hE) fun _ => ?_
      exact uses_bind uses_orRaise fun _ => Calendar.uses_deleteEvent (hdelete _ _)
    · split
      · exact uses_pure
      · exact uses_throw
  unfold cancelActiveEvent
  split
  · exact uses_perform hcancel
  · refine uses_bind hgone fun deleted => uses_bind (uses_perform hcancel) fun _ => ?_
    split
    · exact uses_pure
    · exact Booking.uses_createReconciliationTask hE.internal

theorem uses_cancelConfirmed {trigger : String}
    (hdelete : ∀ token id, E _ (.deleteEvent token id)) (hcancel : ∀ id, E _ (.stage (.cancelEvent id))) :
    (cancelConfirmed pf parts r trigger).Uses E := by
  refine uses_bind (uses_perform (hE _ rfl)) fun event => ?_
  cases event with
  | none => exact uses_pure
  | some e => exact uses_bind (uses_cancelActiveEvent hE hdelete (hcancel _)) fun _ => uses_pure

theorem uses_transitionLocked {reason : Option (Text 1000)} {allowed : RequestStatus → Bool}
    {refused : Exc} {trigger action : String} (hdelete : ∀ token id, E _ (.deleteEvent token id))
    (hcancel : ∀ id, E _ (.stage (.cancelEvent id))) (hst : E _ (.stage (.setStatus r st))) :
    (transitionLocked pf actor r parts reason allowed refused trigger st action).Uses E := by
  refine uses_bind (uses_load hE.internal) fun request => uses_bind uses_raiseIf fun _ => ?_
  refine uses_bind (uses_cancelConfirmed hE hdelete hcancel) fun event =>
    uses_bind (uses_perform hst) fun _ => ?_
  refine uses_bind (Booking.uses_recordAudit hE.internal) fun _ => ?_
  exact uses_bind (uses_perform (hE _ rfl)) fun _ => uses_pure

theorem uses_declineLocked {reason : Option (Text 1000)}
    (hdelete : ∀ token id, E _ (.deleteEvent token id)) (hcancel : ∀ id, E _ (.stage (.cancelEvent id)))
    (hst : ∀ st, st = .rescheduling ∨ st = .readyForScheduling → E _ (.stage (.setStatus r st))) :
    (declineLocked pf actor r parts reason).Uses E := by
  refine uses_bind (uses_load hE.internal) fun request => uses_bind (uses_perform (hE _ rfl)) fun _ => ?_
  split
  · refine uses_bind (uses_cancelConfirmed hE hdelete hcancel) fun event => ?_
    refine uses_bind (uses_perform (hst _ (.inl rfl))) fun _ => ?_
    refine uses_bind (Booking.uses_recordAudit hE.internal) fun _ => ?_
    exact uses_bind (uses_perform (hE _ rfl)) fun _ => uses_pure
  · refine uses_bind (uses_perform (hst _ (.inr rfl))) fun _ => ?_
    refine uses_bind (Booking.uses_recordAudit hE.internal) fun _ => ?_
    exact uses_bind (uses_perform (hE _ rfl)) fun _ => uses_pure

end Uses

/-! ### The critical section -/

section Release

variable {s₀ s₁ : Session} {event : Option InterviewEvent}

theorem Cancelling.stage (h : Cancelling alone r row s₀ event s₁ s T) (hne : row.status ≠ st) :
    s.stage (.setStatus r st) = { s.modifyCopy r (fun row => { row with status := st }) with
      pending := cancelWrites event ++ [.setStatus r st] } := by
  have hcopy : s.copies r = some row := by rw [h.releasing.copies]; exact h.guarded.copy
  rw [Session.stage_setStatus hcopy hne, h.releasing.pending]

theorem Releases.ne {before after : RequestStatus} (h : Releases before after) : before ≠ after := by
  rcases h with ⟨rfl, rfl⟩ | ⟨h, -, rfl⟩
  · simp
  · exact h

/-- **The release of a request may be committed.** -/
theorem transacts_release (hmay : may r st) (h : Cancelling alone r row s₀ event s₁ s T)
    (hrel : Releases row.status st) : Transacts alone may P (s.stage (.setStatus r st)) T := by
  obtain ⟨hg, ⟨-, -, ids, htrace, hids⟩, ⟨n, hlooked⟩, hfound⟩ := id h
  rw [h.stage (Releases.ne hrel)]
  refine ⟨fun ha _ => .release (hg.truth ha) hrel (hfound ha), fun _ => ?_, ?_, fun ha id hid => ?_⟩
  · have hpending : cancelWrites event = cancelLooked (event.map (·.id)) := by
      cases event <;> rfl
    have hlook : s.trace.looked = some ⟨r, event.map (·.id), n⟩ := by rw [htrace]; exact hlooked
    refine .release hmay (congrArg (· ++ _) hpending) hlook hrel ?_ ?_ ?_
    · change ∃ n, s.trace.reads r = _
      rw [htrace]
      exact hg.read
    · change ∃ cr, s.trace.critical = _ ∧ _
      rw [htrace]
      exact hg.decided
    · change ∃ cr : Critical, s.trace.critical = _ ∧ _ ∧ cr.loaded = s.trace.reads _
      rw [htrace]
      exact hg.kept ‹_›
  · intro e he
    cases event <;> simp [cancelWrites] at he
  · have hid : id ∈ s.trace.dropped := hid
    rw [htrace] at hid
    obtain ⟨e, rfl, hcal, hprovider⟩ := hids id hid
    have hc := List.find?_some (hfound ha)
    exact ⟨e, List.mem_of_find?_eq_some (hfound ha), hcal, (of_decide_eq_true hc).2, hprovider,
      by simp [cancelWrites]⟩

/-- What the session holds after the release was committed. -/
structure Released (alone : Prop) (r : Id) (row : InterviewRequest) (st : RequestStatus)
    (s : Session) (T : Interviews) : Prop extends s.Calm where
  copy : s.copies r = some { row with status := st }
  read : s.LastRead r row.status
  truth : alone → T.requests r = some { row with status := st }
  journal : s.trace.journal ≠ []

theorem Released.same (h : Released alone r row st s T) (hs : s.Same s') :
    Released alone r row st s' T where
  toCalm := hs.calm h.toCalm
  copy := by rw [hs.copies]; exact h.copy
  read := by rw [Session.LastRead, hs.trace]; exact h.read
  truth := h.truth
  journal := by rw [hs.trace]; exact h.journal

theorem Released.leave (h : Released alone r row st s T) : Released alone r row st s.leave T :=
  ⟨h.toCalm.leave, h.copy, h.read, h.truth, h.journal⟩

theorem released_committed (h : Cancelling alone r row s₀ event s₁ s T)
    (hrel : Releases row.status st) (hs : (s.stage (.setStatus r st)).Same s') :
    Released alone r row st s'.committed
      (Write.force (s.stage (.setStatus r st)).pending T) := by
  obtain ⟨hg, ⟨hcopies, hp, ids, htrace, -⟩, -, -⟩ := id h
  rw [h.stage (Releases.ne hrel)] at hs ⊢
  refine ⟨Session.calm_committed ?_, ?_, ?_, fun ha => ?_, fun hnil => ?_⟩
  · rw [hs.trace]
    change s.trace.owed = []
    rw [htrace]
    exact hg.owed
  · change s'.copies r = _
    rw [hs.copies]
    simp [Session.modifyCopy, hcopies, hg.copy]
  · change ∃ n, s'.trace.reads r = _
    rw [hs.trace]
    change ∃ n, s.trace.reads r = _
    rw [htrace]
    exact hg.read
  · have htruth := hg.truth ha
    cases event <;> simp [cancelWrites, Write.force, Write.apply, htruth]
  · have hpending := (List.append_eq_nil_iff.mp hnil).2
    rw [hs.pending] at hpending
    simp at hpending

/-- From the lookup of the event to the commit. -/
theorem wp_release (hmay : may r st) (h : GuardedOnce alone (.booking r) r row s₀ s T)
    (hrel : Releases row.status st) {trigger action : String} {metadata : List (String × String)}
    {f : Option InterviewEvent → α} {Q : Except Exc α → Session × Interviews → Prop}
    (herr : ∀ e s', s₀.Ended s' → Q (.error e) (s', T))
    (hok : ∀ event s' T', Released alone r row st s' T' → Q (.ok (f event)) (s', T')) :
    wp (lifecycle alone may P) (do
      let event ← cancelConfirmed pf parts r trigger
      dbAdd (.setStatus r st)
      recordAudit actor action r metadata
      dbCommit
      pure (f event)) Q (s, T) := by
  refine wp_bind (wp_cancelConfirmed h herr fun event s₁ s₂ h₂ => ?_)
  refine wp_bind (wp_dbAdd (wp_recordAudit_commit (transacts_release hmay h₂ hrel) ?_ ?_))
  · intro e s₃ h₃
    have htrace : s₃.trace = s₂.trace := by
      rw [h₃.trace, h₂.stage (Releases.ne hrel)]
      rfl
    obtain ⟨ids, hids, -⟩ := h₂.releasing.trace
    refine herr e _ ⟨(s₃.ended_fail ?_).toClosed, ?_⟩
    · rw [htrace, hids]
      exact h₂.guarded.owed
    · change s₃.trace.journal = _
      rw [htrace, hids]
      exact h₂.guarded.journal
  · exact fun s₃ h₃ => hok event _ _ (released_committed h₂ hrel h₃)

end Release

/-- The instance that the session holds is what the critical section decides on. -/
theorem guarded_of_holds (h : Holds alone r row s T) {key : LockKey} {token : Option Id}
    (hcrit : s.Inside key token) (hkept : s.Kept key) :
    GuardedOnce alone key r row s { s with trace := s.trace.decide row.status } T where
  toHolds := ⟨h.toCalm.decide _, h.copy, h.read, h.truth⟩
  decided := Session.decided_decide hcrit row.status
  journal := rfl
  found := rfl
  ranked := rfl
  kept _ := hkept.decide row.status

theorem Holds.enter (h : Holds alone r row s T) (w : World) (key : LockKey) (token : Option Id) :
    Holds alone r row (s.enter w key token) T :=
  ⟨h.toCalm.enter w key token, h.copy, h.read, h.truth⟩

/-- How a critical section ends: with the release committed, or without a write. -/
def Transitions (alone : Prop) (r : Id) (row : InterviewRequest) (st : RequestStatus) :
    Except Exc α → Session × Interviews → Prop
  | .ok _, v => Released alone r row st v.1 v.2
  | .error _, v => v.1.Closed

theorem wp_transitionLocked (hmay : may r st) (h : Holds alone r row s T) {token : Option Id}
    (hcrit : s.Inside (.booking r) token) (hkept : s.Kept (.booking r))
    {allowed : RequestStatus → Bool} (hallowed : allowed row.status = true → Releases row.status st)
    {refused : Exc} {reason : Option (Text 1000)} {trigger action : String} :
    wp (lifecycle alone may P)
      (transitionLocked pf actor r parts reason allowed refused trigger st action)
      (Transitions alone r row st) (s, T) := by
  have hg := guarded_of_holds h hcrit hkept
  refine wp_bind (wp_bind (wp_dbGet_hit h.copy ?_))
  refine wp_bind (wp_raiseIf (fun _ => hg.ended.toClosed) fun hst => ?_)
  exact wp_release hmay hg (hallowed (by simpa using hst)) (fun _ _ he => he.toClosed)
    fun _ _ _ h => h

/-- The critical section with its lock. -/
theorem wp_transition (hmay : may r st) (h : Holds alone r row s T)
    {allowed : RequestStatus → Bool}
    (hallowed : allowed row.status = true → Releases row.status st) {refused : Exc}
    {reason : Option (Text 1000)} {trigger action : String} :
    wp (lifecycle alone may P) (redisLock (.booking r) 10
      (transitionLocked pf actor r parts reason allowed refused trigger st action))
      (Transitions alone r row st) (s, T) := by
  refine wp_redisLock (uses_transitionLocked ordinary_lockless (fun _ _ => trivial)
    (fun _ => trivial) trivial) h.toCalm.closed fun w token _ => ?_
  refine wp_mono (wp_transitionLocked hmay (Holds.enter h w _ token)
    (s.inside_enter w _ token) (s.kept_enter w _ token) hallowed) ?_
  rintro (e | event) v hv
  · exact ⟨hv, Session.Closed.leave hv⟩
  · exact ⟨hv, Released.leave hv⟩

/-! ### After the commit -/

/-- What a notification leaves: the session as it was, or one that answers nothing more. -/
def Notified (s : Session) (T : Interviews) : Except Exc Unit → Session × Interviews → Prop
  | .ok _, v => (s.Same v.1 ∨ s.Broken v.1) ∧ v.2 = T
  | .error _, v => v.1.Closed

theorem notified_notify (hs : s.Calm) {event : Option InterviewEvent}
    (hj : event ≠ none → s.trace.journal ≠ []) {kind : NotificationType}
    {reason : Option (Text 1000)} :
    wp (lifecycle alone may P) (notify pf event kind parts reason) (Notified s T) (s, T) := by
  cases event with
  | none => exact ⟨.inl (.refl s), rfl⟩
  | some event =>
    refine wp_bind (wp_bind (wp_orRaise (fun _ => hs.closed) fun candidate _ => ?_))
    exact Notifications.asked_logFailure hs (Notifications.asked_sendLifecycleNotification hs
      (hj (by simp))) (fun _ h => ⟨h, rfl⟩) fun _ h => h.toClosed

/-- The way back to scheduling may be committed. -/
theorem commits_resume (hmay : may r .readyForScheduling)
    (h : Released alone r row .rescheduling s T) (hrow : row.status = .booked) :
    Commits alone may P (s.stage (.setStatus r .readyForScheduling)) T := by
  rw [Session.stage_setStatus h.copy (by simp), h.pending, List.nil_append]
  exact
    { legal := fun ha _ => .resume (h.truth ha) rfl
      disciplined := fun _ => .resume hmay rfl (hrow ▸ h.read)
      hosted := by simp
      dropped := by simp [Session.modifyCopy, h.dropped]
      audited := fun hnil => absurd hnil h.journal }

/-- The statuses that a re-recommendation may set. -/
structure MayRetrigger (may : May) (r : Id) : Prop where
  ready : may r .readyForScheduling
  recommended : may r .recommended
  failed : may r .failed

theorem closes_retrigger (hmay : MayRetrigger may r) (h : Released alone r row .rescheduling s T)
    (hrow : row.status = .booked) :
    wp (lifecycle alone may P) (retriggerRecommendations pf actor r) Closes (s, T) := by
  refine wp_bind (wp_dbGet_hit h.copy ?_)
  have h₁ : Released alone r row .rescheduling
      { s with trace := s.trace.decide .rescheduling } T :=
    ⟨h.toCalm.decide _, h.copy, h.read, h.truth, h.journal⟩
  have howed : ((({ s with trace := s.trace.decide .rescheduling } : Session).stage
      (.setStatus r .readyForScheduling)).trace.owed) = [] := by
    rw [Session.stage_setStatus h₁.copy (by simp)]
    exact h₁.owed
  refine wp_bind (wp_dbAdd (wp_bind (wp_dbCommit (commits_resume hmay.ready h₁ hrow) ?_ ?_)))
  · exact fun e b _ => (Session.broken_expired _ b howed).toClosed
  · -- the instance that the session holds is READY_FOR_SCHEDULING
    refine wp_bind_attempt (wp_mono (Scheduling.closes_generate (Session.calm_committed howed)
      (fun row' hcopy => ?_) hmay.recommended hmay.failed) ?_)
    · rw [Session.stage_setStatus h₁.copy (by simp)] at hcopy
      have hready : row' = { row with status := .readyForScheduling } := by
        simpa [Session.committed, Session.modifyCopy, h.copy] using hcopy.symm
      rw [hready]
      simp
    · exact fun _ _ hv => hv

/-- In a session that has failed nothing is committed any more. -/
theorem closes_retrigger_broken {s₀ : Session} (h : s₀.Broken s) :
    wp (lifecycle alone may P) (retriggerRecommendations pf actor r) Closes (s, T) := by
  refine wp_bind (wp_dbGet_miss (by rw [h.copies]) (fun _ _ => ?_) fun hinv => ?_)
  · exact (s.ended_fail h.owed).toClosed
  · rw [h.invalid] at hinv
    exact absurd hinv (by simp)

/-- After the release: the notice, then the way back to scheduling. -/
theorem closes_after {f : M α} (hmay : MayRetrigger may r)
    (h : Released alone r row .rescheduling s T) (hrow : row.status = .booked)
    (hf : ∀ s' T', s'.Closed → wp (lifecycle alone may P) f Closes (s', T'))
    {event : Option InterviewEvent} {kind : NotificationType} {reason : Option (Text 1000)} :
    wp (lifecycle alone may P) (do
      notify pf event kind parts reason
      retriggerRecommendations pf actor r
      f) Closes (s, T) := by
  refine wp_bind (wp_mono (notified_notify h.toCalm fun _ => h.journal) ?_)
  rintro (e | _) ⟨s₁, T₁⟩ hn
  · exact hn
  · obtain ⟨hsame | hbroken, rfl⟩ := hn
    · exact closes_then (closes_retrigger hmay (h.same hsame) hrow) fun _ => hf
    · exact closes_then (closes_retrigger_broken hbroken) fun _ => hf

/-! ### Reschedule and cancel -/

/-- The instance that `load` returns, from a session that holds none. -/
theorem wp_load (hs : s.Calm) (hcopy : s.copies r = none)
    {Q : Except Exc InterviewRequest → Session × Interviews → Prop}
    (herr : ∀ e s', s.Ended s' → Q (.error e) (s', T))
    (hok : ∀ (w : World) row s', s' = (s.touch w).load w r (some row) → Holds alone r row s' T →
      Q (.ok row) (s', T)) :
    wp (lifecycle alone may P) (load r) Q (s, T) := by
  refine wp_bind (wp_dbGet_miss hcopy (fun e _ => herr e _ (s.ended_fail hs.owed)) fun _ w hT => ?_)
  cases hrow : w.db.requests r with
  | none => exact herr _ _ ⟨(hs.load w r none).closed, rfl⟩
  | some row => exact hok w row _ rfl (holds_load hs hrow hT)

theorem closes_reschedule (hs : s.Calm) (hcopy : s.copies r = none) (hmay : MayRetrigger may r)
    (hresch : may r .rescheduling) {reason : Option (Text 1000)} :
    wp (lifecycle alone may P) (reschedule pf actor r reason) Closes (s, T) := by
  refine wp_bind (wp_load hs hcopy (fun _ _ h => h.toClosed) fun w row s₁ _ h => ?_)
  refine wp_bind (wp_raiseIf (fun _ => h.toCalm.closed) fun hst => ?_)
  replace hst : row.status = .booked := by simpa [reschedulable] using hst
  refine closes_bind h.toCalm (asked_dbSelect h.owed) fun parts s₂ h₂ => ?_
  replace h := h.same h₂
  refine wp_bind (wp_mono (wp_transition hresch h fun _ => .inl ⟨hst, rfl⟩) ?_)
  rintro (e | event) ⟨s₃, T₃⟩ h₃
  · exact h₃
  · exact closes_after hmay h₃ hst fun _ _ h => wp_pure h

theorem closes_cancel (hs : s.Calm) (hcopy : s.copies r = none) (hmay : may r .cancelled)
    {reason : Option (Text 1000)} :
    wp (lifecycle alone may P) (cancel pf actor r reason) Closes (s, T) := by
  refine wp_bind (wp_load hs hcopy (fun _ _ h => h.toClosed) fun w row s₁ _ h => ?_)
  refine wp_bind (wp_raiseIf (fun _ => h.toCalm.closed) fun hst => ?_)
  replace hst : row.status ≠ .cancelled ∧ row.status ≠ .completed := by
    simpa [cancellable, terminal] using hst
  refine closes_bind h.toCalm (asked_dbSelect h.owed) fun parts s₂ h₂ => ?_
  replace h := h.same h₂
  refine wp_bind (wp_mono (wp_transition hmay h fun _ => .inr ⟨hst.1, hst.2, rfl⟩) ?_)
  rintro (e | event) ⟨s₃, T₃⟩ h₃
  · exact h₃
  · refine closes_then (wp_mono (notified_notify h₃.toCalm fun _ => h₃.journal) ?_) fun _ _ _ h => h
    rintro (e | _) v hn
    · exact hn
    · rcases hn.1 with hsame | hbroken
      · exact (hsame.calm h₃.toCalm).closed
      · exact hbroken.toClosed

/-! ### Decline -/

/-- The way back to scheduling of a request that is not booked may be committed. -/
theorem transacts_reopen (ha : alone) (hP : WellFormed T → P T r) {s₀ : Session}
    (h : Guarded alone (.booking r) r row s₀ s T) (hrow : row.status ≠ .booked) :
    Transacts alone may P (s.stage (.setStatus r .readyForScheduling)) T := by
  by_cases hready : row.status = .readyForScheduling
  · have hnone : s.stage (.setStatus r .readyForScheduling) = s := by
      simp [Session.stage, h.copy, hready]
    rw [hnone]
    exact
      { legal := fun _ _ => by rw [h.pending]; exact .stay
        disciplined := fun _ => .quiet h.pending
        hosted := by simp [h.pending]
        dropped := by simp [h.dropped] }
  · rw [Session.stage_setStatus h.copy hready, h.pending, List.nil_append]
    exact
      { legal := fun ha hT => .reopen (h.truth ha) hrow (hP hT)
        disciplined := fun hna => absurd ha hna
        hosted := by simp
        dropped := by simp [Session.modifyCopy, h.dropped] }

/-- How the critical section of `decline` ends. -/
def Declines (alone : Prop) (r : Id) :
    Except Exc (Option InterviewEvent × RequestStatus) → Session × Interviews → Prop
  | .ok (event, st), v => v.1.Calm ∧ (st ≠ .rescheduling → event = none) ∧ (st = .rescheduling →
      ∃ row, row.status = .booked ∧ Released alone r row .rescheduling v.1 v.2)
  | .error _, v => v.1.Closed

theorem declines_declineLocked (ha : alone) (hP : WellFormed T → P T r) (hs : s.Calm)
    (hcopy : s.copies r = none) {token : Option Id} (hcrit : s.Inside (.booking r) token)
    (hresch : may r .rescheduling) {reason : Option (Text 1000)} :
    wp (lifecycle alone may P) (declineLocked pf actor r parts reason) (Declines alone r) (s, T) := by
  refine wp_bind (wp_load hs hcopy (fun _ _ h => h.toClosed) fun w row s₁ hs₁ hrow => ?_)
  have h : Guarded alone (.booking r) r row s s₁ T :=
    ⟨hrow, hs₁ ▸ Session.decided_load hcrit r row, hs₁ ▸ rfl, hs₁ ▸ rfl, hs₁ ▸ rfl⟩
  refine wp_bind (wp_dbAddSide ?_)
  have h₂ := h.same (s₁.same_side (x := .setResponse r actor.id .declined) rfl)
  split
  · next hst =>
    refine wp_release hresch ⟨h₂, fun hna => absurd ha hna⟩ (.inl ⟨hst, rfl⟩)
      (fun _ _ he => he.toClosed) ?_
    exact fun event s₃ T₃ h₃ => ⟨h₃.toCalm, fun h => absurd rfl h, fun _ => ⟨row, hst, h₃⟩⟩
  · next hst =>
    refine wp_bind (wp_dbAdd (wp_recordAudit_commit (transacts_reopen ha hP h₂ hst) ?_ ?_))
    · intro e s₃ h₃
      refine (s₃.ended_fail ?_).toClosed
      rw [h₃.trace, Session.stage_trace]
      exact h₂.owed
    · intro s₃ h₃
      refine ⟨Session.calm_committed ?_, fun _ => rfl, by simp⟩
      rw [h₃.trace, Session.stage_trace]
      exact h₂.owed

theorem Declines.leave {x : Except Exc (Option InterviewEvent × RequestStatus)}
    {v : Session × Interviews} (h : Declines alone r x v) :
    Declines alone r x (v.1.leave, v.2) := by
  cases x with
  | error e => exact Session.Closed.leave h
  | ok y =>
    refine ⟨h.1.leave, h.2.1, fun hst => ?_⟩
    obtain ⟨row, hrow, hrel⟩ := h.2.2 hst
    exact ⟨row, hrow, hrel.leave⟩

/-- The critical section of `decline` with its lock. -/
theorem declines_lock (ha : alone) (hP : WellFormed T → P T r) (hs : s.Calm)
    (hcopy : s.copies r = none) (hresch : may r .rescheduling) {reason : Option (Text 1000)} :
    wp (lifecycle alone may P) (redisLock (.booking r) 10 (declineLocked pf actor r parts reason))
      (Declines alone r) (s, T) := by
  refine wp_redisLock (uses_declineLocked ordinary_lockless (fun _ _ => trivial)
    (fun _ => trivial) fun _ _ => trivial) hs.closed fun w token _ => ?_
  refine wp_mono (declines_declineLocked ha hP (hs.enter w _ token) hcopy
    (s.inside_enter w _ token) hresch) fun x v hv => ?_
  exact ⟨hv, hv.leave⟩

/-- Who passes the check of `decline` is assigned to the request. -/
theorem assigned_of_any (hT : WellFormed T) {pick : ℕ} {userId : Id}
    (h : (inSomeOrder pick (Booking.partsOf T r)).any fun p => p.2.id = userId ∧ p.isPanelist) :
    ∃ p ∈ T.participants r, p.userId = userId ∧ p.roleInInterview = .panelist := by
  obtain ⟨p, hp, hid⟩ := List.any_eq_true.mp h
  obtain ⟨hid, hrole⟩ := of_decide_eq_true hid
  obtain ⟨q, hq, hjoin⟩ := List.mem_filterMap.mp ((inSomeOrder_perm _ _).mem_iff.mp hp)
  obtain ⟨user, huser, rfl⟩ := Option.map_eq_some_iff.mp hjoin
  exact ⟨q, hq, (hT.user_id _ _ huser).symm.trans hid, by simpa [Booking.Part.isPanelist] using hrole⟩

theorem closes_decline (ha : alone) (hs : s.Calm) (hcopy : s.copies r = none)
    (hP : WellFormed T →
      (∃ p ∈ T.participants r, p.userId = actor.id ∧ p.roleInInterview = .panelist) → P T r)
    (hmay : MayRetrigger may r) (hresch : may r .rescheduling) {reason : Option (Text 1000)} :
    wp (lifecycle alone may P) (decline pf actor r reason) Closes (s, T) := by
  refine wp_bind (wp_load hs hcopy (fun _ _ h => h.toClosed) fun w row s₁ _ h => ?_)
  refine wp_bind (wp_dbExpunge ?_)
  have hs₂ : Session.Calm { s₁ with copies := Function.update s₁.copies r none } :=
    ⟨h.pending, h.reported, h.owed, h.dropped⟩
  refine wp_bind (wp_dbSelect (fun _ _ => (Session.ended_fail _ hs₂.owed).toClosed) fun pick w₃ hT₃ => ?_)
  have hs₃ := (Session.same_touch _ w₃).calm hs₂
  refine wp_bind (wp_raiseIf (fun _ => hs₃.closed) fun hany => ?_)
  rw [hT₃ ha] at hany
  have hP₃ : WellFormed T → P T r := fun hT => hP hT (assigned_of_any hT (not_not.mp hany))
  refine wp_bind (wp_mono (declines_lock ha hP₃ hs₃ (by simp) hresch) ?_)
  rintro (e | ⟨event, resp⟩) ⟨s₄, T₄⟩ h₄
  · exact h₄
  obtain ⟨hs₄, hnone, hrel⟩ := h₄
  by_cases hresp : resp = .rescheduling
  · obtain ⟨row, hrow, hreleased⟩ := hrel hresp
    subst hresp
    exact closes_after hmay hreleased hrow fun _ _ h => wp_pure h
  · refine wp_bind (wp_mono (notified_notify hs₄ fun h => absurd (hnone hresp) h) ?_)
    rintro (e | _) v hn
    · exact hn
    · rw [if_neg hresp]
      rcases hn.1 with hsame | hbroken
      · exact (hsame.calm hs₄).closed
      · exact hbroken.toClosed

end InterviewScheduler.Interviews
