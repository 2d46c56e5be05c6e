import InterviewScheduler.Booking.Checks
import InterviewScheduler.Interviews.Warranting

/-! # The handlers, one by one

What `generate`, `book`, `decline`, `reschedule`, `cancel` and the others write is warranted, whatever the
other callers do meanwhile (`warranted_handle`). -/

namespace InterviewScheduler.Interviews

open InterviewScheduler.Engine InterviewScheduler.Core InterviewScheduler.Effects
open InterviewScheduler.Lifecycle (WellFormed)
open InterviewScheduler.Booking (Part Parts)

variable {pf : Platform} {T T' : Interviews} {J : Interviews → Prop} {call : Call} {actor : User}
  {r : Id} {β : Type}

/-! ### Recommendations -/

section Generate

variable (hJ : ∀ T, J T → WellFormed T)

theorem warranted_recommend (hl : Licence J call r T) {row : InterviewRequest} (hrow : Recalls T r row)
    {avail : CandidateAvailability} (havail : avail ∈ T.availability) (hr : avail.interviewRequestId = r)
    {panelists : Parts} (hpanel : ∀ p ∈ panelists, T.users p.2.id = some p.2) (hne : panelists ≠ [])
    {ref : Instant} :
    wp (knowing J (Warranted pf J call)) (Scheduling.recommend pf actor r row avail panelists ref
      (Scheduling.clipWindows ref avail.windows)) Anyway T := by
  refine wp_bind_justified (Scheduling.uses_calendarBusy justified_ordinary fun _ _ =>
    justified_of_staged rfl) fun busyByUser T₁ h₁ => ?_
  refine wp_bind_justified (Booking.uses_confirmedEventsForUsers justified_ordinary.internal)
    fun internal T₂ h₂ => ?_
  have hT : Grows T T₂ := h₁.trans h₂
  have hstatus : ∀ st, Justified (Warranted pf J call) T₂ Unit (.stage (.setStatus r st)) := fun st =>
    (hl.grows hT).justified rfl trivial
  refine wp_bind ?_
  unfold Scheduling.runEngine
  split
  · next result hresult =>
    refine wp_ite (fun _ => ?_) fun _ => ?_
    · exact wp_justified (Scheduling.uses_fail justified_ordinary.internal (hstatus _)) fun _ _ _ => trivial
    · refine wp_justified (Scheduling.uses_persistRun justified_ordinary.internal
        (fun run hrun _ hsnap hslots => (hl.grows hT).justified hrun ?_) (hstatus _)) fun _ _ _ => trivial
      subst hrun
      have hdrawn : Drawn pf T run ⟨row, avail, panelists, ref,
          Scheduling.withInternal busyByUser internal⟩ :=
        ⟨hrow, havail, hr, hpanel, hne, hsnap, result, hresult, hslots⟩
      exact ⟨_, hdrawn.grows hT⟩
  · exact wp_throw trivial
  · exact wp_throw trivial
  · exact wp_throw trivial

include hJ

theorem warranted_generateReady (hl : Licence J call r T) {row : InterviewRequest} (hrow : Recalls T r row) :
    wp (knowing J (Warranted pf J call)) (Scheduling.generateReady pf actor r row) Anyway T := by
  refine wp_bind_check fun _ => wp_bind_knows (justified_of_staged rfl) fun found T₁ h₁ _ hfound => ?_
  refine wp_bind_found fun avail havail => ?_
  have hmem : avail ∈ T₁.availability ∧ avail.interviewRequestId = r := by
    obtain ⟨n, db, rfl, hlatest⟩ := hfound
    rw [havail] at hlatest
    simpa using List.mem_filter.mp (Booking.of_latestBy hlatest.symm).1
  refine wp_bind_check fun _ => wp_bind_knows (justified_of_staged rfl) fun parts T₂ h₂ hJ₂ hparts => ?_
  have hpanel : ∀ p ∈ parts.filter Part.isPanelist, T₂.users p.2.id = some p.2 := by
    obtain ⟨n, db, rfl, rfl⟩ := hparts
    intro p hp
    have hmem := (inSomeOrder_perm n _).mem_iff.mp (List.mem_of_mem_filter hp)
    obtain ⟨q, -, hjoin⟩ := List.mem_filterMap.mp hmem
    obtain ⟨user, huser, rfl⟩ := Option.map_eq_some_iff.mp hjoin
    rw [(hJ _ hJ₂).user_id _ _ huser]
    exact huser
  refine wp_bind_check fun hne => wp_bind_knows (justified_of_staged rfl) fun ref T₃ h₃ _ _ => ?_
  have hT : Grows T T₃ := h₁.trans (h₂.trans h₃)
  refine wp_ite (fun _ => ?_) fun _ => ?_
  · exact wp_justified (Scheduling.uses_fail justified_ordinary.internal
      ((hl.grows hT).justified rfl trivial)) fun _ _ _ => trivial
  · exact warranted_recommend (hl.grows hT) (hrow.grows hT) ((h₂.trans h₃).availability _ hmem.1) hmem.2
      (fun p hp => h₃.users _ _ (hpanel p hp)) hne

theorem warranted_generate (hl : Licence J call r T) :
    wp (knowing J (Warranted pf J call)) (Scheduling.generate pf actor r) Anyway T := by
  refine wp_bind_knows (justified_of_staged rfl) fun request T₁ h₁ _ _ => wp_bind_found fun row _ => ?_
  refine wp_bind_justified (Scheduling.uses_existingRun justified_ordinary.internal) fun found T₂ h₂ => ?_
  cases found with
  | some run => trivial
  | none =>
    refine wp_tryCatch_any (wp_knowing_lock fun T₃ h₃ => ?_) fun e v => ?_
    · refine wp_bind_knows (justified_of_staged rfl) fun _ T₄ h₄ _ _ => ?_
      refine wp_bind_knows (justified_of_staged rfl) fun row T₅ h₅ _ hrow => ?_
      refine wp_bind_justified (Scheduling.uses_existingRun justified_ordinary.internal)
        fun found T₆ h₆ => ?_
      cases found with
      | some run => trivial
      | none =>
        have hT : Grows T T₅ := h₁.trans (h₂.trans (h₃.trans (h₄.trans h₅)))
        exact warranted_generateReady hJ (hl.grows (hT.trans h₆)) ((recalls_self hrow).grows h₆)
    · cases e with
      | lockNotAcquired => exact wp_justified (uses_waitForRun attends_justified) fun _ _ _ => trivial
      | _ => trivial

/-- The evaluation that follows a reschedule. -/
theorem warranted_retriggerRecommendations (hl : Licence J call r T) :
    wp (knowing J (Warranted pf J call)) (retriggerRecommendations pf actor r) Anyway T := by
  refine wp_bind_knows (justified_of_staged rfl) fun request T₁ h₁ _ _ => ?_
  cases request with
  | none => trivial
  | some row =>
    refine wp_bind_knows ((hl.grows h₁).justified rfl trivial) fun _ T₂ h₂ _ _ => ?_
    refine wp_bind_knows (justified_of_staged rfl) fun _ T₃ h₃ _ _ => ?_
    exact wp_bind_attempt (wp_mono (warranted_generate hJ (hl.grows (h₁.trans (h₂.trans h₃))))
      fun _ _ _ => trivial)

end Generate

/-! ### Bookings -/

theorem warranted_book (hl : Licence J call r T) {slotId : Id} :
    wp (knowing J (Warranted pf J call)) (Booking.book pf actor r slotId) Anyway T := by
  refine wp_bind_knows (justified_of_staged rfl) fun found T₁ h₁ _ hfound => wp_bind_found fun x hx => ?_
  obtain ⟨slot, run⟩ := x
  replace hfound : slotWithRun T₁ slotId = some (slot, run) := by
    rw [← hx]
    exact hfound.symm
  obtain ⟨hrun, hslot, -⟩ := Booking.of_slotWithRun hfound
  refine wp_bind_check fun hr => ?_
  have hr : run.interviewRequestId = r := not_not.mp hr
  have hl₁ : Licence J call r T₁ := hl.grows h₁
  have hlocked : (Booking.bookLocked pf actor r slot).Uses (Justified (Warranted pf J call) T₁) := by
    refine Booking.uses_bookLocked justified_ordinary (fun _ _ => justified_of_staged rfl)
      (fun _ _ => justified_of_staged rfl) (fun e he hstart hend => hl₁.justified he ?_)
      (hl₁.justified rfl trivial) (hl₁.justified ⟨run, hrun, hr, slot, hslot, rfl⟩ trivial)
    exact ⟨run, hrun, hr.trans he.symm, slot, hslot, hstart.symm, hend.symm⟩
  have hplain : ∀ {γ : Type} {o : Effect γ}, o.staged = none →
      (Prog.perform o : M γ).Uses (Justified (Warranted pf J call) T₁) := fun ho =>
    Prog.uses_perform (justified_of_staged ho)
  refine wp_justified (T := T₁) ?_ fun _ _ _ => trivial
  refine Prog.uses_bind (hplain rfl) fun request => Prog.uses_bind Prog.uses_orRaise fun row => ?_
  refine Prog.uses_bind (Prog.uses_bind (hplain rfl) fun _ => Prog.uses_pure) fun latest => ?_
  refine Prog.uses_bind Prog.uses_raiseIf fun _ => Prog.uses_bind Prog.uses_raiseIf fun _ => ?_
  refine Prog.uses_bind (Prog.uses_tryCatch (uses_redisLock attends_justified hlocked) fun e => ?_) ?_
  · cases e <;> exact Prog.uses_throw
  · exact fun booked => Prog.uses_bind (uses_notice attends_justified) fun _ => Prog.uses_pure

/-! ### Releases -/

section Release

variable {parts : Parts} {reason : Option (Text 1000)}

/-- The event that is cancelled is one of the request. -/
theorem wp_bind_cancelConfirmed (hl : Licence J call r T) {trigger : String}
    {f : Option InterviewEvent → M β}
    (hf : ∀ event T', Grows T T' → wp (knowing J (Warranted pf J call)) (f event) Anyway T') :
    wp (knowing J (Warranted pf J call)) (cancelConfirmed pf parts r trigger >>= f) Anyway T := by
  refine wp_bind (wp_bind (wp_knows (justified_of_staged rfl) (fun _ _ _ _ => trivial)
    fun event T₁ h₁ _ hevent => ?_))
  cases event with
  | none => exact hf none T₁ h₁
  | some e =>
    have hfound : T₁.events.find? (fun e => e.ConfirmedFor r) = some e := hevent.symm
    have he : e.ConfirmedFor r := by simpa using List.find?_some hfound
    have hmem : e ∈ T₁.events := List.mem_of_find?_eq_some hfound
    refine wp_bind (wp_justified (T := T₁) (uses_cancelActiveEvent justified_ordinary
      (fun _ _ => justified_of_staged rfl) ((hl.grows h₁).justified ⟨e, hmem, he.1, rfl⟩ trivial)) ?_)
    rintro (x | x) T₂ h₂
    · trivial
    · exact hf _ T₂ (h₁.trans h₂)

theorem warranted_transitionLocked (hl : Licence J call r T) {allowed : RequestStatus → Bool}
    {refused : Exc} {trigger action : String} {status : RequestStatus} :
    wp (knowing J (Warranted pf J call))
      (transitionLocked pf actor r parts reason allowed refused trigger status action) Anyway T := by
  refine wp_bind_load fun row T₁ h₁ _ _ => wp_bind_check fun _ => ?_
  refine wp_bind_cancelConfirmed (hl.grows h₁) fun event T₂ h₂ => ?_
  have hT : Grows T T₂ := h₁.trans h₂
  refine wp_bind_knows ((hl.grows hT).justified rfl trivial) fun _ T₃ h₃ _ _ => ?_
  refine wp_justified (T := T₃) ?_ fun _ _ _ => trivial
  refine Prog.uses_bind (Booking.uses_recordAudit justified_ordinary.internal) fun _ => ?_
  exact Prog.uses_bind (Prog.uses_perform (justified_of_staged rfl)) fun _ => Prog.uses_pure

theorem warranted_declineLocked (hl : Licence J call r T) :
    wp (knowing J (Warranted pf J call)) (declineLocked pf actor r parts reason) Anyway T := by
  have hend : ∀ {T₁ : Interviews} {st : RequestStatus} {event : Option InterviewEvent}, Grows T T₁ →
      wp (knowing J (Warranted pf J call)) (do
        dbAdd (.setStatus r st)
        recordAudit actor "INTERVIEW_DECLINED" r (reasonMetadata reason)
        dbCommit
        pure (event, st)) Anyway T₁ := by
    intro T₁ st event h₁
    refine wp_justified (T := T₁) ?_ fun _ _ _ => trivial
    refine Prog.uses_bind (Prog.uses_perform ((hl.grows h₁).justified rfl trivial)) fun _ => ?_
    refine Prog.uses_bind (Booking.uses_recordAudit justified_ordinary.internal) fun _ => ?_
    exact Prog.uses_bind (Prog.uses_perform (justified_of_staged rfl)) fun _ => Prog.uses_pure
  refine wp_bind_load fun row T₁ h₁ _ _ => wp_bind_knows (justified_of_staged rfl) fun _ T₂ h₂ _ _ => ?_
  have hT : Grows T T₂ := h₁.trans h₂
  refine wp_ite (fun _ => ?_) fun _ => hend hT
  exact wp_bind_cancelConfirmed (hl.grows hT) fun event T₃ h₃ => hend (hT.trans h₃)

theorem wp_bind_notify {event : Option InterviewEvent} {ntype : NotificationType} {f : Unit → M β}
    (hf : ∀ T', Grows T T' → wp (knowing J (Warranted pf J call)) (f ()) Anyway T') :
    wp (knowing J (Warranted pf J call)) (notify pf event ntype parts reason >>= f) Anyway T :=
  wp_bind_justified (uses_notify attends_justified) fun _ T' hT => hf T' hT

theorem warranted_cancel (hl : Licence J call r T) :
    wp (knowing J (Warranted pf J call)) (cancel pf actor r reason) Anyway T := by
  refine wp_bind_load fun row T₁ h₁ _ _ => wp_bind_check fun _ => ?_
  refine wp_bind_knows (justified_of_staged rfl) fun parts T₂ h₂ _ _ => ?_
  refine wp_bind_anyway (wp_knowing_lock fun T₃ h₃ =>
    warranted_transitionLocked (hl.grows (h₁.trans (h₂.trans h₃)))) fun event T₃ h₃ => ?_
  exact wp_bind_notify fun _ _ => trivial

variable (hJ : ∀ T, J T → WellFormed T)

include hJ

theorem warranted_reschedule (hl : Licence J call r T) :
    wp (knowing J (Warranted pf J call)) (reschedule pf actor r reason) Anyway T := by
  refine wp_bind_load fun row T₁ h₁ _ _ => wp_bind_check fun _ => ?_
  refine wp_bind_knows (justified_of_staged rfl) fun parts T₂ h₂ _ _ => ?_
  have hl₂ : Licence J call r T₂ := hl.grows (h₁.trans h₂)
  refine wp_bind_anyway (wp_knowing_lock fun T₃ h₃ => warranted_transitionLocked (hl₂.grows h₃))
    fun event T₃ h₃ => wp_bind_notify fun T₄ h₄ => ?_
  exact wp_bind_anyway (warranted_retriggerRecommendations hJ (hl₂.grows (h₃.trans h₄)))
    fun _ _ _ => trivial

theorem warranted_decline (hl : Licence J call r T) :
    wp (knowing J (Warranted pf J call)) (decline pf actor r reason) Anyway T := by
  refine wp_bind_load fun row T₁ h₁ _ _ => wp_bind_knows (justified_of_staged rfl) fun _ T₂ h₂ _ _ => ?_
  refine wp_bind_knows (justified_of_staged rfl) fun parts T₃ h₃ _ _ => wp_bind_check fun _ => ?_
  have hl₃ : Licence J call r T₃ := hl.grows (h₁.trans (h₂.trans h₃))
  refine wp_bind_anyway (wp_knowing_lock fun T₄ h₄ => warranted_declineLocked (hl₃.grows h₄))
    fun answer T₄ h₄ => wp_bind_notify fun T₅ h₅ => ?_
  refine wp_ite (fun _ => ?_) fun _ => trivial
  exact wp_bind_anyway (warranted_retriggerRecommendations hJ (hl₃.grows (h₄.trans h₅)))
    fun _ _ _ => trivial

end Release

/-! ### Requests -/

section Requests

variable {userId : Id}

theorem warranted_submit {data : Availability.SubmitAvailabilityRequest}
    (huser : T.users userId = some actor) (hrole : actor.role = .candidate) :
    wp (knowing J (Warranted pf J (.submit userId r data))) (Availability.submit actor r data) Anyway T := by
  refine wp_bind_knows (justified_of_staged rfl) fun x T₁ h₁ _ hx => wp_bind_found fun row hrow => ?_
  subst hrow
  obtain ⟨row', hrow', heq⟩ := hx
  refine wp_bind_check fun howner => ?_
  have howner : row'.candidateId = actor.id :=
    (InterviewRequest.of_origin heq).2.1.trans (not_not.mp howner).symm
  have hl : Licence J (.submit userId r data) r T₁ :=
    ⟨rfl, fun _ => ⟨actor, h₁.users _ _ huser, hrole, row', hrow', howner⟩⟩
  have hplain : ∀ {γ : Type} {o : Effect γ}, o.staged = none →
      (Prog.perform o : M γ).Uses (Justified (Warranted pf J (.submit userId r data)) T₁) := fun ho =>
    Prog.uses_perform (justified_of_staged ho)
  refine wp_justified (T := T₁) (Prog.uses_bind Prog.uses_raiseIf fun _ => ?_) fun _ _ _ => trivial
  refine Prog.uses_bind ?_ fun stored => ?_
  · refine Prog.uses_bind (hplain rfl) fun id => Prog.uses_bind (hplain rfl) fun submittedAt => ?_
    have hsubmitted : Submitted T₁ ⟨id, r, actor.id, data.timezone, submittedAt, data.windows⟩ :=
      ⟨row', hrow', howner⟩
    refine Prog.uses_bind (Prog.uses_perform (hl.justified rfl hsubmitted)) fun _ => ?_
    exact Prog.uses_bind (hplain rfl) fun _ => Prog.uses_pure
  · refine Prog.uses_bind (Prog.uses_perform (hl.justified rfl trivial)) fun _ => ?_
    refine Prog.uses_bind (Booking.uses_recordAudit justified_ordinary.internal) fun _ => ?_
    exact Prog.uses_bind (hplain rfl) fun _ => Prog.uses_bind (hplain rfl) fun _ => Prog.uses_pure

theorem warranted_recordOutcome (hl : Licence J call r T) {outcome : Outcome}
    {notes : Option (Text 2000)} :
    wp (knowing J (Warranted pf J call)) (recordOutcome pf actor r outcome notes) Anyway T := by
  have hplain : ∀ {γ : Type} {o : Effect γ}, o.staged = none →
      (Prog.perform o : M γ).Uses (Justified (Warranted pf J call) T) := fun ho =>
    Prog.uses_perform (justified_of_staged ho)
  have hgrace : (checkGrace pf r outcome).Uses (Justified (Warranted pf J call) T) := by
    unfold checkGrace
    split
    · refine Prog.uses_bind (hplain rfl) fun event => ?_
      cases event with
      | none => exact Prog.uses_pure
      | some event => exact Prog.uses_bind (hplain rfl) fun _ => Prog.uses_raiseIf
    · exact Prog.uses_pure
  refine wp_justified (T := T) ?_ fun _ _ _ => trivial
  refine Prog.uses_bind (uses_load justified_ordinary.internal) fun row => ?_
  refine Prog.uses_bind Prog.uses_raiseIf fun _ => Prog.uses_bind hgrace fun _ => ?_
  refine Prog.uses_bind (Prog.uses_perform (hl.justified rfl trivial)) fun _ => ?_
  refine Prog.uses_bind (Prog.uses_perform (hl.justified rfl trivial)) fun _ => ?_
  refine Prog.uses_bind (Booking.uses_recordAudit justified_ordinary.internal) fun _ => ?_
  refine Prog.uses_bind (hplain rfl) fun _ => ?_
  exact Prog.uses_bind (uses_getWithParticipants attends_justified) fun _ => Prog.uses_orRaise

variable (hJ : ∀ T, J T → WellFormed T)

include hJ

/-- The administrator who creates a request without a panel is its panel. -/
theorem warranted_createRequest {data : CreateInterviewRequest} (huser : T.users actor.id = some actor)
    (hrole : actor.role = .admin) (hent : Entitled T call) :
    wp (knowing J (Warranted pf J call)) (createRequest actor data) Anyway T := by
  refine wp_bind_resolveRoles hJ fun T₁ h₁ hcandidate hpanelists => ?_
  have hadmin : HasRole T₁ actor.id .admin := ⟨actor, h₁.users _ _ huser, hrole⟩
  have hpanel : Panel T₁ actor.id (if data.panelistIds = [] then [actor.id] else data.panelistIds) := by
    split
    · refine ⟨by simp, by simp, fun u hu => ?_⟩
      rw [List.mem_singleton.mp hu]
      exact .inr ⟨rfl, hadmin⟩
    · next hne => exact ⟨hne, data.panelistIds_nodup, fun u hu => .inl (hpanelists u hu)⟩
  have hinsert : ∀ row ps, Rooted T₁ row → Empanelled T₁ row ps →
      Justified (Warranted pf J call) T₁ Unit (.stage (.insertRequest row ps)) := fun row ps hrow hps =>
    justified_warranted ⟨fun _ => hent.grows h₁, .inl ⟨row, ps, rfl⟩, hrow, hps⟩
  refine wp_bind_justified (uses_create attends_justified fun id => hinsert _ _ ?_ ?_) fun row T₂ h₂ => ?_
  · exact ⟨hcandidate _ rfl, hadmin, .first rfl rfl⟩
  · exact ⟨_, rfl, hpanel⟩
  · refine wp_bind_justified (Booking.uses_recordAudit justified_ordinary.internal) fun _ T₃ h₃ => ?_
    exact wp_bind_knows (justified_of_staged rfl) fun _ _ _ _ _ => trivial

theorem warranted_updateRequest (hl : Licence J call r T) {data : UpdateInterviewRequest} :
    wp (knowing J (Warranted pf J call)) (updateRequest actor r data) Anyway T := by
  have hplain : ∀ {γ : Type} {o : Effect γ} {T₁ : Interviews}, o.staged = none →
      (Prog.perform o : M γ).Uses (Justified (Warranted pf J call) T₁) := fun ho =>
    Prog.uses_perform (justified_of_staged ho)
  refine wp_bind_justified (uses_getWithParticipants attends_justified) fun found T₁ h₁ => ?_
  refine wp_bind_found fun out _ => wp_bind_check fun _ => wp_ite (fun _ => trivial) fun _ => ?_
  have hpanel : wp (knowing J (Warranted pf J call)) (updatePanel r data.panelistIds) Anyway T₁ := by
    cases hids : data.panelistIds with
    | unset => trivial
    | null => trivial
    | value ids =>
      obtain ⟨hne, hnodup⟩ := data.panelistIds_valid ids hids
      refine wp_bind_resolveRoles hJ fun T₂ h₂ _ hpanelists => ?_
      refine wp_justified (T := T₂) ?_ fun _ _ _ => trivial
      refine Prog.uses_bind (Prog.uses_perform ((hl.grows (h₁.trans h₂)).justified rfl
        ⟨hne, hnodup, hpanelists⟩)) fun _ => ?_
      exact Prog.uses_bind (Prog.uses_forEach fun _ => hplain rfl) fun _ => hplain rfl
  refine wp_bind_anyway hpanel fun _ T₂ h₂ => ?_
  have hdetails : (updateDetails r data).Uses (Justified (Warranted pf J call) T₂) := by
    unfold updateDetails
    split
    · exact Prog.uses_perform ((hl.grows (h₁.trans h₂)).justified rfl trivial)
    · exact Prog.uses_pure
  refine wp_justified (T := T₂) ?_ fun _ _ _ => trivial
  refine Prog.uses_bind hdetails fun _ => ?_
  refine Prog.uses_bind (Booking.uses_recordAudit justified_ordinary.internal) fun _ => ?_
  refine Prog.uses_bind (hplain rfl) fun _ => ?_
  exact Prog.uses_bind (uses_getWithParticipants attends_justified) fun _ => Prog.uses_orRaise

end Requests

/-- The next round is for the candidate of the parent, who is no panelist. -/
theorem warranted_createNextRound (hJ : ∀ T, J T → Traceable pf T) {data : NextRoundRequest}
    (huser : T.users actor.id = some actor) (hrole : actor.role = .admin) (hent : Entitled T call) :
    wp (knowing J (Warranted pf J call)) (createNextRound actor r data) Anyway T := by
  refine wp_bind_load fun parent T₁ h₁ hJ₁ hparent => wp_bind_check fun _ => ?_
  obtain ⟨row, hrow, heq⟩ := hparent
  obtain ⟨-, hc, -, hn, -⟩ := InterviewRequest.of_origin heq
  refine wp_bind_getUsers (fun T h => (hJ T h).wellFormed) fun T₂ h₂ hwf => ?_
  refine wp_bind_check fun hmissing => wp_bind_check fun hwrong => wp_bind_check fun _ => ?_
  have hT : Grows T T₂ := h₁.trans h₂
  have hadmin : HasRole T₂ actor.id .admin := ⟨actor, hT.users _ _ huser, hrole⟩
  have hpanel : Panel T₂ actor.id data.panelistIds :=
    ⟨data.panelistIds_ne_nil, data.panelistIds_nodup, fun u hu => .inl (hasRole_of_wrongRole
      (hwf data.panelistIds_ne_nil) (not_not.mp hmissing) (fun _ h => h) (not_not.mp hwrong) u hu)⟩
  have hcandidate : HasRole T₂ parent.candidateId .candidate := by
    rw [← hc]
    exact ((hJ T₁ hJ₁).rooted r row hrow).candidate.grows h₂
  have hinsert : ∀ row ps, Rooted T₂ row → Empanelled T₂ row ps →
      Justified (Warranted pf J call) T₂ Unit (.stage (.insertRequest row ps)) := fun row ps hrow hps =>
    justified_warranted ⟨fun _ => hent.grows hT, .inl ⟨row, ps, rfl⟩, hrow, hps⟩
  obtain ⟨row₂, hrow₂, heq₂⟩ := h₂.requests r row hrow
  obtain ⟨-, hc₂, -, hn₂, -⟩ := InterviewRequest.of_origin heq₂
  refine wp_bind_justified (uses_create attends_justified fun id => hinsert _ _ ?_ ?_) fun row T₃ h₃ => ?_
  · exact ⟨hcandidate, hadmin, .next rfl hrow₂ (hc₂.trans hc).symm (by rw [hn₂, hn])⟩
  · exact ⟨_, rfl, hpanel⟩
  · refine wp_bind_justified (Booking.uses_recordAudit justified_ordinary.internal) fun _ T₄ h₄ => ?_
    refine wp_bind_knows (justified_of_staged rfl) fun _ _ _ _ _ => ?_
    exact wp_bind_knows (justified_of_staged rfl) fun _ _ _ _ _ => trivial

/-! ### Every handler -/

/-- A route that admits one role. -/
theorem warranted_roleRoute (hJ : ∀ T, J T → WellFormed T) {role : Role} {f : User → M β}
    {userId : Id} {S : Interviews → Write → Prop}
    (hf : ∀ user T', T'.users userId = some user → user.id = userId → user.role = role →
      wp (knowing J S) (f user) Anyway T') :
    wp (knowing J S) (getCurrentUser userId >>= fun user => requireRole user role >>= fun _ => f user)
      Anyway T :=
  wp_bind_user fun user T₁ _ hJ₁ huser => wp_bind_check fun hrole =>
    hf user T₁ huser ((hJ T₁ hJ₁).user_id _ _ huser) (not_not.mp hrole)

/-- **Every handler has a warrant for what it writes.** -/
theorem warranted_handle (hJ : ∀ T, J T → Traceable pf T) (call : Call) :
    wp (knowing J (Warranted pf J call)) (handle pf call) Anyway T := by
  have hwf : ∀ T, J T → WellFormed T := fun T h => (hJ T h).wellFormed
  have hmap : ∀ {α : Type} {p : M α} {f : α → Response} {T : Interviews},
      wp (knowing J (Warranted pf J call)) p Anyway T →
      wp (knowing J (Warranted pf J call)) (f <$> p) Anyway T := fun h =>
    wp_map (wp_mono h fun _ _ _ => trivial)
  have howner : ∀ {user : User} {T₁ T₂ : Interviews} {r : Id}, T₁.users call.caller = some user →
      Grows T₁ T₂ → call.about = some r → ((∀ T₀, J T₀ → T₀.requests r ≠ none) → Manages T₂ user r) →
      (Manages T₂ user r → call.Allows T₂ user) → Licence J call r T₂ := by
    intro user T₁ T₂ r huser hT hr hmanages hallows
    refine ⟨hr, fun hnamed => ⟨user, hT.users _ _ huser, hallows (hmanages fun T₀ h₀ => ?_)⟩⟩
    exact hnamed T₀ r h₀ hr
  cases call with
  | createRequest u data =>
    refine warranted_roleRoute hwf fun user T₁ huser hid hrole => hmap ?_
    subst hid
    have hent : Entitled T₁ (.createRequest user.id data) := ⟨user, huser, hrole⟩
    exact warranted_createRequest hwf huser hrole hent
  | updateRequest u r data =>
    refine warranted_roleRoute hwf fun user T₁ huser _ hrole => hmap ?_
    have hl : Licence J (.updateRequest u r data) r T₁ := ⟨rfl, fun _ => ⟨user, huser, hrole⟩⟩
    exact warranted_updateRequest hwf hl
  | submit u r data =>
    refine warranted_roleRoute hwf fun user T₁ huser _ hrole => ?_
    refine wp_bind_justified ?_ fun _ T₂ h₂ => hmap (warranted_submit (h₂.users _ _ huser) hrole)
    refine Prog.uses_bind Prog.uses_raiseIf fun _ => ?_
    refine Prog.uses_bind (Prog.uses_forEach fun window => ?_) fun _ => Prog.uses_pure
    refine Prog.uses_bind (Prog.uses_perform (justified_of_staged rfl)) fun t => ?_
    split
    · exact Prog.uses_pure
    · exact Prog.uses_throw
  | generate u r =>
    refine wp_bind_user fun user T₁ _ _ huser => wp_bind_owner fun T₂ h₂ hmanages => hmap ?_
    exact warranted_generate hwf (howner huser h₂ rfl hmanages id)
  | book u r slotId =>
    refine wp_bind_user fun user T₁ _ _ huser => wp_bind_owner fun T₂ h₂ hmanages => hmap ?_
    exact warranted_book (howner huser h₂ rfl hmanages id)
  | decline u r reason =>
    refine warranted_roleRoute hwf fun user T₁ huser _ hrole => hmap ?_
    exact warranted_decline hwf ⟨rfl, fun _ => ⟨user, huser, hrole⟩⟩
  | reschedule u r reason =>
    refine wp_bind_user fun user T₁ _ _ huser => wp_bind_owner fun T₂ h₂ hmanages => hmap ?_
    exact warranted_reschedule hwf (howner huser h₂ rfl hmanages id)
  | cancel u r reason =>
    refine warranted_roleRoute hwf fun user T₁ huser _ hrole => hmap ?_
    exact warranted_cancel ⟨rfl, fun _ => ⟨user, huser, hrole⟩⟩
  | recordOutcome u r outcome notes =>
    refine warranted_roleRoute hwf fun user T₁ huser _ hrole => hmap ?_
    have hl : Licence J (.recordOutcome u r outcome notes) r T₁ := ⟨rfl, fun _ => ⟨user, huser, hrole⟩⟩
    exact warranted_recordOutcome hl
  | createNextRound u r data =>
    refine warranted_roleRoute hwf fun user T₁ huser hid hrole => hmap ?_
    subst hid
    have hent : Entitled T₁ (.createNextRound user.id r data) := ⟨user, huser, hrole⟩
    exact warranted_createNextRound hJ huser hrole hent

end InterviewScheduler.Interviews
