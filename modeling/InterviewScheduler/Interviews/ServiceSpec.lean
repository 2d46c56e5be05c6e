import InterviewScheduler.Availability.Service
import InterviewScheduler.Interviews.LifecycleSpec

/-! # What creation, editing, availability and outcomes do

Each of these operations commits one transaction or none. The creation of a request is proved for a
handler that runs alone. -/

namespace InterviewScheduler.Interviews

open InterviewScheduler.Engine InterviewScheduler.Core InterviewScheduler.Effects
open InterviewScheduler.Lifecycle

variable {alone : Prop} {may : May} {P : Interviews → Id → Prop} {s s' : Session} {T : Interviews}
  {pf : Platform} {actor : User} {r : Id} {row : InterviewRequest} {α : Type}

/-- The end of the transaction. -/
theorem closes_commit (ho : s.trace.owed = []) (hd : s.trace.dropped = []) {ws : List Write}
    (hpending : s.pending = ws) (hlegal : alone → Legal P T ws)
    (hdisc : ¬ alone → Disciplined may s) (hi : ∀ e, .insertEvent e ∉ ws) {action : String} {id : Id}
    {metadata : List (String × String)} {f : Unit → M α}
    (hf : ∀ s' T', s'.Calm → wp (lifecycle alone may P) (f ()) Closes (s', T')) :
    wp (lifecycle alone may P) (recordAudit actor action id metadata >>= fun _ => dbCommit >>= f)
      Closes (s, T) := by
  subst hpending
  have hC : Transacts alone may P s T :=
    { legal := fun ha _ => hlegal ha
      disciplined := hdisc
      hosted := fun e he => absurd he (hi e)
      dropped := by simp [hd] }
  refine wp_recordAudit_commit hC (fun e s' h => ?_) fun s' h => hf _ _ (Session.calm_committed ?_)
  · exact (s'.ended_fail (by rw [h.trace, ho])).toClosed
  · rw [h.trace, ho]

/-! ### Creation -/

theorem asked_getUsers (hs : s.Calm) {ids : List Id} :
    wp (lifecycle alone may P) (getUsers ids) (Asked s T) (s, T) := by
  unfold getUsers
  split
  · exact asked_pure
  · exact asked_dbSelect hs.owed

theorem asked_resolveRoles (hs : s.Calm) {candidate : Option Id} {panelists : List Id} :
    wp (lifecycle alone may P) (resolveRoles candidate panelists) (Asked s T) (s, T) := by
  refine asked_bind hs (asked_getUsers hs) fun found s₁ h₁ => ?_
  refine asked_bind h₁ asked_raiseIf fun _ s₂ h₂ => ?_
  exact asked_bind h₂ asked_raiseIf fun _ s₃ h₃ => asked_raiseIf

/-- A new request, to the end of its transaction. -/
theorem closes_create (ha : alone) (hs : s.Calm) (hstatus : row.status = .awaitingCandidateAvailability)
    (houtcome : row.outcome = none) {panelists : List Id} {action : String}
    {metadata : InterviewRequest → List (String × String)} {f : InterviewRequest → M α}
    (hf : ∀ child s' T', s'.Calm → wp (lifecycle alone may P) (f child) Closes (s', T')) :
    wp (lifecycle alone may P) (do
      let child ← create row panelists
      recordAudit actor action child.id (metadata child)
      dbCommit
      f child) Closes (s, T) := by
  refine wp_bind (wp_bind (wp_uuid4 fun id => wp_bind (wp_dbAdd (wp_bind (wp_dbFlush ?_ ?_)))))
  · exact fun _ _ => (Session.ended_fail s.expire hs.owed).toClosed
  · intro w
    set added := Write.insertRequest { row with id }
      (⟨row.candidateId, .candidate⟩ :: panelists.map (⟨·, .panelist⟩))
    have hpending : ((s.stage added).touch w).pending = [added] := by
      simp [added, Session.stage, hs.pending]
    refine closes_commit ?_ ?_ hpending (fun _ => .create hstatus houtcome)
      (fun hna => absurd ha hna) (by simp [added]) fun s' T' h => hf _ s' T' h
    · exact hs.owed
    · exact hs.dropped

theorem closes_createRequest (ha : alone) (hs : s.Calm) {data : CreateInterviewRequest} :
    wp (lifecycle alone may P) (createRequest actor data) Closes (s, T) := by
  refine closes_bind hs (asked_resolveRoles hs) fun _ s₁ h₁ => ?_
  exact closes_create ha (h₁.calm hs) rfl rfl fun _ _ _ h => wp_pure h.closed

theorem closes_createNextRound (ha : alone) (hs : s.Calm) {data : NextRoundRequest} :
    wp (lifecycle alone may P) (createNextRound actor r data) Closes (s, T) := by
  refine wp_bind (wp_bind (wp_dbGet_calm hs (fun _ _ h => h.toClosed) fun parent s₁ h₁ _ => ?_))
  refine wp_orRaise (fun _ => h₁.closed) fun parent _ => ?_
  refine closes_bind h₁ asked_raiseIf fun _ s₂ h₂ => ?_
  replace h₂ := h₂.calm h₁
  refine closes_bind h₂ (asked_getUsers h₂) fun found s₃ h₃ => ?_
  replace h₃ := h₃.calm h₂
  refine closes_bind h₃ asked_raiseIf fun _ s₄ h₄ => ?_
  replace h₄ := h₄.calm h₃
  refine closes_bind h₄ asked_raiseIf fun _ s₅ h₅ => ?_
  replace h₅ := h₅.calm h₄
  refine closes_bind h₅ asked_raiseIf fun _ s₆ h₆ => ?_
  replace h₆ := h₆.calm h₅
  refine closes_create ha h₆ rfl rfl fun child s₇ T₇ h₇ => ?_
  exact closes_bind h₇ (asked_dbSelect h₇.owed) fun _ s₈ h₈ => wp_pure (h₈.calm h₇).closed

/-! ### Editing -/

/-- A request with its participants, from a session that holds no instance. -/
theorem wp_getWithParticipants (hs : s.Calm) (hcopy : s.copies r = none)
    {Q : Except Exc (Option InterviewRequestOut) → Session × Interviews → Prop}
    (herr : ∀ e s', s'.Closed → Q (.error e) (s', T))
    (hnone : ∀ s', s'.Calm → Q (.ok none) (s', T))
    (hok : ∀ out s', Holds alone r out.request s' T → Q (.ok (some out)) (s', T)) :
    wp (lifecycle alone may P) (getWithParticipants r) Q (s, T) := by
  refine wp_bind (wp_dbGet_miss hcopy ?_ fun _ w hT => ?_)
  · exact fun e _ => herr e _ (s.ended_fail hs.owed).toClosed
  cases hrow : w.db.requests r with
  | none => exact hnone _ (hs.load w r none)
  | some row =>
    have h := holds_load hs hrow hT
    refine wp_bind (wp_dbSelect (fun e _ => ?_) fun _ w₂ _ => ?_)
    · exact herr e _ (Session.ended_fail _ h.owed).toClosed
    · exact hok ⟨row, _⟩ _ (h.same (Session.same_touch _ w₂))

/-- The answer after a commit. -/
theorem closes_getWithParticipants (hs : s.Calm) :
    wp (lifecycle alone may P) (getWithParticipants r) Closes (s, T) := by
  refine wp_bind (wp_dbGet_calm hs (fun _ _ h => h.toClosed) fun row s₁ h₁ _ => ?_)
  cases row with
  | none => exact h₁.closed
  | some row =>
    exact closes_then (closes_dbSelect h₁.closed) fun _ _ _ h => wp_pure h

/-- The session holds edits of the request only. -/
structure Editing (r : Id) (s s' : Session) : Prop where
  edits : ∀ x ∈ s'.pending, Edits r x
  trace : s'.trace = s.trace

theorem wp_replacePanelists (hs : s.Calm) {ids : List Id}
    {Q : Except Exc Unit → Session × Interviews → Prop}
    (herr : ∀ e s', s'.Closed → Q (.error e) (s', T))
    (hok : ∀ s', Editing r s s' → Q (.ok ()) (s', T)) :
    wp (lifecycle alone may P) (replacePanelists r ids) Q (s, T) := by
  refine wp_bind (wp_dbAdd ?_)
  have hstaged : Editing r s (s.stage (.replacePanelists r ids)) :=
    ⟨by simp [Session.stage, hs.pending, Edits], rfl⟩
  refine wp_bind (wp_mono (wp_forEach (I := fun v => Editing r s v.1 ∧ v.2 = T)
    (E := fun _ _ => False) (fun u _ v hv => ?_) ⟨hstaged, rfl⟩) ?_)
  · exact wp_dbAddSide ⟨⟨hv.1.edits, hv.1.trace⟩, hv.2⟩
  · rintro (e | _) ⟨s₁, T₁⟩ h
    · exact h.elim
    · obtain ⟨h, rfl⟩ := h
      refine wp_dbFlush (fun e _ => herr e _ (Session.ended_fail _ ?_).toClosed) fun w => ?_
      · rw [Session.expire_trace, h.trace]
        exact hs.owed
      · exact hok _ ⟨h.edits, h.trace⟩

theorem wp_updatePanel (hs : s.Calm) {patch : Patch (List Id)}
    {Q : Except Exc Unit → Session × Interviews → Prop}
    (herr : ∀ e s', s'.Closed → Q (.error e) (s', T))
    (hok : ∀ s', Editing r s s' → Q (.ok ()) (s', T)) :
    wp (lifecycle alone may P) (updatePanel r patch) Q (s, T) := by
  cases patch with
  | unset => exact hok s ⟨by simp [hs.pending], rfl⟩
  | null => exact herr _ s hs.closed
  | value ids =>
    refine wp_bind_asked (asked_resolveRoles hs) (fun e s' h => ?_) fun _ s₁ h₁ => ?_
    · exact herr e s' (ended_of_asked hs h).toClosed
    · exact wp_replacePanelists (h₁.calm hs) herr fun s' h =>
        hok s' ⟨h.edits, h.trace.trans h₁.trace⟩

theorem wp_updateDetails {s₀ : Session} (h : Editing r s₀ s) {data : UpdateInterviewRequest}
    {Q : Except Exc Unit → Session × Interviews → Prop}
    (hok : ∀ s', Editing r s₀ s' → Q (.ok ()) (s', T)) :
    wp (lifecycle alone may P) (updateDetails r data) Q (s, T) := by
  unfold updateDetails
  split
  · refine wp_dbAdd (hok _ ⟨fun x hx => ?_, h.trace⟩)
    rcases List.mem_append.mp hx with hx | hx
    · exact h.edits x hx
    · rw [List.mem_singleton.mp hx]
      rfl
  · exact hok s h

theorem closes_updateRequest (hs : s.Calm) (hcopy : s.copies r = none)
    {data : UpdateInterviewRequest} :
    wp (lifecycle alone may P) (updateRequest actor r data) Closes (s, T) := by
  refine wp_bind (wp_getWithParticipants hs hcopy (fun _ _ h => h) (fun _ h => ?_) fun out s₁ h => ?_)
  · exact h.closed
  refine wp_bind (wp_orRaise nofun ?_)
  rintro _ ⟨rfl⟩
  refine wp_bind (wp_raiseIf (fun _ => h.toCalm.closed) fun hst => ?_)
  replace hst : out.request.status ∈ editableStatuses := not_not.mp hst
  split
  · exact h.toCalm.closed
  refine wp_bind (wp_updatePanel h.toCalm (fun _ _ h => h) fun s₂ h₂ => ?_)
  refine wp_bind (wp_updateDetails h₂ fun s₃ h₃ => ?_)
  have hread : s₃.LastRead r out.request.status := by
    rw [Session.LastRead, h₃.trace]
    exact h.read
  refine closes_commit ?_ ?_ rfl (fun ha => .edit (h.truth ha) hst h₃.edits)
    (fun _ => .edit h₃.edits hread hst) (fun e he => ?_) ?_
  · rw [h₃.trace]
    exact h.owed
  · rw [h₃.trace]
    exact h.dropped
  · exact h₃.edits _ he
  · intro s' T' h'
    exact closes_then (closes_getWithParticipants h') fun _ _ _ h =>
      wp_orRaise (fun _ => h) fun _ _ => h

/-! ### Outcomes -/

theorem Holds.look (h : Holds alone r row s T) (w : World) (lk : Lookup) :
    Holds alone r row { s.touch w with trace := { s.trace with looked := some lk } } T :=
  ⟨⟨h.pending, h.reported, h.owed, h.dropped⟩, h.copy, h.read, h.truth⟩

theorem wp_checkGrace (h : Holds alone r row s T) {outcome : Outcome}
    {Q : Except Exc Unit → Session × Interviews → Prop}
    (herr : ∀ e s', s'.Closed → Q (.error e) (s', T))
    (hok : ∀ s', Holds alone r row s' T → Q (.ok ()) (s', T)) :
    wp (lifecycle alone may P) (checkGrace pf r outcome) Q (s, T) := by
  unfold checkGrace
  split
  · refine wp_bind (wp_confirmedEvent (fun e _ => ?_) fun w event _ _ => ?_)
    · exact herr e _ (s.ended_fail h.owed).toClosed
    replace h := Holds.look h w ⟨r, event.map (·.id), w.db.events.length⟩
    cases event with
    | none => exact hok _ h
    | some event =>
      exact wp_bind (wp_now fun t => wp_raiseIf (fun _ => herr _ _ h.toCalm.closed) fun _ => hok _ h)
  · exact hok s h

/-- The writes of an outcome, on a request that is BOOKED or COMPLETED. -/
def outcomeWrites (r : Id) (row : InterviewRequest) (outcome : Outcome) (notes : Option String) :
    List Write :=
  .setOutcome r outcome notes :: if row.status = .completed then [] else [.setStatus r .completed]

theorem stage_outcome (h : Holds alone r row s T) {outcome : Outcome} {notes : Option String} :
    ((s.stage (.setOutcome r outcome notes)).stage (.setStatus r .completed)).pending =
      outcomeWrites r row outcome notes := by
  have hcopy := h.copy
  by_cases hst : row.status = .completed <;>
    simp [Session.stage, Session.modifyCopy, hcopy, hst, h.pending, outcomeWrites]

theorem legal_outcome (hrow : T.requests r = some row)
    (hst : row.status = .booked ∨ row.status = .completed) {outcome : Outcome}
    {notes : Option String} : Legal P T (outcomeWrites r row outcome notes) := by
  unfold outcomeWrites
  rcases hst with hst | hst
  · rw [if_neg (by simp [hst])]
    exact .complete hrow hst
  · rw [if_pos hst]
    exact .recomplete hrow hst

theorem disciplined_outcome (hmay : may r .completed) {outcome : Outcome} {notes : Option String}
    (hpending : s.pending = outcomeWrites r row outcome notes) (hread : s.LastRead r row.status)
    (hst : row.status = .booked ∨ row.status = .completed) : Disciplined may s := by
  unfold outcomeWrites at hpending
  rcases hst with hst | hst
  · rw [if_neg (by simp [hst])] at hpending
    exact .complete hmay hpending (hst ▸ hread)
  · rw [if_pos hst] at hpending
    exact .recomplete hpending (hst ▸ hread)

theorem closes_recordOutcome (hs : s.Calm) (hcopy : s.copies r = none) (hmay : may r .completed)
    {outcome : Outcome} {notes : Option (Text 2000)} :
    wp (lifecycle alone may P) (recordOutcome pf actor r outcome notes) Closes (s, T) := by
  refine wp_bind (wp_load hs hcopy (fun _ _ h => h.toClosed) fun w row s₁ _ h => ?_)
  refine wp_bind (wp_raiseIf (fun _ => h.toCalm.closed) fun hst => ?_)
  replace hst : row.status = .booked ∨ row.status = .completed := by
    by_contra hnot
    exact hst (not_or.mp hnot)
  refine wp_bind (wp_checkGrace h (fun _ _ h => h) fun s₂ h₂ => ?_)
  refine wp_bind (wp_dbAdd (wp_bind (wp_dbAdd ?_)))
  have htrace : ((s₂.stage (.setOutcome r outcome (notes.map (·.val)))).stage
      (.setStatus r .completed)).trace = s₂.trace := Session.stage_trace _ _
  have hread : Session.LastRead ((s₂.stage (.setOutcome r outcome (notes.map (·.val)))).stage
      (.setStatus r .completed)) r row.status := by
    rw [Session.LastRead, htrace]
    exact h₂.read
  refine closes_commit ?_ ?_ (stage_outcome h₂) (fun ha => legal_outcome (h₂.truth ha) hst)
    (fun _ => disciplined_outcome hmay (stage_outcome h₂) hread hst) ?_ ?_
  · rw [htrace]
    exact h₂.owed
  · rw [htrace]
    exact h₂.dropped
  · simp only [outcomeWrites]
    split <;> simp
  · intro s' T' h'
    exact closes_then (closes_getWithParticipants h') fun _ _ _ h =>
      wp_orRaise (fun _ => h) fun _ _ => h

/-! ### Availability -/

theorem closes_submit (hs : s.Calm) (hcopy : s.copies r = none) (hmay : may r .readyForScheduling)
    {data : Availability.SubmitAvailabilityRequest} :
    wp (lifecycle alone may P) (Availability.submit actor r data) Closes (s, T) := by
  refine wp_bind (wp_dbGet_miss hcopy (fun _ _ => (s.ended_fail hs.owed).toClosed) fun _ w hT => ?_)
  refine wp_bind (wp_orRaise (fun hrow => ?_) fun row hrow => ?_)
  · exact (hs.load w r _).closed
  have h := holds_load hs hrow hT
  rw [hrow]
  refine wp_bind (wp_raiseIf (fun _ => h.toCalm.closed) fun _ => ?_)
  refine wp_bind (wp_raiseIf (fun _ => h.toCalm.closed) fun hst => ?_)
  replace hst : row.status = .awaitingCandidateAvailability := not_not.mp hst
  refine wp_bind (wp_bind (wp_uuid4 fun id => wp_bind (wp_transactionTime fun w₁ => ?_)))
  replace h := h.same (Session.same_touch _ w₁)
  refine wp_bind (wp_dbAdd (wp_bind (wp_dbFlush (fun _ _ => ?_) fun w₂ => ?_)))
  · exact (Session.broken_expired _ true h.owed).toClosed
  generalize ((s.touch w).load w r (some row)).touch w₁ = s₁ at h ⊢
  generalize ((s.touch w).load w r (some row)).began.getD w₁.now = t
  set added := Write.insertAvailability ⟨id, r, actor.id, data.timezone, t, data.windows⟩
  have hcopy₂ : ((s₁.stage added).touch w₂).copies r = some row := h.copy
  have hpending : (((s₁.stage added).touch w₂).stage (.setStatus r .readyForScheduling)).pending =
      [added, .setStatus r .readyForScheduling] := by
    rw [Session.stage_setStatus hcopy₂ (by simp [hst])]
    simp [added, Session.stage, h.pending]
  have htrace : (((s₁.stage added).touch w₂).stage (.setStatus r .readyForScheduling)).trace =
      s₁.trace := Session.stage_trace _ _
  have hread : Session.LastRead (((s₁.stage added).touch w₂).stage
      (.setStatus r .readyForScheduling)) r .awaitingCandidateAvailability := by
    rw [Session.LastRead, htrace, ← hst]
    exact h.read
  refine wp_bind (wp_dbAdd (closes_commit ?_ ?_ hpending (fun ha => ?_)
    (fun _ => .submit hmay hpending rfl hread) (by simp [added]) ?_))
  · rw [htrace]
    exact h.owed
  · rw [htrace]
    exact h.dropped
  · exact .submit (h.truth ha) hst rfl data.windows_ne_nil
  · exact fun s' T' h' => closes_then (closes_dbSelect h'.closed) fun _ _ _ h => wp_pure h

end InterviewScheduler.Interviews
