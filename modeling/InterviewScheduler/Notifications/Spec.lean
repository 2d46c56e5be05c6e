import InterviewScheduler.Lifecycle.Discipline
import InterviewScheduler.Notifications.Service

/-! # What a notification leaves

A notification is stored and committed on its own. From a calm session the commit holds no write to the
interview tables. -/

namespace InterviewScheduler.Notifications

open InterviewScheduler.Core InterviewScheduler.Effects InterviewScheduler.Lifecycle

variable {alone : Prop} {may : May} {P : Interviews → Id → Prop} {s : Session} {T : Interviews}
  {pf : Platform}

theorem unchanged_deliver {msg : EmailMessage} :
    wp (lifecycle alone may P) (deliver msg) (Unchanged s T) (s, T) := by
  have hsame : s.Same s ∧ T = T := ⟨.refl s, rfl⟩
  refine wp_tryCatch (wp_bind (wp_sendMail fun r => ?_))
  cases r with
  | ok => exact hsame
  | error e => exact hsame

theorem asked_dispatch (hs : s.Calm) (hj : s.trace.journal ≠ []) {eventId : Id} {kind : NotificationType}
    {msg : EmailMessage} :
    wp (lifecycle alone may P) (dispatch pf eventId kind msg) (Asked s T) (s, T) := by
  have hstore : ∀ status s', s'.Calm → s'.trace.journal ≠ [] → wp (lifecycle alone may P) (do
      dbAddSide (.insertNotification
        { interviewEventId := eventId, channel := "EMAIL", notificationType := kind,
          recipient := msg.recipient, status })
      dbFlush
      dbCommit
      pure status) (Asked s' T) (s', T) := fun status s' hs hj => by
    refine asked_bind_same (asked_dbAddSide rfl) fun _ s₁ h₁ => ?_
    refine asked_bind_same (asked_dbFlush (h₁.calm hs).owed) fun _ s₂ h₂ => ?_
    have h₀₂ := h₁.trans h₂
    refine asked_bind (h₀₂.calm hs) (asked_dbCommit (h₀₂.calm hs) fun h => ?_) fun _ _ _ => asked_pure
    rw [h₀₂.trace] at h
    exact absurd h hj
  unfold dispatch
  split
  · refine asked_bind_same (wp_mono unchanged_deliver fun _ _ h => h.asked) fun st s₁ h₁ => ?_
    exact hstore st s₁ (h₁.calm hs) (by rw [h₁.trace]; exact hj)
  · exact hstore _ s hs hj

theorem asked_sendBookingConfirmation (hs : s.Calm) (hj : s.trace.journal ≠ []) {event : InterviewEvent}
    {candidate : String} {panelists : List String} {roundType : RoundType} {title company : Option String} :
    wp (lifecycle alone may P)
      (sendBookingConfirmation pf event candidate panelists roundType title company) (Asked s T)
      (s, T) := asked_dispatch hs hj

theorem asked_sendLifecycleNotification (hs : s.Calm) (hj : s.trace.journal ≠ []) {event : InterviewEvent}
    {kind : NotificationType} {candidate : String} {panelists : List String}
    {reason : Option String} :
    wp (lifecycle alone may P)
      (sendLifecycleNotification pf event kind candidate panelists reason) (Asked s T) (s, T) :=
  asked_dispatch hs hj

/-! ### The log of a failure -/

/-- A failed notification is logged with the id of its event, which an expired row does not tell. -/
theorem asked_logFailure {send : M NotificationStatus} {Q : Except Exc Unit → Session × Interviews → Prop}
    (hs : s.Calm) (h : wp (lifecycle alone may P) send (Asked s T) (s, T))
    (hok : ∀ s', s.Same s' ∨ s.Broken s' → Q (.ok ()) (s', T))
    (herr : ∀ s', s.Ended s' → Q (.error .pendingRollbackError) (s', T)) :
    wp (lifecycle alone may P) (logFailure send) Q (s, T) := by
  refine wp_tryCatch (wp_bind (wp_mono h ?_))
  rintro (e | status) ⟨s', T'⟩ ⟨h', rfl⟩
  · exact wp_readAttribute (fun _ => herr s' (ended_of_asked hs h'))
      fun _ => hok s' (h'.imp_right (·.2))
  · exact hok s' (.inl h')

/-! ### Notifications that are stored -/

/-- The row of a notification is waiting to be stored. -/
def Notifies (s : Session) : Prop := ∃ x ∈ s.side, x.isNotification

/-- No flush of a notification fails. -/
def Stores (β : Type) (o : Effect β) (a : Answer) (s : Session) : Prop :=
  o.isFlush → Notifies s → a ≠ .fail

instance (s : Session) : Decidable (Notifies s) := inferInstanceAs (Decidable (∃ x ∈ s.side, _))

instance {β : Type} (o : Effect β) (a : Answer) (s : Session) : Decidable (Stores β o a s) :=
  inferInstanceAs (Decidable (_ → _ → _))

/-- The session answers, and the rows of its last commit can be read. -/
structure Fresh (s : Session) : Prop where
  valid : s.invalid = false
  expired : s.expired = false

theorem Fresh.leave (h : Fresh s) : Fresh s.leave := ⟨h.valid, h.expired⟩

/-- The logic of the ten operations, where no flush of a notification fails. -/
abbrev storing (alone : Prop) (may : May) (P : Interviews → Id → Prop) :
    Logic Effect Exc (Session × Interviews) :=
  (lifecycle alone may P).restrict (Admitted Stores)

/-- **A notification that can be stored expires nothing.** -/
theorem storing_dispatch (hs : s.Calm) (hf : Fresh s) (hj : s.trace.journal ≠ []) {eventId : Id}
    {kind : NotificationType} {msg : EmailMessage} :
    wp (storing alone may P) (dispatch pf eventId kind msg)
      (fun _ v => s.Ended v.1 ∧ v.1.expired = false) (s, T) := by
  have hstore : ∀ status, wp (storing alone may P) (do
      dbAddSide (.insertNotification
        { interviewEventId := eventId, channel := "EMAIL", notificationType := kind,
          recipient := msg.recipient, status })
      dbFlush
      dbCommit
      pure status) (fun _ v => s.Ended v.1 ∧ v.1.expired = false) (s, T) := by
    intro status
    refine wp_bind (wp_restrict (wp_dbAddSide ?_))
    set s₁ : Session := { s with side := s.side ++ [_] }
    have hsame : s.Same s₁ := s.same_side rfl
    have hnotifies : Notifies s₁ := ⟨_, List.mem_append_right _ (List.mem_singleton.mpr rfl), rfl⟩
    refine wp_bind (wp_admitted trivial fun a w₁ r s₂ w₂ hA hex => ?_)
    rcases flush_cases (hsame.calm hs).pending hf.valid hex with ⟨hfail, -⟩ | ⟨rfl, rfl, -⟩
    · exact absurd hfail (hA rfl hnotifies)
    have hsame₂ := hsame.trans (s₁.same_touch w₁)
    have hcalm := hsame₂.calm hs
    refine wp_bind (wp_admitted (commits_quiet hs.pending hs.dropped fun h => absurd h hj)
      fun a w₂ r s₃ w₃ _ hex => ?_)
    rcases commit_cases (s := s₁.touch w₁) hcalm.pending hf.valid hex with
      ⟨-, ⟨e, rfl⟩, rfl, -⟩ | ⟨rfl, rfl, -⟩
    · exact ⟨(Session.ended_fail _ hcalm.owed).of_same hsame₂, hf.expired⟩
    · exact ⟨(hsame₂.trans hcalm.committed).ended hs, rfl⟩
  unfold dispatch
  split
  · refine wp_bind (wp_restrict (wp_tryCatch (wp_bind (wp_sendMail fun r => ?_))))
    cases r with
    | ok => exact hstore _
    | error e => exact hstore _
  · exact hstore _

/-- Its failure, if there is one, can be logged. -/
theorem storing_logFailure {send : M NotificationStatus}
    (h : wp (storing alone may P) send (fun _ v => s.Ended v.1 ∧ v.1.expired = false) (s, T)) :
    wp (storing alone may P) (logFailure send) (fun x v => x = .ok () ∧ s.Ended v.1) (s, T) := by
  refine wp_tryCatch (wp_bind (wp_mono h ?_))
  rintro (e | status) ⟨s', T'⟩ ⟨hended, hfresh⟩
  · refine wp_restrict (wp_readAttribute (fun hexpired => ?_) fun _ => ⟨rfl, hended⟩)
    exact absurd (hfresh.symm.trans hexpired) Bool.false_ne_true
  · exact ⟨rfl, hended⟩

end InterviewScheduler.Notifications
