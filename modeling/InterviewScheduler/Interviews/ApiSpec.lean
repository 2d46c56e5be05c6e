import InterviewScheduler.Interviews.ServiceSpec
import InterviewScheduler.Interviews.Api

/-! # What the ten operations do

Every handler meets the obligations of the lifecycle at each commit, and leaves the calendar accounted
for. `Call.Sets` lists the statuses that a call may set. -/

namespace InterviewScheduler.Interviews

open InterviewScheduler.Engine InterviewScheduler.Core InterviewScheduler.Effects
open InterviewScheduler.Lifecycle

variable {alone : Prop} {may : May} {P : Interviews → Id → Prop} {s s' : Session} {T : Interviews}
  {pf : Platform} {r : Id} {α β : Type}

/-- The statuses that a call may set. -/
def Call.Sets : Call → May
  | .createRequest _ _ => fun _ _ => False
  | .updateRequest _ _ _ => fun _ _ => False
  | .submit _ r _ => fun r' st => r' = r ∧ st = .readyForScheduling
  | .generate _ r => fun r' st => r' = r ∧ (st = .recommended ∨ st = .failed)
  | .book _ r _ => fun r' st => r' = r ∧ st = .booked
  | .decline _ r _ => fun r' st => r' = r ∧
      (st = .rescheduling ∨ st = .readyForScheduling ∨ st = .recommended ∨ st = .failed)
  | .reschedule _ r _ => fun r' st => r' = r ∧
      (st = .rescheduling ∨ st = .readyForScheduling ∨ st = .recommended ∨ st = .failed)
  | .cancel _ r _ => fun r' st => r' = r ∧ st = .cancelled
  | .recordOutcome _ r _ _ => fun r' st => r' = r ∧ st = .completed
  | .createNextRound _ _ _ => fun _ _ => False

/-- The calls that guard every status they write by what they have read of the request. -/
inductive Call.Guarded : Call → Id → Prop
  | updateRequest (userId r : Id) (data : UpdateInterviewRequest) :
      Guarded (.updateRequest userId r data) r
  | submit (userId r : Id) (data : Availability.SubmitAvailabilityRequest) :
      Guarded (.submit userId r data) r
  | generate (userId r : Id) : Guarded (.generate userId r) r
  | book (userId r slotId : Id) : Guarded (.book userId r slotId) r
  | reschedule (userId r : Id) (reason : Option (Text 1000)) : Guarded (.reschedule userId r reason) r
  | cancel (userId r : Id) (reason : Option (Text 1000)) : Guarded (.cancel userId r reason) r
  | recordOutcome (userId r : Id) (outcome : Outcome) (notes : Option (Text 2000)) :
      Guarded (.recordOutcome userId r outcome notes) r

/-! ### Who may call -/

theorem wp_getCurrentUser (hs : s.Calm) {userId : Id}
    {Q : Except Exc User → Session × Interviews → Prop}
    (herr : ∀ e s', s.Ended s' → Q (.error e) (s', T))
    (hok : ∀ user s', s.Same s' → (alone → T.users userId = some user) → Q (.ok user) (s', T)) :
    wp (lifecycle alone may P) (getCurrentUser userId) Q (s, T) := by
  refine wp_bind (wp_dbSelect (fun e _ => herr e _ (s.ended_fail hs.owed)) fun _ w hT => ?_)
  refine wp_orRaise (fun _ => herr _ _ ((s.same_touch w).ended hs)) fun user huser => ?_
  exact hok user _ (s.same_touch w) fun ha => hT ha ▸ huser

/-- The session of a call that has not loaded the request yet. -/
structure Fresh (r : Id) (s₀ s : Session) : Prop extends s.Calm where
  copies : s.copies r = none
  journal : s.trace.journal = s₀.trace.journal

theorem Fresh.same {s₀ : Session} (h : Fresh r s₀ s) (hs : s.Same s') : Fresh r s₀ s' where
  toCalm := hs.calm h.toCalm
  copies := by rw [hs.copies]; exact h.copies
  journal := by rw [hs.trace]; exact h.journal

theorem Fresh.ended {s₀ : Session} (h : Fresh r s₀ s) : s₀.Ended s := ⟨h.toCalm.closed, h.journal⟩

theorem fresh_empty : Fresh r {} {} := ⟨⟨rfl, rfl, rfl, rfl⟩, rfl, rfl⟩

/-- The check of the caller leaves no instance of the request behind. -/
theorem wp_adminOrOwningCandidate {s₀ : Session} (h : Fresh r s₀ s) {user : User}
    {Q : Except Exc Unit → Session × Interviews → Prop}
    (herr : ∀ e s', s₀.Ended s' → Q (.error e) (s', T))
    (hok : ∀ s', Fresh r s₀ s' → Q (.ok ()) (s', T)) :
    wp (lifecycle alone may P) (adminOrOwningCandidate user r) Q (s, T) := by
  unfold adminOrOwningCandidate
  split
  · exact hok s h
  · refine wp_bind (wp_dbGet_calm h.toCalm (fun e s' he => ?_) fun request s₁ h₁ hj => ?_)
    · exact herr e s' ⟨he.toClosed, he.journal.trans h.journal⟩
    · have h₂ : Fresh r s₀ { s₁ with copies := Function.update s₁.copies r none } :=
        ⟨⟨h₁.pending, h₁.reported, h₁.owed, h₁.dropped⟩, by simp, hj.journal.trans h.journal⟩
      exact wp_bind (wp_dbExpunge (wp_raiseIf (fun _ => herr _ _ h₂.ended) fun _ => hok _ h₂))
  · exact herr _ s h.ended

/-- A route for administrators and the request's candidate. -/
theorem wp_route {s₀ : Session} (h : Fresh r s₀ s) {userId : Id} {f : User → M α}
    {Q : Except Exc α → Session × Interviews → Prop}
    (herr : ∀ e s', s₀.Ended s' → Q (.error e) (s', T))
    (hf : ∀ user s', Fresh r s₀ s' → wp (lifecycle alone may P) (f user) Q (s', T)) :
    wp (lifecycle alone may P) (do
      let user ← getCurrentUser userId
      adminOrOwningCandidate user r
      f user) Q (s, T) := by
  refine wp_bind (wp_getCurrentUser h.toCalm (fun e s' he => ?_) fun user s₁ h₁ _ => ?_)
  · exact herr e s' ⟨he.toClosed, he.journal.trans h.journal⟩
  · exact wp_bind (wp_adminOrOwningCandidate (h.same h₁) herr fun s' h' => hf user s' h')

/-- A route for one role. -/
theorem closes_role (h : Fresh r {} s) {userId : Id} {role : Role} {f : User → M α}
    (hf : ∀ user s', Fresh r {} s' → (alone → T.users userId = some user) → user.role = role →
      wp (lifecycle alone may P) (f user) Closes (s', T)) :
    wp (lifecycle alone may P) (do
      let user ← getCurrentUser userId
      requireRole user role
      f user) Closes (s, T) := by
  refine wp_bind (wp_getCurrentUser h.toCalm (fun _ _ he => he.toClosed) fun user s₁ h₁ huser => ?_)
  replace h := h.same h₁
  exact wp_bind (wp_raiseIf (fun _ => h.toCalm.closed) fun hrole =>
    hf user s₁ h huser (not_not.mp hrole))

theorem asked_validate (hs : s.Calm) {data : Availability.SubmitAvailabilityRequest} :
    wp (lifecycle alone may P) (Availability.validate pf data) (Asked s T) (s, T) := by
  refine asked_bind hs asked_raiseIf fun _ s₁ h₁ => ?_
  refine asked_bind h₁ (asked_forEach h₁ fun w s₂ h₂ => ?_) fun _ _ _ => asked_pure
  refine asked_bind h₂ asked_now fun t s₃ h₃ => ?_
  split
  · exact asked_pure
  · exact asked_throw

theorem closes_map {p : M α} {f : α → β} (h : wp (lifecycle alone may P) p Closes (s, T)) :
    wp (lifecycle alone may P) (f <$> p) Closes (s, T) := wp_map h

/-! ### The operations -/

/-- **Every operation meets the obligations of the lifecycle.** The calls that are not `Guarded` are
proved to do so when they run alone. -/
theorem closes_handle {call : Call} (hmay : ∀ r st, call.Sets r st → may r st)
    (hmode : ¬ alone → ∃ r, call.Guarded r)
    (hP : ∀ userId r reason, call = .decline userId r reason → WellFormed T →
      MayDecline T userId r → P T r) :
    wp (lifecycle alone may P) (handle pf call) Closes ({}, T) := by
  have halone : (∀ r, ¬ call.Guarded r) → alone := fun h => by
    by_contra hnot
    obtain ⟨r, hr⟩ := hmode hnot
    exact h r hr
  cases call with
  | createRequest userId data =>
    refine closes_role (fresh_empty (r := 0)) fun user s₁ h₁ _ _ => closes_map ?_
    exact closes_createRequest (halone nofun) h₁.toCalm
  | updateRequest userId r data =>
    refine closes_role (fresh_empty (r := r)) fun user s₁ h₁ _ _ => closes_map ?_
    exact closes_updateRequest h₁.toCalm h₁.copies
  | submit userId r data =>
    refine closes_role (fresh_empty (r := r)) fun user s₁ h₁ _ _ => ?_
    refine closes_bind h₁.toCalm (asked_validate h₁.toCalm) fun _ s₂ h₂ => closes_map ?_
    exact closes_submit (h₁.same h₂).toCalm (h₁.same h₂).copies (hmay r _ ⟨rfl, rfl⟩)
  | generate userId r =>
    refine wp_route fresh_empty (fun _ _ h => h.toClosed) fun user s₁ h₁ => closes_map ?_
    exact Scheduling.closes_generate h₁.toCalm (by simp [h₁.copies]) (hmay r _ ⟨rfl, .inl rfl⟩)
      (hmay r _ ⟨rfl, .inr rfl⟩)
  | book userId r slotId =>
    refine wp_route fresh_empty (fun _ _ h => h.toClosed) fun user s₁ h₁ => closes_map ?_
    exact Booking.closes_book h₁.toCalm (hmay r _ ⟨rfl, rfl⟩)
  | decline userId r reason =>
    have ha := halone nofun
    refine closes_role (fresh_empty (r := r)) fun user s₁ h₁ huser hrole => closes_map ?_
    refine closes_decline ha h₁.toCalm h₁.copies (fun hT ⟨p, hp, hid, hpanel⟩ => ?_)
      ⟨hmay r _ ⟨rfl, by simp⟩, hmay r _ ⟨rfl, by simp⟩, hmay r _ ⟨rfl, by simp⟩⟩
      (hmay r _ ⟨rfl, by simp⟩)
    exact hP _ _ _ rfl hT
      ⟨⟨user, huser ha, hrole⟩, p, hp, hid.trans (hT.user_id _ _ (huser ha)), hpanel⟩
  | reschedule userId r reason =>
    refine wp_route fresh_empty (fun _ _ h => h.toClosed) fun user s₁ h₁ => closes_map ?_
    exact closes_reschedule h₁.toCalm h₁.copies
      ⟨hmay r _ ⟨rfl, by simp⟩, hmay r _ ⟨rfl, by simp⟩, hmay r _ ⟨rfl, by simp⟩⟩
      (hmay r _ ⟨rfl, by simp⟩)
  | cancel userId r reason =>
    refine closes_role (fresh_empty (r := r)) fun user s₁ h₁ _ _ => closes_map ?_
    exact closes_cancel h₁.toCalm h₁.copies (hmay r _ ⟨rfl, rfl⟩)
  | recordOutcome userId r outcome notes =>
    refine closes_role (fresh_empty (r := r)) fun user s₁ h₁ _ _ => closes_map ?_
    exact closes_recordOutcome h₁.toCalm h₁.copies (hmay r _ ⟨rfl, rfl⟩)
  | createNextRound userId r data =>
    refine closes_role (fresh_empty (r := r)) fun user s₁ h₁ _ _ => closes_map ?_
    exact closes_createNextRound (halone nofun) h₁.toCalm

/-- **A booking call commits one booking and returns, or raises without a write**, when the row of its
confirmation can be stored. -/
theorem succeeds_handle_book (hmay : may r .booked) {userId slotId : Id} :
    wp (Notifications.storing alone may P) (handle pf (.book userId r slotId)) (Booking.Succeeds r {})
      ({}, T) := by
  have h : Fresh r {} {} := fresh_empty
  refine wp_bind (wp_restrict (wp_getCurrentUser h.toCalm (fun _ _ h => h) fun user s₁ h₁ _ => ?_))
  refine wp_bind (wp_restrict (wp_adminOrOwningCandidate (h.same h₁) (fun _ _ h => h)
    fun s₂ h₂ => wp_map ?_))
  refine wp_mono (Booking.succeeds_book h₂.toCalm hmay) ?_
  rintro (e | event) v hv
  · exact ⟨hv.toClosed, hv.journal.trans h₂.journal⟩
  · obtain ⟨hclosed, e, slot, he, hj⟩ := hv
    exact ⟨hclosed, e, slot, he, by rw [hj, h₂.journal]⟩

end InterviewScheduler.Interviews
