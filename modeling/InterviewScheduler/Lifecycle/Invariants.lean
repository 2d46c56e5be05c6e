import Mathlib.Data.List.Nodup
import InterviewScheduler.Lifecycle.Machine

/-! # Invariants of the lifecycle

What every transaction preserves, one lemma for each invariant:

* `WellFormed`: what the constraints of the schema give, whatever is written.
* `Edge`: a status changes along the documented machine only.
* `Agree`: status, CONFIRMED event and outcome agree.
* `Offered`: a request that was scheduled has availability.
* `NoDoubleBooking`: no participant is booked twice at the same time. -/

namespace InterviewScheduler.Lifecycle

open InterviewScheduler.Engine InterviewScheduler.Core

variable {P : Interviews → Id → Prop} {T T' : Interviews}

/-! ### What the schema gives -/

/-- The primary keys of the runs and of their slots. -/
structure RunKeys (runs : List RecommendationRun) : Prop where
  run : ∀ x ∈ runs, ∀ y ∈ runs, x.id = y.id → x = y
  slot : ∀ x ∈ runs, ∀ y ∈ runs, ∀ s ∈ x.slots, ∀ s' ∈ y.slots, s.id = s'.id → x = y ∧ s = s'

/-- The constraints of the schema hold of the stored rows. -/
structure WellFormed (T : Interviews) : Prop where
  user_id : ∀ u user, T.users u = some user → user.id = u
  events_nodup : ∀ e ∈ T.events, ∀ e' ∈ T.events, e.id = e'.id → e = e'
  one_confirmed : ∀ r, ∀ e ∈ T.events, ∀ e' ∈ T.events, e.ConfirmedFor r → e'.ConfirmedFor r → e = e'
  event_request : ∀ e ∈ T.events, T.requests e.interviewRequestId ≠ none
  participant_user : ∀ r, ∀ p ∈ T.participants r, T.users p.userId ≠ none
  runs : RunKeys T.runs

theorem WellFormed.empty {users : Id → Option User}
    (h : ∀ u user, users u = some user → user.id = u) : WellFormed { users } where
  user_id := h
  events_nodup := by simp
  one_confirmed := by simp
  event_request := by simp
  participant_user := by simp
  runs := ⟨by simp, by simp⟩

/-- A change that keeps events and participants, loses no request, and keeps the keys of the runs. -/
theorem WellFormed.of_eq (h : WellFormed T) (hu : T'.users = T.users) (he : T'.events = T.events)
    (hr : ∀ r, T.requests r ≠ none → T'.requests r ≠ none) (hp : T'.participants = T.participants)
    (hruns : RunKeys T'.runs) : WellFormed T' where
  user_id := by rw [hu]; exact h.user_id
  events_nodup := by rw [he]; exact h.events_nodup
  one_confirmed := by rw [he]; exact h.one_confirmed
  event_request e hmem := hr _ (h.event_request e (he ▸ hmem))
  participant_user := by rw [hp, hu]; exact h.participant_user
  runs := hruns

/-- A new run has keys of its own. -/
theorem RunKeys.insertRun {run : RecommendationRun} (h : RunKeys T.runs)
    (hv : (Write.insertRun run).violates T = false) : RunKeys (T.runs ++ [run]) := by
  simp only [Write.violates, Bool.or_eq_false_iff, List.any_eq_false, beq_iff_eq,
    Bool.not_eq_false', decide_eq_true_eq] at hv
  obtain ⟨⟨⟨-, hid⟩, hnodup⟩, hslot⟩ := hv
  have hown : ∀ s ∈ run.slots, ∀ s' ∈ run.slots, s.id = s'.id → s = s' := by
    intro s hs s' hs' heq
    exact List.inj_on_of_nodup_map hnodup hs hs' heq
  constructor
  · intro x hx y hy heq
    rcases List.mem_append.mp hx with hx | hx <;> rcases List.mem_append.mp hy with hy | hy
    · exact h.run x hx y hy heq
    · rw [List.mem_singleton.mp hy] at heq
      exact absurd heq (hid x hx)
    · rw [List.mem_singleton.mp hx] at heq
      exact absurd heq.symm (hid y hy)
    · rw [List.mem_singleton.mp hx, List.mem_singleton.mp hy]
  · intro x hx y hy s hs s' hs' heq
    rcases List.mem_append.mp hx with hx | hx <;> rcases List.mem_append.mp hy with hy | hy
    · exact h.slot x hx y hy s hs s' hs' heq
    · rw [List.mem_singleton.mp hy] at hs'
      exact hslot x hx (List.any_eq_true.mpr ⟨s, hs, by simpa using ⟨s', hs', heq.symm⟩⟩)
        |>.elim
    · rw [List.mem_singleton.mp hx] at hs
      exact hslot y hy (List.any_eq_true.mpr ⟨s', hs', by simpa using ⟨s, hs, heq⟩⟩)
        |>.elim
    · rw [List.mem_singleton.mp hx] at hs ⊢
      rw [List.mem_singleton.mp hy] at hs' ⊢
      exact ⟨rfl, hown s hs s' hs' heq⟩

/-- The selection of a slot changes no key. -/
theorem RunKeys.selectSlot {runs : List RecommendationRun} (h : RunKeys runs) (slotId : Id) :
    RunKeys (runs.map (RecommendationRun.select slotId)) := by
  constructor
  · intro x hx y hy heq
    obtain ⟨x₀, hx₀, rfl⟩ := List.mem_map.mp hx
    obtain ⟨y₀, hy₀, rfl⟩ := List.mem_map.mp hy
    rw [h.run x₀ hx₀ y₀ hy₀ heq]
  · intro x hx y hy s hs s' hs' heq
    obtain ⟨x₀, hx₀, rfl⟩ := List.mem_map.mp hx
    obtain ⟨y₀, hy₀, rfl⟩ := List.mem_map.mp hy
    obtain ⟨s₀, hs₀, rfl⟩ := List.mem_map.mp hs
    obtain ⟨s₁, hs₁, rfl⟩ := List.mem_map.mp hs'
    have hid : ∀ s : RecommendedSlot,
        (if s.id = slotId then { s with isSelected := true } else s).id = s.id := by
      intro s
      split <;> rfl
    rw [hid, hid] at heq
    obtain ⟨hrun, hslot⟩ := h.slot x₀ hx₀ y₀ hy₀ s₀ hs₀ s₁ hs₁ heq
    rw [hrun, hslot]
    exact ⟨rfl, rfl⟩

theorem modifyRequest_ne_none {r x : Id} {f : InterviewRequest → InterviewRequest}
    (h : T.requests x ≠ none) : (T.modifyRequest r f).requests x ≠ none := by
  rw [Interviews.modifyRequest_requests]
  split_ifs with hx
  · subst hx; simpa using h
  · exact h

theorem WellFormed.insertEvent {e : InterviewEvent} (h : WellFormed T)
    (hv : (Write.insertEvent e).violates T = false) : WellFormed (Write.apply T (.insertEvent e)) := by
  simp only [Write.violates, Bool.or_eq_false_iff, List.any_eq_false, beq_iff_eq,
    Bool.and_eq_false_iff, decide_eq_false_iff_not, Interviews.hasConfirmed, decide_eq_true_eq] at hv
  obtain ⟨⟨hreq, hid⟩, hconf⟩ := hv
  have hfree : ∀ r, ∀ e' ∈ T.events, e.ConfirmedFor r → ¬ e'.ConfirmedFor r := by
    rintro r e' he' ⟨rfl, hst⟩ hc
    rcases hconf with hne | hall
    · exact hne hst
    · exact hall e' he' hc
  refine ⟨h.user_id, ?_, ?_, ?_, ?_, h.runs⟩
  · intro e₁ h₁ e₂ h₂ heq
    rcases List.mem_append.mp h₁ with h₁ | h₁ <;> rcases List.mem_append.mp h₂ with h₂ | h₂
    · exact h.events_nodup _ h₁ _ h₂ heq
    · rw [List.mem_singleton.mp h₂] at heq
      exact absurd heq (hid _ h₁)
    · rw [List.mem_singleton.mp h₁] at heq
      exact absurd heq.symm (hid _ h₂)
    · rw [List.mem_singleton.mp h₁, List.mem_singleton.mp h₂]
  · intro r e₁ h₁ e₂ h₂ hc₁ hc₂
    rcases List.mem_append.mp h₁ with h₁ | h₁ <;> rcases List.mem_append.mp h₂ with h₂ | h₂
    · exact h.one_confirmed r _ h₁ _ h₂ hc₁ hc₂
    · rw [List.mem_singleton.mp h₂] at hc₂
      exact absurd hc₁ (hfree r _ h₁ hc₂)
    · rw [List.mem_singleton.mp h₁] at hc₁
      exact absurd hc₂ (hfree r _ h₂ hc₁)
    · rw [List.mem_singleton.mp h₁, List.mem_singleton.mp h₂]
  · intro e₁ h₁
    rcases List.mem_append.mp h₁ with h₁ | h₁
    · exact h.event_request _ h₁
    · rw [List.mem_singleton.mp h₁]
      simpa [Write.apply, Option.isSome_iff_ne_none] using hreq
  · exact h.participant_user

theorem WellFormed.cancelEvent {i : Id} (h : WellFormed T) :
    WellFormed (Write.apply T (.cancelEvent i)) := by
  refine ⟨h.user_id, ?_, ?_, ?_, ?_, h.runs⟩
  · intro e₁ h₁ e₂ h₂ heq
    obtain ⟨e, he, rfl⟩ := List.mem_map.mp h₁
    obtain ⟨e', he', rfl⟩ := List.mem_map.mp h₂
    rw [InterviewEvent.cancel_id, InterviewEvent.cancel_id] at heq
    rw [h.events_nodup _ he _ he' heq]
  · intro r e₁ h₁ e₂ h₂ hc₁ hc₂
    obtain ⟨e, he, rfl⟩ := List.mem_map.mp h₁
    obtain ⟨e', he', rfl⟩ := List.mem_map.mp h₂
    have hsame := (InterviewEvent.cancel_confirmed hc₁.2).1
    have hsame' := (InterviewEvent.cancel_confirmed hc₂.2).1
    rw [hsame] at hc₁ ⊢
    rw [hsame'] at hc₂ ⊢
    exact h.one_confirmed r _ he _ he' hc₁ hc₂
  · intro e₁ h₁
    obtain ⟨e, he, rfl⟩ := List.mem_map.mp h₁
    rw [InterviewEvent.cancel_requestId]
    exact h.event_request _ he
  · exact h.participant_user

/-- A write that breaks no constraint keeps them. -/
theorem WellFormed.apply (h : WellFormed T) {x : Write} (hv : x.violates T = false) :
    WellFormed (x.apply T) := by
  cases x with
  | insertRequest row ps =>
    refine ⟨h.user_id, h.events_nodup, h.one_confirmed, fun e he => ?_, fun r p hp => ?_, h.runs⟩
    · have := h.event_request e he
      simp only [Write.apply, Function.update_apply]
      split_ifs <;> simp [this]
    · simp only [Write.apply, Function.update_apply] at hp ⊢
      split_ifs at hp
      · exact (Write.violates_insertRequest.mp hv).users p hp
      · exact h.participant_user r p hp
  | setStatus r st => exact h.of_eq rfl rfl (fun _ => modifyRequest_ne_none) rfl h.runs
  | setOutcome r o n => exact h.of_eq rfl rfl (fun _ => modifyRequest_ne_none) rfl h.runs
  | setDetails r rt d b => exact h.of_eq rfl rfl (fun _ => modifyRequest_ne_none) rfl h.runs
  | replacePanelists r ids =>
    simp only [Write.violates, Bool.or_eq_false_iff, List.any_eq_false,
      Option.isNone_iff_eq_none] at hv
    refine ⟨h.user_id, h.events_nodup, h.one_confirmed, h.event_request, fun x p hp => ?_, h.runs⟩
    simp only [Write.apply, Function.update_apply] at hp ⊢
    split_ifs at hp with hx
    · rcases List.mem_append.mp hp with hp | hp
      · exact h.participant_user r p (List.mem_filter.mp hp).1
      · obtain ⟨u, hu, rfl⟩ := List.mem_map.mp hp
        exact hv.1.2 u hu
    · exact h.participant_user x p hp
  | insertAvailability row => exact h.of_eq rfl rfl (fun _ => id) rfl h.runs
  | insertRun row => exact h.of_eq rfl rfl (fun _ => id) rfl (h.runs.insertRun hv)
  | selectSlot slot => exact h.of_eq rfl rfl (fun _ => id) rfl (h.runs.selectSlot slot)
  | insertEvent e => exact h.insertEvent hv
  | cancelEvent i => exact h.cancelEvent

theorem WellFormed.applyAll (h : WellFormed T) {ws : List Write}
    (happ : Write.applyAll ws T = some T') : WellFormed T' := by
  induction ws generalizing T with
  | nil =>
    simp only [Write.applyAll, Option.some.injEq] at happ
    exact happ ▸ h
  | cons x xs ih =>
    obtain ⟨hv, happ⟩ := Write.applyAll_cons_eq_some.mp happ
    exact ih (h.apply hv) happ

/-! ### What a write does to a request -/

/-- A row after one request was changed. -/
theorem of_modifyRequest {r x : Id} {f : InterviewRequest → InterviewRequest}
    {row' : InterviewRequest} (h : (T.modifyRequest r f).requests x = some row') :
    (x = r ∧ ∃ row, T.requests r = some row ∧ row' = f row) ∨
      (x ≠ r ∧ T.requests x = some row') := by
  rw [Interviews.modifyRequest_requests] at h
  split_ifs at h with hx
  · obtain ⟨row, hrow, rfl⟩ := Option.map_eq_some_iff.mp h
    exact .inl ⟨hx, row, hrow, rfl⟩
  · exact .inr ⟨hx, h⟩

/-- What an edit keeps: everything but the details and the panel of one request. -/
structure Edited (r : Id) (T T' : Interviews) : Prop where
  events : T'.events = T.events
  availability : T'.availability = T.availability
  participants : ∀ x, x ≠ r → T'.participants x = T.participants x
  request : ∀ x row', T'.requests x = some row' →
    ∃ row, T.requests x = some row ∧ row'.status = row.status ∧ row'.outcome = row.outcome

theorem Edited.trans {r : Id} {T₁ T₂ T₃ : Interviews} (h : Edited r T₁ T₂) (h' : Edited r T₂ T₃) :
    Edited r T₁ T₃ where
  events := h'.events.trans h.events
  availability := h'.availability.trans h.availability
  participants x hx := (h'.participants x hx).trans (h.participants x hx)
  request x row₃ h₃ := by
    obtain ⟨row₂, h₂, hs, ho⟩ := h'.request x row₃ h₃
    obtain ⟨row₁, h₁, hs', ho'⟩ := h.request x row₂ h₂
    exact ⟨row₁, h₁, hs.trans hs', ho.trans ho'⟩

theorem edited_apply {r : Id} {x : Write} (h : Edits r x) : Edited r T (x.apply T) := by
  cases x with
  | setDetails r' rt d b =>
    refine ⟨rfl, rfl, fun _ _ => rfl, fun y row' hrow' => ?_⟩
    rcases of_modifyRequest hrow' with ⟨rfl, row, hrow, rfl⟩ | ⟨-, hrow⟩
    · exact ⟨row, hrow, rfl, rfl⟩
    · exact ⟨row', hrow, rfl, rfl⟩
  | replacePanelists r' ids =>
    obtain rfl : r' = r := h
    refine ⟨rfl, rfl, fun y hy => ?_, fun y row' hrow' => ⟨row', hrow', rfl, rfl⟩⟩
    simp [Write.apply, hy]
  | _ => exact h.elim

theorem edited_force {r : Id} {ws : List Write} (h : ∀ x ∈ ws, Edits r x) :
    Edited r T (Write.force ws T) := by
  induction ws generalizing T with
  | nil => exact ⟨rfl, rfl, fun _ _ => rfl, fun x row' hrow' => ⟨row', hrow', rfl, rfl⟩⟩
  | cons x xs ih =>
    exact (edited_apply (h x (by simp))).trans (ih fun y hy => h y (by simp [hy]))

/-! ### What a transaction does to a request -/

/-- The request holds a CONFIRMED event. -/
def Confirmed (T : Interviews) (x : Id) : Prop := ∃ e ∈ T.events, e.ConfirmedFor x

/-- The candidate has offered a window for the request. -/
def HasAvailability (T : Interviews) (x : Id) : Prop :=
  ∃ a ∈ T.availability, a.interviewRequestId = x ∧ a.windows ≠ []

/-- What happens to a row that exists. -/
inductive Transition (P : Interviews → Id → Prop) (T T' : Interviews) (x : Id)
    (row row' : InterviewRequest) : Prop
  | kept (hs : row'.status = row.status) (ho : row'.outcome = row.outcome)
      (hc : Confirmed T' x ↔ Confirmed T x)
  | submitted (hs : row.status = .awaitingCandidateAvailability)
      (hs' : row'.status = .readyForScheduling) (ho : row'.outcome = row.outcome)
      (hc : Confirmed T' x ↔ Confirmed T x) (ha : HasAvailability T' x)
  | scheduled (hs : row.status = .readyForScheduling)
      (hs' : row'.status = .recommended ∨ row'.status = .failed) (ho : row'.outcome = row.outcome)
      (hc : Confirmed T' x ↔ Confirmed T x)
  | resumed (hs : row.status = .rescheduling) (hs' : row'.status = .readyForScheduling)
      (ho : row'.outcome = row.outcome) (hc : Confirmed T' x ↔ Confirmed T x)
  | reopened (hs : row.status ≠ .booked) (hP : P T x) (hs' : row'.status = .readyForScheduling)
      (ho : row'.outcome = row.outcome) (hc : Confirmed T' x ↔ Confirmed T x)
  | booked (hs : row.status = .recommended) (hs' : row'.status = .booked)
      (ho : row'.outcome = row.outcome) (hc : Confirmed T' x)
  | released (hs : Releases row.status row'.status) (ho : row'.outcome = row.outcome)
      (hc : ¬ Confirmed T' x)
  | completed (hs : row.status = .booked ∨ row.status = .completed) (hs' : row'.status = .completed)
      (ho : row'.outcome ≠ none) (hc : Confirmed T' x ↔ Confirmed T x)

theorem confirmed_congr {x : Id} (h : T'.events = T.events) : Confirmed T' x ↔ Confirmed T x := by
  unfold Confirmed; rw [h]

theorem transition_of_eq {x : Id} {row : InterviewRequest} (he : Confirmed T' x ↔ Confirmed T x) :
    Transition P T T' x row row := .kept rfl rfl he

theorem confirmed_insertEvent {x : Id} {e : InterviewEvent} (h : ¬ e.ConfirmedFor x) :
    Confirmed (Write.apply T (.insertEvent e)) x ↔ Confirmed T x := by
  simp only [Confirmed, Write.apply, List.mem_append, List.mem_singleton]
  constructor
  · rintro ⟨e', he' | rfl, hc⟩
    · exact ⟨e', he', hc⟩
    · exact absurd hc h
  · rintro ⟨e', he', hc⟩
    exact ⟨e', .inl he', hc⟩

/-- The release of a request cancels its CONFIRMED event and no other one. -/
theorem confirmed_release (hT : WellFormed T) {r x : Id} {event : Option InterviewEvent}
    (hevent : T.events.find? (fun e => e.ConfirmedFor r) = event) :
    Confirmed (Write.force (cancelWrites event) T) x ↔ Confirmed T x ∧ x ≠ r := by
  cases event with
  | none =>
    rw [List.find?_eq_none] at hevent
    refine ⟨fun h => ⟨h, ?_⟩, fun h => h.1⟩
    rintro rfl
    obtain ⟨e, he, hc⟩ := h
    exact absurd hc (by simpa using hevent e he)
  | some e =>
    have hmem := List.mem_of_find?_eq_some hevent
    have hc : e.ConfirmedFor r := by simpa using List.find?_some hevent
    constructor
    · rintro ⟨e₁, h₁, hc₁⟩
      obtain ⟨e₂, h₂, rfl⟩ := List.mem_map.mp h₁
      obtain ⟨hsame, hid⟩ := InterviewEvent.cancel_confirmed hc₁.2
      rw [hsame] at hc₁
      refine ⟨⟨e₂, h₂, hc₁⟩, ?_⟩
      rintro rfl
      exact hid (congrArg _ (hT.one_confirmed x _ h₂ _ hmem hc₁ hc))
    · rintro ⟨⟨e₂, h₂, hc₂⟩, hx⟩
      refine ⟨e₂.cancel e.id, List.mem_map_of_mem h₂, ?_⟩
      have hid : e₂.id ≠ e.id := fun h => by
        rw [hT.events_nodup _ h₂ _ hmem h] at hc₂
        exact hx (hc₂.1.symm.trans hc.1)
      rwa [InterviewEvent.cancel, if_neg hid]

/-- A row after its status was set: it is the request's own row, with the new status, or another
row that is unchanged. -/
theorem of_setStatus {r x : Id} {st : RequestStatus} {row row' : InterviewRequest}
    (hr : T.requests r = some row) (h : (Write.apply T (.setStatus r st)).requests x = some row') :
    (x = r ∧ row' = { row with status := st }) ∨ (x ≠ r ∧ T.requests x = some row') := by
  rcases of_modifyRequest h with ⟨hx, row₁, h₁, rfl⟩ | h
  · rw [hr, Option.some.injEq] at h₁
    exact .inl ⟨hx, by rw [h₁]⟩
  · exact .inr h

/-- **What a transaction does to each request.** -/
theorem Step.transition (hT : WellFormed T) (h : Step P T T') {x : Id} {row' : InterviewRequest}
    (hrow' : T'.requests x = some row') :
    (T.requests x = none ∧ row'.status = .awaitingCandidateAvailability ∧ row'.outcome = none ∧
      (Confirmed T' x ↔ Confirmed T x)) ∨
    ∃ row, T.requests x = some row ∧ Transition P T T' x row row' := by
  obtain ⟨ws, hlegal, happ⟩ := h
  obtain rfl := Write.applyAll_eq_force happ
  cases hlegal with
  | stay => exact .inr ⟨row', hrow', transition_of_eq Iff.rfl⟩
  | @create new ps hstatus houtcome =>
    have hv := (Write.applyAll_cons_eq_some.mp happ).1
    simp only [Write.force_cons, Write.force_nil, Write.apply, Function.update_apply] at hrow'
    split_ifs at hrow' with hx
    · obtain rfl : new = row' := by simpa using hrow'
      exact .inl ⟨hx ▸ (Write.violates_insertRequest.mp hv).fresh, hstatus, houtcome, Iff.rfl⟩
    · exact .inr ⟨row', hrow', transition_of_eq Iff.rfl⟩
  | edit _ _ hws =>
    obtain ⟨row, hrow, hs, ho⟩ := (edited_force hws).request x row' hrow'
    exact .inr ⟨row, hrow, .kept hs ho (confirmed_congr (edited_force hws).events)⟩
  | @submit r row a hr hs ha hw =>
    rcases of_setStatus (T := Write.apply T (.insertAvailability a)) hr hrow' with
      ⟨rfl, rfl⟩ | ⟨-, h⟩
    · exact .inr ⟨row, hr, .submitted hs rfl rfl Iff.rfl
        ⟨a, List.mem_append_right _ (List.mem_singleton.mpr rfl), ha, hw⟩⟩
    · exact .inr ⟨row', h, transition_of_eq Iff.rfl⟩
  | @recommend r row run hr hs _ _ =>
    rcases of_setStatus (T := Write.apply T (.insertRun run)) hr hrow' with ⟨rfl, rfl⟩ | ⟨-, h⟩
    · exact .inr ⟨row, hr, .scheduled hs (.inl rfl) rfl Iff.rfl⟩
    · exact .inr ⟨row', h, transition_of_eq Iff.rfl⟩
  | @fail r row hr hs =>
    rcases of_setStatus hr hrow' with ⟨rfl, rfl⟩ | ⟨-, h⟩
    · exact .inr ⟨row, hr, .scheduled hs (.inr rfl) rfl Iff.rfl⟩
    · exact .inr ⟨row', h, transition_of_eq Iff.rfl⟩
  | @book r row e slot hr hs he _ _ =>
    rcases of_setStatus (T := Write.apply T (.insertEvent e)) hr hrow' with ⟨rfl, rfl⟩ | ⟨hx, h⟩
    · exact .inr ⟨row, hr, .booked hs rfl rfl
        ⟨e, List.mem_append_right _ (List.mem_singleton.mpr rfl), he⟩⟩
    · exact .inr ⟨row', h, transition_of_eq
        (confirmed_insertEvent fun hc => hx (hc.1.symm.trans he.1))⟩
  | @reopen r row hr hs hP =>
    rcases of_setStatus hr hrow' with ⟨rfl, rfl⟩ | ⟨-, h⟩
    · exact .inr ⟨row, hr, .reopened hs hP rfl rfl Iff.rfl⟩
    · exact .inr ⟨row', h, transition_of_eq Iff.rfl⟩
  | @resume r row hr hs =>
    rcases of_setStatus hr hrow' with ⟨rfl, rfl⟩ | ⟨-, h⟩
    · exact .inr ⟨row, hr, .resumed hs rfl rfl Iff.rfl⟩
    · exact .inr ⟨row', h, transition_of_eq Iff.rfl⟩
  | @release r row event st hr hs hevent =>
    have hconf := confirmed_release hT (x := x) hevent
    rw [Write.force, List.foldl_append] at hrow' ⊢
    have hr₁ : (Write.force (cancelWrites event) T).requests r = some row := by
      cases event <;> exact hr
    rcases of_setStatus hr₁ hrow' with ⟨rfl, rfl⟩ | ⟨hx, h⟩
    · exact .inr ⟨row, hr, .released hs rfl fun hc => (hconf.mp hc).2 rfl⟩
    · have h : T.requests x = some row' := by cases event <;> exact h
      exact .inr ⟨row', h, transition_of_eq (hconf.trans (and_iff_left hx))⟩
  | @complete r row outcome notes hr hs =>
    have hr₁ : (Write.apply T (.setOutcome r outcome notes)).requests r =
        some { row with outcome := some outcome, outcomeNotes := notes } := by
      simp [Write.apply, hr]
    rcases of_setStatus hr₁ hrow' with ⟨rfl, rfl⟩ | ⟨hx, h⟩
    · exact .inr ⟨row, hr, .completed (.inl hs) rfl (by simp) Iff.rfl⟩
    · rcases of_modifyRequest h with ⟨rfl, -⟩ | ⟨-, h⟩
      · exact absurd rfl hx
      · exact .inr ⟨row', h, transition_of_eq Iff.rfl⟩
  | @recomplete r row outcome notes hr hs =>
    rcases of_modifyRequest hrow' with ⟨rfl, row₁, h₁, rfl⟩ | ⟨-, h⟩
    · rw [hr, Option.some.injEq] at h₁
      subst h₁
      exact .inr ⟨row, hr, .completed (.inr hs) hs (by simp) Iff.rfl⟩
    · exact .inr ⟨row', h, transition_of_eq Iff.rfl⟩

/-! ### The status machine -/

/-- A declined request is in a state from which READY_FOR_SCHEDULING is reached by an edge, or in it
already. -/
def DeclineAllowed (T : Interviews) (r : Id) : Prop :=
  ∀ row, T.requests r = some row →
    row.status ∉ [RequestStatus.draft, .failed, .cancelled, .completed]

theorem edge_of_reopen {st : RequestStatus} (h : st ≠ .booked)
    (hall : st ∉ [RequestStatus.draft, .failed, .cancelled, .completed])
    (hne : st ≠ .readyForScheduling) : Edge st .readyForScheduling := by
  cases st with
  | awaitingCandidateAvailability => exact .submit
  | recommended => exact .decline
  | rescheduling => exact .resume
  | booked => exact absurd rfl h
  | readyForScheduling => exact absurd rfl hne
  | _ => simp at hall

theorem edge_of_releases {st st' : RequestStatus} (h : Releases st st') : Edge st st' := by
  rcases h with ⟨rfl, rfl⟩ | ⟨h1, h2, rfl⟩
  · exact .reschedule
  · exact .cancel h1 h2

/-- **Every transaction moves a status along an edge**, when declined requests allow it. -/
theorem Step.edge (hT : WellFormed T) (h : Step P T T') (hP : ∀ r, P T r → DeclineAllowed T r)
    {x : Id} {row row' : InterviewRequest} (hrow : T.requests x = some row)
    (hrow' : T'.requests x = some row') (hne : row.status ≠ row'.status) :
    Edge row.status row'.status := by
  rcases h.transition hT hrow' with ⟨hnone, -⟩ | ⟨row₁, h₁, htr⟩
  · rw [hnone] at hrow
    simp at hrow
  · rw [hrow, Option.some.injEq] at h₁
    subst h₁
    cases htr with
    | kept hs => exact absurd hs.symm hne
    | submitted hs hs' => rw [hs, hs']; exact .submit
    | scheduled hs hs' =>
      rcases hs' with hs' | hs'
      · rw [hs, hs']; exact .recommend
      · rw [hs, hs']; exact .fail
    | resumed hs hs' => rw [hs, hs']; exact .resume
    | reopened hs hp hs' =>
      rw [hs'] at hne ⊢
      exact edge_of_reopen hs (hP x hp row hrow) hne
    | booked hs hs' => rw [hs, hs']; exact .book
    | released hs => exact edge_of_releases hs
    | completed hs hs' =>
      rcases hs with hs | hs
      · rw [hs, hs']; exact .complete
      · exact absurd (hs.trans hs'.symm) hne

/-! ### Status, event and outcome -/

/-- **Status, event and outcome agree.** -/
def Agree (T : Interviews) : Prop :=
  ∀ x row, T.requests x = some row →
    (Confirmed T x ↔ row.status = .booked ∨ row.status = .completed) ∧
    (row.outcome ≠ none ↔ row.status = .completed)

theorem Step.agree (hT : WellFormed T) (h : Step P T T')
    (hP : ∀ r row, P T r → T.requests r = some row → row.status ≠ .completed) (hA : Agree T) :
    Agree T' := by
  intro x row' hrow'
  rcases h.transition hT hrow' with ⟨hnone, hs, ho, hc⟩ | ⟨row, hrow, htr⟩
  · have hfree : ¬ Confirmed T x := by
      rintro ⟨e, he, rfl, -⟩
      exact hT.event_request e he hnone
    simp [hc, hfree, hs, ho]
  · obtain ⟨h1, h2⟩ := hA x row hrow
    cases htr with
    | kept hs ho hc => rw [hc, hs, ho]; exact ⟨h1, h2⟩
    | submitted hs hs' ho hc => simp_all
    | scheduled hs hs' ho hc => rcases hs' with hs' | hs' <;> simp_all
    | resumed hs hs' ho hc => simp_all
    | reopened hs hp hs' ho hc =>
      have := hP x row hp hrow
      simp_all
    | booked hs hs' ho hc => simp_all
    | released hs ho hc => rcases hs with ⟨hs, hs'⟩ | ⟨hs, hs₁, hs'⟩ <;> simp_all
    | completed hs hs' ho hc => rcases hs with hs | hs <;> simp_all

/-! ### Availability -/

/-- The statuses of a request that was scheduled at some time and is not cancelled. -/
def scheduledStatuses : List RequestStatus :=
  [.readyForScheduling, .recommended, .booked, .rescheduling, .failed, .completed]

/-- **Availability precedes scheduling.** -/
def Offered (T : Interviews) : Prop :=
  ∀ x row, T.requests x = some row → row.status ∈ scheduledStatuses → HasAvailability T x

/-- Availability is never removed. -/
theorem Legal.availability {ws : List Write} (h : Legal P T ws) {a : CandidateAvailability}
    (ha : a ∈ T.availability) : a ∈ (Write.force ws T).availability := by
  cases h with
  | edit _ _ hws => rw [(edited_force hws).availability]; exact ha
  | submit => exact List.mem_append_left _ ha
  | @release _ _ event => cases event <;> exact ha
  | _ => exact ha

theorem Step.hasAvailability (h : Step P T T') {x : Id} (hx : HasAvailability T x) :
    HasAvailability T' x := by
  obtain ⟨ws, hlegal, happ⟩ := h
  obtain rfl := Write.applyAll_eq_force happ
  obtain ⟨a, ha, hax⟩ := hx
  exact ⟨a, hlegal.availability ha, hax⟩

theorem Step.offered (hT : WellFormed T) (h : Step P T T')
    (hP : ∀ r row, P T r → T.requests r = some row → HasAvailability T r) (hO : Offered T) :
    Offered T' := by
  intro x row' hrow' hs'
  rcases h.transition hT hrow' with ⟨-, hs, -⟩ | ⟨row, hrow, htr⟩
  · simp [hs, scheduledStatuses] at hs'
  · have hold : row.status ∈ scheduledStatuses → HasAvailability T' x := fun hs =>
      h.hasAvailability (hO x row hrow hs)
    cases htr with
    | kept hs => exact hold (hs ▸ hs')
    | submitted _ _ _ _ ha => exact ha
    | scheduled hs => exact hold (by simp [hs, scheduledStatuses])
    | resumed hs => exact hold (by simp [hs, scheduledStatuses])
    | reopened _ hp => exact h.hasAvailability (hP x row hp hrow)
    | booked hs => exact hold (by simp [hs, scheduledStatuses])
    | released hs =>
      rcases hs with ⟨hs, -⟩ | ⟨-, -, hs⟩
      · exact hold (by simp [hs, scheduledStatuses])
      · simp [hs, scheduledStatuses] at hs'
    | completed hs => rcases hs with hs | hs <;> exact hold (by simp [hs, scheduledStatuses])

/-! ### Double booking -/

/-- The panel of a request with a CONFIRMED event cannot be edited. -/
def Frozen (T : Interviews) : Prop :=
  ∀ x row, T.requests x = some row → Confirmed T x → row.status ∉ editableStatuses

/-- **No participant is booked twice at the same time.** -/
def NoDoubleBooking (T : Interviews) : Prop :=
  ∀ e ∈ T.events, e.status = .confirmed → NoClash T e

theorem Step.frozen (hT : WellFormed T) (h : Step P T T') (hF : Frozen T) : Frozen T' := by
  intro x row' hrow' hc'
  rcases h.transition hT hrow' with ⟨hnone, hs, -, hc⟩ | ⟨row, hrow, htr⟩
  · obtain ⟨e, he, rfl, -⟩ := hc.mp hc'
    exact absurd hnone (hT.event_request e he)
  · have hold := hF x row hrow
    cases htr with
    | kept hs _ hc => rw [hs]; exact hold (hc.mp hc')
    | scheduled _ hs' => rcases hs' with hs' | hs' <;> simp [hs', editableStatuses]
    | released _ _ hc => exact absurd hc' hc
    | submitted _ hs' => simp [hs', editableStatuses]
    | resumed _ hs' => simp [hs', editableStatuses]
    | reopened _ _ hs' => simp [hs', editableStatuses]
    | booked _ hs' => simp [hs', editableStatuses]
    | completed _ hs' => simp [hs', editableStatuses]

/-- Bookings that are kept, of people who took part before, still do not clash. -/
theorem NoDoubleBooking.of_subset (h : NoDoubleBooking T)
    (he : ∀ e ∈ T'.events, e.status = .confirmed → e ∈ T.events)
    (hp : ∀ e ∈ T.events, e.status = .confirmed → ∀ u,
      TakesPart T' u e.interviewRequestId → TakesPart T u e.interviewRequestId) :
    NoDoubleBooking T' := by
  intro e hmem hc e' hmem' hc' hne ⟨u, hu, hu'⟩
  have hold := he e hmem hc
  have hold' := he e' hmem' hc'
  exact h e hold hc e' hold' hc' hne ⟨u, hp e hold hc u hu, hp e' hold' hc' u hu'⟩

/-- A new booking that clashes with none keeps the bookings apart. -/
theorem NoDoubleBooking.insertEvent (h : NoDoubleBooking T) {e : InterviewEvent}
    (he : NoClash T e) : NoDoubleBooking (Write.apply T (.insertEvent e)) := by
  intro e₁ h₁ hc₁ e₂ h₂ hc₂ hne ⟨u, hu₁, hu₂⟩ hover
  rcases List.mem_append.mp h₁ with h₁ | h₁ <;> rcases List.mem_append.mp h₂ with h₂ | h₂
  · exact h e₁ h₁ hc₁ e₂ h₂ hc₂ hne ⟨u, hu₁, hu₂⟩ hover
  · rw [List.mem_singleton.mp h₂] at hne hu₂ hover
    exact he e₁ h₁ hc₁ hne.symm ⟨u, hu₂, hu₁⟩ hover.symm
  · rw [List.mem_singleton.mp h₁] at hne hu₁ hover
    exact he e₂ h₂ hc₂ hne ⟨u, hu₁, hu₂⟩ hover
  · rw [List.mem_singleton.mp h₁, List.mem_singleton.mp h₂] at hne
    exact hne rfl

theorem Step.noDoubleBooking (hT : WellFormed T) (hF : Frozen T) (h : Step P T T')
    (hD : NoDoubleBooking T) : NoDoubleBooking T' := by
  obtain ⟨ws, hlegal, happ⟩ := h
  obtain rfl := Write.applyAll_eq_force happ
  cases hlegal with
  | @create new ps hstatus _ =>
    have hv := (Write.applyAll_cons_eq_some.mp happ).1
    refine hD.of_subset (fun e he _ => he) fun e he _ u hu => ?_
    -- no event is of the new request
    have hne : e.interviewRequestId ≠ new.id := fun h =>
      hT.event_request e he (h ▸ (Write.violates_insertRequest.mp hv).fresh)
    simpa [TakesPart, Write.apply, Function.update_apply, hne] using hu
  | @edit r row _ hrow hs hws =>
    have hedit := edited_force (T := T) hws
    refine hD.of_subset (fun e he _ => hedit.events ▸ he) fun e he hc u hu => ?_
    -- the panel of a booked request is not edited
    have hne : e.interviewRequestId ≠ r := by
      rintro rfl
      exact hF _ row hrow ⟨e, he, rfl, hc⟩ hs
    simpa only [TakesPart, hedit.participants _ hne] using hu
  | @book r row e slot _ _ _ hclash _ =>
    exact (hD.insertEvent hclash).of_subset (fun _ he _ => he) fun _ _ _ _ hu => hu
  | @release r row event st _ _ _ =>
    refine hD.of_subset (fun e he hc => ?_) fun e he hc u hu => ?_
    · cases event with
      | none => exact he
      | some e₀ =>
        obtain ⟨e₁, h₁, rfl⟩ := List.mem_map.mp he
        rwa [(InterviewEvent.cancel_confirmed hc).1]
    · cases event <;> exact hu
  | _ => exact hD.of_subset (fun _ he _ => he) fun _ _ _ _ hu => hu

end InterviewScheduler.Lifecycle
