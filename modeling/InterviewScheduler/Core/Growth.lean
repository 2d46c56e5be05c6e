import InterviewScheduler.Core.Models

/-! # What the tables never lose

`Grows T T'` says that `T'` has all that `T` had: users, requests with what they were created with,
submissions, runs with their slots, and interviews, of which a cancelled one stays cancelled. It is an
order, every write that breaks no constraint goes up in it, and so does a transaction. -/

namespace InterviewScheduler.Core

open InterviewScheduler.Engine

/-! ### Rows -/

/-- What a request is created with and keeps. -/
structure RequestOrigin where
  id : Id
  candidateId : Id
  createdBy : Id
  title : Option String
  company : Option String
  roundNumber : ℕ
  parentRequestId : Option Id
  deriving DecidableEq, Repr

def InterviewRequest.origin (row : InterviewRequest) : RequestOrigin :=
  ⟨row.id, row.candidateId, row.createdBy, row.title, row.company, row.roundNumber, row.parentRequestId⟩

/-- A slot as it was recommended. -/
def RecommendedSlot.offer (slot : RecommendedSlot) : RecommendedSlot := { slot with isSelected := false }

/-- A run as it was generated. -/
def RecommendationRun.proposal (run : RecommendationRun) : RecommendationRun :=
  { run with slots := run.slots.map RecommendedSlot.offer }

@[simp] theorem RecommendationRun.select_proposal (slotId : Id) (run : RecommendationRun) :
    (run.select slotId).proposal = run.proposal := by
  have hoffer : ∀ s : RecommendedSlot,
      (if s.id = slotId then { s with isSelected := true } else s).offer = s.offer := by
    intro s
    split <;> rfl
  simp [proposal, select, hoffer]

/-- An interview as it was booked. -/
def InterviewEvent.booking (e : InterviewEvent) : InterviewEvent := { e with status := .confirmed }

@[simp] theorem InterviewEvent.cancel_booking (i : Id) (e : InterviewEvent) :
    (e.cancel i).booking = e.booking := by
  unfold InterviewEvent.cancel
  split <;> rfl

theorem InterviewEvent.cancel_cancelled {i : Id} {e : InterviewEvent} (h : e.status = .cancelled) :
    (e.cancel i).status = .cancelled := by
  unfold InterviewEvent.cancel
  split
  · rfl
  · exact h

/-- What two runs with the same proposal agree on. -/
theorem RecommendationRun.of_proposal {run run' : RecommendationRun} (h : run'.proposal = run.proposal) :
    run'.id = run.id ∧ run'.interviewRequestId = run.interviewRequestId ∧
      run'.inputSnapshot = run.inputSnapshot ∧
      run'.slots.map RecommendedSlot.offer = run.slots.map RecommendedSlot.offer := by
  simp only [proposal, RecommendationRun.mk.injEq] at h
  exact ⟨h.1, h.2.1, h.2.2.2.2.1, h.2.2.2.2.2⟩

/-- A slot of one of them is one of the other, up to its selection. -/
theorem RecommendationRun.exists_offer {run run' : RecommendationRun} (h : run'.proposal = run.proposal)
    {slot : RecommendedSlot} (hslot : slot ∈ run.slots) : ∃ slot' ∈ run'.slots, slot'.offer = slot.offer := by
  have hmem : slot.offer ∈ run'.slots.map RecommendedSlot.offer := by
    rw [(of_proposal h).2.2.2]
    exact List.mem_map_of_mem hslot
  exact List.mem_map.mp hmem

theorem RecommendedSlot.of_offer {slot slot' : RecommendedSlot} (h : slot'.offer = slot.offer) :
    slot'.id = slot.id ∧ slot'.startTime = slot.startTime ∧ slot'.endTime = slot.endTime := by
  simp only [offer, RecommendedSlot.mk.injEq] at h
  exact ⟨h.1, h.2.1, h.2.2.1⟩

theorem InterviewEvent.of_booking {e e' : InterviewEvent} (h : e'.booking = e.booking) :
    e'.id = e.id ∧ e'.interviewRequestId = e.interviewRequestId ∧ e'.startTime = e.startTime ∧
      e'.endTime = e.endTime := by
  simp only [booking, InterviewEvent.mk.injEq] at h
  exact ⟨h.1, h.2.1, h.2.2.1, h.2.2.2.1⟩

/-! ### Tables -/

/-- **`T'` has all that `T` had.** -/
structure Grows (T T' : Interviews) : Prop where
  users : ∀ u user, T.users u = some user → T'.users u = some user
  requests : ∀ r row, T.requests r = some row → ∃ row', T'.requests r = some row' ∧ row'.origin = row.origin
  availability : ∀ a ∈ T.availability, a ∈ T'.availability
  runs : ∀ run ∈ T.runs, ∃ run' ∈ T'.runs, run'.proposal = run.proposal
  events : ∀ e ∈ T.events, ∃ e' ∈ T'.events, e'.booking = e.booking ∧
    (e.status = .cancelled → e'.status = .cancelled)

variable {T T' T'' : Interviews}

theorem Grows.refl (T : Interviews) : Grows T T where
  users _ _ h := h
  requests _ row h := ⟨row, h, rfl⟩
  availability _ h := h
  runs run h := ⟨run, h, rfl⟩
  events e h := ⟨e, h, rfl, id⟩

theorem Grows.trans (h : Grows T T') (h' : Grows T' T'') : Grows T T'' where
  users u user hu := h'.users u user (h.users u user hu)
  requests r row hrow := by
    obtain ⟨row', hrow', heq⟩ := h.requests r row hrow
    obtain ⟨row'', hrow'', heq'⟩ := h'.requests r row' hrow'
    exact ⟨row'', hrow'', heq'.trans heq⟩
  availability a ha := h'.availability a (h.availability a ha)
  runs run hrun := by
    obtain ⟨run', hrun', heq⟩ := h.runs run hrun
    obtain ⟨run'', hrun'', heq'⟩ := h'.runs run' hrun'
    exact ⟨run'', hrun'', heq'.trans heq⟩
  events e he := by
    obtain ⟨e', he', heq, hst⟩ := h.events e he
    obtain ⟨e'', he'', heq', hst'⟩ := h'.events e' he'
    exact ⟨e'', he'', heq'.trans heq, fun hc => hst' (hst hc)⟩

/-- One request is changed in what may change. -/
theorem Grows.modifyRequest {f : InterviewRequest → InterviewRequest} (hf : ∀ row, (f row).origin = row.origin)
    (r : Id) : Grows T (T.modifyRequest r f) where
  users _ _ h := h
  requests r' row hrow := by
    rw [Interviews.modifyRequest_requests]
    split_ifs with heq
    · subst heq
      rw [hrow]
      exact ⟨f row, rfl, hf row⟩
    · exact ⟨row, hrow, rfl⟩
  availability _ h := h
  runs run h := ⟨run, h, rfl⟩
  events e h := ⟨e, h, rfl, id⟩

/-- **A write that breaks no constraint loses nothing.** -/
theorem grows_apply {y : Write} (hv : y.violates T = false) : Grows T (y.apply T) := by
  cases y with
  | insertRequest row ps =>
    have hfresh : T.requests row.id = none := (Write.violates_insertRequest.mp hv).fresh
    refine ⟨fun _ _ h => h, fun r row' hrow => ?_, fun _ h => h, fun run h => ⟨run, h, rfl⟩,
      fun e h => ⟨e, h, rfl, id⟩⟩
    have hne : r ≠ row.id := by
      rintro rfl
      rw [hfresh] at hrow
      simp at hrow
    exact ⟨row', (Function.update_of_ne hne _ _).trans hrow, rfl⟩
  | setStatus r st =>
    refine Grows.modifyRequest ?_ r
    exact fun _ => rfl
  | setOutcome r o notes =>
    refine Grows.modifyRequest ?_ r
    exact fun _ => rfl
  | setDetails r rt d b =>
    refine Grows.modifyRequest ?_ r
    exact fun _ => rfl
  | replacePanelists r ids =>
    exact ⟨fun _ _ h => h, fun _ row h => ⟨row, h, rfl⟩, fun _ h => h, fun run h => ⟨run, h, rfl⟩,
      fun e h => ⟨e, h, rfl, id⟩⟩
  | insertAvailability row =>
    exact ⟨fun _ _ h => h, fun _ row h => ⟨row, h, rfl⟩, fun a h => List.mem_append_left _ h,
      fun run h => ⟨run, h, rfl⟩, fun e h => ⟨e, h, rfl, id⟩⟩
  | insertRun row =>
    exact ⟨fun _ _ h => h, fun _ row h => ⟨row, h, rfl⟩, fun _ h => h,
      fun run h => ⟨run, List.mem_append_left _ h, rfl⟩, fun e h => ⟨e, h, rfl, id⟩⟩
  | selectSlot s =>
    exact ⟨fun _ _ h => h, fun _ row h => ⟨row, h, rfl⟩, fun _ h => h,
      fun run h => ⟨run.select s, List.mem_map_of_mem h, run.select_proposal s⟩, fun e h => ⟨e, h, rfl, id⟩⟩
  | insertEvent row =>
    exact ⟨fun _ _ h => h, fun _ row h => ⟨row, h, rfl⟩, fun _ h => h, fun run h => ⟨run, h, rfl⟩,
      fun e h => ⟨e, List.mem_append_left _ h, rfl, id⟩⟩
  | cancelEvent i =>
    exact ⟨fun _ _ h => h, fun _ row h => ⟨row, h, rfl⟩, fun _ h => h, fun run h => ⟨run, h, rfl⟩,
      fun e h => ⟨e.cancel i, List.mem_map_of_mem h, e.cancel_booking i, InterviewEvent.cancel_cancelled⟩⟩

theorem grows_applyAll {ys : List Write} (h : Write.applyAll ys T = some T') : Grows T T' := by
  induction ys generalizing T with
  | nil =>
    simp only [Write.applyAll, Option.some.injEq] at h
    exact h ▸ .refl T
  | cons y ys ih =>
    obtain ⟨hv, h⟩ := Write.applyAll_cons_eq_some.mp h
    exact (grows_apply hv).trans (ih h)

/-! ### Where a row comes from -/

namespace Write

variable {y : Write}

/-- A stored request was there before, or is inserted. -/
theorem requests_apply {r : Id} {row' : InterviewRequest} (h : (y.apply T).requests r = some row') :
    (∃ row, T.requests r = some row ∧ row'.origin = row.origin) ∨
      ∃ ps, y = .insertRequest row' ps ∧ r = row'.id := by
  have hmodify : ∀ {x : Id} {f : InterviewRequest → InterviewRequest},
      (T.modifyRequest x f).requests r = some row' → (∀ row, (f row).origin = row.origin) →
      ∃ row, T.requests r = some row ∧ row'.origin = row.origin := by
    intro x f h hf
    rw [Interviews.modifyRequest_requests] at h
    split_ifs at h with heq
    · obtain ⟨row, hrow, rfl⟩ := Option.map_eq_some_iff.mp h
      exact ⟨row, heq ▸ hrow, hf row⟩
    · exact ⟨row', h, rfl⟩
  cases y with
  | insertRequest row ps =>
    simp only [apply, Function.update_apply] at h
    split_ifs at h with heq
    · obtain rfl := Option.some.inj h
      exact .inr ⟨ps, rfl, heq⟩
    · exact .inl ⟨row', h, rfl⟩
  | setStatus x st => exact .inl (hmodify h fun _ => rfl)
  | setOutcome x o notes => exact .inl (hmodify h fun _ => rfl)
  | setDetails x rt d b => exact .inl (hmodify h fun _ => rfl)
  | _ => exact .inl ⟨row', h, rfl⟩

theorem availability_apply {a : CandidateAvailability} (h : a ∈ (y.apply T).availability) :
    a ∈ T.availability ∨ y = .insertAvailability a := by
  cases y with
  | insertAvailability row =>
    refine (List.mem_append.mp h).imp_right fun h => ?_
    rw [List.mem_singleton.mp h]
  | _ => exact .inl h

theorem runs_apply {run' : RecommendationRun} (h : run' ∈ (y.apply T).runs) :
    (∃ run ∈ T.runs, run'.proposal = run.proposal) ∨ y = .insertRun run' := by
  cases y with
  | insertRun row =>
    rcases List.mem_append.mp h with h | h
    · exact .inl ⟨run', h, rfl⟩
    · exact .inr (by rw [List.mem_singleton.mp h])
  | selectSlot s =>
    obtain ⟨run, hrun, rfl⟩ := List.mem_map.mp h
    exact .inl ⟨run, hrun, run.select_proposal s⟩
  | _ => exact .inl ⟨run', h, rfl⟩

theorem events_apply {e' : InterviewEvent} (h : e' ∈ (y.apply T).events) :
    (∃ e ∈ T.events, e'.booking = e.booking) ∨ y = .insertEvent e' := by
  cases y with
  | insertEvent row =>
    rcases List.mem_append.mp h with h | h
    · exact .inl ⟨e', h, rfl⟩
    · exact .inr (by rw [List.mem_singleton.mp h])
  | cancelEvent i =>
    obtain ⟨e, he, rfl⟩ := List.mem_map.mp h
    exact .inl ⟨e, he, e.cancel_booking i⟩
  | _ => exact .inl ⟨e', h, rfl⟩

end Write

end InterviewScheduler.Core
