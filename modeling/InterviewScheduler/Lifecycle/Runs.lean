import InterviewScheduler.Lifecycle.Invariants

/-! # What stays true of a stored run

A run is kept as it was stored, but for the slot that is selected. What the engine has computed stays
true of it (`Sound`), whatever becomes of the request; what is known of the other interviews does not. -/

namespace InterviewScheduler.Lifecycle

open InterviewScheduler.Engine InterviewScheduler.Core

variable {P : Interviews → Id → Prop} {T T' : Interviews} {ws : List Write} {run : RecommendationRun}

/-- What the engine has computed, on the run's own snapshot. -/
structure Sound (run : RecommendationRun) : Prop where
  proper : ∀ slot ∈ run.slots, slot.startTime < slot.endTime
  busy : ∀ slot ∈ run.slots, ∀ q ∈ run.inputSnapshot.participants, q.isCandidate = false →
    ∀ b ∈ busyOf q, Avoids slot b
  workload : ∀ slot ∈ run.slots, slot.scoreBreakdown.workloadBalance = 1

theorem Proposed.sound (h : Proposed T run) : Sound run := ⟨h.proper, h.busy, h.workload⟩

/-- The slots of a run after a selection, but for the mark. -/
theorem mem_select_slots {slotId : Id} {slot' : RecommendedSlot}
    (h : slot' ∈ (run.select slotId).slots) : ∃ slot ∈ run.slots, slot'.id = slot.id ∧
      slot'.startTime = slot.startTime ∧ slot'.endTime = slot.endTime ∧
      slot'.scoreBreakdown = slot.scoreBreakdown := by
  obtain ⟨slot, hslot, rfl⟩ := List.mem_map.mp h
  refine ⟨slot, hslot, ?_⟩
  split
  · exact ⟨rfl, rfl, rfl, rfl⟩
  · exact ⟨rfl, rfl, rfl, rfl⟩

theorem Sound.select (h : Sound run) (slotId : Id) : Sound (run.select slotId) where
  proper slot' hslot' := by
    obtain ⟨slot, hslot, -, hstart, hend, -⟩ := mem_select_slots hslot'
    rw [hstart, hend]
    exact h.proper slot hslot
  busy slot' hslot' q hq hc b hb := by
    obtain ⟨slot, hslot, -, hstart, hend, -⟩ := mem_select_slots hslot'
    rw [Avoids, hstart, hend]
    exact h.busy slot hslot q hq hc b hb
  workload slot' hslot' := by
    obtain ⟨slot, hslot, -, -, -, hbreak⟩ := mem_select_slots hslot'
    rw [hbreak]
    exact h.workload slot hslot

/-- **A run after a transaction** is an old one, one with a slot selected, or a new one. -/
inductive RunAfter (T : Interviews) (ws : List Write) (run' : RecommendationRun) : Prop
  | kept (h : run' ∈ T.runs)
  | selected {run : RecommendationRun} {slotId : Id} (h : run ∈ T.runs) (hsel : .selectSlot slotId ∈ ws)
      (hrun : run' = run.select slotId)
  | added (h : .insertRun run' ∈ ws) (hproposed : Proposed T run')

theorem Legal.runAfter (h : Legal P T ws) {run' : RecommendationRun}
    (hrun' : run' ∈ (Write.force ws T).runs) : RunAfter T ws run' := by
  cases h with
  | edit _ _ hws =>
    rw [Write.runs_force (fun run hrun => (hws _ hrun).elim) fun id hid => (hws _ hid).elim] at hrun'
    exact .kept hrun'
  | @recommend r row run _ _ _ hproposed =>
    have hmem : run' ∈ T.runs ++ [run] := hrun'
    rcases List.mem_append.mp hmem with hmem | hmem
    · exact .kept hmem
    · obtain rfl := List.mem_singleton.mp hmem
      exact .added (by simp) hproposed
  | @book r row e slot =>
    have hmem : run' ∈ T.runs.map (RecommendationRun.select slot) := hrun'
    obtain ⟨run, hrun, rfl⟩ := List.mem_map.mp hmem
    exact .selected hrun (by simp) rfl
  | @release _ _ event => cases event <;> exact .kept hrun'
  | _ => exact .kept hrun'

/-- A run is added to a request that is READY_FOR_SCHEDULING. -/
theorem Legal.of_insertRun (h : Legal P T ws) (hrun : .insertRun run ∈ ws) :
    ∃ row, T.requests run.interviewRequestId = some row ∧ row.status = .readyForScheduling := by
  cases h with
  | @recommend r row run' hrow hst hr =>
    obtain rfl : run = run' := by simpa using hrun
    exact ⟨row, hr ▸ hrow, hst⟩
  | edit _ _ hws => exact (hws _ hrun).elim
  | @release _ _ event => cases event <;> simp [cancelWrites] at hrun
  | _ => simp at hrun

/-- All runs are as the engine has computed them. -/
def RunsSound (T : Interviews) : Prop := ∀ run ∈ T.runs, Sound run

theorem Step.runsSound (h : Step P T T') (hR : RunsSound T) : RunsSound T' := by
  obtain ⟨ws, hlegal, happ⟩ := h
  obtain rfl := Write.applyAll_eq_force happ
  intro run' hrun'
  cases hlegal.runAfter hrun' with
  | kept h => exact hR run' h
  | selected h _ hrun =>
    rw [hrun]
    exact (hR _ h).select _
  | added _ hproposed => exact hproposed.sound

/-- All events end after they start. -/
def EventsProper (T : Interviews) : Prop := ∀ e ∈ T.events, e.startTime < e.endTime

/-- **An event after a transaction** is an old one, maybe cancelled, or the one that was booked. -/
theorem Legal.eventAfter (h : Legal P T ws) {e' : InterviewEvent} (he' : e' ∈ (Write.force ws T).events) :
    (∃ e ∈ T.events, e' = e ∨ ∃ i, e' = e.cancel i) ∨
      .insertEvent e' ∈ ws ∧ ∃ slot, Takes T e' slot := by
  cases h with
  | edit _ _ hws =>
    rw [(edited_force hws).events] at he'
    exact .inl ⟨e', he', .inl rfl⟩
  | @book r row e slot _ _ _ _ htakes =>
    have hmem : e' ∈ T.events ++ [e] := he'
    rcases List.mem_append.mp hmem with hmem | hmem
    · exact .inl ⟨e', hmem, .inl rfl⟩
    · obtain rfl := List.mem_singleton.mp hmem
      exact .inr ⟨by simp, slot, htakes⟩
  | @release r row event st =>
    cases event with
    | none => exact .inl ⟨e', he', .inl rfl⟩
    | some e₀ =>
      have hmem : e' ∈ T.events.map (InterviewEvent.cancel e₀.id) := he'
      obtain ⟨e, he, rfl⟩ := List.mem_map.mp hmem
      exact .inl ⟨e, he, .inr ⟨_, rfl⟩⟩
  | _ => exact .inl ⟨e', he', .inl rfl⟩

theorem cancel_times (e : InterviewEvent) (i : Id) :
    (e.cancel i).startTime = e.startTime ∧ (e.cancel i).endTime = e.endTime := by
  unfold InterviewEvent.cancel
  split <;> exact ⟨rfl, rfl⟩

theorem Step.eventsProper (h : Step P T T') (hR : RunsSound T) (hE : EventsProper T) :
    EventsProper T' := by
  obtain ⟨ws, hlegal, happ⟩ := h
  obtain rfl := Write.applyAll_eq_force happ
  intro e' he'
  rcases hlegal.eventAfter he' with ⟨e, he, rfl | ⟨i, rfl⟩⟩ | ⟨-, slotId, htakes⟩
  · exact hE e' he
  · rw [(cancel_times e i).1, (cancel_times e i).2]
    exact hE e he
  · obtain ⟨run, hlatest, -, slot, hslot, -, hstart, hend⟩ := htakes
    rw [hstart, hend]
    exact (hR run hlatest.1).proper slot hslot

/-! ### The panel of a run -/

/-- A request that can no longer be edited stays so. -/
theorem Step.not_editable (hT : WellFormed T) (h : Step P T T') {x : Id} {row : InterviewRequest}
    (hrow : T.requests x = some row) (hst : row.status ∉ editableStatuses) :
    ∃ row', T'.requests x = some row' ∧ row'.status ∉ editableStatuses := by
  obtain ⟨ws, hlegal, happ⟩ := id h
  obtain ⟨row', hrow', -⟩ := Write.status_applyAll happ hrow
  refine ⟨row', hrow', ?_⟩
  rcases h.transition hT hrow' with ⟨hnone, -⟩ | ⟨row₀, hrow₀, htr⟩
  · rw [hrow] at hnone
    simp at hnone
  rw [hrow, Option.some.injEq] at hrow₀
  subst hrow₀
  cases htr with
  | kept hs => rwa [hs]
  | submitted _ hs' => simp [hs', editableStatuses]
  | scheduled _ hs' => rcases hs' with hs' | hs' <;> simp [hs', editableStatuses]
  | resumed _ hs' => simp [hs', editableStatuses]
  | reopened _ _ hs' => simp [hs', editableStatuses]
  | booked _ hs' => simp [hs', editableStatuses]
  | released hs => rcases hs with ⟨-, hs'⟩ | ⟨-, -, hs'⟩ <;> simp [hs', editableStatuses]
  | completed _ hs' => simp [hs', editableStatuses]

/-- The panel of a request that cannot be edited stays. -/
theorem Step.participants (h : Step P T T') {x : Id} {row : InterviewRequest}
    (hrow : T.requests x = some row) (hst : row.status ∉ editableStatuses) :
    T'.participants x = T.participants x := by
  obtain ⟨ws, hlegal, happ⟩ := h
  obtain rfl := Write.applyAll_eq_force happ
  cases hlegal with
  | @create new ps =>
    have hv := (Write.applyAll_cons_eq_some.mp happ).1
    have hne : x ≠ new.id := by
      rintro rfl
      simp [Write.violates, hrow] at hv
    simp [Write.apply, hne]
  | @edit r row₀ _ hrow₀ hs hws =>
    refine (edited_force hws).participants x ?_
    rintro rfl
    rw [hrow, Option.some.injEq] at hrow₀
    exact hst (hrow₀ ▸ hs)
  | @release _ _ event => cases event <;> rfl
  | _ => rfl

/-- The request of the run has a panel, which can no longer be edited. -/
structure Staffed (T : Interviews) (run : RecommendationRun) : Prop where
  panel : ∃ p ∈ T.participants run.interviewRequestId, p.roleInInterview = .panelist
  locked : ∃ row, T.requests run.interviewRequestId = some row ∧ row.status ∉ editableStatuses

def RunsStaffed (T : Interviews) : Prop := ∀ run ∈ T.runs, Staffed T run

theorem Step.staffed (hT : WellFormed T) (h : Step P T T') {r : Id} (hr : run.interviewRequestId = r)
    (hpanel : ∃ p ∈ T.participants r, p.roleInInterview = .panelist) {row : InterviewRequest}
    (hrow : T.requests r = some row) (hst : row.status ∉ editableStatuses) : Staffed T' run where
  panel := by rw [hr, h.participants hrow hst]; exact hpanel
  locked := by rw [hr]; exact h.not_editable hT hrow hst

theorem Step.runsStaffed (hT : WellFormed T) (h : Step P T T') (hR : RunsStaffed T) :
    RunsStaffed T' := by
  obtain ⟨ws, hlegal, happ⟩ := id h
  have hforce := Write.applyAll_eq_force happ
  intro run' hrun'
  rw [hforce] at hrun'
  cases hlegal.runAfter hrun' with
  | kept hmem =>
    obtain ⟨hpanel, row, hrow, hst⟩ := hR run' hmem
    exact h.staffed hT rfl hpanel hrow hst
  | @selected run slotId hmem _ hrun =>
    obtain ⟨hpanel, row, hrow, hst⟩ := hR run hmem
    exact h.staffed hT (by rw [hrun]; rfl) hpanel hrow hst
  | added hmem hproposed =>
    obtain ⟨row, hrow, hst⟩ := hlegal.of_insertRun hmem
    exact h.staffed hT rfl hproposed.panel hrow (by simp [hst, editableStatuses])

end InterviewScheduler.Lifecycle
