import InterviewScheduler.Booking.Checks
import InterviewScheduler.Lifecycle.Runs

/-! # The booking of a request

A request that is BOOKED or COMPLETED holds a CONFIRMED event (`Held`), and the event takes the time of
the one slot that is selected in the latest run of the request (`Settled`). Old runs keep the slots that
were selected in them: a request becomes RECOMMENDED with a new run only, in which none is. -/

namespace InterviewScheduler.Lifecycle

open InterviewScheduler.Engine InterviewScheduler.Core
open InterviewScheduler.Booking (Timely)

variable {P : Interviews → Id → Prop} {T T' : Interviews} {ws : List Write} {x : Id}

/-! ### The event -/

/-- A request that is BOOKED or COMPLETED holds a CONFIRMED event. -/
def Held (T : Interviews) : Prop :=
  ∀ x row, T.requests x = some row → row.status = .booked ∨ row.status = .completed → Confirmed T x

/-! ### The slot -/

/-- The event takes the time of the only slot that is selected in the latest run of the request. -/
structure Selected (T : Interviews) (x : Id) (run : RecommendationRun) (slot : RecommendedSlot)
    (e : InterviewEvent) : Prop where
  latest : IsLatest T run
  request : run.interviewRequestId = x
  selected : run.slots.filter (·.isSelected) = [slot]
  event : e ∈ T.events
  confirmed : e.ConfirmedFor x
  start : slot.startTime = e.startTime
  stop : slot.endTime = e.endTime

/-- **Slots, runs, status and event agree.** -/
structure Settled (T : Interviews) : Prop where
  distinct : ∀ run ∈ T.runs, (run.slots.map (·.id)).Nodup
  fresh : ∀ x row, T.requests x = some row → row.status = .recommended →
    ∀ run, IsLatest T run → run.interviewRequestId = x → run.Unselected
  held : ∀ x row, T.requests x = some row → row.status = .booked ∨ row.status = .completed →
    ∃ run slot e, Selected T x run slot e

theorem isLatest_congr {run : RecommendationRun} (h : T'.runs = T.runs) :
    IsLatest T' run ↔ IsLatest T run := by
  unfold IsLatest
  rw [h]

/-- Neither runs nor events change, and no request becomes RECOMMENDED or BOOKED. -/
theorem Settled.of_status (h : Settled T) (hruns : T'.runs = T.runs) (hevents : T'.events = T.events)
    (hst : ∀ x row', T'.requests x = some row' → ∃ row, T.requests x = some row ∧
      (row'.status = row.status ∨ row'.status = .completed ∧ row.status = .booked) ∨
      row'.status ∉ [RequestStatus.recommended, .booked, .completed]) : Settled T' where
  distinct := by rw [hruns]; exact h.distinct
  fresh x row' hrow' hs' run hrun := by
    rw [isLatest_congr hruns] at hrun
    obtain ⟨row, ⟨hrow, hs | ⟨hs, -⟩⟩ | hnot⟩ := hst x row' hrow'
    · exact h.fresh x row hrow (hs ▸ hs') run hrun
    · rw [hs'] at hs
      simp at hs
    · simp [hs'] at hnot
  held x row' hrow' hs' := by
    have hold : ∃ run slot e, Selected T x run slot e := by
      obtain ⟨row, ⟨hrow, hs | ⟨-, hs⟩⟩ | hnot⟩ := hst x row' hrow'
      · exact h.held x row hrow (hs ▸ hs')
      · exact h.held x row hrow (.inl hs)
      · rcases hs' with hs' | hs' <;> simp [hs'] at hnot
    obtain ⟨run, slot, e, hsel⟩ := hold
    exact ⟨run, slot, e, (isLatest_congr hruns).mpr hsel.latest, hsel.request, hsel.selected,
      hevents ▸ hsel.event, hsel.confirmed, hsel.start, hsel.stop⟩

/-! ### One transaction -/

/-- The slots of each run have ids of their own, after a transaction too. -/
theorem distinct_applyAll (h : ∀ run ∈ T.runs, (run.slots.map (·.id)).Nodup)
    (happ : Write.applyAll ws T = some T') : ∀ run ∈ T'.runs, (run.slots.map (·.id)).Nodup := by
  induction ws generalizing T with
  | nil =>
    simp only [Write.applyAll, Option.some.injEq] at happ
    exact happ ▸ h
  | cons y ys ih =>
    obtain ⟨hv, happ⟩ := Write.applyAll_cons_eq_some.mp happ
    refine ih (fun run hrun => ?_) happ
    cases y with
    | insertRun new =>
      rcases List.mem_append.mp hrun with hrun | hrun
      · exact h run hrun
      · obtain rfl := List.mem_singleton.mp hrun
        simp only [Write.violates, Bool.or_eq_false_iff, Bool.not_eq_false', decide_eq_true_eq] at hv
        exact hv.1.2
    | selectSlot slotId =>
      obtain ⟨run₀, hrun₀, rfl⟩ := List.mem_map.mp hrun
      have hids : (run₀.select slotId).slots.map (·.id) = run₀.slots.map (·.id) :=
        congrArg RunKey.slotIds (run₀.select_key slotId)
      rw [hids]
      exact h run₀ hrun₀
    | _ => exact h run hrun

/-- A slot is selected in a run in which none was. -/
theorem filter_select {run : RecommendationRun} (hrun : run.Unselected)
    (hnodup : (run.slots.map (·.id)).Nodup) {slot : RecommendedSlot} (hslot : slot ∈ run.slots) :
    (run.select slot.id).slots.filter (·.isSelected) = [{ slot with isSelected := true }] := by
  obtain ⟨before, after, hsplit⟩ := List.append_of_mem hslot
  have hothers : ∀ other ∈ before ++ after, other.isSelected = false ∧ other.id ≠ slot.id := by
    intro other hother
    have hmem : other ∈ run.slots := by
      rw [hsplit]
      rcases List.mem_append.mp hother with h | h
      · exact List.mem_append_left _ h
      · exact List.mem_append_right _ (List.mem_cons_of_mem _ h)
    refine ⟨hrun other hmem, fun heq => ?_⟩
    rw [hsplit, List.map_append, List.map_cons, List.nodup_middle] at hnodup
    refine (List.nodup_cons.mp hnodup).1 ?_
    rw [← List.map_append, ← heq]
    exact List.mem_map_of_mem hother
  have hnone : ∀ l : List RecommendedSlot, (∀ other ∈ l, other ∈ before ++ after) →
      (l.map fun s => if s.id = slot.id then { s with isSelected := true } else s).filter
        (·.isSelected) = [] := by
    intro l hl
    rw [List.filter_eq_nil_iff]
    intro other hother
    obtain ⟨s, hs, rfl⟩ := List.mem_map.mp hother
    obtain ⟨hsel, hid⟩ := hothers s (hl s hs)
    simp [hid, hsel]
  rw [RecommendationRun.select, hsplit]
  simp only [List.map_append, List.map_cons, List.filter_append, if_true]
  rw [hnone before fun _ h => List.mem_append_left _ h, List.filter_cons_of_pos rfl,
    hnone after fun _ h => List.mem_append_right _ h]
  rfl

/-- What is settled of a request that the transaction does not touch. -/
theorem Selected.frame {run : RecommendationRun} {slot : RecommendedSlot} {e : InterviewEvent}
    (h : Selected T x run slot e) (hrun : run ∈ T'.runs)
    (htop : ∀ run' ∈ T'.runs, run'.interviewRequestId = x → ∃ run₀ ∈ T.runs,
      run₀.interviewRequestId = x ∧ run₀.generatedAt = run'.generatedAt) (he : e ∈ T'.events) :
    Selected T' x run slot e where
  latest := by
    refine ⟨hrun, fun run' hrun' hreq => ?_⟩
    obtain ⟨run₀, hrun₀, hreq₀, heq⟩ := htop run' hrun' (hreq.trans h.request)
    rw [← heq]
    exact h.latest.2 run₀ hrun₀ (hreq₀.trans h.request.symm)
  request := h.request
  selected := h.selected
  event := he
  confirmed := h.confirmed
  start := h.start
  stop := h.stop

/-- A run is added, with which the request becomes RECOMMENDED. -/
theorem Settled.recommend (h : Settled T) {r : Id} {row : InterviewRequest} {run : RecommendationRun}
    (hrow : T.requests r = some row) (hrun : run.interviewRequestId = r) (hnew : run.Unselected)
    (hlast : ∀ run' ∈ T.runs, run'.generatedAt < run.generatedAt)
    (hdistinct : ∀ run' ∈ T.runs ++ [run], (run'.slots.map (·.id)).Nodup) :
    Settled (Write.force [.insertRun run, .setStatus r .recommended] T) where
  distinct := hdistinct
  fresh x row' hrow' hs' run' hlatest hreq := by
    have hmem : run' ∈ T.runs ++ [run] := hlatest.1
    rcases of_setStatus (T := Write.apply T (.insertRun run)) hrow hrow' with ⟨rfl, rfl⟩ | ⟨hx, hrow'⟩
    · rcases List.mem_append.mp hmem with hold | hlst
      · have h₁ := hlast run' hold
        have h₂ := hlatest.2 run (List.mem_append_right _ (List.mem_singleton.mpr rfl))
          (hrun.trans hreq.symm)
        exact absurd h₁ (not_lt.mpr h₂)
      · rw [List.mem_singleton.mp hlst]
        exact hnew
    · rcases List.mem_append.mp hmem with hold | hlst
      · refine h.fresh x row' hrow' hs' run' ⟨hold, fun y hy hyr => ?_⟩ hreq
        exact hlatest.2 y (List.mem_append_left _ hy) hyr
      · rw [List.mem_singleton.mp hlst] at hreq
        exact absurd (hreq.symm.trans hrun) hx
  held x row' hrow' hs' := by
    rcases of_setStatus (T := Write.apply T (.insertRun run)) hrow hrow' with ⟨rfl, rfl⟩ | ⟨hx, hrow'⟩
    · simp at hs'
    · obtain ⟨run', slot, e, hsel⟩ := h.held x row' hrow' hs'
      refine ⟨run', slot, e, hsel.frame (List.mem_append_left _ hsel.latest.1) (fun y hy hyx => ?_)
        hsel.event⟩
      rcases List.mem_append.mp hy with hy | hy
      · exact ⟨y, hy, hyx, rfl⟩
      · rw [List.mem_singleton.mp hy] at hyx
        exact absurd (hyx.symm.trans hrun) hx

/-- The slot of one run is in no other. -/
theorem select_eq_self (hT : WellFormed T) {run run' : RecommendationRun} {slot : RecommendedSlot}
    (hrun : run ∈ T.runs) (hslot : slot ∈ run.slots) (hrun' : run' ∈ T.runs)
    (hne : run'.interviewRequestId ≠ run.interviewRequestId) : run'.select slot.id = run' := by
  have hslots : run'.slots.map (fun s => if s.id = slot.id then { s with isSelected := true } else s) =
      run'.slots.map id := by
    refine List.map_congr_left fun s hs => ?_
    have hid : s.id ≠ slot.id := fun heq =>
      hne (congrArg RecommendationRun.interviewRequestId
        (hT.runs.slot run' hrun' run hrun s hs slot hslot heq).1)
    rw [if_neg hid, id]
  rw [RecommendationRun.select, hslots, List.map_id]

/-- **A booking** takes the time of a slot of the latest run, which it selects. -/
theorem Settled.book (hT : WellFormed T) (h : Settled T) {r slotId : Id} {row : InterviewRequest}
    {e : InterviewEvent} (hrow : T.requests r = some row) (hst : row.status = .recommended)
    (he : e.ConfirmedFor r) (htakes : Takes T e slotId)
    (hdistinct : ∀ run ∈ T.runs.map (RecommendationRun.select slotId),
      (run.slots.map (·.id)).Nodup) :
    Settled (Write.force [.insertEvent e, .setStatus r .booked, .selectSlot slotId] T) := by
  obtain ⟨run, hlatest, hreq, slot, hslot, rfl, hstart, hstop⟩ := htakes
  have hreq : run.interviewRequestId = r := hreq.trans he.1
  have hfresh := h.fresh r row hrow hst run hlatest hreq
  -- the selection leaves the runs of other requests as they are
  have hother : ∀ run' ∈ T.runs, run'.interviewRequestId ≠ r → run'.select slot.id = run' :=
    fun run' hrun' hne => select_eq_self hT hlatest.1 hslot hrun' (hreq ▸ hne)
  have hback : ∀ run' ∈ T.runs.map (RecommendationRun.select slot.id), ∃ run₀ ∈ T.runs,
      run₀.interviewRequestId = run'.interviewRequestId ∧ run₀.generatedAt = run'.generatedAt := by
    intro run' hrun'
    obtain ⟨run₀, hrun₀, rfl⟩ := List.mem_map.mp hrun'
    exact ⟨run₀, hrun₀, rfl, rfl⟩
  refine ⟨hdistinct, fun x row' hrow' hs' run' hlatest' hreq' => ?_, fun x row' hrow' hs' => ?_⟩
  · rcases of_setStatus (T := Write.apply T (.insertEvent e)) hrow hrow' with ⟨rfl, rfl⟩ | ⟨hx, hrow'⟩
    · simp at hs'
    · obtain ⟨run₀, hrun₀, rfl⟩ := List.mem_map.mp hlatest'.1
      have hne : run₀.interviewRequestId ≠ r := fun heq => hx (hreq'.symm.trans heq)
      rw [hother run₀ hrun₀ hne] at hlatest' hreq' ⊢
      refine h.fresh x row' hrow' hs' run₀ ⟨hrun₀, fun y hy hyr => ?_⟩ hreq'
      exact hlatest'.2 (y.select slot.id) (List.mem_map_of_mem hy) hyr
  · rcases of_setStatus (T := Write.apply T (.insertEvent e)) hrow hrow' with ⟨rfl, rfl⟩ | ⟨hx, hrow'⟩
    · refine ⟨run.select slot.id, { slot with isSelected := true }, e,
        ⟨List.mem_map_of_mem hlatest.1, fun run' hrun' hr => ?_⟩, hreq,
        filter_select hfresh (h.distinct run hlatest.1) hslot,
        List.mem_append_right _ (List.mem_singleton.mpr rfl), he, hstart.symm, hstop.symm⟩
      obtain ⟨run₀, hrun₀, hr₀, ht₀⟩ := hback run' hrun'
      rw [← ht₀]
      exact hlatest.2 run₀ hrun₀ (hr₀.trans hr)
    · obtain ⟨run', slot', e', hsel⟩ := h.held x row' hrow' hs'
      have hne : run'.interviewRequestId ≠ r := fun heq => hx (hsel.request.symm.trans heq)
      have hmem : run' ∈ T.runs.map (RecommendationRun.select slot.id) := by
        have hmem := List.mem_map_of_mem (f := RecommendationRun.select slot.id) hsel.latest.1
        rwa [hother run' hsel.latest.1 hne] at hmem
      refine ⟨run', slot', e', hsel.frame hmem (fun y hy hyx => ?_)
        (List.mem_append_left _ hsel.event)⟩
      obtain ⟨run₀, hrun₀, hr₀, ht₀⟩ := hback y hy
      exact ⟨run₀, hrun₀, hr₀.trans hyx, ht₀⟩

/-- A release cancels the event of one request. -/
theorem Settled.release (hT : WellFormed T) (h : Settled T) {r : Id} {row : InterviewRequest}
    {event : Option InterviewEvent} {st : RequestStatus} (hrow : T.requests r = some row)
    (hst : Releases row.status st) (hevent : T.events.find? (fun e => e.ConfirmedFor r) = event) :
    Settled (Write.force (cancelWrites event ++ [.setStatus r st]) T) := by
  have hruns : (Write.force (cancelWrites event ++ [.setStatus r st]) T).runs = T.runs := by
    cases event <;> rfl
  have hrows : ∀ x row', (Write.force (cancelWrites event ++ [.setStatus r st]) T).requests x =
      some row' → (x = r ∧ row'.status = st) ∨ (x ≠ r ∧ T.requests x = some row') := by
    intro x row' hrow'
    have hcancelled : (Write.force (cancelWrites event) T).requests = T.requests := by
      cases event <;> rfl
    rw [Write.force, List.foldl_append] at hrow'
    rcases of_setStatus (T := Write.force (cancelWrites event) T) (by rw [hcancelled]; exact hrow)
      hrow' with ⟨hx, rfl⟩ | ⟨hx, hrow'⟩
    · exact .inl ⟨hx, rfl⟩
    · rw [hcancelled] at hrow'
      exact .inr ⟨hx, hrow'⟩
  have hafter : st ∉ [RequestStatus.recommended, .booked, .completed] := by
    rcases hst with ⟨-, rfl⟩ | ⟨-, -, rfl⟩ <;> simp
  -- the events of other requests are kept
  have hkept : ∀ x ≠ r, ∀ e ∈ T.events, e.ConfirmedFor x →
      e ∈ (Write.force (cancelWrites event ++ [.setStatus r st]) T).events := by
    intro x hx e he hc
    cases event with
    | none => exact he
    | some e₀ =>
      have hmem := List.mem_of_find?_eq_some hevent
      have hc₀ : e₀.ConfirmedFor r := by simpa using List.find?_some hevent
      have hid : e.id ≠ e₀.id := fun heq => by
        rw [hT.events_nodup e he e₀ hmem heq] at hc
        exact hx (hc.1.symm.trans hc₀.1)
      have hsame : e.cancel e₀.id = e := if_neg hid
      have := List.mem_map_of_mem (f := InterviewEvent.cancel e₀.id) he
      rwa [hsame] at this
  refine ⟨by rw [hruns]; exact h.distinct, fun x row' hrow' hs' run hlatest hreq => ?_,
    fun x row' hrow' hs' => ?_⟩
  · rw [isLatest_congr hruns] at hlatest
    rcases hrows x row' hrow' with ⟨-, hs⟩ | ⟨-, hrow'⟩
    · exact absurd (hs ▸ hs' ▸ by simp) hafter
    · exact h.fresh x row' hrow' hs' run hlatest hreq
  · rcases hrows x row' hrow' with ⟨-, hs⟩ | ⟨hx, hrow'⟩
    · rcases hs' with hs' | hs' <;> exact absurd (hs ▸ hs' ▸ by simp) hafter
    · obtain ⟨run, slot, e, hsel⟩ := h.held x row' hrow' hs'
      refine ⟨run, slot, e, hsel.frame (hruns ▸ hsel.latest.1) (fun y hy hyx => ?_)
        (hkept x hx e hsel.event hsel.confirmed)⟩
      exact ⟨y, hruns ▸ hy, hyx, rfl⟩

/-- The status of one request is set, to one in which it holds no slot. -/
theorem Settled.setStatus (h : Settled T) {r : Id} {row : InterviewRequest} {st : RequestStatus}
    (hrow : T.requests r = some row) (hruns : T'.runs = T.runs) (hevents : T'.events = T.events)
    (hrequests : T'.requests = (Write.apply T (.setStatus r st)).requests)
    (hst : st ∉ [RequestStatus.recommended, .booked, .completed]) : Settled T' := by
  refine h.of_status hruns hevents fun x row' hrow' => ?_
  rw [hrequests] at hrow'
  rcases of_setStatus hrow hrow' with ⟨rfl, rfl⟩ | ⟨-, hrow'⟩
  · exact ⟨row, .inr hst⟩
  · exact ⟨row', .inl ⟨hrow', .inl rfl⟩⟩

/-- **Every transaction keeps the requests settled**, when the runs that it adds are the latest ones and
have no selected slot. -/
theorem Legal.settled (hT : WellFormed T) (hlegal : Legal P T ws)
    (happ : Write.applyAll ws T = some T') (hnew : ∀ run, .insertRun run ∈ ws → run.Unselected)
    (htimely : Timely T') (h : Settled T) : Settled T' := by
  have hdistinct := distinct_applyAll h.distinct happ
  obtain rfl := Write.applyAll_eq_force happ
  cases hlegal with
  | stay => exact h
  | @create new ps hstatus _ =>
    refine h.of_status rfl rfl fun x row' hrow' => ?_
    simp only [Write.force_cons, Write.force_nil, Write.apply, Function.update_apply] at hrow'
    split_ifs at hrow' with hx
    · obtain rfl : new = row' := by simpa using hrow'
      exact ⟨new, .inr (by simp [hstatus])⟩
    · exact ⟨row', .inl ⟨hrow', .inl rfl⟩⟩
  | edit _ _ hws =>
    refine h.of_status (Write.runs_force (fun _ hmem => (hws _ hmem).elim) fun _ hmem =>
      (hws _ hmem).elim) (edited_force hws).events fun x row' hrow' => ?_
    obtain ⟨row, hrow, hs, -⟩ := (edited_force hws).request x row' hrow'
    exact ⟨row, .inl ⟨hrow, .inl hs⟩⟩
  | submit hrow => exact h.setStatus hrow rfl rfl rfl (by simp)
  | @recommend r row run hrow _ hrun _ =>
    have hall : (T.runs ++ [run]).Pairwise fun run run' => run.generatedAt < run'.generatedAt := htimely
    exact h.recommend hrow hrun (hnew run (by simp))
      (fun run' hrun' => (List.pairwise_append.mp hall).2.2 run' hrun' run (by simp)) hdistinct
  | fail hrow => exact h.setStatus hrow rfl rfl rfl (by simp)
  | book hrow hst he _ htakes => exact h.book hT hrow hst he htakes hdistinct
  | reopen hrow => exact h.setStatus hrow rfl rfl rfl (by simp)
  | resume hrow => exact h.setStatus hrow rfl rfl rfl (by simp)
  | release hrow hst hevent => exact h.release hT hrow hst hevent
  | @complete r row outcome notes hrow hst =>
    refine h.of_status rfl rfl fun x row' hrow' => ?_
    have hrow₁ : (Write.apply T (.setOutcome r outcome notes)).requests r =
        some { row with outcome := some outcome, outcomeNotes := notes } := by
      simp [Write.apply, hrow]
    rcases of_setStatus hrow₁ hrow' with ⟨rfl, rfl⟩ | ⟨hx, hrow'⟩
    · exact ⟨row, .inl ⟨hrow, .inr ⟨rfl, hst⟩⟩⟩
    · rcases of_modifyRequest hrow' with ⟨rfl, -⟩ | ⟨-, hrow'⟩
      · exact absurd rfl hx
      · exact ⟨row', .inl ⟨hrow', .inl rfl⟩⟩
  | @recomplete r row outcome notes hrow hst =>
    refine h.of_status rfl rfl fun x row' hrow' => ?_
    rcases of_modifyRequest hrow' with ⟨rfl, row₁, hrow₁, rfl⟩ | ⟨-, hrow'⟩
    · exact ⟨row₁, .inl ⟨hrow₁, .inl rfl⟩⟩
    · exact ⟨row', .inl ⟨hrow', .inl rfl⟩⟩

end InterviewScheduler.Lifecycle
