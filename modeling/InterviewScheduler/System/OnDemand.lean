import InterviewScheduler.Interviews.SendReminder
import InterviewScheduler.System.Reminders

/-! # Reminders on demand

An administrator may have a reminder sent as well (`send_reminder_now`), which looks at no REMINDER row but
writes one. With such reminders between the runs of `process_due_reminders` the script still sends at most
once for an event, and not at all after a reminder on demand (`reminders_counted`). -/

namespace InterviewScheduler.System

open InterviewScheduler.Engine InterviewScheduler.Core InterviewScheduler.Effects
open InterviewScheduler.Notifications InterviewScheduler.Interviews

variable {pf : Platform} {minutes : ℤ} {w w₁ w' : World} {α β : Type} {stored ids : List Id}

/-! ### One reminder -/

/-- A reminder that was sent on demand: for which request, and the event that was found. -/
structure ReminderNow where
  requestId : Id
  eventId : Id

/-- The call returns, in a session of its own and among the other activity. -/
inductive ReminderNow.Takes (pf : Platform) (now : ReminderNow) (w w' : World) : Prop
  | intro {s₁ s₂ s₃ : Session} {w₁ w₂ : World} {request : InterviewRequest} {event : InterviewEvent}
      {out : ReminderSent}
      (hload : Runs machine.amid (Amid Quiet) (load now.requestId) {} w (.ok request) s₁ w₁)
      (hfind : Runs machine.amid (Amid Quiet) (Booking.getConfirmedEvent now.requestId) s₁ w₁
        (.ok (some event)) s₂ w₂)
      (hevent : event.id = now.eventId)
      (hsend : Runs machine.amid (Amid Quiet) (remindOf pf now.requestId request event) s₂ w₂ (.ok out) s₃ w')

/-- That is what every call is that returns. -/
theorem sent_iff {r : Id} : (∃ now : ReminderNow, now.requestId = r ∧ now.Takes pf w w') ↔
    ∃ out s', Runs machine.amid (Amid Quiet) (sendReminderNow pf r) {} w (.ok out) s' w' := by
  constructor
  · rintro ⟨now, rfl, hload, hfind, -, hsend⟩
    exact ⟨_, _, hload.bind (hfind.bind ((Runs.orRaise rfl).bind hsend))⟩
  · rintro ⟨out, s', h⟩
    obtain ⟨request, s₁, w₁, hload, h⟩ := h.of_bind
    obtain ⟨found, s₂, w₂, hfind, h⟩ := h.of_bind
    obtain ⟨event, s₃, w₃, hevent, h⟩ := h.of_bind
    cases found with
    | none => cases hevent
    | some e =>
      cases hevent
      exact ⟨⟨r, event.id⟩, rfl, .intro hload hfind rfl h⟩

/-- What a part adds, if it returns. -/
theorem adds_then {p : M α} {f : α → M β} {old more : List Id}
    (hp : wp reminding p (Adds stored old) (stored, []))
    (hf : ∀ a, wp reminding (f a) (Adds (stored ++ old) more) (stored ++ old, [])) :
    wp reminding (p >>= f) (Adds stored (old ++ more)) (stored, []) := by
  refine wp_bind (wp_mono hp fun r v h => ?_)
  cases r with
  | error e =>
    intro b hb
    cases hb
  | ok a =>
    rw [h a rfl]
    refine wp_mono (hf a) fun r v h b hb => ?_
    rw [h b hb, List.append_assoc]

theorem adds_nothing {a : α} : wp reminding (pure a) (Adds stored []) (stored, []) := by
  refine wp_pure fun b _ => ?_
  rw [List.append_nil]

theorem adds_load {r : Id} : wp reminding (load r) (Adds stored []) (stored, []) := by
  refine adds_bind (fun _ _ h => h) fun found => wp_orRaise (fun _ b hb => ?_) fun row _ b _ => ?_
  · cases hb
  · rw [List.append_nil]

theorem adds_getConfirmedEvent {r : Id} :
    wp reminding (Booking.getConfirmedEvent r) (Adds stored []) (stored, []) := by
  refine wp_perform trivial fun x v h => ?_
  cases x with
  | error e =>
    intro b hb
    cases hb
  | ok found =>
    obtain rfl : v = (stored, []) := h
    intro b _
    rw [List.append_nil]

theorem adds_remindOf {r : Id} {request : InterviewRequest} {event : InterviewEvent} :
    wp reminding (remindOf pf r request event) (Adds stored [event.id]) (stored, []) := by
  refine adds_bind (fun _ _ h => h) fun parts => ?_
  have hemails : wp reminding (emails parts) (Adds stored []) (stored, []) := by
    refine wp_bind (wp_orRaise (fun _ b hb => ?_) fun candidate _ => adds_nothing)
    cases hb
  refine adds_then hemails fun x => ?_
  rw [List.append_nil]
  exact adds_then adds_dispatch fun status => adds_nothing

/-- The rows that a completed part has added. -/
theorem reminded_of_runs {p : M α} {s s' : Session} {a : α}
    (h : Runs machine.amid (Amid Quiet) p s w (.ok a) s' w')
    (hp : wp reminding p (Adds (remindedIds w.db) ids) (remindedIds w.db, []))
    (hs : s.side.flatMap reminds = []) :
    remindedIds w'.db = remindedIds w.db ++ ids ∧ s'.side.flatMap reminds = [] := by
  have hsees : SeesReminders (remindedIds w.db, []) s w := ⟨rfl, hs.symm⟩
  obtain ⟨⟨v, hv, hstored, hstaged⟩, -⟩ := h.sound faithful_reminding (I := fun _ _ => True)
    (fun _ _ _ _ _ _ _ _ _ _ _ _ _ => trivial) hsees hp trivial
  rw [hv a rfl] at hstored hstaged
  exact ⟨hstored.symm, hstaged.symm⟩

/-- **A reminder on demand adds one row**, for the event that it has found. -/
theorem reminded_of_now {now : ReminderNow} (h : now.Takes pf w w') :
    remindedIds w'.db = remindedIds w.db ++ [now.eventId] := by
  obtain ⟨hload, hfind, rfl', hsend⟩ := h
  obtain ⟨h₁, hs₁⟩ := reminded_of_runs hload adds_load rfl
  obtain ⟨h₂, hs₂⟩ := reminded_of_runs hfind adds_getConfirmedEvent hs₁
  obtain ⟨h₃, -⟩ := reminded_of_runs hsend adds_remindOf hs₂
  rw [h₃, h₂, h₁, List.append_nil, List.append_nil, rfl']

/-! ### Any number of them -/

/-- What is done about reminders: a run of the script, or a reminder on demand. -/
abbrev Act := ReminderRun ⊕ ReminderNow

/-- Acts, none of which begins before the one before it has ended. -/
inductive Acts (pf : Platform) (minutes : ℤ) : World → List Act → World → Prop
  | nil {w w' : World} (hquiet : Quiet w w') : Acts pf minutes w [] w'
  | script {w w₁ w' : World} {run : ReminderRun} {acts : List Act} (hrun : run.Takes pf minutes w w₁)
      (hrest : Acts pf minutes w₁ acts w') : Acts pf minutes w (.inl run :: acts) w'
  | now {w w₁ w' : World} {now : ReminderNow} {acts : List Act} (hnow : now.Takes pf w w₁)
      (hrest : Acts pf minutes w₁ acts w') : Acts pf minutes w (.inr now :: acts) w'

/-- The reminders on demand for an event. -/
def demanded (acts : List Act) (id : Id) : ℕ := (acts.filterMap Sum.getRight?).countP (·.eventId = id)

/-- The REMINDER rows of an event. -/
def rows (w : World) (id : Id) : ℕ := (remindedIds w.db).count id

/-- The script adds no row for an event that has one, and one at most. -/
theorem rows_of_run {run : ReminderRun} (h : run.Takes pf minutes w w') (id : Id) :
    rows w id ≤ rows w' id ∧ (0 < rows w id → rows w' id = rows w id) ∧ rows w' id ≤ max 1 (rows w id) := by
  obtain ⟨ids, hperm, hadded, hseen, hkeyed, -, -⟩ := reminded_of_run h
  have hnodup : ids.Nodup := hperm.nodup_iff.mpr (hkeyed.sublist (List.filter_sublist.map _))
  have hfresh : ids.count id ≤ 1 := List.nodup_iff_count_le_one.mp hnodup id
  have hnew : 0 < rows w id → ids.count id = 0 := by
    intro hold
    rw [List.count_eq_zero]
    intro hmem
    obtain ⟨e, he, rfl⟩ := List.mem_map.mp (hperm.mem_iff.mp hmem)
    have hdue := of_decide_eq_true (List.mem_filter.mp he).2
    rw [hseen] at hdue
    exact hdue.2.2.2 (List.count_pos_iff.mp hold)
  have hsum : rows w' id = rows w id + ids.count id := by
    unfold rows
    rw [hadded, List.count_append]
  refine ⟨by omega, fun hold => ?_, ?_⟩
  · have hzero := hnew hold
    omega
  · by_cases hold : 0 < rows w id
    · have hzero := hnew hold
      omega
    · omega

theorem rows_of_now {now : ReminderNow} (h : now.Takes pf w w') (id : Id) :
    rows w' id = rows w id + if now.eventId = id then 1 else 0 := by
  unfold rows
  rw [reminded_of_now h, List.count_append, List.count_singleton]
  simp

theorem demanded_script {run : ReminderRun} {acts : List Act} {id : Id} :
    demanded (.inl run :: acts) id = demanded acts id := rfl

theorem demanded_now {now : ReminderNow} {acts : List Act} {id : Id} :
    demanded (.inr now :: acts) id = demanded acts id + if now.eventId = id then 1 else 0 := by
  have hcons : (.inr now :: acts : List Act).filterMap Sum.getRight? =
      now :: acts.filterMap Sum.getRight? := List.filterMap_cons_some rfl
  unfold demanded
  rw [hcons, List.countP_cons]
  simp

namespace Acts

variable {acts : List Act}

/-- An event that has a row gets no other than those on demand. -/
theorem rows_of_reminded (h : Acts pf minutes w acts w') {id : Id} (hid : 0 < rows w id) :
    rows w' id = rows w id + demanded acts id := by
  induction h with
  | nil hquiet => exact congrArg (List.count id) hquiet.reminded
  | script hrun _ ih =>
    obtain ⟨-, hsame, -⟩ := rows_of_run hrun id
    rw [demanded_script, ih (by rw [hsame hid]; exact hid), hsame hid]
  | now hnow _ ih =>
    have hadd := rows_of_now hnow id
    rw [demanded_now, ih (by omega), hadd]
    omega

theorem rows_ge (h : Acts pf minutes w acts w') (id : Id) : rows w id + demanded acts id ≤ rows w' id := by
  induction h with
  | nil hquiet => exact (congrArg (List.count id) hquiet.reminded).ge
  | script hrun _ ih =>
    obtain ⟨hle, -, -⟩ := rows_of_run hrun id
    rw [demanded_script]
    omega
  | now hnow _ ih =>
    have hadd := rows_of_now hnow id
    rw [demanded_now]
    omega

/-- The script adds one row at most. -/
theorem rows_le (h : Acts pf minutes w acts w') {id : Id} (hid : rows w id = 0) :
    rows w' id ≤ demanded acts id + 1 := by
  induction h with
  | nil hquiet =>
    have hsame := congrArg (List.count id) hquiet.reminded
    unfold rows at hid ⊢
    omega
  | @script w w₁ w' run acts hrun hrest ih =>
    obtain ⟨-, -, hone⟩ := rows_of_run hrun id
    rw [demanded_script]
    by_cases hzero : rows w₁ id = 0
    · exact ih hzero
    · have hrows := hrest.rows_of_reminded (Nat.pos_of_ne_zero hzero)
      omega
  | @now w w₁ w' now acts hnow hrest ih =>
    have hadd := rows_of_now hnow id
    rw [demanded_now]
    by_cases heq : now.eventId = id
    · rw [if_pos heq] at hadd ⊢
      have hpos : 0 < rows w₁ id := by omega
      have hrows := hrest.rows_of_reminded hpos
      omega
    · rw [if_neg heq] at hadd ⊢
      exact ih (by omega)

end Acts

end InterviewScheduler.System
