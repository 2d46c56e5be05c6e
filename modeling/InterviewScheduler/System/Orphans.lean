import InterviewScheduler.System.Generation

/-! # Bookings at the same time

Any number of callers book slots of one request, with locks that may expire or be missing. The partial
unique index lets one of them commit. Every other call raises and leaves nothing behind: no write, and
no calendar event that is neither deleted nor known to a reconciliation task.

The call that has committed returns, as long as the row of its confirmation can be stored. A flush of
that row that fails expires the event of the booking, and then the handler of the failure raises. -/

namespace InterviewScheduler.System

open InterviewScheduler.Engine InterviewScheduler.Core InterviewScheduler.Effects
open InterviewScheduler.Lifecycle InterviewScheduler.Interviews
open InterviewScheduler.Booking (Succeeds bookWrites)

variable {ι : Type} {pf : Platform} {users slots : ι → Id} {r : Id} {T₀ : Interviews}
  {created₀ : List String} {s s' : Session} {w₀ w w' : World}

/-! ### The order of the commits -/

/-- The writes of a history: the commits in their order, each with the call that makes it. -/
def writes (hist : List (ι × List Write)) : List Write := hist.flatMap (·.2)

theorem writes_append (hist : List (ι × List Write)) (i : ι) (ws : List Write) :
    writes (hist ++ [(i, ws)]) = writes hist ++ ws := by simp [writes]

section History

variable [DecidableEq ι]

/-- The writes of one call. -/
def writesOf (i : ι) (hist : List (ι × List Write)) : List Write :=
  writes (hist.filter fun c => c.1 = i)

/-- The tables are what the calls have written, in the order of their commits. -/
def Interleaved (T₀ : Interviews) (loc : ι → Session) (T : Interviews) : Prop :=
  ∃ hist : List (ι × List Write), T = Write.force (writes hist) T₀ ∧
    ∀ j, (loc j).trace.journal = writesOf j hist

theorem writesOf_append (hist : List (ι × List Write)) (i j : ι) (ws : List Write) :
    writesOf j (hist ++ [(i, ws)]) = writesOf j hist ++ if i = j then ws else [] := by
  by_cases hij : i = j
  · simp [writesOf, writes, List.filter_append, hij]
  · simp [writesOf, writes, List.filter_append, hij]

/-- Without the commits of a call that wrote nothing, the writes are the same. -/
theorem writes_others {hist : List (ι × List Write)} {j : ι} (h : writesOf j hist = []) :
    writes (hist.filter fun c => c.1 ≠ j) = writes hist := by
  induction hist with
  | nil => rfl
  | cons c hist ih =>
    by_cases hj : c.1 = j
    · have h' : c.2 = [] ∧ writesOf j hist = [] := by simpa [writesOf, writes, hj] using h
      have hrest := ih h'.2
      simpa [writes, hj, h'.1] using hrest
    · have h' : writesOf j hist = [] := by simpa [writesOf, writes, hj] using h
      have hkept : (c :: hist).filter (fun c => c.1 ≠ j) = c :: hist.filter fun c => c.1 ≠ j :=
        List.filter_cons_of_pos (by simpa using hj)
      rw [hkept]
      exact congrArg (c.2 ++ ·) (ih h')

theorem writesOf_others (i j : ι) (hist : List (ι × List Write)) :
    writesOf i (hist.filter fun c => c.1 ≠ j) = if i = j then [] else writesOf i hist := by
  unfold writesOf
  rw [List.filter_filter]
  by_cases hij : i = j
  · subst hij
    simp [writes]
  · rw [if_neg hij]
    refine congrArg writes (List.filter_congr fun c _ => ?_)
    by_cases hc : c.1 = i
    · simp [hc, hij]
    · simp [hc]

theorem Interleaved.step {loc : ι → Session} {i : ι} {creates C : Prop} {β : Type} {o : Effect β}
    {x : Except Exc β} (h : Interleaved T₀ loc w.db.toInterviews)
    (hm : Move creates C o x (loc i) w s' w') :
    Interleaved T₀ (Function.update loc i s') w'.db.toInterviews := by
  obtain ⟨hist, htables, hjournal⟩ := h
  rcases hm.written with ⟨hidle, hj⟩ | ⟨-, -, T, htx⟩
  · refine ⟨hist, by rw [hidle.tables, htables], ?_⟩
    exact (Function.forall_update_iff loc fun j s => s.trace.journal = writesOf j hist).mpr
      ⟨hj.trans (hjournal i), fun j _ => hjournal j⟩
  · have hj : s'.trace.journal = (loc i).trace.journal ++ (loc i).pending := by rw [htx.trace]; rfl
    refine ⟨hist ++ [(i, (loc i).pending)], ?_, ?_⟩
    · rw [htx.force, writes_append, htables, Write.force, Write.force, Write.force, List.foldl_append]
    · refine (Function.forall_update_iff loc fun j s => s.trace.journal =
        writesOf j (hist ++ [(i, (loc i).pending)])).mpr ⟨?_, fun j hne => ?_⟩
      · rw [writesOf_append, if_pos rfl, hj, hjournal i]
      · rw [writesOf_append, if_neg hne.symm, List.append_nil]
        exact hjournal j

end History

/-! ### What a booking commits -/

/-- The calls of `book` on a request, each of a user and for a slot. -/
def bookings (users slots : ι → Id) (r : Id) (i : ι) : Call := .book (users i) r (slots i)

theorem proved_bookings : Pool.Proved
    (fun i => Notifications.storing False (bookings users slots r i).Sets fun _ _ => True)
    (fun v s => v.1 = s) (fun _ => Succeeds r {}) (started pf (bookings users slots r) w₀) :=
  fun _ => ⟨({}, w₀.db.toInterviews), rfl, succeeds_handle_book ⟨rfl, rfl⟩⟩

section Booking

variable {userId slotId : Id}

/-- An event that is inserted is the one booking of the transaction. -/
theorem booking_of_insertEvent {e : InterviewEvent}
    (hd : Disciplined (Call.book userId r slotId).Sets s) (hmem : .insertEvent e ∈ s.pending) :
    e.ConfirmedFor r ∧ ∃ slot, s.pending = bookWrites e slot := by
  cases hd with
  | quiet h => simp [h] at hmem
  | edit h => exact (h _ hmem).elim
  | @book r' e' slot hmay h he =>
    obtain ⟨rfl, -⟩ := hmay
    rw [h] at hmem
    obtain rfl : e = e' := by simpa using hmem
    exact ⟨he, slot, by rw [h, bookWrites, he.1]⟩
  | @release _ event _ _ _ _ h =>
    rw [h] at hmem
    cases event <;> simp [cancelLooked] at hmem
  | _ => simp_all

theorem not_cancelEvent (hd : Disciplined (Call.book userId r slotId).Sets s) (id : Id) :
    .cancelEvent id ∉ s.pending := by
  intro hmem
  obtain ⟨r', st, hset, hst⟩ := hd.of_cancelEvent hmem
  obtain ⟨-, ⟨-, rfl⟩, -⟩ := hd.of_setStatus hset
  simp at hst

/-- The index lets no booking be committed on a request that has a CONFIRMED event. -/
theorem not_confirmed_of_insertEvent {e : InterviewEvent} {slot : Id} {T : Interviews}
    (hpending : s.pending = bookWrites e slot) (he : e.ConfirmedFor r)
    (happ : Write.applyAll s.pending w.db.toInterviews = some T) :
    ¬ Confirmed w.db.toInterviews r := by
  rintro ⟨e', hmem, he'⟩
  rw [hpending, bookWrites] at happ
  obtain ⟨hviolates, -⟩ := Write.applyAll_cons_eq_some.mp happ
  simp only [Write.violates, Bool.or_eq_false_iff, Bool.and_eq_false_iff, decide_eq_false_iff_not,
    Interviews.hasConfirmed, List.any_eq_false, decide_eq_true_eq, he.1] at hviolates
  rcases hviolates.2 with hnot | hnot
  · exact hnot he.2
  · exact hnot e' hmem he'

theorem mem_events_of_insertEvent {e : InterviewEvent} {slot : Id} {T : Interviews}
    (hpending : s.pending = bookWrites e slot)
    (happ : Write.applyAll s.pending w.db.toInterviews = some T) : e ∈ T.events := by
  rw [Write.applyAll_eq_force happ, hpending, bookWrites]
  simp [Write.apply, Interviews.modifyRequest]

end Booking

/-! ### Calendar events -/

/-- A calendar event is the one of the request's CONFIRMED row, or was deleted, or has an OPEN task. -/
def AccountedFor (r : Id) (w : World) (id : String) : Prop :=
  (∃ e ∈ w.db.events, e.ConfirmedFor r ∧ e.calendarEventId = id) ∨ id ∈ w.google.deleted ∨
    HasTask w.db id

/-- The insert of a reconciliation task does not fail. -/
def Reconciles : Condition Effect Choice Session World := Unfailing fun s => s.reported ≠ []

section Calendar

variable {userId slotId : Id} {β : Type} {o : Effect β} {c : Choice} {x : Except Exc β}
  {T : Interviews} {creates : Prop} {id : String}

theorem AccountedFor.still (h : AccountedFor r w id) (hw : Still w w') : AccountedFor r w' id := by
  unfold AccountedFor
  rw [hw.db, hw.google]
  exact h

/-- No booking loses an event or a task. -/
theorem AccountedFor.step (h : AccountedFor r w id)
    (hm : Move creates (Commits False (Call.book userId r slotId).Sets (fun _ _ => True) s T) o x s w
      s' w') : AccountedFor r w' id := by
  cases hm with
  | committed _ hC hT _ hdb _ hgoogle =>
    have hd := hC.disciplined not_false
    rcases h with ⟨e, hmem, hc, hid⟩ | hdel | htask
    · refine .inl ⟨e, ?_, hc, hid⟩
      have htables : w'.db.toInterviews = Write.force s.pending w.db.toInterviews := by
        rw [hdb, SideWrite.foldl_toInterviews, Write.applyAll_eq_force hT]
      rw [htables]
      exact Write.mem_events_force hmem (not_cancelEvent hd)
    · exact .inr (.inl (by rw [hgoogle]; exact hdel))
    · exact .inr (.inr (by rw [hdb]; exact hasTask_foldl _ htask))
  | created _ _ _ _ hdb _ hgoogle =>
    unfold AccountedFor
    rw [hdb, hgoogle]
    exact h
  | deleted _ hdb _ hgoogle =>
    unfold AccountedFor
    rw [hdb, hgoogle]
    exact h.imp_right fun h => h.imp_left (List.mem_append_left _)
  | quiet _ hw => exact h.still hw
  | hit _ _ hw => exact h.still hw
  | read _ _ hw => exact h.still hw
  | looked _ _ hw => exact h.still hw
  | found _ _ hw => exact h.still hw
  | ranked _ _ hw => exact h.still hw
  | entered _ hw => exact h.still hw
  | left _ hw => exact h.still hw
  | failed _ _ hw => exact h.still hw

/-- What a call owes it owes still, or it is accounted for. -/
theorem owed_step (hid : id ∈ s.trace.owed)
    (hm : Move creates (Commits False (Call.book userId r slotId).Sets (fun _ _ => True) s T) o x s w
      s' w') (hreported : (∃ e, x = .error e) → s.reported = []) :
    id ∈ s'.trace.owed ∨ AccountedFor r w' id := by
  cases hm with
  | @committed T' _ hC hT htrace hdb _ _ =>
    by_cases href : id ∈ s.pending.flatMap Write.references
    · -- the row of the booking refers to the event
      obtain ⟨y, hy, href⟩ := List.mem_flatMap.mp href
      cases y with
      | insertEvent e =>
        obtain ⟨hc, slot, hpending⟩ := booking_of_insertEvent (hC.disciplined not_false) hy
        have hcal : id = e.calendarEventId := by simpa [Write.references, hc.2] using href
        refine .inr (.inl ⟨e, ?_, hc, hcal.symm⟩)
        have htables : w'.db.toInterviews = T' := by rw [hdb, SideWrite.foldl_toInterviews]
        rw [htables]
        exact mem_events_of_insertEvent hpending hT
      | _ => simp [Write.references] at href
    · by_cases hrep : id ∈ s.side.flatMap SideWrite.reports
      · exact .inr (.inr (.inr (by rw [hdb]; exact hasTask_of_reports hrep)))
      · refine .inl ?_
        rw [htrace]
        exact List.mem_filter.mpr ⟨hid, by simpa using ⟨by simpa using href, by simpa using hrep⟩⟩
  | created _ _ _ htrace _ _ _ => exact .inl (by rw [htrace]; exact List.mem_append_left _ hid)
  | @deleted id' htrace hdb _ hgoogle =>
    by_cases heq : id = id'
    · exact .inr (.inr (.inl (by rw [hgoogle, heq]; simp)))
    · refine .inl ?_
      rw [htrace, Trace.delete]
      split
      · exact List.mem_filter.mpr ⟨hid, by simpa using heq⟩
      · exact hid
  | failed hfail htrace _ =>
    have hnone : s.reported = [] := by
      rcases hfail with he | ⟨hnone, -⟩
      · exact hreported he
      · exact hnone
    refine .inl ?_
    rw [htrace]
    exact List.mem_filter.mpr ⟨hid, by simp [show s.side.flatMap SideWrite.reports = [] from hnone]⟩
  | quiet htrace _ => exact .inl (by rwa [htrace])
  | hit _ htrace _ => exact .inl (by rw [htrace]; exact hid)
  | read _ htrace _ => exact .inl (by rw [htrace]; exact hid)
  | looked _ htrace _ => exact .inl (by rwa [htrace])
  | found _ htrace _ => exact .inl (by rw [htrace]; exact hid)
  | ranked _ htrace _ => exact .inl (by rw [htrace]; exact hid)
  | entered htrace _ => exact .inl (by rw [htrace]; exact hid)
  | left htrace _ => exact .inl (by rw [htrace]; exact hid)

/-- A calendar event that is new is owed by the call that has created it. -/
theorem created_step {C : Prop} (hm : Move creates C o x s w s' w')
    (hid : id ∈ w'.google.created) : id ∈ w.google.created ∨ id ∈ s'.trace.owed := by
  cases hm with
  | created _ _ _ htrace _ _ hgoogle =>
    rw [hgoogle] at hid
    rw [htrace]
    exact (List.mem_append.mp hid).imp_right (List.mem_append_right _)
  | deleted _ _ _ hgoogle => exact .inl (by rwa [hgoogle] at hid)
  | committed _ _ _ _ _ _ hgoogle => exact .inl (by rwa [hgoogle] at hid)
  | quiet _ hw => exact .inl (by rwa [hw.google] at hid)
  | hit _ _ hw => exact .inl (by rwa [hw.google] at hid)
  | read _ _ hw => exact .inl (by rwa [hw.google] at hid)
  | looked _ _ hw => exact .inl (by rwa [hw.google] at hid)
  | found _ _ hw => exact .inl (by rwa [hw.google] at hid)
  | ranked _ _ hw => exact .inl (by rwa [hw.google] at hid)
  | entered _ hw => exact .inl (by rwa [hw.google] at hid)
  | left _ hw => exact .inl (by rwa [hw.google] at hid)
  | failed _ _ hw => exact .inl (by rwa [hw.google] at hid)

end Calendar

/-! ### The invariant -/

structure Booked (r : Id) (T₀ : Interviews) (created₀ : List String) [DecidableEq ι]
    (loc : ι → Session) (w : World) : Prop where
  history : Interleaved T₀ loc w.db.toInterviews
  stored : ∀ j e, .insertEvent e ∈ (loc j).trace.journal → e.ConfirmedFor r ∧ e ∈ w.db.events
  one : ∀ j j' e e', .insertEvent e ∈ (loc j).trace.journal →
    .insertEvent e' ∈ (loc j').trace.journal → j = j'
  accounted : ∀ id ∈ w.google.created, id ∉ created₀ →
    (∃ j, id ∈ (loc j).trace.owed) ∨ AccountedFor r w id

section Steps

variable [DecidableEq ι] {userId slotId : Id} {β : Type} {o : Effect β} {c : Choice}
  {x : Except Exc β} {T : Interviews} {creates : Prop} {loc : ι → Session} {i : ι}

/-- A booking that is committed is the first one. -/
theorem Booked.first (h : Booked r T₀ created₀ loc w) {e : InterviewEvent} {slot : Id}
    {T' : Interviews} (hpending : s.pending = bookWrites e slot) (he : e.ConfirmedFor r)
    (happ : Write.applyAll s.pending w.db.toInterviews = some T') (j : ι) (e' : InterviewEvent) :
    .insertEvent e' ∉ (loc j).trace.journal := by
  intro hmem
  obtain ⟨hc, hstored⟩ := h.stored j e' hmem
  exact not_confirmed_of_insertEvent hpending he happ ⟨e', hstored, hc⟩

theorem Booked.step (h : Booked r T₀ created₀ loc w)
    (hm : Move creates (Commits False (Call.book userId r slotId).Sets (fun _ _ => True) (loc i) T) o
      x (loc i) w s' w') (hreported : (∃ e, x = .error e) → (loc i).reported = []) :
    Booked r T₀ created₀ (Function.update loc i s') w' := by
  -- what is added to the journal
  have hjournal : ∀ e, .insertEvent e ∈ s'.trace.journal → .insertEvent e ∈ (loc i).trace.journal ∨
      (e.ConfirmedFor r ∧ e ∈ w'.db.events ∧ ∀ j e', .insertEvent e' ∉ (loc j).trace.journal) := by
    intro e he
    rcases hm.written with ⟨-, hj⟩ | ⟨-, hC, T', htx⟩
    · exact .inl (hj ▸ he)
    · rw [htx.trace, Trace.commit] at he
      rcases List.mem_append.mp he with he | he
      · exact .inl he
      · obtain ⟨hc, slot, hpending⟩ := booking_of_insertEvent (hC.disciplined not_false) he
        refine .inr ⟨hc, ?_, h.first hpending hc htx.applied⟩
        rw [htx.tables]
        exact mem_events_of_insertEvent hpending htx.applied
  have hkeep : ∀ e ∈ w.db.events, e ∈ w'.db.events := by
    intro e he
    rcases hm.tables with hidle | ⟨-, hC, T', htx⟩
    · rw [hidle.tables]
      exact he
    · rw [htx.force]
      exact Write.mem_events_force he (not_cancelEvent (hC.disciplined not_false))
  refine ⟨h.history.step hm, ?_, ?_, fun id hid hnew => ?_⟩
  · refine (Function.forall_update_iff loc fun j s => ∀ e, .insertEvent e ∈ s.trace.journal →
      e.ConfirmedFor r ∧ e ∈ w'.db.events).mpr ⟨fun e he => ?_, fun j _ e he => ?_⟩
    · rcases hjournal e he with he | ⟨hc, hmem, -⟩
      · exact (h.stored i e he).imp_right (hkeep e)
      · exact ⟨hc, hmem⟩
    · exact (h.stored j e he).imp_right (hkeep e)
  · intro j j' e e' he he'
    by_cases hj : j = i <;> by_cases hj' : j' = i
    · exact hj.trans hj'.symm
    · subst hj
      rw [Function.update_self] at he
      rw [Function.update_of_ne hj'] at he'
      rcases hjournal e he with he | ⟨-, -, hnone⟩
      · exact h.one j j' e e' he he'
      · exact absurd he' (hnone j' e')
    · subst hj'
      rw [Function.update_self] at he'
      rw [Function.update_of_ne hj] at he
      rcases hjournal e' he' with he' | ⟨-, -, hnone⟩
      · exact h.one j j' e e' he he'
      · exact absurd he (hnone j e)
    · rw [Function.update_of_ne hj] at he
      rw [Function.update_of_ne hj'] at he'
      exact h.one j j' e e' he he'
  · have howed : id ∈ s'.trace.owed → ∃ j, id ∈ (Function.update loc i s' j).trace.owed := fun h =>
      ⟨i, by rw [Function.update_self]; exact h⟩
    rcases created_step hm hid with hid | hid
    · rcases h.accounted id hid hnew with ⟨j, hj⟩ | hacc
      · by_cases hji : j = i
        · subst hji
          exact (owed_step hj hm hreported).imp_left howed
        · exact .inl ⟨j, by rwa [Function.update_of_ne hji]⟩
      · exact .inr (hacc.step hm)
    · exact .inl (howed hid)

end Steps

/-! ### Bookings that have ended -/

/-- The call has returned or raised. -/
def HasEnded (P : Pool Effect Exc Response Session World ι) (i : ι) : Prop :=
  (∃ out, P.prog i = .ret out) ∨ ∃ e, P.prog i = .raise e

/-- The bookings of a request leave no orphans: one of them succeeds at most, the ones that raise leave the
tables to the others, and when all have ended every calendar event is accounted for. -/
structure NoOrphans (r : Id) (w₀ : World) [DecidableEq ι]
    (P : Pool Effect Exc Response Session World ι) : Prop where
  one : ∀ i j a b, P.prog i = .ret a → P.prog j = .ret b → i = j
  raised : ∀ j e, P.prog j = .raise e → ∃ hist : List (ι × List Write), (∀ c ∈ hist, c.1 ≠ j) ∧
    P.shared.db.toInterviews = Write.force (writes hist) w₀.db.toInterviews ∧
      ∀ i, (P.loc i).trace.journal = writesOf i hist
  accounted : (∀ i, HasEnded P i) → ∀ id ∈ P.shared.google.created, id ∉ w₀.google.created →
    AccountedFor r P.shared id

/-- No insert of a reconciliation task fails, and no flush of a notification. -/
def ReconcilesAndStores : Condition Effect Choice Session World := fun β o c s w =>
  Reconciles β o c s w ∧ Notifications.Stores β o c.answer s

/-- **No orphan calendar events from booking**, in any interleaving in which no insert of a reconciliation
task fails and every row of a notification can be stored. -/
theorem noOrphans_of_reaches [DecidableEq ι] {P : Pool Effect Exc Response Session World ι}
    (h : Pool.Reaches machine (fun _ => ReconcilesAndStores) (started pf (bookings users slots r) w₀)
      P) : NoOrphans r w₀ P := by
  have hstart : Booked r w₀.db.toInterviews w₀.google.created (fun _ : ι => {})
      { w₀ with log := [] } :=
    { history := ⟨[], rfl, fun _ => rfl⟩
      stored := by simp
      one := by simp
      accounted := fun id hid hnew => absurd hid hnew }
  have hsound : Pool.Proved
      (fun i => Notifications.storing False (bookings users slots r i).Sets fun _ _ => True)
      (fun v s => v.1 = s) (fun _ => Succeeds r {}) P ∧
        Booked r w₀.db.toInterviews w₀.google.created P.loc P.shared := by
    refine Pool.sound_under (fun i β o c s w x s' w' v hv hc => faithful_admitted o c s w x s' w' v hv hc.2)
      (fun loc i β o c w x s' w' v hI hv hduty hc hex => ?_) h proved_bookings hstart
    obtain ⟨s, T⟩ := v
    obtain rfl : s = loc i := hv
    refine hI.step (move_of_exec hduty hex) ?_
    rintro ⟨e, rfl⟩
    by_contra hne
    exact hc.1 hne e s' w' hex
  obtain ⟨hproved, hI⟩ := hsound
  have hret : ∀ i out, P.prog i = .ret out → (P.loc i).Closed ∧
      ∃ e, .insertEvent e ∈ (P.loc i).trace.journal := by
    intro i out hprog
    obtain ⟨v, hv, hwp⟩ := hproved i
    rw [hprog] at hwp
    obtain ⟨hclosed, e, slot, -, hj⟩ : Succeeds r {} (.ok out) v := hwp
    rw [hv] at hclosed hj
    exact ⟨hclosed, e, by rw [hj]; simp [bookWrites]⟩
  have hraise : ∀ i e, P.prog i = .raise e → (P.loc i).Closed ∧ (P.loc i).trace.journal = [] := by
    intro i e hprog
    obtain ⟨v, hv, hwp⟩ := hproved i
    rw [hprog] at hwp
    have hended : Session.Ended {} v.1 := hwp
    rw [hv] at hended
    exact ⟨hended.toClosed, hended.journal⟩
  refine ⟨fun i j a b hi hj => ?_, fun j e hj => ?_, fun hall id hid hnew => ?_⟩
  · obtain ⟨-, e, he⟩ := hret i a hi
    obtain ⟨-, e', he'⟩ := hret j b hj
    exact hI.one i j e e' he he'
  · obtain ⟨hist, htables, hjournal⟩ := hI.history
    obtain ⟨-, hnone⟩ := hraise j e hj
    refine ⟨hist.filter fun c => c.1 ≠ j, fun c hc => by simpa using (List.mem_filter.mp hc).2, ?_,
      fun i => ?_⟩
    · rw [writes_others ((hjournal j).symm.trans hnone)]
      exact htables
    · rw [writesOf_others]
      split
      · next hij => rw [hij, hnone]
      · exact hjournal i
  · refine (hI.accounted id hid hnew).resolve_left ?_
    rintro ⟨j, hj⟩
    have hclosed : (P.loc j).Closed := by
      rcases hall j with ⟨out, hprog⟩ | ⟨e, hprog⟩
      · exact (hret j out hprog).1
      · exact (hraise j e hprog).1
    rw [hclosed.owed] at hj
    simp at hj

/-! ### A sample -/

/-- A call outside fails. -/
def failing : Choice := { answer := .fail }

/-- A calendar event is created. -/
def event (id : String) : Choice := { answer := .event ⟨id, none, none⟩ }

/-- The condition as a check. -/
def reconcilesAndStores (β : Type) (o : Effect β) (c : Choice) (s : Session) (w : World) : Bool :=
  unfailing (fun s => decide (s.reported ≠ [])) β o c s w && decide (Notifications.Stores β o c.answer s)

theorem reconcilesAndStores_of_check {β : Type} (o : Effect β) (c : Choice) (s : Session) (w : World)
    (h : reconcilesAndStores β o c s w = true) : ReconcilesAndStores β o c s w := by
  obtain ⟨hreconciles, hstores⟩ := Bool.and_eq_true_iff.mp h
  exact ⟨unfailing_of_check (fun _ => decide_eq_true) o c s w hreconciles, of_decide_eq_true hstores⟩

/-- Redis is down. Two callers book the same slot and both create a calendar event; the second one cannot
commit, and its compensating delete fails. -/
theorem noOrphans_of_reaches_sample : ∃ P : Pool Effect Exc Response Session World Bool,
    (∃ out, P.prog true = .ret out) ∧ (∃ e, P.prog false = .raise e) ∧
    P.shared.google = { created := ["g1", "g2"] } ∧ NoOrphans 10 recommendedWorld P := by
  obtain ⟨P, hP, hp⟩ := reaches_of_schedule
    (started googlePlatform (bookings (fun _ : Bool => 1) (fun _ => 21) 10) recommendedWorld)
    (fun _ _ => reconcilesAndStores_of_check)
    (steps true (answered 4 ++ [pick 7, failing] ++ answered 6 ++ [event "g1"]) ++
      steps false (answered 4 ++ [pick 8, failing] ++ answered 6 ++ [event "g2"]) ++
      steps true ([pick 30] ++ answered 10) ++
      steps false ([pick 31] ++ answered 3 ++ [failing] ++ answered 2))
    (p := fun P => returned true P && (raised false P &&
      decide (P.shared.google = { created := ["g1", "g2"] }))) (by decide +kernel)
  obtain ⟨hret, hp⟩ := Bool.and_eq_true_iff.mp hp
  obtain ⟨hraise, hgoogle⟩ := Bool.and_eq_true_iff.mp hp
  exact ⟨P, of_returned hret, of_raised hraise, of_decide_eq_true hgoogle, noOrphans_of_reaches hP⟩

/-- One caller books, and the row of the confirmation cannot be stored: the call raises after its commit,
and the request is BOOKED. -/
theorem book_raises_booked : ∃ P : Pool Effect Exc Response Session World Unit,
    Pool.Reaches machine (fun _ => Reconciles)
      (started googlePlatform (bookings (fun _ => 1) (fun _ => 21) 10) recommendedWorld) P ∧
    P.shared.status 10 = some .booked ∧ (∃ e, P.prog () = .raise e) ∧
    ¬ NoOrphans 10 recommendedWorld P := by
  obtain ⟨P, hP, hp⟩ := reaches_of_schedule
    (started googlePlatform (bookings (fun _ : Unit => 1) (fun _ => 21) 10) recommendedWorld)
    (fun _ _ => unfailing_of_check (q := fun s => decide (s.reported ≠ [])) fun _ => decide_eq_true)
    (steps () (answered 4 ++ [pick 7] ++ answered 7 ++ [event "g1", pick 30] ++ answered 9 ++
      [failing] ++ answered 1))
    (p := fun P => raised () P && decide (P.shared.status 10 = some .booked)) (by decide +kernel)
  obtain ⟨hraise, hst⟩ := Bool.and_eq_true_iff.mp hp
  have hst : P.shared.status 10 = some .booked := of_decide_eq_true hst
  obtain ⟨e, he⟩ := of_raised hraise
  refine ⟨P, hP, hst, ⟨e, he⟩, fun h => ?_⟩
  obtain ⟨hist, hnot, htables, -⟩ := h.raised () e he
  obtain rfl : hist = [] := List.eq_nil_iff_forall_not_mem.mpr fun c hc => hnot c hc rfl
  have hsame : P.shared.status 10 = recommendedWorld.status 10 := by
    rw [World.status, World.status, htables]
    rfl
  rw [hst] at hsame
  exact absurd hsame (by decide)

end InterviewScheduler.System
