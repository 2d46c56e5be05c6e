import Mathlib.Data.List.Chain
import Mathlib.Data.List.Count
import InterviewScheduler.Effects.Amid
import InterviewScheduler.Core.Following
import InterviewScheduler.Notifications.Reminders
import InterviewScheduler.System.Lifecycle

/-! # Reminders go out once

The runs of `process_due_reminders`, one after the other, among all other activity of the system
(`Quiet`), which writes no REMINDER row. A run adds one row for each event that it finds due
(`reminded_of_run`), whatever becomes of the e-mails; and an event is due from a window before its start up
to its start (`reminders_once`). -/

namespace InterviewScheduler.System

open InterviewScheduler.Engine InterviewScheduler.Core InterviewScheduler.Effects
open InterviewScheduler.Notifications

/-! ### What a session writes -/

/-- The event of a REMINDER row. -/
def reminds : SideWrite → List Id
  | .insertNotification row => if row.notificationType = .reminder then [row.interviewEventId] else []
  | _ => []

theorem remindedIds_apply (db : Db) (x : SideWrite) :
    remindedIds (x.apply db) = remindedIds db ++ reminds x := by
  cases x with
  | insertNotification row =>
    unfold SideWrite.apply remindedIds reminds
    dsimp only
    rw [List.filter_append, List.map_append]
    congr 1
    by_cases h : row.notificationType = .reminder
    · rw [List.filter_cons_of_pos (by simpa using h), if_pos h]
      rfl
    · rw [List.filter_cons_of_neg (by simpa using h), if_neg h]
      rfl
  | _ => exact (List.append_nil _).symm

theorem remindedIds_foldl (side : List SideWrite) (db : Db) :
    remindedIds (side.foldl SideWrite.apply db) = remindedIds db ++ side.flatMap reminds := by
  induction side generalizing db with
  | nil => exact (List.append_nil _).symm
  | cons x side ih =>
    rw [List.foldl_cons, ih, remindedIds_apply, List.flatMap_cons, List.append_assoc]

/-- The REMINDER rows in the database, and those that the session is about to commit. -/
def reminding : Logic Effect Exc (List Id × List Id) where
  pre _ _ := True
  step {β} o v r v' := match β, o, r with
    | _, .stageSide x, _ => v' = (v.1, v.2 ++ reminds x)
    | _, .commit, .ok _ => v' = (v.1 ++ v.2, [])
    | _, .rollback, _ => v'.1 = v.1
    | _, .sendMail _, _ => v' = v
    | _, _, .ok _ => v' = v
    | _, _, .error _ => v'.1 = v.1

/-- The view of a session. -/
def SeesReminders (v : List Id × List Id) (s : Session) (w : World) : Prop :=
  v.1 = remindedIds w.db ∧ v.2 = s.side.flatMap reminds

/-! ### The other activity -/

/-- What the rest of the system does: no REMINDER row comes or goes, time passes, and the ids of the
events are a primary key. -/
structure Quiet (w w' : World) : Prop where
  reminded : remindedIds w'.db = remindedIds w.db
  later : w.now ≤ w'.now
  keyed : (w'.db.events.map (·.id)).Nodup

theorem remindedIds_commit (w : World) (s : Session) (T : Interviews) :
    remindedIds (w.commit s T).db = remindedIds w.db ++ s.side.flatMap reminds :=
  remindedIds_foldl s.side _

theorem faithful_reminding : Faithful machine.amid (Amid Quiet) reminding SeesReminders := by
  intro β o c s w r s' w' v hv _ hquiet h
  obtain ⟨hstored, hstaged⟩ := hv
  obtain ⟨stored, staged⟩ := v
  change respond o c.1.answer s (c.2.elapse c.1) = _ at h
  have hstored' : stored = remindedIds (c.2.elapse c.1).db := by
    rw [show remindedIds (c.2.elapse c.1).db = remindedIds c.2.db from rfl, hquiet.reminded]
    exact hstored
  clear hstored hquiet
  generalize c.2.elapse c.1 = w₁ at h hstored'
  refine ⟨(remindedIds w'.db, s'.side.flatMap reminds), ?_, rfl, rfl⟩
  dsimp only at hstored' hstaged
  subst hstored' hstaged
  cases o <;> simp only [respond, dbCall, outerCall, googleCall] at h
  all_goals repeat' split at h
  all_goals simp only [Option.some.injEq, Prod.mk.injEq, reduceCtorEq] at h
  all_goals obtain ⟨rfl, rfl, rfl⟩ := h
  all_goals try rfl
  · show (remindedIds w₁.db, (s.stage _).side.flatMap reminds) = _
    rw [Session.stage_side]
  · show (remindedIds w₁.db, (s.side ++ [_]).flatMap reminds) = _
    rw [List.flatMap_append, List.flatMap_singleton]
  · show (remindedIds (w₁.commit s _).db, []) = _
    rw [remindedIds_commit]
  · show (remindedIds (w₁.commit s _).db, []) = _
    rw [remindedIds_commit]

/-! ### One run -/

section Run

variable {α β : Type} {pf : Platform} {stored ids : List Id}

/-- What is committed at the end, if the program returns. -/
def Adds (stored ids : List Id) : Except Exc α → List Id × List Id → Prop :=
  fun r v => ∀ a, r = .ok a → v = (stored ++ ids, [])

/-- A call that writes nothing, or raises. -/
theorem adds_bind {o : Effect β} {f : β → M α} {v : List Id × List Id}
    (hkeep : ∀ x v', reminding.step o v (.ok x) v' → v' = v)
    (hf : ∀ x, wp reminding (f x) (Adds stored ids) v) :
    wp reminding (Prog.perform o >>= f) (Adds stored ids) v := by
  refine wp_bind (wp_perform trivial fun r v' h => ?_)
  cases r with
  | error e =>
    intro a ha
    cases ha
  | ok x =>
    obtain rfl := hkeep x v' h
    exact hf x

/-- The delivery does nothing to the database, whatever comes of it. -/
theorem wp_deliver {msg : EmailMessage} {v : List Id × List Id} :
    wp reminding (deliver msg) (fun r v' => v' = v ∧ ∃ status, r = .ok status) v := by
  refine wp_tryCatch (wp_bind (wp_perform trivial fun r v' h => ?_))
  obtain rfl : v' = v := h
  cases r with
  | error e => exact ⟨rfl, _, rfl⟩
  | ok x => exact ⟨rfl, _, rfl⟩

/-- **One row on every delivery result.** -/
theorem adds_dispatch {id : Id} {msg : EmailMessage} :
    wp reminding (dispatch pf id .reminder msg) (Adds stored [id]) (stored, []) := by
  have hstore : ∀ status : NotificationStatus, wp reminding (do
      dbAddSide (.insertNotification
        { interviewEventId := id, channel := "EMAIL", notificationType := .reminder,
          recipient := msg.recipient, status })
      dbFlush
      dbCommit
      pure status) (Adds stored [id]) (stored, []) := by
    intro status
    refine wp_bind (wp_perform trivial fun r v h => ?_)
    obtain rfl : v = (stored, [id]) := h
    cases r with
    | error e =>
      intro a ha
      cases ha
    | ok x =>
      refine adds_bind (fun _ _ h => h) fun _ => ?_
      refine wp_bind (wp_perform trivial fun r v' h => ?_)
      cases r with
      | error e =>
        intro a ha
        cases ha
      | ok x =>
        intro a _
        exact h
  unfold dispatch
  split
  · refine wp_bind (wp_mono wp_deliver fun r v' h => ?_)
    obtain ⟨rfl, status, rfl⟩ := h
    exact hstore status
  · exact hstore .simulated

theorem adds_remind {event : InterviewEvent} :
    wp reminding (remind pf event) (Adds stored [event.id]) (stored, []) := by
  refine adds_bind (fun _ _ h => h) fun rows => wp_bind (wp_orRaise ?_ fun candidate _ => ?_)
  · intro _ a ha
    cases ha
  · exact adds_bind (fun _ _ h => h) fun request => adds_dispatch

/-- The loop, one event after the other. -/
theorem adds_forEach : ∀ (events : List InterviewEvent) (stored : List Id),
    wp reminding (Prog.forEach (remind pf) events) (Adds stored (events.map (·.id))) (stored, [])
  | [], stored => by
    intro a _
    rw [List.map_nil, List.append_nil]
  | event :: events, stored => by
    refine wp_bind (wp_mono adds_remind fun r v h => ?_)
    cases r with
    | error e =>
      intro a ha
      cases ha
    | ok status =>
      rw [h status rfl]
      refine wp_bind (wp_mono (adds_forEach events (stored ++ [event.id])) fun r v h => ?_)
      cases r with
      | error e =>
        intro a ha
        cases ha
      | ok sent =>
        intro a _
        rw [h sent rfl, List.map_cons, List.append_assoc]
        rfl

end Run

/-- A completed run: what its clock said, and the database that its query has read. -/
structure ReminderRun where
  now : Instant
  seen : Db

/-- The run of `process_due_reminders`, in a session of its own and among the other activity: it reads the
clock, queries, and sends. -/
inductive ReminderRun.Takes (pf : Platform) (minutes : ℤ) (run : ReminderRun) (w w' : World) : Prop
  | intro {s₁ s₂ s₃ : Session} {w₁ w₂ : World} {events : List InterviewEvent}
      {sent : List NotificationStatus}
      (hclock : Runs machine.amid (Amid Quiet) Core.now {} w (.ok run.now) s₁ w₁)
      (hquery : Runs machine.amid (Amid Quiet) (dbSelect fun pick db =>
        inSomeOrder pick (dueEvents run.now (run.now + window minutes) db)) s₁ w₁ (.ok events) s₂ w₂)
      (hseen : w₂.db = run.seen)
      (hsend : Runs machine.amid (Amid Quiet) (Prog.forEach (remind pf) events) s₂ w₂ (.ok sent) s₃ w')

section Takes

variable {pf : Platform} {minutes : ℤ} {run : ReminderRun} {w w' : World}

/-- That is what every run of the program is that returns. -/
theorem takes_iff : (∃ run : ReminderRun, run.Takes pf minutes w w') ↔
    ∃ n s', Runs machine.amid (Amid Quiet) (processDueReminders pf minutes) {} w (.ok n) s' w' := by
  constructor
  · rintro ⟨run, hclock, hquery, -, hsend⟩
    exact ⟨_, _, hclock.bind (hquery.bind (hsend.bind .ret))⟩
  · rintro ⟨n, s', h⟩
    obtain ⟨t, s₁, w₁, hclock, h⟩ := h.of_bind
    obtain ⟨events, s₂, w₂, hquery, h⟩ := h.of_bind
    obtain ⟨sent, s₃, w₃, hsend, h⟩ := h.of_bind
    cases h
    exact ⟨⟨t, w₂.db⟩, .intro hclock hquery rfl hsend⟩

/-- What the clock says. -/
theorem now_of_answer {c : Choice × World} {s s' : Session} {w w' : World} {t : Instant}
    (h : machine.amid.exec .now c s w = some (.ok t, s', w')) :
    s' = s ∧ w' = c.2.elapse c.1 ∧ t = (c.2.elapse c.1).now := by
  change some (Except.ok (c.2.elapse c.1).now, s, c.2.elapse c.1) = _ at h
  simp only [Option.some.injEq, Prod.mk.injEq, Except.ok.injEq] at h
  exact ⟨h.2.1.symm, h.2.2.symm, h.1.symm⟩

/-- What a query returns. -/
theorem select_of_answer {α : Type} {query : ℕ → Db → α} {c : Choice × World} {s s' : Session}
    {w w' : World} {x : α} (h : machine.amid.exec (.select query) c s w = some (.ok x, s', w')) :
    ∃ n, x = query n w'.db ∧ w' = c.2.elapse c.1 ∧ s'.side = s.side := by
  change respond (.select query) c.1.answer s (c.2.elapse c.1) = _ at h
  simp only [respond, dbCall] at h
  split at h
  · cases h
  · split at h
    · cases h
      exact ⟨_, rfl, rfl, rfl⟩
    · cases h
      exact ⟨_, rfl, rfl, rfl⟩
    · cases h
    · cases h

theorem now_elapse (w : World) (c : Choice) : w.now ≤ (w.elapse c).now := by
  show w.now ≤ w.now + c.elapsed + 1
  lia

/-- **What a run does**: one row for each event that was due in what it has read. -/
theorem reminded_of_run (h : run.Takes pf minutes w w') :
    ∃ ids : List Id,
      ids.Perm ((dueEvents run.now (run.now + window minutes) run.seen).map (·.id)) ∧
      remindedIds w'.db = remindedIds w.db ++ ids ∧ remindedIds run.seen = remindedIds w.db ∧
      (run.seen.events.map (·.id)).Nodup ∧ w.now ≤ run.now ∧ run.now ≤ w'.now := by
  obtain ⟨hclock, hquery, hseen, hsend⟩ := h
  rename_i s₁ s₂ s₃ w₁ w₂ events sent
  obtain ⟨c, hquiet, hexec⟩ := hclock.of_perform
  obtain ⟨rfl, rfl, hnow⟩ := now_of_answer hexec
  obtain ⟨c', hquiet', hexec'⟩ := hquery.of_perform
  obtain ⟨n, rfl, rfl, hside⟩ := select_of_answer hexec'
  have hsees : SeesReminders (remindedIds run.seen, []) s₂ (c'.2.elapse c'.1) := by
    refine ⟨?_, ?_⟩
    · rw [← hseen]
    · rw [hside]
      rfl
  obtain ⟨⟨v, hv, hstored, -⟩, hlater⟩ := hsend.sound faithful_reminding
    (I := fun _ w => (c'.2.elapse c'.1).now ≤ w.now)
    (fun o c s w r s' w' _ hI _ _ hC h => hI.trans (hC.later.trans (now_of_exec h).le)) hsees
    (adds_forEach _ _) le_rfl
  have hadded := hv sent rfl
  rw [hadded] at hstored
  have hquery' : remindedIds run.seen = remindedIds w.db := by
    rw [← hseen]
    exact hquiet'.reminded.trans hquiet.reminded
  have hperm := inSomeOrder_perm n (dueEvents run.now (run.now + window minutes) (c'.2.elapse c'.1).db)
  rw [hseen] at hperm hstored
  refine ⟨_, hperm.map _, ?_, hquery', ?_, ?_, ?_⟩
  · rw [← hquery']
    exact hstored.symm
  · rw [← hseen]
    exact hquiet'.keyed
  · rw [hnow]
    exact hquiet.later.trans (now_elapse c.2 c.1)
  · rw [hnow]
    exact (hquiet'.later.trans (now_elapse c'.2 c'.1)).trans hlater

/-- The event ids that a run adds are new, and different. -/
theorem nodup_of_run (h : run.Takes pf minutes w w') (hw : (remindedIds w.db).Nodup) :
    (remindedIds w'.db).Nodup := by
  obtain ⟨ids, hperm, hadded, hseen, hkeyed, -, -⟩ := reminded_of_run h
  rw [hadded, List.nodup_append']
  refine ⟨hw, hperm.nodup_iff.mpr (hkeyed.sublist (List.filter_sublist.map _)), fun id hold hnew => ?_⟩
  obtain ⟨e, he, rfl⟩ := List.mem_map.mp (hperm.mem_iff.mp hnew)
  have hdue := of_decide_eq_true (List.mem_filter.mp he).2
  rw [hseen] at hdue
  exact hdue.2.2.2 hold

/-- A run leaves no due event without a row. -/
theorem mem_of_run (h : run.Takes pf minutes w w') {event : InterviewEvent}
    (hevent : event ∈ run.seen.events) (hstatus : event.status = .confirmed)
    (hafter : run.now < event.startTime) (hby : event.startTime ≤ run.now + window minutes) :
    event.id ∈ remindedIds w'.db := by
  obtain ⟨ids, hperm, hadded, hseen, -, -, -⟩ := reminded_of_run h
  rw [hadded, List.mem_append]
  by_cases hold : event.id ∈ remindedIds w.db
  · exact Or.inl hold
  · refine Or.inr (hperm.mem_iff.mpr (List.mem_map_of_mem (List.mem_filter.mpr ⟨hevent, ?_⟩)))
    rw [← hseen] at hold
    exact decide_eq_true ⟨hstatus, hafter, hby, hold⟩

end Takes

/-! ### Any number of runs -/

/-- Runs with the same window, none of which begins before the one before it has ended. -/
inductive History (pf : Platform) (minutes : ℤ) : World → List ReminderRun → World → Prop
  | nil {w w' : World} (hquiet : Quiet w w') : History pf minutes w [] w'
  | cons {w w₁ w' : World} {run : ReminderRun} {runs : List ReminderRun}
      (hrun : run.Takes pf minutes w w₁) (hrest : History pf minutes w₁ runs w') :
      History pf minutes w (run :: runs) w'

namespace History

variable {pf : Platform} {minutes : ℤ} {w w' : World} {runs : List ReminderRun}

theorem nodup (h : History pf minutes w runs w') (hw : (remindedIds w.db).Nodup) :
    (remindedIds w'.db).Nodup := by
  induction h with
  | nil hquiet =>
    rw [hquiet.reminded]
    exact hw
  | cons hrun _ ih => exact ih (nodup_of_run hrun hw)

/-- A row stays. -/
theorem mem_mono (h : History pf minutes w runs w') {id : Id} (hid : id ∈ remindedIds w.db) :
    id ∈ remindedIds w'.db := by
  induction h with
  | nil hquiet =>
    rw [hquiet.reminded]
    exact hid
  | cons hrun _ ih =>
    obtain ⟨ids, -, hadded, -⟩ := reminded_of_run hrun
    refine ih ?_
    rw [hadded]
    exact List.mem_append_left _ hid

/-- The clock goes forward from run to run. -/
theorem sorted (h : History pf minutes w runs w') :
    (∀ run ∈ runs, w.now ≤ run.now) ∧ runs.Pairwise fun a b => a.now ≤ b.now := by
  induction h with
  | nil hquiet => exact ⟨fun _ h => by simp at h, List.Pairwise.nil⟩
  | cons hrun _ ih =>
    obtain ⟨ids, -, -, -, -, hbegan, hended⟩ := reminded_of_run hrun
    constructor
    · intro r hr
      rcases List.mem_cons.mp hr with rfl | hr
      · exact hbegan
      · exact (hbegan.trans hended).trans (ih.1 r hr)
    · exact List.pairwise_cons.mpr ⟨fun r hr => hended.trans (ih.1 r hr), ih.2⟩

/-- An event that one of the runs finds due has a row in the end. -/
theorem mem_of_due (h : History pf minutes w runs w') {run : ReminderRun} (hrun : run ∈ runs)
    {event : InterviewEvent} (hevent : event ∈ run.seen.events) (hstatus : event.status = .confirmed)
    (hafter : run.now < event.startTime) (hby : event.startTime ≤ run.now + window minutes) :
    event.id ∈ remindedIds w'.db := by
  induction h with
  | nil hquiet => simp at hrun
  | cons hfirst hrest ih =>
    rcases List.mem_cons.mp hrun with rfl | hrun
    · exact hrest.mem_mono (mem_of_run hfirst hevent hstatus hafter hby)
    · exact ih hrun

end History

/-- Runs that are no further apart than the window do not step over it. The induction is on the runs after
the one that comes too early. -/
theorem exists_in_window {m start : ℤ} : ∀ (runs : List ReminderRun) (run : ReminderRun),
    run.now < start - m → ((run :: runs).map (·.now)).IsChain (fun a b => b ≤ a + m) →
      (∃ last ∈ runs, start ≤ last.now) → ∃ r ∈ runs, start - m ≤ r.now ∧ r.now < start
  | [], _, _, _, ⟨last, hlast, _⟩ => by simp at hlast
  | next :: runs, run, hearly, hchain, ⟨last, hlast, hlate⟩ => by
    obtain ⟨hstep, hchain⟩ := List.isChain_cons_cons.mp hchain
    have hbefore : next.now < start := by lia
    by_cases hin : start - m ≤ next.now
    · exact ⟨next, List.mem_cons_self, hin, hbefore⟩
    · have hlast' : ∃ last ∈ runs, start ≤ last.now := by
        rcases List.mem_cons.mp hlast with rfl | hlast
        · exact absurd hbefore (not_lt.mpr hlate)
        · exact ⟨last, hlast, hlate⟩
      obtain ⟨r, hr, hwindow⟩ := exists_in_window runs next (not_le.mp hin) hchain hlast'
      exact ⟨r, List.mem_cons_of_mem _ hr, hwindow⟩

/-- The ids of the events are a primary key here. -/
def keyed : ∀ β : Type, Effect β → Choice → Session → World → Bool :=
  fun _ _ _ _ w => decide (w.db.events.map (·.id)).Nodup

theorem quiet_of_keyed {w : World} (h : (w.db.events.map (·.id)).Nodup) : Quiet w w := ⟨rfl, le_rfl, h⟩

/-- A run that nothing else comes between: the time to its clock and to its query, and what answers the
loop. -/
def takesAlone (pf : Platform) (minutes : ℤ) (clock query : ℕ) (cs : List Choice) (w : World) :
    Option (ReminderRun × World) :=
  let w₁ := w.elapse { elapsed := clock }
  let w₂ := w₁.elapse { elapsed := query }
  let events := inSomeOrder 0 (dueEvents w₁.now (w₁.now + window minutes) w₂.db)
  if (w.db.events.map (·.id)).Nodup then
    (machine.run keyed (Prog.forEach (remind pf) events) cs (Session.touch {} w₂) w₂).bind fun y =>
      y.1.toOption.map fun _ => (⟨w₁.now, w₂.db⟩, y.2.2)
  else none

theorem takes_of_takesAlone {pf : Platform} {minutes : ℤ} {clock query : ℕ} {cs : List Choice}
    {w w' : World} {run : ReminderRun} (h : takesAlone pf minutes clock query cs w = some (run, w')) :
    run.Takes pf minutes w w' := by
  unfold takesAlone at h
  dsimp only at h
  split_ifs at h with hkeyed
  obtain ⟨⟨r, s, w₃⟩, hrun, h⟩ := Option.bind_eq_some_iff.mp h
  obtain ⟨sent, hr, h⟩ := Option.map_eq_some_iff.mp h
  cases h
  have hr : r = .ok sent := by
    cases r with
    | error e => cases hr
    | ok a => exact congrArg Except.ok (Option.some.inj hr)
  subst hr
  have hsend := (runs_of_run hrun).amid (R := Quiet) fun _ _ _ w hw => quiet_of_keyed (of_decide_eq_true hw)
  refine .intro (.perform (c := ({ elapsed := clock }, w)) (quiet_of_keyed hkeyed) rfl)
    (.perform (c := ({ elapsed := query }, w.elapse { elapsed := clock })) (quiet_of_keyed hkeyed) rfl)
    rfl hsend

/-- Such runs one after the other. -/
def historyAlone (pf : Platform) (minutes : ℤ) :
    List (ℕ × ℕ × List Choice) → World → Option (List ReminderRun × World)
  | [], w => if (w.db.events.map (·.id)).Nodup then some ([], w) else none
  | (clock, query, cs) :: rest, w =>
    (takesAlone pf minutes clock query cs w).bind fun y =>
      (historyAlone pf minutes rest y.2).map fun z => (y.1 :: z.1, z.2)

theorem history_of_historyAlone {pf : Platform} {minutes : ℤ} : ∀ {l : List (ℕ × ℕ × List Choice)}
    {w w' : World} {runs : List ReminderRun}, historyAlone pf minutes l w = some (runs, w') →
      History pf minutes w runs w'
  | [], w, w', runs, h => by
    unfold historyAlone at h
    split_ifs at h with hkeyed
    cases h
    exact .nil (quiet_of_keyed hkeyed)
  | (clock, query, cs) :: rest, w, w', runs, h => by
    unfold historyAlone at h
    obtain ⟨⟨run, w₁⟩, hrun, h⟩ := Option.bind_eq_some_iff.mp h
    obtain ⟨⟨runs', w₂⟩, hrest, h⟩ := Option.map_eq_some_iff.mp h
    cases h
    exact .cons (takes_of_takesAlone hrun) (history_of_historyAlone hrest)

/-- An interview of user `2` with user `3`, an hour from now. -/
def remindedWorld : World where
  db :=
    { users := sampleUsers
      requests := fun r => if r = 10 then some
        { id := 10, candidateId := 2, createdBy := 1, roundType := .technical, durationMinutes := 60,
          bufferMinutes := 10, status := .booked } else none
      participants := fun r => if r = 10 then [⟨2, .candidate⟩, ⟨3, .panelist⟩] else []
      events := [⟨7, 10, 3600000000, 7200000000, "sim-7", none, .simulated, .confirmed⟩] }

/-- Runs after 44, 55 and 61 minutes; the window is 15 minutes. -/
def sampleRuns : List (ℕ × ℕ × List Choice) :=
  [(2640000000, 100, []), (659000000, 100, List.replicate 5 {}), (360000000, 100, [])]

end InterviewScheduler.System
