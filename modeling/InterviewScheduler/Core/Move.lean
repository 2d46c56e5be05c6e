import InterviewScheduler.Core.Logic

/-! # What one effect can do

`Move` says once what a step of a handler can do to its session's record and to the world, guards
included. Every invariant of a run, or of an interleaving, is a case analysis on it. -/

namespace InterviewScheduler.Core

open InterviewScheduler.Effects

/-- Nothing that lasts has changed. -/
structure Still (w w' : World) : Prop where
  db : w'.db = w.db
  log : w'.log = w.log
  google : w'.google = w.google

/-- **The kinds of steps.** `creates` and `C` are what the handler's logic requires of the creation of a
calendar event and of a commit. -/
inductive Move (creates C : Prop) {β : Type} (o : Effect β) (x : Except Exc β) (s : Session)
    (w : World) (s' : Session) (w' : World) : Prop
  | quiet (htrace : s'.trace = s.trace) (hw : Still w w')
  | hit {r : Id} {row : InterviewRequest} (hcopy : s.copies r = some row)
      (htrace : s'.trace = s.trace.decide row.status) (hw : Still w w')
  | read {r : Id} {row : InterviewRequest} (hrow : w.db.requests r = some row)
      (htrace : s'.trace = s.trace.read r row.status w.log.length) (hw : Still w w')
  | looked {r : Id} {event : Option InterviewEvent}
      (hevent : w.db.events.find? (fun e => e.ConfirmedFor r) = event)
      (htrace : s'.trace = { s.trace with
        looked := some ⟨r, event.map (·.id), w.db.events.length⟩ }) (hw : Still w w')
  | found {slotId : Id} {y : Option (RecommendedSlot × RecommendationRun)}
      (hfound : slotWithRun w.db.toInterviews slotId = y) (htrace : s'.trace = (s.find y).trace)
      (hw : Still w w')
  | ranked {r : Id} {pick : ℕ} {run : Option RecommendationRun}
      (hrun : latestRun pick w.db.toInterviews r = run) (htrace : s'.trace = (s.rank w r run).trace)
      (hw : Still w w')
  | entered {key : LockKey} {token : Option Id} (htrace : s'.trace = (s.enter w key token).trace)
      (hw : Still w w')
  | left (htrace : s'.trace = s.leave.trace) (hw : Still w w')
  | created {id : String} (hcreates : creates) (hnew : id ∉ w.google.created)
      (hkept : id ∉ w.google.deleted)
      (htrace : s'.trace = { s.trace with owed := s.trace.owed ++ [id] }) (hdb : w'.db = w.db)
      (hlog : w'.log = w.log)
      (hgoogle : w'.google = { w.google with created := w.google.created ++ [id] })
  | deleted {id : String} (htrace : s'.trace = s.trace.delete id) (hdb : w'.db = w.db)
      (hlog : w'.log = w.log)
      (hgoogle : w'.google = { w.google with deleted := w.google.deleted ++ [id] })
  | failed (h : (∃ e, x = .error e) ∨ s.reported = [] ∧ s.trace.dropped = [])
      (htrace : s'.trace = s.trace.fail s.side) (hw : Still w w')
  | committed {T : Interviews} (ho : o.IsCommit) (hC : C)
      (hT : Write.applyAll s.pending w.db.toInterviews = some T)
      (htrace : s'.trace = s.trace.commit s.pending s.side)
      (hdb : w'.db = s.side.foldl SideWrite.apply { w.db with toInterviews := T })
      (hlog : w'.log = w.log ++ statusChanges s.pending w.db.toInterviews T) (hgoogle : w'.google = w.google)

theorem Still.refl (w : World) : Still w w := ⟨rfl, rfl, rfl⟩

section Inversion

variable {creates : Prop} {C : Session → Interviews → Prop} {β : Type} {o : Effect β} {a : Answer}
  {s s' : Session} {w w' : World} {x : Except Exc β} {T : Interviews}

theorem move_of_eq {y : Except Exc β} {s₁ : Session} {w₁ : World}
    (h : (some (y, s₁, w₁) : Result β) = some (x, s', w'))
    (hm : Move creates (C s T) o y s w s₁ w₁) : Move creates (C s T) o x s w s' w' := by
  simp only [Option.some.injEq, Prod.mk.injEq] at h
  obtain ⟨rfl, rfl, rfl⟩ := h
  exact hm

theorem move_of_dbCall {answer : ℕ → Result β} (h : dbCall a s w answer = some (x, s', w'))
    (hok : ∀ n, answer n = some (x, s', w') → Move creates (C s T) o x s w s' w') :
    Move creates (C s T) o x s w s' w' := by
  rcases dbCall_cases h with ⟨e, -, rfl, rfl, rfl⟩ | ⟨-, n, h⟩
  · exact .failed (.inl ⟨e, rfl⟩) rfl (.refl _)
  · exact hok n h

theorem move_of_outerCall {e : Exc} {answer : Result β}
    (h : outerCall a e s w answer = some (x, s', w'))
    (hok : answer = some (x, s', w') → Move creates (C s T) o x s w s' w') :
    Move creates (C s T) o x s w s' w' := by
  rcases outerCall_cases h with ⟨rfl, rfl, rfl⟩ | h
  · exact .quiet rfl (.refl _)
  · exact hok h

theorem move_of_googleCall {answer : Answer → Result β}
    (h : googleCall a s w answer = some (x, s', w'))
    (hok : answer a = some (x, s', w') → Move creates (C s T) o x s w s' w') :
    Move creates (C s T) o x s w s' w' := by
  rcases googleCall_cases h with ⟨-, rfl, rfl⟩ | h
  · exact .quiet rfl (.refl _)
  · exact hok h

/-- **A step of a handler that meets its obligations is one of the moves.** -/
theorem move_of_respond (hduty : Duty creates C o s T) (h : respond o a s w = some (x, s', w')) :
    Move creates (C s T) o x s w s' w' := by
  cases o with
  | get r =>
    simp only [respond] at h
    split at h
    · next row hrow => exact move_of_eq h (.hit hrow rfl (.refl w))
    · next hrow =>
      refine move_of_dbCall h fun n h => move_of_eq h ?_
      cases hdb : w.db.requests r with
      | none => exact .quiet rfl (.refl w)
      | some row => exact .read hdb rfl (.refl w)
  | refresh r =>
    simp only [respond] at h
    refine move_of_dbCall h fun n h => ?_
    split at h
    · next row hrow =>
      exact move_of_eq h (.read hrow rfl (.refl w))
    · exact move_of_eq h (.quiet rfl (.refl w))
  | select query =>
    simp only [respond] at h
    exact move_of_dbCall h fun n h => move_of_eq h (.quiet rfl (.refl w))
  | connectionOf u =>
    simp only [respond] at h
    exact move_of_dbCall h fun n h => move_of_eq h (.quiet rfl (.refl w))
  | confirmedEvent r =>
    simp only [respond] at h
    exact move_of_dbCall h fun n h => move_of_eq h (.looked rfl rfl (.refl w))
  | slotWithRun slotId =>
    simp only [respond] at h
    exact move_of_dbCall h fun n h => move_of_eq h (.found rfl rfl (.refl w))
  | latestRun r =>
    simp only [respond] at h
    exact move_of_dbCall h fun n h => move_of_eq h (.ranked rfl rfl (.refl w))
  | stage y => exact move_of_eq h (.quiet (s.stage_trace y) (.refl w))
  | flush =>
    simp only [respond] at h
    rcases dbCall_cases h with ⟨e, -, rfl, rfl, rfl⟩ | ⟨-, n, h⟩
    · exact .failed (.inl ⟨e, rfl⟩) rfl (.refl _)
    split at h
    · exact move_of_eq h (.quiet rfl (.refl w))
    · exact move_of_eq h (.failed (.inl ⟨_, rfl⟩) rfl (.refl w))
  | commit =>
    simp only [respond] at h
    refine move_of_dbCall h fun n h => ?_
    split at h
    · next T' hT => exact move_of_eq h (.committed trivial hduty hT rfl rfl rfl rfl)
    · exact move_of_eq h (.failed (.inl ⟨_, rfl⟩) rfl (.refl w))
  | rollback => exact move_of_eq h (.failed (.inr hduty) rfl (.refl w))
  | setNx key token ttl =>
    simp only [respond] at h
    split at h
    · split at h
      · exact move_of_eq h (.quiet rfl (.refl w))
      · exact move_of_eq h (.entered rfl ⟨rfl, rfl, rfl⟩)
    · exact move_of_eq h (.entered rfl (.refl w))
    · simp at h
  | release key token =>
    simp only [respond] at h
    rcases outerCall_cases h with ⟨rfl, rfl, rfl⟩ | h
    · exact .left rfl (.refl _)
    · refine move_of_eq h (.left rfl ?_)
      split <;> exact ⟨rfl, rfl, rfl⟩
  | cacheGet key =>
    simp only [respond] at h
    exact move_of_outerCall h fun h => move_of_eq h (.quiet rfl (.refl w))
  | cacheSet key busy =>
    simp only [respond] at h
    exact move_of_outerCall h fun h => move_of_eq h (.quiet rfl ⟨rfl, rfl, rfl⟩)
  | readAttribute =>
    simp only [respond] at h
    split at h
    · exact move_of_eq h (.quiet rfl (.refl w))
    · exact move_of_eq h (.quiet rfl (.refl w))
  | sendMail msg =>
    simp only [respond] at h
    exact move_of_outerCall h fun h => move_of_eq h (.quiet rfl (.refl w))
  | createEvent token draft =>
    simp only [respond] at h
    refine move_of_googleCall h fun h => ?_
    split at h
    · split at h
      · simp at h
      · next hnew =>
        obtain ⟨hnew, hkept⟩ := not_or.mp hnew
        exact move_of_eq h (.created hduty hnew hkept rfl rfl rfl rfl)
    · simp at h
  | deleteEvent token id =>
    simp only [respond] at h
    refine move_of_googleCall h fun h => ?_
    split at h
    · exact move_of_eq h (.deleted rfl rfl rfl rfl)
    · simp at h
  | freeBusy token tmin tmax =>
    simp only [respond] at h
    refine move_of_googleCall h fun h => ?_
    split at h
    · exact move_of_eq h (.quiet rfl (.refl w))
    · simp at h
  | refreshToken token =>
    simp only [respond] at h
    refine move_of_googleCall h fun h => ?_
    split at h
    · exact move_of_eq h (.quiet rfl (.refl w))
    · simp at h
  | uuid4 =>
    simp only [respond] at h
    split at h
    · exact move_of_eq h (.quiet rfl (.refl w))
    · simp at h
  | _ => exact move_of_eq h (.quiet rfl (.refl w))

/-- The time that passes before a step changes nothing that lasts. -/
theorem move_of_exec {c : Choice} (hduty : Duty creates C o s T)
    (h : machine.exec o c s w = some (x, s', w')) : Move creates (C s T) o x s w s' w' := by
  have hm := move_of_respond (w := w.elapse c) hduty h
  cases hm with
  | quiet ht hw => exact .quiet ht ⟨hw.db, hw.log, hw.google⟩
  | hit hc ht hw => exact .hit hc ht ⟨hw.db, hw.log, hw.google⟩
  | read hr ht hw => exact .read hr ht ⟨hw.db, hw.log, hw.google⟩
  | looked he ht hw => exact .looked he ht ⟨hw.db, hw.log, hw.google⟩
  | found hx ht hw => exact .found hx ht ⟨hw.db, hw.log, hw.google⟩
  | ranked hx ht hw => exact .ranked hx ht ⟨hw.db, hw.log, hw.google⟩
  | entered ht hw => exact .entered ht ⟨hw.db, hw.log, hw.google⟩
  | left ht hw => exact .left ht ⟨hw.db, hw.log, hw.google⟩
  | created hc hn hk ht hdb hlog hg => exact .created hc hn hk ht hdb hlog hg
  | deleted ht hdb hlog hg => exact .deleted ht hdb hlog hg
  | failed hf ht hw => exact .failed hf ht ⟨hw.db, hw.log, hw.google⟩
  | committed ho hC hT ht hdb hlog hg => exact .committed ho hC hT ht hdb hlog hg

end Inversion

/-! ### What a step can do to one part of the record -/

/-- A transaction is committed. -/
structure Transaction (s : Session) (w : World) (s' : Session) (w' : World) (T : Interviews) :
    Prop where
  applied : Write.applyAll s.pending w.db.toInterviews = some T
  tables : w'.db.toInterviews = T
  log : w'.log = w.log ++ statusChanges s.pending w.db.toInterviews T
  trace : s'.trace = s.trace.commit s.pending s.side

/-- The interview tables and the log stay as they are. -/
structure Idle (w w' : World) : Prop where
  tables : w'.db.toInterviews = w.db.toInterviews
  log : w'.log = w.log

section Parts

variable {creates C : Prop} {β : Type} {o : Effect β} {x : Except Exc β} {s s' : Session}
  {w w' : World}

theorem Still.idle (h : Still w w') : Idle w w' := ⟨by rw [h.db], h.log⟩

@[simp] theorem Trace.read_reads (t : Trace) (r : Id) (st : RequestStatus) (n : ℕ) :
    (t.read r st n).reads = Function.update t.reads r (some ⟨st, n⟩) := rfl

@[simp] theorem Trace.decide_reads (t : Trace) (st : RequestStatus) : (t.decide st).reads = t.reads :=
  rfl

@[simp] theorem Trace.delete_reads (t : Trace) (id : String) : (t.delete id).reads = t.reads := by
  unfold Trace.delete
  split <;> rfl

@[simp] theorem Trace.delete_looked (t : Trace) (id : String) : (t.delete id).looked = t.looked := by
  unfold Trace.delete
  split <;> rfl

@[simp] theorem Trace.delete_found (t : Trace) (id : String) : (t.delete id).found = t.found := by
  unfold Trace.delete
  split <;> rfl

@[simp] theorem Trace.delete_ranked (t : Trace) (id : String) : (t.delete id).ranked = t.ranked := by
  unfold Trace.delete
  split <;> rfl

@[simp] theorem Trace.delete_journal (t : Trace) (id : String) :
    (t.delete id).journal = t.journal := by
  unfold Trace.delete
  split <;> rfl

/-- The interview tables and the journal change in a commit only. -/
theorem Move.written (h : Move creates C o x s w s' w') :
    (Idle w w' ∧ s'.trace.journal = s.trace.journal) ∨
      o.IsCommit ∧ C ∧ ∃ T, Transaction s w s' w' T := by
  cases h with
  | committed ho hC hT htrace hdb hlog _ =>
    exact .inr ⟨ho, hC, _, hT, by rw [hdb, SideWrite.foldl_toInterviews], hlog, htrace⟩
  | created _ _ _ htrace hdb hlog _ => exact .inl ⟨⟨by rw [hdb], hlog⟩, by rw [htrace]⟩
  | deleted htrace hdb hlog _ => exact .inl ⟨⟨by rw [hdb], hlog⟩, by simp [htrace]⟩
  | quiet htrace hw => exact .inl ⟨hw.idle, by rw [htrace]⟩
  | hit _ htrace hw => exact .inl ⟨hw.idle, by rw [htrace]; rfl⟩
  | read _ htrace hw => exact .inl ⟨hw.idle, by rw [htrace]; rfl⟩
  | looked _ htrace hw => exact .inl ⟨hw.idle, by rw [htrace]⟩
  | found _ htrace hw => exact .inl ⟨hw.idle, by rw [htrace]; rfl⟩
  | ranked _ htrace hw => exact .inl ⟨hw.idle, by rw [htrace]; rfl⟩
  | entered htrace hw => exact .inl ⟨hw.idle, by rw [htrace]; rfl⟩
  | left htrace hw => exact .inl ⟨hw.idle, by rw [htrace]; rfl⟩
  | failed _ htrace hw => exact .inl ⟨hw.idle, by rw [htrace]; rfl⟩

theorem Move.tables (h : Move creates C o x s w s' w') :
    Idle w w' ∨ o.IsCommit ∧ C ∧ ∃ T, Transaction s w s' w' T := h.written.imp_left (·.1)

/-- What an effect that commits nothing can do to the journal and to the pending changes of the other
tables. -/
theorem respond_idle {a : Answer} (h : respond o a s w = some (x, s', w'))
    (hn : ¬ o.IsCommit ∨ ∃ e, x = .error e) : s'.trace.journal = s.trace.journal ∧
      (s'.side = s.side ∨ s'.side = [] ∨ ∃ y ∈ o.sideWrite, s'.side = s.side ++ [y]) := by
  cases o <;> simp only [respond, dbCall, outerCall, googleCall] at h
  all_goals repeat' split at h
  all_goals simp only [Option.some.injEq, Prod.mk.injEq, reduceCtorEq] at h
  all_goals obtain ⟨rfl, rfl, rfl⟩ := h
  all_goals first
    | exact ⟨rfl, .inl rfl⟩
    | exact ⟨rfl, .inr (.inl rfl)⟩
    | exact ⟨rfl, .inr (.inr ⟨_, rfl, rfl⟩)⟩
    | exact ⟨(s.touch w).load_journal w _ _, .inl rfl⟩
    | exact ⟨congrArg Trace.journal (s.stage_trace _), .inl (s.stage_side _)⟩
    | exact ⟨s.trace.delete_journal _, .inl rfl⟩
    | simp [Effect.IsCommit] at hn

/-- The last read of a request stays, or it is of the row that is stored now. -/
theorem Move.reads (h : Move creates C o x s w s' w') (r : Id) :
    s'.trace.reads r = s.trace.reads r ∨ ∃ row, w.db.requests r = some row ∧
      s'.trace.reads r = some ⟨row.status, w.log.length⟩ ∧ Idle w w' := by
  cases h with
  | @read r' row hrow htrace hw =>
    by_cases hr : r = r'
    · subst hr
      exact .inr ⟨row, hrow, by simp [htrace], hw.idle⟩
    · exact .inl (by simp [htrace, hr])
  | quiet htrace _ => exact .inl (by rw [htrace])
  | hit _ htrace _ => exact .inl (by rw [htrace]; rfl)
  | looked _ htrace _ => exact .inl (by rw [htrace])
  | found _ htrace _ => exact .inl (by rw [htrace]; rfl)
  | ranked _ htrace _ => exact .inl (by rw [htrace]; rfl)
  | entered htrace _ => exact .inl (by rw [htrace]; rfl)
  | left htrace _ => exact .inl (by rw [htrace]; rfl)
  | created _ _ _ htrace _ _ _ => exact .inl (by rw [htrace])
  | deleted htrace _ _ _ => exact .inl (by simp [htrace])
  | failed _ htrace _ => exact .inl (by rw [htrace]; rfl)
  | committed _ _ _ htrace _ _ _ => exact .inl (by rw [htrace]; rfl)

/-- The last lookup of a CONFIRMED event stays, or it tells what is stored now. -/
theorem Move.lookup (h : Move creates C o x s w s' w') :
    s'.trace.looked = s.trace.looked ∨ ∃ r, s'.trace.looked =
      some ⟨r, (w.db.events.find? fun e => e.ConfirmedFor r).map (·.id), w.db.events.length⟩ ∧
        Idle w w' := by
  cases h with
  | @looked r event hevent htrace hw => exact .inr ⟨r, by rw [htrace, hevent], hw.idle⟩
  | quiet htrace _ => exact .inl (by rw [htrace])
  | hit _ htrace _ => exact .inl (by rw [htrace]; rfl)
  | read _ htrace _ => exact .inl (by rw [htrace]; rfl)
  | found _ htrace _ => exact .inl (by rw [htrace]; rfl)
  | ranked _ htrace _ => exact .inl (by rw [htrace]; rfl)
  | entered htrace _ => exact .inl (by rw [htrace]; rfl)
  | left htrace _ => exact .inl (by rw [htrace]; rfl)
  | created _ _ _ htrace _ _ _ => exact .inl (by rw [htrace])
  | deleted htrace _ _ _ => exact .inl (by simp [htrace])
  | failed _ htrace _ => exact .inl (by rw [htrace]; rfl)
  | committed _ _ _ htrace _ _ _ => exact .inl (by rw [htrace]; rfl)

/-- The last lookup of a slot stays, or it tells where the slot is stored now. -/
theorem Move.finding (h : Move creates C o x s w s' w') {f : Finding} (hf : f ∈ s'.trace.found) :
    f ∈ s.trace.found ∨ ∃ slotId slot run,
      slotWithRun w.db.toInterviews slotId = some (slot, run) ∧ f = ⟨slot.id, run.id⟩ := by
  cases h with
  | @found slotId y hfound htrace _ =>
    rw [htrace] at hf
    obtain ⟨⟨slot, run⟩, rfl, rfl⟩ := Option.map_eq_some_iff.mp hf
    exact .inr ⟨slotId, slot, run, hfound, rfl⟩
  | quiet htrace _ => exact .inl (by rwa [htrace] at hf)
  | hit _ htrace _ => exact .inl (by rwa [htrace] at hf)
  | read _ htrace _ => exact .inl (by rwa [htrace] at hf)
  | looked _ htrace _ => exact .inl (by rwa [htrace] at hf)
  | ranked _ htrace _ => exact .inl (by rwa [htrace] at hf)
  | entered htrace _ => exact .inl (by rwa [htrace] at hf)
  | left htrace _ => exact .inl (by rwa [htrace] at hf)
  | created _ _ _ htrace _ _ _ => exact .inl (by rwa [htrace] at hf)
  | deleted htrace _ _ _ => exact .inl (by simpa [htrace] using hf)
  | failed _ htrace _ => exact .inl (by rwa [htrace] at hf)
  | committed _ _ _ htrace _ _ _ => exact .inl (by rwa [htrace] at hf)

/-- The last lookup of a latest run stays, or it tells what is stored now. -/
theorem Move.ranking (h : Move creates C o x s w s' w') {rk : Ranking} (hrk : rk ∈ s'.trace.ranked) :
    rk ∈ s.trace.ranked ∨ ∃ pick, rk.run = latestRun pick w.db.toInterviews rk.requestId ∧
      rk.stored = (runsOf w.db.toInterviews rk.requestId).length ∧
        rk.read = (s.trace.reads rk.requestId).map (·.status) ∧ Still w w' := by
  cases h with
  | @ranked r pick run hrun htrace hw =>
    rw [htrace] at hrk
    obtain rfl := Option.some.inj hrk
    exact .inr ⟨pick, hrun.symm, rfl, rfl, hw⟩
  | quiet htrace _ => exact .inl (by rwa [htrace] at hrk)
  | hit _ htrace _ => exact .inl (by rwa [htrace] at hrk)
  | read _ htrace _ => exact .inl (by rwa [htrace] at hrk)
  | looked _ htrace _ => exact .inl (by rwa [htrace] at hrk)
  | found _ htrace _ => exact .inl (by rwa [htrace] at hrk)
  | entered htrace _ => exact .inl (by rwa [htrace] at hrk)
  | left htrace _ => exact .inl (by rwa [htrace] at hrk)
  | created _ _ _ htrace _ _ _ => exact .inl (by rwa [htrace] at hrk)
  | deleted htrace _ _ _ => exact .inl (by simpa [htrace] using hrk)
  | failed _ htrace _ => exact .inl (by rwa [htrace] at hrk)
  | committed _ _ _ htrace _ _ _ => exact .inl (by rwa [htrace] at hrk)

/-- What a step does to the critical section and to what was read: the call reads a status or writes, the
section begins, or it ends. -/
inductive Sections (s : Session) (w : World) (s' : Session) : Prop
  | same (h : s'.trace.critical = s.trace.critical) (hreads : s'.trace.reads = s.trace.reads)
  | hit {st : RequestStatus} (h : s'.trace.critical = (s.trace.decide st).critical)
      (hreads : s'.trace.reads = s.trace.reads)
  | read {r : Id} {row : InterviewRequest} (hrow : w.db.requests r = some row)
      (h : s'.trace.critical = ((s.trace.decide row.status).reread r row.status).critical)
      (hreads : s'.trace.reads = Function.update s.trace.reads r (some ⟨row.status, w.log.length⟩))
  | entered {key : LockKey} {token : Option Id}
      (h : s'.trace.critical = some (s.entry w key token)) (hreads : s'.trace.reads = s.trace.reads)
  | left (h : s'.trace.critical = none) (hreads : s'.trace.reads = s.trace.reads)
  | wrote (hp : s.pending ≠ [])
      (h : s'.trace.critical = s.trace.critical.map fun c => { c with reread := none })
      (hreads : s'.trace.reads = s.trace.reads)

theorem Move.sections (h : Move creates C o x s w s' w') : Sections s w s' := by
  cases h with
  | quiet htrace _ => exact .same (by rw [htrace]) (by rw [htrace])
  | hit _ htrace _ => exact .hit (by rw [htrace]) (by rw [htrace]; rfl)
  | read hrow htrace _ => exact .read hrow (by rw [htrace]; rfl) (by rw [htrace]; rfl)
  | looked _ htrace _ => exact .same (by rw [htrace]) (by rw [htrace])
  | found _ htrace _ => exact .same (by rw [htrace]; rfl) (by rw [htrace]; rfl)
  | ranked _ htrace _ => exact .same (by rw [htrace]; rfl) (by rw [htrace]; rfl)
  | entered htrace _ => exact .entered (by rw [htrace]; rfl) (by rw [htrace]; rfl)
  | left htrace _ => exact .left (by rw [htrace]; rfl) (by rw [htrace]; rfl)
  | created _ _ _ htrace _ _ _ => exact .same (by rw [htrace]) (by rw [htrace])
  | deleted htrace _ _ _ =>
    exact .same (by rw [htrace, s.trace.delete_critical]) (by rw [htrace, s.trace.delete_reads])
  | failed _ htrace _ => exact .same (by rw [htrace]; rfl) (by rw [htrace]; rfl)
  | committed _ _ _ htrace _ _ _ =>
    have hreads : s'.trace.reads = s.trace.reads := by
      rw [htrace]
      rfl
    by_cases hp : s.pending = []
    · exact .same (by rw [htrace, Trace.commit, if_pos hp]) hreads
    · exact .wrote hp (by rw [htrace, Trace.commit, if_neg hp]) hreads

end Parts

/-! ### Reconciliation tasks -/

/-- An OPEN reconciliation task is about the calendar event. -/
def HasTask (db : Db) (id : String) : Prop :=
  ∃ task ∈ db.tasks, task.status = .open ∧ task.externalCalendarEventId = id

theorem hasTask_apply {db : Db} {id : String} (x : SideWrite) (h : HasTask db id) :
    HasTask (x.apply db) id := by
  obtain ⟨task, hmem, htask⟩ := h
  cases x with
  | insertTask row => exact ⟨task, List.mem_append_left _ hmem, htask⟩
  | _ => exact ⟨task, hmem, htask⟩

/-- No task is lost. -/
theorem hasTask_foldl {db : Db} {id : String} (side : List SideWrite) (h : HasTask db id) :
    HasTask (side.foldl SideWrite.apply db) id := by
  induction side generalizing db with
  | nil => exact h
  | cons x xs ih => exact ih (hasTask_apply x h)

/-- What a transaction reports has a task when it is committed. -/
theorem hasTask_of_reports {db : Db} {id : String} {side : List SideWrite}
    (h : id ∈ side.flatMap SideWrite.reports) : HasTask (side.foldl SideWrite.apply db) id := by
  induction side generalizing db with
  | nil => simp at h
  | cons x xs ih =>
    rcases List.mem_append.mp h with h | h
    · refine hasTask_foldl xs ?_
      cases x with
      | insertTask row =>
        simp only [SideWrite.reports] at h
        split at h
        · next hopen =>
          exact ⟨row, List.mem_append_right _ (List.mem_singleton.mpr rfl), hopen,
            (List.mem_singleton.mp h).symm⟩
        · simp at h
      | _ => simp [SideWrite.reports] at h
    · exact ih h

/-! ### Conditions on the world -/

/-- No step fails while the session is in one of the given states. -/
def Unfailing (Q : Session → Prop) : Condition Effect Choice Session World := fun _ o c s w =>
  Q s → ∀ e s' w', machine.exec o c s w ≠ some (.error e, s', w')

/-- The same as a check. -/
def unfailing (q : Session → Bool) (β : Type) (o : Effect β) (c : Choice) (s : Session)
    (w : World) : Bool :=
  match q s, machine.exec o c s w with
  | true, some (.error _, _, _) => false
  | _, _ => true

theorem unfailing_of_check {Q : Session → Prop} {q : Session → Bool} (hq : ∀ s, Q s → q s)
    {β : Type} (o : Effect β) (c : Choice) (s : Session) (w : World)
    (h : unfailing q β o c s w = true) : Unfailing Q β o c s w := by
  intro hs e s' w' hexec
  simp [unfailing, hq s hs, hexec] at h

/-! ### The log -/

section Log

variable {ws : List Write} {T T' : Interviews} {ch : StatusChange}

/-- An entry of the log is a change of a row that exists. -/
theorem of_mem_statusChanges (h : ch ∈ statusChanges ws T T') :
    ∃ row row', T.requests ch.requestId = some row ∧ T'.requests ch.requestId = some row' ∧
      ch.before = row.status ∧ ch.after = row'.status ∧ row.status ≠ row'.status := by
  obtain ⟨r, -, h⟩ := List.mem_filterMap.mp h
  split at h
  · next row row' hrow hrow' =>
    split at h
    · simp at h
    · next hne =>
      simp only [Option.some.injEq] at h
      subst h
      exact ⟨row, row', hrow, hrow', rfl, rfl, hne⟩
  · simp at h

/-- What changed a status in the log is a write that sets it. -/
theorem setStatus_of_mem_statusChanges (hT : Write.applyAll ws T = some T')
    (h : ch ∈ statusChanges ws T T') : .setStatus ch.requestId ch.after ∈ ws := by
  obtain ⟨row, row', hrow, hrow', -, hafter, hne⟩ := of_mem_statusChanges h
  obtain ⟨row₁, h₁, hst⟩ := Write.status_applyAll hT hrow
  rw [hrow', Option.some.injEq] at h₁
  subst h₁
  rw [hafter]
  exact hst.resolve_left fun heq => hne heq.symm

/-- **The log misses no change of a status.** -/
theorem mem_statusChanges (hT : Write.applyAll ws T = some T') {r : Id}
    {row row' : InterviewRequest} (hrow : T.requests r = some row) (hrow' : T'.requests r = some row')
    (hne : row.status ≠ row'.status) :
    ⟨r, row.status, row'.status⟩ ∈ statusChanges ws T T' := by
  obtain ⟨row₁, h₁, hst⟩ := Write.status_applyAll hT hrow
  rw [hrow', Option.some.injEq] at h₁
  subst h₁
  refine List.mem_filterMap.mpr ⟨r, List.mem_filterMap.mpr ⟨_, hst.resolve_left hne.symm, rfl⟩, ?_⟩
  simp [hrow, hrow', hne]

end Log

/-! ### The statuses after a transaction -/

section Transactions

variable {s s' : Session} {w w' : World} {T : Interviews} {r : Id} {st st' : RequestStatus}

theorem status_eq_some {w : World} :
    w.status r = some st ↔ ∃ row, w.db.requests r = some row ∧ row.status = st := Option.map_eq_some_iff

theorem Idle.status (h : Idle w w') (r : Id) : w'.status r = w.status r := by
  unfold World.status
  rw [h.tables]

/-- A transaction that inserts no request leaves the ones that do not exist. -/
theorem Transaction.status_none (h : Transaction s w s' w' T)
    (hins : ∀ row ps, .insertRequest row ps ∉ s.pending) (hst : w.status r = none) :
    w'.status r = none := by
  have hnone : w.db.requests r = none := Option.map_eq_none_iff.mp hst
  unfold World.status
  rw [h.tables, Write.applyAll_eq_force h.applied,
    Write.requests_force_of_none hnone fun row ps hmem => absurd hmem (hins row ps)]
  rfl

/-- What a transaction makes of the status of a request. -/
theorem Transaction.status (h : Transaction s w s' w' T) (hst : w.status r = some st) :
    ∃ st', w'.status r = some st' ∧ (st' = st ∨ .setStatus r st' ∈ s.pending) := by
  obtain ⟨row, hrow, rfl⟩ := status_eq_some.mp hst
  obtain ⟨row', hrow', hset⟩ := Write.status_applyAll h.applied hrow
  refine ⟨row'.status, status_eq_some.mpr ⟨row', ?_, rfl⟩, hset⟩
  rw [h.tables]
  exact hrow'

/-- Every change of a status is in the log. -/
theorem Transaction.logged (h : Transaction s w s' w' T) (hst : w.status r = some st)
    (hst' : w'.status r = some st') (hne : st ≠ st') :
    ⟨r, st, st'⟩ ∈ statusChanges s.pending w.db.toInterviews T := by
  obtain ⟨row, hrow, rfl⟩ := status_eq_some.mp hst
  obtain ⟨row', hrow', rfl⟩ := status_eq_some.mp hst'
  rw [h.tables] at hrow'
  exact mem_statusChanges h.applied hrow hrow' hne

/-- Every entry of the log is a change of a status, which the transaction has set. -/
theorem Transaction.of_mem (h : Transaction s w s' w' T) {ch : StatusChange}
    (hch : ch ∈ statusChanges s.pending w.db.toInterviews T) :
    w'.status ch.requestId = some ch.after ∧ .setStatus ch.requestId ch.after ∈ s.pending := by
  refine ⟨?_, setStatus_of_mem_statusChanges h.applied hch⟩
  obtain ⟨-, row', -, hrow', -, hafter, -⟩ := of_mem_statusChanges hch
  rw [hafter]
  refine status_eq_some.mpr ⟨row', ?_, rfl⟩
  rw [h.tables]
  exact hrow'

/-- A transaction that sets no status of the request changes none. -/
theorem Transaction.status_of_not_set (h : Transaction s w s' w' T)
    (hset : ∀ st, .setStatus r st ∉ s.pending) (hst : w.status r = some st) :
    w'.status r = some st := by
  obtain ⟨st', hst', rfl | hmem⟩ := h.status hst
  · exact hst'
  · exact absurd hmem (hset st')

/-- A transaction that sets one status of the request gives it that status. -/
theorem Transaction.status_of_set (h : Transaction s w s' w' T) (hset : .setStatus r st' ∈ s.pending)
    (huniq : ∀ x, .setStatus r x ∈ s.pending → x = st') (hst : w.status r = some st) :
    w'.status r = some st' := by
  obtain ⟨row, hrow, -⟩ := status_eq_some.mp hst
  obtain ⟨row', hrow', hst'⟩ := Write.status_of_set h.applied hrow hset huniq
  refine status_eq_some.mpr ⟨row', ?_, hst'⟩
  rw [h.tables]
  exact hrow'

/-- Either the status is as it was, or the new one is in the log. -/
theorem Transaction.same_or_logged (h : Transaction s w s' w' T) (hst : w.status r = some st) :
    ∃ st', w'.status r = some st' ∧ (st' = st ∨
      ⟨r, st, st'⟩ ∈ statusChanges s.pending w.db.toInterviews T) := by
  obtain ⟨st', hst', -⟩ := h.status hst
  by_cases heq : st' = st
  · exact ⟨st', hst', .inl heq⟩
  · exact ⟨st', hst', .inr (h.logged hst hst' fun h => heq h.symm)⟩

theorem Transaction.force (h : Transaction s w s' w' T) :
    w'.db.toInterviews = Write.force s.pending w.db.toInterviews := by
  rw [h.tables, Write.applyAll_eq_force h.applied]

end Transactions

end InterviewScheduler.Core
