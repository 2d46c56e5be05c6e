import InterviewScheduler.Effects.Frame
import InterviewScheduler.Core.Calls

/-! # The logic of handlers

A handler is proved against its own session and the interview tables as they are *if it runs alone*
(`alone`): then every read tells the truth about them. When other handlers run in between, only what
the session itself records is known. `handlers alone creates C` covers both. Its obligations are the
condition `C` at every commit, that a calendar event is created only if `creates` holds, and that
neither a reconciliation task nor the record of a deletion is rolled back. -/

namespace InterviewScheduler.Core

open InterviewScheduler.Effects

/-! ### Writes and the world -/

/-- Side writes leave the interview tables alone. -/
theorem SideWrite.apply_toInterviews (db : Db) (x : SideWrite) :
    (x.apply db).toInterviews = db.toInterviews := by
  cases x <;> rfl

theorem SideWrite.foldl_toInterviews (side : List SideWrite) (db : Db) :
    (side.foldl SideWrite.apply db).toInterviews = db.toInterviews := by
  induction side generalizing db with
  | nil => rfl
  | cons x xs ih => exact (ih _).trans (x.apply_toInterviews db)

@[simp] theorem World.commit_toInterviews (w : World) (s : Session) (T : Interviews) :
    (w.commit s T).db.toInterviews = T := SideWrite.foldl_toInterviews _ _

@[simp] theorem World.elapse_db (w : World) (c : Choice) : (w.elapse c).db = w.db := rfl
@[simp] theorem World.elapse_log (w : World) (c : Choice) : (w.elapse c).log = w.log := rfl
@[simp] theorem World.elapse_google (w : World) (c : Choice) : (w.elapse c).google = w.google := rfl

/-! ### The session -/

namespace Session

variable (s : Session) (w : World)

@[simp] theorem touch_copies : (s.touch w).copies = s.copies := rfl
@[simp] theorem touch_pending : (s.touch w).pending = s.pending := rfl
@[simp] theorem touch_side : (s.touch w).side = s.side := rfl
@[simp] theorem touch_trace : (s.touch w).trace = s.trace := rfl
@[simp] theorem touch_invalid : (s.touch w).invalid = s.invalid := rfl

@[simp] theorem expire_copies : s.expire.copies = s.copies := rfl
@[simp] theorem expire_pending : s.expire.pending = s.pending := rfl
@[simp] theorem expire_side : s.expire.side = s.side := rfl
@[simp] theorem expire_trace : s.expire.trace = s.trace := rfl
@[simp] theorem expire_invalid : s.expire.invalid = s.invalid := rfl

@[simp] theorem load_copies (r : Id) (row : Option InterviewRequest) :
    (s.load w r row).copies = Function.update s.copies r row := rfl
@[simp] theorem load_journal (r : Id) (row : Option InterviewRequest) :
    (s.load w r row).trace.journal = s.trace.journal := by
  cases row <;> rfl
@[simp] theorem load_pending (r : Id) (row : Option InterviewRequest) :
    (s.load w r row).pending = s.pending := rfl
@[simp] theorem load_side (r : Id) (row : Option InterviewRequest) :
    (s.load w r row).side = s.side := rfl

theorem stage_trace (x : Write) : (s.stage x).trace = s.trace := by
  cases x with
  | setStatus r st =>
    simp only [Session.stage]
    split <;> rfl
  | _ => rfl

theorem stage_side (x : Write) : (s.stage x).side = s.side := by
  cases x with
  | setStatus r st =>
    simp only [Session.stage]
    split <;> rfl
  | _ => rfl

/-- The calendar events that the pending reconciliation tasks are about. -/
def reported : List String := s.side.flatMap SideWrite.reports

end Session

theorem Trace.delete_critical (t : Trace) (id : String) : (t.delete id).critical = t.critical := by
  unfold Trace.delete
  split <;> rfl

/-! ### Inversion of the answers -/

section Answers

variable {β : Type} {a : Answer} {s s' : Session} {w w' : World} {r : Except Exc β}

theorem dbCall_cases {answer : ℕ → Result β} (h : dbCall a s w answer = some (r, s', w')) :
    (∃ e : Exc, e.isApp = false ∧ r = .error e ∧ s' = s.fail ∧ w' = w) ∨
      (s.invalid = false ∧ ∃ n, answer n = some (r, s', w')) := by
  unfold dbCall at h
  split at h
  · simp only [Option.some.injEq, Prod.mk.injEq] at h
    exact .inl ⟨_, rfl, h.1.symm, h.2.1.symm, h.2.2.symm⟩
  · next hinv =>
    have hinv : s.invalid = false := by simpa using hinv
    split at h
    · exact .inr ⟨hinv, _, h⟩
    · exact .inr ⟨hinv, _, h⟩
    · simp only [Option.some.injEq, Prod.mk.injEq] at h
      exact .inl ⟨_, rfl, h.1.symm, h.2.1.symm, h.2.2.symm⟩
    · simp at h

theorem outerCall_cases {e : Exc} {answer : Result β}
    (h : outerCall a e s w answer = some (r, s', w')) :
    (r = .error e ∧ s' = s ∧ w' = w) ∨ answer = some (r, s', w') := by
  unfold outerCall at h
  split at h
  · exact .inr h
  · simp only [Option.some.injEq, Prod.mk.injEq] at h
    exact .inl ⟨h.1.symm, h.2.1.symm, h.2.2.symm⟩
  · simp at h

theorem googleCall_cases {answer : Answer → Result β}
    (h : googleCall a s w answer = some (r, s', w')) :
    ((r = .error .calendarTransportError ∨ r = .error .calendarAuthError) ∧ s' = s ∧ w' = w) ∨
      answer a = some (r, s', w') := by
  unfold googleCall at h
  split at h
  · simp only [Option.some.injEq, Prod.mk.injEq] at h
    exact .inl ⟨.inl h.1.symm, h.2.1.symm, h.2.2.symm⟩
  · simp only [Option.some.injEq, Prod.mk.injEq] at h
    exact .inl ⟨.inr h.1.symm, h.2.1.symm, h.2.2.symm⟩
  · exact .inr h

/-- With nothing pending in the interview tables a flush fails only when the database does. -/
theorem flush_cases {x : Except Exc Unit} (hp : s.pending = []) (hv : s.invalid = false)
    (h : respond .flush a s w = some (x, s', w')) :
    (a = .fail ∧ (∃ e, x = .error e) ∧ s' = s.expire.fail ∧ w' = w) ∨
      x = .ok () ∧ s' = s.touch w ∧ w' = w := by
  simp only [respond, dbCall, Session.expire_invalid, hv, hp, Write.applyAll, Bool.false_eq_true,
    if_false] at h
  split at h
  all_goals simp only [Option.some.injEq, Prod.mk.injEq, reduceCtorEq] at h
  all_goals obtain ⟨rfl, rfl, rfl⟩ := h
  · exact .inr ⟨rfl, rfl, rfl⟩
  · exact .inr ⟨rfl, rfl, rfl⟩
  · exact .inl ⟨rfl, ⟨_, rfl⟩, rfl, rfl⟩

/-- Such a commit fails only when the database does, and then it expires no row. -/
theorem commit_cases {x : Except Exc Unit} (hp : s.pending = []) (hv : s.invalid = false)
    (h : respond .commit a s w = some (x, s', w')) :
    (a = .fail ∧ (∃ e, x = .error e) ∧ s' = s.fail ∧ w' = w) ∨
      x = .ok () ∧ s' = s.committed ∧ w' = w.commit s w.db.toInterviews := by
  simp only [respond, dbCall, hv, hp, Write.applyAll, Bool.false_eq_true, if_false] at h
  split at h
  all_goals simp only [Option.some.injEq, Prod.mk.injEq, reduceCtorEq] at h
  all_goals obtain ⟨rfl, rfl, rfl⟩ := h
  · exact .inr ⟨rfl, rfl, rfl⟩
  · exact .inr ⟨rfl, rfl, rfl⟩
  · exact .inl ⟨rfl, ⟨_, rfl⟩, rfl, rfl⟩

end Answers

/-! ### The logic -/

/-- The effect is a commit. -/
def Effect.IsCommit {β : Type} : Effect β → Prop
  | .commit => True
  | _ => False

/-- The effect is a flush. -/
def Effect.isFlush {β : Type} : Effect β → Bool
  | .flush => true
  | _ => false

/-- The change of the other tables that an effect adds to the transaction. -/
def Effect.sideWrite {β : Type} : Effect β → Option SideWrite
  | .stageSide x => some x
  | _ => none

/-- The interview tables after an effect of a handler that runs alone. -/
def next {β : Type} (o : Effect β) (r : Except Exc β) (s : Session) (T : Interviews) : Interviews :=
  match o, r with
  | .commit, .ok _ => Write.force s.pending T
  | _, _ => T

/-- A run is stored with the time of its transaction. -/
def Write.Timed (began : Option Engine.Instant) : Write → Prop
  | .insertRun run => began = some run.generatedAt
  | _ => True

/-- The session is in the critical section of the lock entry. -/
def Session.Inside (s : Session) (key : LockKey) (token : Option Id) : Prop :=
  ∃ cr, s.trace.critical = some cr ∧ cr.key = key ∧ cr.token = token

/-- What an effect requires of the handler. -/
def Duty (creates : Prop) (C : Session → Interviews → Prop) {β : Type} (o : Effect β) (s : Session)
    (T : Interviews) : Prop :=
  match o with
  | .commit => C s T
  | .rollback => s.reported = [] ∧ s.trace.dropped = []
  | .createEvent _ _ => creates
  | .stage x => x.Timed s.began
  | .release key token => s.Inside key (some token)
  | _ => True

/-- The logic of handlers. -/
def handlers (alone creates : Prop) (C : Session → Interviews → Prop) :
    Logic Effect Exc (Session × Interviews) where
  pre o v := Duty creates C o v.1 v.2
  step o v r v' := ∃ a w w', respond o a v.1 w = some (r, v'.1, w') ∧
    (alone → w.db.toInterviews = v.2) ∧ v'.2 = next o r v.1 v.2

section Rules

variable {alone creates : Prop} {C : Session → Interviews → Prop} {s : Session} {T : Interviews}

/-- A step of the logic is a step of the machine. -/
theorem wp_effect {β : Type} {o : Effect β} {Q : Except Exc β → Session × Interviews → Prop}
    (hpre : (handlers alone creates C).pre o (s, T))
    (h : ∀ a w r s' w', respond o a s w = some (r, s', w') → (alone → w.db.toInterviews = T) →
      Q r (s', next o r s T)) : wp (handlers alone creates C) (.perform o) Q (s, T) := by
  refine wp_perform hpre ?_
  rintro r ⟨s', T'⟩ ⟨a, w, w', hex, hT, hnext⟩
  simp only at hex hT hnext
  subst hnext
  exact h a w r s' w' hex hT

theorem wp_dbGet_hit {r : Id} {row : InterviewRequest}
    {Q : Except Exc (Option InterviewRequest) → Session × Interviews → Prop}
    (hrow : s.copies r = some row)
    (hok : Q (.ok (some row)) ({ s with trace := s.trace.decide row.status }, T)) :
    wp (handlers alone creates C) (dbGet r) Q (s, T) := by
  refine wp_effect trivial fun a w x s' w' hex _ => ?_
  simp only [respond, hrow, Option.some.injEq, Prod.mk.injEq] at hex
  obtain ⟨rfl, rfl, rfl⟩ := hex
  exact hok

theorem wp_dbGet_miss {r : Id} {Q : Except Exc (Option InterviewRequest) → Session × Interviews → Prop}
    (hnone : s.copies r = none) (hfail : ∀ e : Exc, e.isApp = false → Q (.error e) (s.fail, T))
    (hok : s.invalid = false → ∀ w : World, (alone → w.db.toInterviews = T) →
      Q (.ok (w.db.requests r)) ((s.touch w).load w r (w.db.requests r), T)) :
    wp (handlers alone creates C) (dbGet r) Q (s, T) := by
  refine wp_effect trivial fun a w x s' w' hex hT => ?_
  simp only [respond, hnone] at hex
  rcases dbCall_cases hex with ⟨e, he, rfl, rfl, -⟩ | ⟨hinv, n, hex⟩
  · exact hfail e he
  · simp only [Option.some.injEq, Prod.mk.injEq] at hex
    obtain ⟨rfl, rfl, rfl⟩ := hex
    exact hok hinv w hT

theorem wp_dbRefresh {r : Id} {Q : Except Exc InterviewRequest → Session × Interviews → Prop}
    (hfail : ∀ e : Exc, e.isApp = false → Q (.error e) (s.fail, T))
    (hgone : Q (.error (.builtin "InvalidRequestError")) (s, T))
    (hok : ∀ (w : World) row, w.db.requests r = some row → (alone → w.db.toInterviews = T) →
      Q (.ok row) ((s.touch w).load w r (some row), T)) :
    wp (handlers alone creates C) (dbRefresh r) Q (s, T) := by
  refine wp_effect trivial fun a w x s' w' hex hT => ?_
  simp only [respond] at hex
  rcases dbCall_cases hex with ⟨e, he, rfl, rfl, -⟩ | ⟨hinv, n, hex⟩
  · exact hfail e he
  · split at hex
    · next row hrow =>
      simp only [Option.some.injEq, Prod.mk.injEq] at hex
      obtain ⟨rfl, rfl, rfl⟩ := hex
      exact hok w row hrow hT
    · simp only [Option.some.injEq, Prod.mk.injEq] at hex
      obtain ⟨rfl, rfl, rfl⟩ := hex
      exact hgone

theorem wp_dbExpunge {r : Id} {Q : Except Exc Unit → Session × Interviews → Prop}
    (hok : Q (.ok ()) ({ s with copies := Function.update s.copies r none }, T)) :
    wp (handlers alone creates C) (dbExpunge r) Q (s, T) := by
  refine wp_effect trivial fun a w x s' w' hex _ => ?_
  simp only [respond, Option.some.injEq, Prod.mk.injEq] at hex
  obtain ⟨rfl, rfl, rfl⟩ := hex
  exact hok

theorem wp_dbSelect {α : Type} {query : ℕ → Db → α} {Q : Except Exc α → Session × Interviews → Prop}
    (hfail : ∀ e : Exc, e.isApp = false → Q (.error e) (s.fail, T))
    (hok : ∀ n (w : World), (alone → w.db.toInterviews = T) →
      Q (.ok (query n w.db)) (s.touch w, T)) :
    wp (handlers alone creates C) (dbSelect query) Q (s, T) := by
  refine wp_effect trivial fun a w x s' w' hex hT => ?_
  simp only [respond] at hex
  rcases dbCall_cases hex with ⟨e, he, rfl, rfl, -⟩ | ⟨hinv, n, hex⟩
  · exact hfail e he
  · simp only [Option.some.injEq, Prod.mk.injEq] at hex
    obtain ⟨rfl, rfl, rfl⟩ := hex
    exact hok n w hT

theorem wp_confirmedEvent {r : Id}
    {Q : Except Exc (Option InterviewEvent) → Session × Interviews → Prop}
    (hfail : ∀ e : Exc, e.isApp = false → Q (.error e) (s.fail, T))
    (hok : ∀ (w : World) event, event = (w.db.events.find? fun e => e.ConfirmedFor r) →
      (alone → w.db.toInterviews = T) →
      Q (.ok event) ({ s.touch w with
        trace := { s.trace with looked := some ⟨r, event.map (·.id), w.db.events.length⟩ } }, T)) :
    wp (handlers alone creates C) (.perform (.confirmedEvent r)) Q (s, T) := by
  refine wp_effect trivial fun a w x s' w' hex hT => ?_
  simp only [respond] at hex
  rcases dbCall_cases hex with ⟨e, he, rfl, rfl, -⟩ | ⟨hinv, n, hex⟩
  · exact hfail e he
  · simp only [Option.some.injEq, Prod.mk.injEq] at hex
    obtain ⟨rfl, rfl, rfl⟩ := hex
    exact hok w _ rfl hT

theorem wp_connectionOf {u : Id} {Q : Except Exc (Option CalendarConnection) → Session × Interviews → Prop}
    (hfail : ∀ e : Exc, e.isApp = false → Q (.error e) (s.fail, T))
    (hok : ∀ w : World, Q (.ok (w.db.connections u)) (s.touch w, T)) :
    wp (handlers alone creates C) (.perform (.connectionOf u)) Q (s, T) := by
  refine wp_effect trivial fun a w x s' w' hex _ => ?_
  simp only [respond] at hex
  rcases dbCall_cases hex with ⟨e, he, rfl, rfl, -⟩ | ⟨hinv, n, hex⟩
  · exact hfail e he
  · simp only [Option.some.injEq, Prod.mk.injEq] at hex
    obtain ⟨rfl, rfl, rfl⟩ := hex
    exact hok w

theorem wp_slotWithRun {slotId : Id}
    {Q : Except Exc (Option (RecommendedSlot × RecommendationRun)) → Session × Interviews → Prop}
    (hfail : ∀ e : Exc, e.isApp = false → Q (.error e) (s.fail, T))
    (hok : ∀ (w : World) x, x = slotWithRun w.db.toInterviews slotId →
      (alone → w.db.toInterviews = T) → Q (.ok x) ((s.touch w).find x, T)) :
    wp (handlers alone creates C) (.perform (.slotWithRun slotId)) Q (s, T) := by
  refine wp_effect trivial fun a w x s' w' hex hT => ?_
  simp only [respond] at hex
  rcases dbCall_cases hex with ⟨e, he, rfl, rfl, -⟩ | ⟨hinv, n, hex⟩
  · exact hfail e he
  · simp only [Option.some.injEq, Prod.mk.injEq] at hex
    obtain ⟨rfl, rfl, rfl⟩ := hex
    exact hok w _ rfl hT

theorem wp_latestRun {r : Id}
    {Q : Except Exc (Option RecommendationRun) → Session × Interviews → Prop}
    (hfail : ∀ e : Exc, e.isApp = false → Q (.error e) (s.fail, T))
    (hok : ∀ (w : World) pick run, run = latestRun pick w.db.toInterviews r →
      (alone → w.db.toInterviews = T) → Q (.ok run) ((s.touch w).rank w r run, T)) :
    wp (handlers alone creates C) (.perform (.latestRun r)) Q (s, T) := by
  refine wp_effect trivial fun a w x s' w' hex hT => ?_
  simp only [respond] at hex
  rcases dbCall_cases hex with ⟨e, he, rfl, rfl, -⟩ | ⟨hinv, n, hex⟩
  · exact hfail e he
  · simp only [Option.some.injEq, Prod.mk.injEq] at hex
    obtain ⟨rfl, rfl, rfl⟩ := hex
    exact hok w n _ rfl hT

theorem wp_transactionTime {Q : Except Exc Engine.Instant → Session × Interviews → Prop}
    (hok : ∀ w, Q (.ok (s.began.getD w.now)) (s.touch w, T)) :
    wp (handlers alone creates C) transactionTime Q (s, T) := by
  refine wp_effect trivial fun a w x s' w' hex _ => ?_
  simp only [respond, Option.some.injEq, Prod.mk.injEq] at hex
  obtain ⟨rfl, rfl, rfl⟩ := hex
  exact hok w

/-- An attribute of a row can be read unless the row was expired. -/
theorem wp_readAttribute {Q : Except Exc Unit → Session × Interviews → Prop}
    (hexpired : s.expired → Q (.error .pendingRollbackError) (s, T))
    (hok : s.expired = false → Q (.ok ()) (s, T)) :
    wp (handlers alone creates C) readAttribute Q (s, T) := by
  refine wp_effect trivial fun a w x s' w' hex _ => ?_
  simp only [respond] at hex
  split at hex
  · next hexp =>
    simp only [Option.some.injEq, Prod.mk.injEq] at hex
    obtain ⟨rfl, rfl, rfl⟩ := hex
    exact hexpired hexp
  · next hexp =>
    simp only [Option.some.injEq, Prod.mk.injEq] at hex
    obtain ⟨rfl, rfl, rfl⟩ := hex
    exact hok (Bool.eq_false_iff.mpr hexp)

theorem wp_dbAdd {x : Write} {Q : Except Exc Unit → Session × Interviews → Prop}
    (hok : Q (.ok ()) (s.stage x, T)) (hx : x.Timed s.began := by trivial) :
    wp (handlers alone creates C) (dbAdd x) Q (s, T) := by
  refine wp_effect hx fun a w y s' w' hex _ => ?_
  simp only [respond, Option.some.injEq, Prod.mk.injEq] at hex
  obtain ⟨rfl, rfl, rfl⟩ := hex
  exact hok

theorem wp_dbAddSide {x : SideWrite} {Q : Except Exc Unit → Session × Interviews → Prop}
    (hok : Q (.ok ()) ({ s with side := s.side ++ [x] }, T)) :
    wp (handlers alone creates C) (dbAddSide x) Q (s, T) := by
  refine wp_effect trivial fun a w y s' w' hex _ => ?_
  simp only [respond, Option.some.injEq, Prod.mk.injEq] at hex
  obtain ⟨rfl, rfl, rfl⟩ := hex
  exact hok

theorem wp_dbFlush {Q : Except Exc Unit → Session × Interviews → Prop}
    (hfail : ∀ e : Exc, e.isApp = false → Q (.error e) (s.expire.fail, T))
    (hok : ∀ w, Q (.ok ()) (s.touch w, T)) : wp (handlers alone creates C) dbFlush Q (s, T) := by
  refine wp_effect trivial fun a w x s' w' hex _ => ?_
  simp only [respond] at hex
  rcases dbCall_cases hex with ⟨e, he, rfl, rfl, -⟩ | ⟨hinv, n, hex⟩
  · exact hfail e he
  · split at hex
    · simp only [Option.some.injEq, Prod.mk.injEq] at hex
      obtain ⟨rfl, rfl, rfl⟩ := hex
      exact hok w
    · simp only [Option.some.injEq, Prod.mk.injEq] at hex
      obtain ⟨rfl, rfl, rfl⟩ := hex
      exact hfail _ rfl

theorem wp_dbCommit {Q : Except Exc Unit → Session × Interviews → Prop} (hC : C s T)
    (hfail : ∀ (e : Exc) (b : Bool), e.isApp = false →
      Q (.error e) ({ s with expired := b }.fail, T))
    (hok : Q (.ok ()) (s.committed, Write.force s.pending T)) :
    wp (handlers alone creates C) dbCommit Q (s, T) := by
  refine wp_effect hC fun a w x s' w' hex _ => ?_
  simp only [respond] at hex
  rcases dbCall_cases hex with ⟨e, he, rfl, rfl, -⟩ | ⟨hinv, n, hex⟩
  · exact hfail e s.expired he
  · split at hex
    · simp only [Option.some.injEq, Prod.mk.injEq] at hex
      obtain ⟨rfl, rfl, rfl⟩ := hex
      exact hok
    · simp only [Option.some.injEq, Prod.mk.injEq] at hex
      obtain ⟨rfl, rfl, rfl⟩ := hex
      exact hfail _ true rfl

theorem wp_dbRollback {Q : Except Exc Unit → Session × Interviews → Prop}
    (hr : s.reported = [])
    (hd : s.trace.dropped = []) (hok : Q (.ok ()) (s.rollback, T)) :
    wp (handlers alone creates C) dbRollback Q (s, T) := by
  refine wp_effect ⟨hr, hd⟩ fun a w x s' w' hex _ => ?_
  simp only [respond, Option.some.injEq, Prod.mk.injEq] at hex
  obtain ⟨rfl, rfl, rfl⟩ := hex
  exact hok

theorem wp_uuid4 {Q : Except Exc Id → Session × Interviews → Prop} (hok : ∀ n, Q (.ok n) (s, T)) :
    wp (handlers alone creates C) uuid4 Q (s, T) := by
  refine wp_effect trivial fun a w x s' w' hex _ => ?_
  simp only [respond] at hex
  split at hex
  · simp only [Option.some.injEq, Prod.mk.injEq] at hex
    obtain ⟨rfl, rfl, rfl⟩ := hex
    exact hok _
  · simp at hex

theorem wp_now {Q : Except Exc Engine.Instant → Session × Interviews → Prop}
    (hok : ∀ t, Q (.ok t) (s, T)) : wp (handlers alone creates C) now Q (s, T) := by
  refine wp_effect trivial fun a w x s' w' hex _ => ?_
  simp only [respond, Option.some.injEq, Prod.mk.injEq] at hex
  obtain ⟨rfl, rfl, rfl⟩ := hex
  exact hok _

theorem wp_asyncioSleep {Q : Except Exc Unit → Session × Interviews → Prop}
    (hok : Q (.ok ()) (s, T)) : wp (handlers alone creates C) asyncioSleep Q (s, T) := by
  refine wp_effect trivial fun a w x s' w' hex _ => ?_
  simp only [respond, Option.some.injEq, Prod.mk.injEq] at hex
  obtain ⟨rfl, rfl, rfl⟩ := hex
  exact hok

/-! ### Outside calls -/

theorem wp_cacheGet {key : FreeBusyKey}
    {Q : Except Exc (Option (List BusyInterval)) → Session × Interviews → Prop}
    (h : ∀ r, Q r (s, T)) : wp (handlers alone creates C) (.perform (.cacheGet key)) Q (s, T) := by
  refine wp_effect trivial fun a w x s' w' hex _ => ?_
  simp only [respond] at hex
  rcases outerCall_cases hex with ⟨rfl, rfl, rfl⟩ | hex
  · exact h _
  · simp only [Option.some.injEq, Prod.mk.injEq] at hex
    obtain ⟨rfl, rfl, rfl⟩ := hex
    exact h _

theorem wp_cacheSet {key : FreeBusyKey} {busy : List BusyInterval}
    {Q : Except Exc Unit → Session × Interviews → Prop} (h : ∀ r, Q r (s, T)) :
    wp (handlers alone creates C) (.perform (.cacheSet key busy)) Q (s, T) := by
  refine wp_effect trivial fun a w x s' w' hex _ => ?_
  simp only [respond] at hex
  rcases outerCall_cases hex with ⟨rfl, rfl, rfl⟩ | hex
  · exact h _
  · simp only [Option.some.injEq, Prod.mk.injEq] at hex
    obtain ⟨rfl, rfl, rfl⟩ := hex
    exact h _

theorem wp_sendMail {msg : EmailMessage} {Q : Except Exc Unit → Session × Interviews → Prop}
    (h : ∀ r, Q r (s, T)) : wp (handlers alone creates C) (.perform (.sendMail msg)) Q (s, T) := by
  refine wp_effect trivial fun a w x s' w' hex _ => ?_
  simp only [respond] at hex
  rcases outerCall_cases hex with ⟨rfl, rfl, rfl⟩ | hex
  · exact h _
  · simp only [Option.some.injEq, Prod.mk.injEq] at hex
    obtain ⟨rfl, rfl, rfl⟩ := hex
    exact h _

/-- The two exceptions of the Google client. -/
def Exc.IsGoogle (e : Exc) : Prop := e = .calendarTransportError ∨ e = .calendarAuthError

theorem wp_freeBusy {token : String} {tmin tmax : Engine.Instant}
    {Q : Except Exc (List BusyInterval) → Session × Interviews → Prop}
    (hfail : ∀ e : Exc, e.IsGoogle → Q (.error e) (s, T)) (hok : ∀ busy, Q (.ok busy) (s, T)) :
    wp (handlers alone creates C) (.perform (.freeBusy token tmin tmax)) Q (s, T) := by
  refine wp_effect trivial fun a w x s' w' hex _ => ?_
  simp only [respond] at hex
  rcases googleCall_cases hex with ⟨rfl | rfl, rfl, rfl⟩ | hex
  · exact hfail _ (.inl rfl)
  · exact hfail _ (.inr rfl)
  · split at hex
    · simp only [Option.some.injEq, Prod.mk.injEq] at hex
      obtain ⟨rfl, rfl, rfl⟩ := hex
      exact hok _
    · simp at hex

theorem wp_refreshToken {token : String}
    {Q : Except Exc TokenBundle → Session × Interviews → Prop}
    (hfail : ∀ e : Exc, e.IsGoogle → Q (.error e) (s, T)) (hok : ∀ b, Q (.ok b) (s, T)) :
    wp (handlers alone creates C) (.perform (.refreshToken token)) Q (s, T) := by
  refine wp_effect trivial fun a w x s' w' hex _ => ?_
  simp only [respond] at hex
  rcases googleCall_cases hex with ⟨rfl | rfl, rfl, rfl⟩ | hex
  · exact hfail _ (.inl rfl)
  · exact hfail _ (.inr rfl)
  · split at hex
    · simp only [Option.some.injEq, Prod.mk.injEq] at hex
      obtain ⟨rfl, rfl, rfl⟩ := hex
      exact hok _
    · simp at hex

theorem wp_createEvent {token : String} {draft : EventDraft}
    {Q : Except Exc CalendarEvent → Session × Interviews → Prop} (hcreates : creates)
    (hfail : ∀ e : Exc, e.IsGoogle → Q (.error e) (s, T))
    (hok : ∀ ev : CalendarEvent, Q (.ok ev)
      ({ s with trace := { s.trace with owed := s.trace.owed ++ [ev.eventId] } }, T)) :
    wp (handlers alone creates C) (.perform (.createEvent token draft)) Q (s, T) := by
  refine wp_effect hcreates fun a w x s' w' hex _ => ?_
  simp only [respond] at hex
  rcases googleCall_cases hex with ⟨rfl | rfl, rfl, rfl⟩ | hex
  · exact hfail _ (.inl rfl)
  · exact hfail _ (.inr rfl)
  · split at hex
    · split at hex
      · simp at hex
      · simp only [Option.some.injEq, Prod.mk.injEq] at hex
        obtain ⟨rfl, rfl, rfl⟩ := hex
        exact hok _
    · simp at hex

theorem wp_deleteEvent {token id : String} {Q : Except Exc Unit → Session × Interviews → Prop}
    (hfail : ∀ e : Exc, e.IsGoogle → Q (.error e) (s, T))
    (hok : Q (.ok ()) ({ s with trace := s.trace.delete id }, T)) :
    wp (handlers alone creates C) (.perform (.deleteEvent token id)) Q (s, T) := by
  refine wp_effect trivial fun a w x s' w' hex _ => ?_
  simp only [respond] at hex
  rcases googleCall_cases hex with ⟨rfl | rfl, rfl, rfl⟩ | hex
  · exact hfail _ (.inl rfl)
  · exact hfail _ (.inr rfl)
  · split at hex
    · simp only [Option.some.injEq, Prod.mk.injEq] at hex
      obtain ⟨rfl, rfl, rfl⟩ := hex
      exact hok
    · simp at hex

/-! ### Locks -/

/-- Every effect but the ones of a lock. -/
def Effect.Lockless (β : Type) : Effect β → Prop
  | .setNx _ _ _ => False
  | .release _ _ => False
  | _ => True

/-- The effects that every part of a service may use: all but the lock's, the staged writes, the
calendar events that come and go, and what is put into the cache. -/
def Effect.ordinary {β : Type} : Effect β → Bool
  | .setNx _ _ _ => false
  | .release _ _ => false
  | .stage _ => false
  | .createEvent _ _ => false
  | .deleteEvent _ _ => false
  | .cacheSet _ _ => false
  | _ => true

/-- The class admits the ordinary effects. -/
def Ordinary (E : ∀ β : Type, Effect β → Prop) : Prop :=
  ∀ {β : Type} (o : Effect β), o.ordinary = true → E β o

/-- The ordinary effects that have nothing to do with a calendar. -/
def Effect.internal {β : Type} : Effect β → Bool
  | .connectionOf _ => false
  | .freeBusy _ _ _ => false
  | .refreshToken _ => false
  | .stageSide x => !x.isRenewal
  | o => o.ordinary

theorem Effect.ordinary_of_internal {β : Type} {o : Effect β} (ho : o.internal = true) :
    o.ordinary = true := by
  cases o <;> first | rfl | exact ho

/-- The class admits the internal effects. -/
def Internal (E : ∀ β : Type, Effect β → Prop) : Prop :=
  ∀ {β : Type} (o : Effect β), o.internal = true → E β o

theorem Ordinary.internal {E : ∀ β : Type, Effect β → Prop} (hE : Ordinary E) : Internal E :=
  fun o ho => hE o (Effect.ordinary_of_internal ho)

theorem ordinary_lockless : Ordinary Effect.Lockless := by
  intro β o ho
  cases o <;> trivial

/-- What a call reads and writes in its critical section leaves it there. -/
def Session.SameSection (s s' : Session) : Prop :=
  ∃ f : Critical → Critical, (∀ c, (f c).key = c.key ∧ (f c).token = c.token) ∧
    s'.trace.critical = s.trace.critical.map f

namespace Session

variable {s s' : Session}

theorem sameSection_of_eq (h : s'.trace.critical = s.trace.critical) : s.SameSection s' :=
  ⟨id, fun _ => ⟨rfl, rfl⟩, by simp [h]⟩

theorem sameSection_decide (s : Session) (st : RequestStatus) :
    s.SameSection { s with trace := s.trace.decide st } :=
  ⟨fun c => { c with decided := some st }, fun _ => ⟨rfl, rfl⟩, rfl⟩

theorem sameSection_load (s : Session) (w : World) (r : Id) (row : Option InterviewRequest) :
    s.SameSection ((s.touch w).load w r row) := by
  cases row with
  | none => exact sameSection_of_eq rfl
  | some row =>
    refine ⟨fun c => if c.key.requestId = r then
        { c with decided := some row.status, reread := some row.status }
      else { c with decided := some row.status }, fun c => ?_, ?_⟩
    · dsimp only
      split <;> exact ⟨rfl, rfl⟩
    · simp only [load, Trace.read, Trace.reread, Trace.decide, touch_trace, Option.map_map]
      rfl

theorem sameSection_committed (s : Session) : s.SameSection s.committed := by
  by_cases hp : s.pending = []
  · exact sameSection_of_eq (by simp [committed, Trace.commit, hp])
  · exact ⟨fun c => { c with reread := none }, fun _ => ⟨rfl, rfl⟩,
      by simp [committed, Trace.commit, hp]⟩

theorem Inside.of_same {key : LockKey} {token : Option Id} (h : s.Inside key token)
    (hs : s.SameSection s') : s'.Inside key token := by
  obtain ⟨cr, hcr, hkey, htoken⟩ := h
  obtain ⟨f, hf, hs⟩ := hs
  obtain ⟨hk, ht⟩ := hf cr
  exact ⟨f cr, by rw [hs, hcr]; rfl, hk.trans hkey, ht.trans htoken⟩

end Session

/-- **A step that takes or releases no lock** stays in the critical section, and the locks stay. -/
theorem section_of_respond {β : Type} {o : Effect β} (ho : o.Lockless) {a : Answer} {s s' : Session}
    {w w' : World} {x : Except Exc β} (h : respond o a s w = some (x, s', w')) :
    s.SameSection s' ∧ w'.locks = w.locks := by
  cases o <;> simp only [respond, dbCall, outerCall, googleCall] at h
  case setNx => exact ho.elim
  case release => exact ho.elim
  all_goals repeat' split at h
  all_goals simp only [Option.some.injEq, Prod.mk.injEq, reduceCtorEq] at h
  all_goals obtain ⟨rfl, rfl, rfl⟩ := h
  all_goals refine ⟨?_, rfl⟩
  all_goals first
    | exact Session.sameSection_of_eq rfl
    | exact s.sameSection_decide _
    | exact s.sameSection_load w _ _
    | exact s.sameSection_committed
    | exact Session.sameSection_of_eq (congrArg Trace.critical (s.stage_trace _))
    | exact Session.sameSection_of_eq (s.trace.delete_critical _)

/-- The block of a lock runs when the lock was taken or Redis is down, and the lock is released after
either end. -/
theorem wp_redisLock {α : Type} {key : LockKey} {ttl : ℕ} {block : M α}
    {Q : Except Exc α → Session × Interviews → Prop} (hblock : block.Uses Effect.Lockless)
    (hheld : Q (.error .lockNotAcquired) (s, T))
    (hok : ∀ w token, (alone → w.db.toInterviews = T) →
      wp (handlers alone creates C) block (fun r v => Q r v ∧ Q r (v.1.leave, v.2))
        (s.enter w key token, T)) :
    wp (handlers alone creates C) (redisLock key ttl block) Q (s, T) := by
  refine wp_bind (wp_uuid4 fun token => wp_bind_attempt (wp_effect trivial ?_))
  intro a w x s' w' hex hT
  simp only [respond] at hex
  split at hex
  · split at hex
    · simp only [Option.some.injEq, Prod.mk.injEq] at hex
      obtain ⟨rfl, rfl, rfl⟩ := hex
      exact hheld
    · simp only [Option.some.injEq, Prod.mk.injEq] at hex
      obtain ⟨rfl, rfl, rfl⟩ := hex
      -- the block is still in the critical section when it ends
      refine wp_finallyDo (wp_mono (wp_frame (I := fun v => v.1.Inside key (some token)) hblock
        (fun o ho v r v' hv hs => ?_) (hok w (some token) hT) ⟨_, rfl, rfl, rfl⟩) ?_)
      · obtain ⟨a₁, w₁, w₂, hex₁, -⟩ := hs
        exact hv.of_same (section_of_respond ho hex₁).1
      rintro r ⟨s₁, T₁⟩ ⟨⟨-, h⟩, hin⟩
      refine wp_effect hin fun a₁ w₁ x₁ s₂ w₂ hex₁ _ => ?_
      simp only [respond] at hex₁
      rcases outerCall_cases hex₁ with ⟨rfl, rfl, rfl⟩ | hex₁
      · exact h
      · simp only [Option.some.injEq, Prod.mk.injEq] at hex₁
        obtain ⟨rfl, rfl, rfl⟩ := hex₁
        exact h
  · simp only [Option.some.injEq, Prod.mk.injEq] at hex
    obtain ⟨rfl, rfl, rfl⟩ := hex
    exact wp_mono (hok w none hT) fun r v h => h.1
  · simp at hex

end Rules

/-! ### Faithfulness -/

section Faithful

variable {β : Type} {o : Effect β} {a : Answer} {s s' : Session} {w w' : World} {r : Except Exc β}

/-- What an effect can do to the database: a commit applies the pending writes, and nothing else
changes it. -/
theorem respond_cases (h : respond o a s w = some (r, s', w')) :
    (o.IsCommit ∧ (∃ u, r = .ok u) ∧ ∃ T, Write.applyAll s.pending w.db.toInterviews = some T ∧
      s' = s.committed ∧ w' = w.commit s T) ∨
    ((¬ o.IsCommit ∨ ∃ e, r = .error e) ∧ w'.db = w.db ∧ w'.log = w.log) := by
  cases o <;> simp only [respond, dbCall, outerCall, googleCall] at h
  all_goals repeat' split at h
  all_goals simp only [Option.some.injEq, Prod.mk.injEq, reduceCtorEq] at h
  all_goals obtain ⟨rfl, rfl, rfl⟩ := h
  all_goals first
    | exact .inl ⟨trivial, ⟨_, rfl⟩, _, ‹_›, rfl, rfl⟩
    | exact .inr ⟨.inr ⟨_, rfl⟩, rfl, rfl⟩
    | exact .inr ⟨.inl nofun, rfl, rfl⟩

theorem next_of_isCommit {T : Interviews} {u : β} (h : o.IsCommit) :
    next o (.ok u) s T = Write.force s.pending T := by
  cases o <;> first | rfl | exact h.elim

theorem next_of_not {T : Interviews} (h : ¬ o.IsCommit ∨ ∃ e, r = .error e) :
    next o r s T = T := by
  rcases h with h | ⟨e, rfl⟩
  · cases o <;> first | rfl | exact absurd trivial h
  · cases o <;> rfl

/-- The interview tables change as the logic says. -/
theorem respond_toInterviews (h : respond o a s w = some (r, s', w')) :
    w'.db.toInterviews = next o r s w.db.toInterviews := by
  rcases respond_cases h with ⟨hc, ⟨u, rfl⟩, T, hT, -, rfl⟩ | ⟨hn, hdb, -⟩
  · rw [next_of_isCommit hc, World.commit_toInterviews, Write.applyAll_eq_force hT]
  · rw [next_of_not hn, hdb]

end Faithful

/-- The logic tells the truth about a handler that runs alone. -/
theorem faithful_alone (creates : Prop) (C : Session → Interviews → Prop)
    (A : Condition Effect Choice Session World) :
    Faithful machine A (handlers True creates C) fun v s w => v = (s, w.db.toInterviews) := by
  rintro β o c s w r s' w' v rfl _ _ hex
  have hT := respond_toInterviews hex
  exact ⟨(s', w'.db.toInterviews), ⟨c.answer, w.elapse c, w', hex, fun _ => rfl, hT⟩, rfl⟩

/-- Among other handlers it still tells the truth about the session. -/
theorem faithful_pool (creates : Prop) (C : Session → Interviews → Prop) :
    Pool.Faithful machine (handlers False creates C) fun v s => v.1 = s := by
  rintro β o c s w r s' w' ⟨_, T⟩ rfl hex
  exact ⟨(s', next o r _ T), ⟨c.answer, w.elapse c, w', hex, fun h => h.elim, rfl⟩, rfl⟩

/-! ### Steps of some answers only -/

/-- A step whose answer `A` admits. -/
def Admitted (A : ∀ β : Type, Effect β → Answer → Session → Prop) (β : Type) (o : Effect β)
    (v : Session × Interviews) (r : Except Exc β) (v' : Session × Interviews) : Prop :=
  ∃ a w w', A β o a v.1 ∧ respond o a v.1 w = some (r, v'.1, w')

section Admitted

variable {A : ∀ β : Type, Effect β → Answer → Session → Prop} {creates : Prop}
  {C : Session → Interviews → Prop}

theorem wp_admitted {alone : Prop} {β : Type} {o : Effect β} {s : Session} {T : Interviews}
    {Q : Except Exc β → Session × Interviews → Prop} (hpre : Duty creates C o s T)
    (h : ∀ a w r s' w', A β o a s → respond o a s w = some (r, s', w') → Q r (s', next o r s T)) :
    wp ((handlers alone creates C).restrict (Admitted A)) (.perform o) Q (s, T) := by
  refine wp_perform hpre ?_
  rintro r ⟨s', T'⟩ ⟨⟨-, -, -, -, -, hnext⟩, a, w, w', hA, hex⟩
  simp only at hnext
  subst hnext
  exact h a w r s' w' hA hex

theorem faithful_admitted :
    Pool.FaithfulUnder machine (fun β o c s _ => A β o c.answer s)
      ((handlers False creates C).restrict (Admitted A)) fun v s => v.1 = s := by
  rintro β o c s w r s' w' ⟨_, T⟩ rfl hA hex
  obtain ⟨⟨_, T'⟩, hstep, rfl⟩ := faithful_pool creates C o c _ w r s' w' (_, T) rfl hex
  exact ⟨(_, T'), ⟨hstep, c.answer, w.elapse c, w', hA, hex⟩, rfl⟩

end Admitted

end InterviewScheduler.Core
