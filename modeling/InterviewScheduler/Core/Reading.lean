import InterviewScheduler.Core.Logic

/-! # What a handler reads before it writes

A handler that runs alone reads the tables as they are, until it sets an attribute or commits. The
logic `reading T` knows no more than that, and asks for nothing: it is for what follows from the
checks with which a handler begins, and for the exceptions that it raises. -/

namespace InterviewScheduler.Core

open InterviewScheduler.Effects

/-- The effect may change what is stored, or what the session holds of it. -/
def Effect.writes {β : Type} : Effect β → Bool
  | .stage _ => true
  | .commit => true
  | _ => false

/-- The answer is what the tables say. -/
def Truthful (T : Interviews) {β : Type} (o : Effect β) (x : β) : Prop :=
  match o, x with
  | .get r, x => x = T.requests r
  | .refresh r, x => T.requests r = some x
  | .select query, x => ∃ n db, db.toInterviews = T ∧ x = query n db
  | .confirmedEvent r, x => x = T.events.find? fun e => e.ConfirmedFor r
  | .slotWithRun slotId, x => x = slotWithRun T slotId
  | .latestRun r, x => ∃ pick, x = latestRun pick T r
  | _, _ => True

/-- The view is whether nothing was written yet. -/
def reading (T : Interviews) : Logic Effect Exc Bool where
  pre _ _ := True
  step o v x v' := v' = (v && !o.writes) ∧ match x with
    | .ok y => v = true → Truthful T o y
    | .error e => e.isApp = false

/-- The session and the tables, as long as nothing was written. -/
def SeesTables (T : Interviews) (v : Bool) (s : Session) (w : World) : Prop :=
  v = true → w.db.toInterviews = T ∧ ∀ r row, s.copies r = some row → T.requests r = some row

section Faithful

variable {T : Interviews} {β : Type} {o : Effect β} {a : Answer} {s s' : Session} {w w' : World}
  {x : Except Exc β}

/-- What is loaded is what is stored. -/
theorem copies_load (hw : w.db.toInterviews = T)
    (hs : ∀ r row, s.copies r = some row → T.requests r = some row) (r : Id) :
    ∀ r' row, (s.load w r (w.db.requests r)).copies r' = some row → T.requests r' = some row := by
  intro r' row hrow
  rw [Session.load_copies, Function.update_apply] at hrow
  split at hrow
  · next heq =>
    rw [heq, ← hw]
    exact hrow
  · exact hs r' row hrow

/-- The exceptions of effects are not the application's own. -/
theorem isApp_of_respond {e : Exc} (h : respond o a s w = some (.error e, s', w')) :
    e.isApp = false := by
  cases o <;> simp only [respond, dbCall, outerCall, googleCall] at h
  all_goals repeat' split at h
  all_goals simp only [Option.some.injEq, Prod.mk.injEq, reduceCtorEq, false_and,
    Except.error.injEq] at h
  all_goals obtain ⟨rfl, -, -⟩ := h
  all_goals rfl

/-- A database call that fails leaves the session empty. -/
theorem truthful_dbCall {answer : ℕ → Result β}
    (h : dbCall a s w answer = some (x, s', w'))
    (hok : ∀ n, answer n = some (x, s', w') → (∀ y, x = .ok y → Truthful T o y) ∧
      ∀ r row, s'.copies r = some row → T.requests r = some row) :
    (∀ y, x = .ok y → Truthful T o y) ∧ ∀ r row, s'.copies r = some row → T.requests r = some row := by
  rcases dbCall_cases h with ⟨e, -, rfl, rfl, -⟩ | ⟨-, n, h⟩
  · refine ⟨fun y hy => by simp at hy, fun r row hrow => ?_⟩
    simp [Session.fail] at hrow
  · exact hok n h

/-- An effect that writes nothing answers truthfully, and so does the session afterwards. -/
theorem truthful_of_respond (ho : o.writes = false) (hw : w.db.toInterviews = T)
    (hs : ∀ r row, s.copies r = some row → T.requests r = some row)
    (h : respond o a s w = some (x, s', w')) :
    (∀ y, x = .ok y → Truthful T o y) ∧ ∀ r row, s'.copies r = some row → T.requests r = some row := by
  subst hw
  have hnone : ∀ r row, s.fail.copies r = some row → w.db.requests r = some row := by
    intro r row hrow
    simp [Session.fail] at hrow
  cases o with
  | get r =>
    simp only [respond] at h
    split at h
    · next row hrow =>
      simp only [Option.some.injEq, Prod.mk.injEq] at h
      obtain ⟨rfl, rfl, rfl⟩ := h
      refine ⟨fun y hy => ?_, hs⟩
      rw [← Except.ok.inj hy]
      exact (hs r row hrow).symm
    · refine truthful_dbCall h fun n h => ?_
      simp only [Option.some.injEq, Prod.mk.injEq] at h
      obtain ⟨rfl, rfl, rfl⟩ := h
      exact ⟨fun y hy => (Except.ok.inj hy).symm, copies_load rfl hs r⟩
  | refresh r =>
    simp only [respond] at h
    refine truthful_dbCall h fun n h => ?_
    split at h
    · next row hrow =>
      simp only [Option.some.injEq, Prod.mk.injEq] at h
      obtain ⟨rfl, rfl, rfl⟩ := h
      refine ⟨fun y hy => ?_, ?_⟩
      · rw [← Except.ok.inj hy]
        exact hrow
      · rw [← hrow]
        exact copies_load rfl hs r
    · simp only [Option.some.injEq, Prod.mk.injEq] at h
      obtain ⟨rfl, rfl, rfl⟩ := h
      exact ⟨fun y hy => by simp at hy, hs⟩
  | expunge r =>
    simp only [respond, Option.some.injEq, Prod.mk.injEq] at h
    obtain ⟨rfl, rfl, rfl⟩ := h
    refine ⟨fun _ _ => trivial, fun r' row hrow => ?_⟩
    simp only [Function.update_apply] at hrow
    split at hrow
    · simp at hrow
    · exact hs r' row hrow
  | select query =>
    simp only [respond] at h
    refine truthful_dbCall h fun n h => ?_
    simp only [Option.some.injEq, Prod.mk.injEq] at h
    obtain ⟨rfl, rfl, rfl⟩ := h
    exact ⟨fun y hy => ⟨n, _, rfl, (Except.ok.inj hy).symm⟩, hs⟩
  | confirmedEvent r =>
    simp only [respond] at h
    refine truthful_dbCall h fun n h => ?_
    simp only [Option.some.injEq, Prod.mk.injEq] at h
    obtain ⟨rfl, rfl, rfl⟩ := h
    exact ⟨fun y hy => (Except.ok.inj hy).symm, hs⟩
  | slotWithRun slotId =>
    simp only [respond] at h
    refine truthful_dbCall h fun n h => ?_
    simp only [Option.some.injEq, Prod.mk.injEq] at h
    obtain ⟨rfl, rfl, rfl⟩ := h
    exact ⟨fun y hy => (Except.ok.inj hy).symm, hs⟩
  | latestRun r =>
    simp only [respond] at h
    refine truthful_dbCall h fun n h => ?_
    simp only [Option.some.injEq, Prod.mk.injEq] at h
    obtain ⟨rfl, rfl, rfl⟩ := h
    exact ⟨fun y hy => ⟨n, (Except.ok.inj hy).symm⟩, hs⟩
  | stage y => simp [Effect.writes] at ho
  | commit => simp [Effect.writes] at ho
  | _ =>
    refine ⟨fun _ _ => trivial, ?_⟩
    simp only [respond, dbCall, outerCall, googleCall] at h
    repeat' split at h
    all_goals simp only [Option.some.injEq, Prod.mk.injEq, reduceCtorEq] at h
    all_goals obtain ⟨-, rfl, -⟩ := h
    all_goals first
      | exact hs
      | exact hnone

/-- **The logic tells the truth about a handler that runs alone.** -/
theorem faithful_reading (T : Interviews) (A : Condition Effect Choice Session World) :
    Faithful machine A (reading T) (SeesTables T) := by
  rintro β o c s w x s' w' v hv - - hex
  refine ⟨v && !o.writes, ⟨rfl, ?_⟩, fun hv' => ?_⟩
  · cases x with
    | error e => exact isApp_of_respond hex
    | ok y =>
      intro hv'
      obtain ⟨hw, hs⟩ := hv hv'
      cases ho : o.writes with
      | false => exact (truthful_of_respond (w := w.elapse c) ho hw hs hex).1 y rfl
      | true => cases o <;> trivial
  · obtain ⟨hv', ho⟩ := Bool.and_eq_true_iff.mp hv'
    obtain ⟨hw, hs⟩ := hv hv'
    have ho : o.writes = false := by simpa using ho
    refine ⟨?_, (truthful_of_respond (w := w.elapse c) ho hw hs hex).2⟩
    rcases respond_cases hex with ⟨hc, -⟩ | ⟨-, hdb, -⟩
    · cases o with
      | commit => simp [Effect.writes] at ho
      | _ => exact hc.elim
    · rw [hdb]
      exact hw

end Faithful

/-- An effect that writes nothing, before anything was written. -/
theorem wp_reads {T : Interviews} {α : Type} {o : Effect α} (ho : o.writes = false)
    {Q : Except Exc α → Bool → Prop} (herr : ∀ e : Exc, e.isApp = false → Q (.error e) true)
    (hok : ∀ x, Truthful T o x → Q (.ok x) true) : wp (reading T) (.perform o) Q true := by
  refine wp_perform trivial ?_
  rintro (e | x) v ⟨rfl, h⟩
  · rw [ho]
    exact herr e h
  · rw [ho]
    exact hok x (h rfl)

/-- An effect whose answer does not matter. -/
theorem wp_answers {T : Interviews} {α : Type} {o : Effect α} {v : Bool}
    {Q : Except Exc α → Bool → Prop} (herr : ∀ e v', e.isApp = false → Q (.error e) v')
    (hok : ∀ x v', Q (.ok x) v') : wp (reading T) (.perform o) Q v := by
  refine wp_perform trivial ?_
  rintro (e | x) v' ⟨-, h⟩
  · exact herr e v' h
  · exact hok x v'

/-- What is asked for nothing. -/
theorem wp_anything {T : Interviews} {α : Type} {p : M α} {v : Bool} :
    wp (reading T) p (fun _ _ => True) v := by
  induction p generalizing v with
  | ret a => trivial
  | raise e => trivial
  | op o k ih => exact ⟨trivial, fun r v' _ => ih r⟩

end InterviewScheduler.Core
