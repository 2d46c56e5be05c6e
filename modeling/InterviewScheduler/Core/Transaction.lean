import InterviewScheduler.Core.Following

/-! # An open transaction

A handler that runs alone, on a database that answers: `Open` says what its session has pending and what
is stored, and every call of the database either goes on with that or is refused by the schema. -/

namespace InterviewScheduler.Core

open InterviewScheduler.Effects

/-- The database answers every call. -/
def DatabaseUp : Condition Effect Choice Session World := fun _ _ c _ _ => c.answer ≠ .fail

/-- The database, and what the session holds of one request and has pending. -/
structure Open (db : Db) (r : Id) (copy : Option InterviewRequest) (ws : List Write)
    (side : List SideWrite) (s : Session) (w : World) : Prop where
  db : w.db = db
  copy : s.copies r = copy
  pending : s.pending = ws
  side : s.side = side
  valid : s.invalid = false

theorem open_empty (r : Id) (w : World) : Open w.db r none [] [] {} w := ⟨rfl, rfl, rfl, rfl, rfl⟩

/-- A database call that does not fail gives its answer. -/
theorem of_dbCall_up {β : Type} {a : Answer} {s s' : Session} {w w' : World} {x : Except Exc β}
    {answer : ℕ → Result β} (hs : s.invalid = false) (ha : a ≠ .fail)
    (h : dbCall a s w answer = some (x, s', w')) : ∃ n, answer n = some (x, s', w') := by
  unfold dbCall at h
  rw [hs] at h
  cases a with
  | ok => exact ⟨0, h⟩
  | pick n => exact ⟨n, h⟩
  | fail => exact absurd rfl ha
  | _ => simp at h

section Rules

variable {D : Demand Effect Session World} {db : Db} {r : Id} {copy : Option InterviewRequest}
  {ws : List Write} {side : List SideWrite} {s : Session} {w : World} {α : Type}

/-- An effect, once the time of the choice has passed. -/
theorem wp_open {o : Effect α} (h : Open db r copy ws side s w) (hD : D α o s w)
    {Q : Except Exc α → Session × World → Prop}
    (hQ : ∀ a w₁ x s' w', a ≠ .fail → w₁.db = db → respond o a s w₁ = some (x, s', w') →
      Q x (s', w')) : wp (demanding DatabaseUp D) (.perform o) Q (s, w) :=
  wp_follow hD fun c x s' w' hc hex => hQ c.answer (w.elapse c) x s' w' hc h.db hex

variable (hD : ∀ {β : Type} (o : Effect β) s w, D β o s w)

include hD

theorem wp_open_select (h : Open db r copy ws side s w) {query : ℕ → Db → α}
    {Q : Except Exc α → Session × World → Prop}
    (hQ : ∀ n s' w', Open db r copy ws side s' w' → Q (.ok (query n db)) (s', w')) :
    wp (demanding DatabaseUp D) (dbSelect query) Q (s, w) := by
  refine wp_open h (hD _ _ _) fun a w₁ x s' w' ha hdb hx => ?_
  simp only [respond] at hx
  obtain ⟨n, hx⟩ := of_dbCall_up h.valid ha hx
  simp only [Option.some.injEq, Prod.mk.injEq] at hx
  obtain ⟨rfl, rfl, rfl⟩ := hx
  rw [hdb]
  exact hQ n _ _ ⟨hdb, h.copy, h.pending, h.side, h.valid⟩

theorem wp_open_miss (h : Open db r none ws side s w)
    {Q : Except Exc (Option InterviewRequest) → Session × World → Prop}
    (hQ : ∀ s' w', Open db r (db.requests r) ws side s' w' → Q (.ok (db.requests r)) (s', w')) :
    wp (demanding DatabaseUp D) (dbGet r) Q (s, w) := by
  have hcopy := h.copy
  refine wp_open h (hD _ _ _) fun a w₁ x s' w' ha hdb hx => ?_
  simp only [respond, hcopy] at hx
  obtain ⟨n, hx⟩ := of_dbCall_up h.valid ha hx
  simp only [Option.some.injEq, Prod.mk.injEq] at hx
  obtain ⟨rfl, rfl, rfl⟩ := hx
  rw [hdb]
  exact hQ _ _ ⟨hdb, by simp, h.pending, h.side, h.valid⟩

theorem wp_open_hit {row : InterviewRequest} (h : Open db r (some row) ws side s w)
    {Q : Except Exc (Option InterviewRequest) → Session × World → Prop}
    (hQ : ∀ s' w', Open db r (some row) ws side s' w' → Q (.ok (some row)) (s', w')) :
    wp (demanding DatabaseUp D) (dbGet r) Q (s, w) := by
  have hcopy := h.copy
  refine wp_open h (hD _ _ _) fun a w₁ x s' w' _ hdb hx => ?_
  simp only [respond, hcopy, Option.some.injEq, Prod.mk.injEq] at hx
  obtain ⟨rfl, rfl, rfl⟩ := hx
  exact hQ _ _ ⟨hdb, h.copy, h.pending, h.side, h.valid⟩

theorem wp_open_add (h : Open db r copy ws side s w) {y : Write} {copy' : Option InterviewRequest}
    (hstage : (s.stage y).copies r = copy' ∧ (s.stage y).pending = ws ++ [y])
    {Q : Except Exc Unit → Session × World → Prop}
    (hQ : ∀ s' w', Open db r copy' (ws ++ [y]) side s' w' → Q (.ok ()) (s', w')) :
    wp (demanding DatabaseUp D) (dbAdd y) Q (s, w) := by
  refine wp_open h (hD _ _ _) fun a w₁ x s' w' _ hdb hx => ?_
  simp only [respond, Option.some.injEq, Prod.mk.injEq] at hx
  obtain ⟨rfl, rfl, rfl⟩ := hx
  refine hQ _ _ ⟨hdb, hstage.1, hstage.2, (s.stage_side y).trans h.side, ?_⟩
  cases y with
  | setStatus r st =>
    simp only [Session.stage]
    split
    · exact h.valid
    · exact h.valid
  | _ => exact h.valid

theorem wp_open_addSide (h : Open db r copy ws side s w) {x : SideWrite}
    {Q : Except Exc Unit → Session × World → Prop}
    (hQ : ∀ s' w', Open db r copy ws (side ++ [x]) s' w' → Q (.ok ()) (s', w')) :
    wp (demanding DatabaseUp D) (dbAddSide x) Q (s, w) := by
  refine wp_open h (hD _ _ _) fun a w₁ y s' w' _ hdb hy => ?_
  simp only [respond, Option.some.injEq, Prod.mk.injEq] at hy
  obtain ⟨rfl, rfl, rfl⟩ := hy
  exact hQ _ _ ⟨hdb, h.copy, h.pending, by rw [← h.side], h.valid⟩

theorem wp_open_addSides (h : Open db r copy ws side s w) {f : Id → SideWrite} {us : List Id}
    {Q : Except Exc (List Unit) → Session × World → Prop}
    (hQ : ∀ x s' w', Open db r copy ws (side ++ us.map f) s' w' → Q (.ok x) (s', w')) :
    wp (demanding DatabaseUp D) (Prog.forEach (fun u => dbAddSide (f u)) us) Q (s, w) := by
  induction us generalizing side s w Q with
  | nil => exact hQ [] s w (by simpa using h)
  | cons u us ih =>
    refine wp_bind (wp_open_addSide hD h fun s₁ w₁ h₁ => wp_bind (ih h₁ fun x s₂ w₂ h₂ => ?_))
    refine hQ _ s₂ w₂ ?_
    rw [List.map_cons, List.append_cons]
    exact h₂

/-- The constraints of the schema are checked. -/
theorem wp_open_flush (h : Open db r copy ws side s w) {Q : Except Exc Unit → Session × World → Prop}
    (herr : Write.applyAll ws db.toInterviews = none → ∀ s' w', w'.db = db →
      Q (.error .integrityError) (s', w'))
    (hok : ∀ T, Write.applyAll ws db.toInterviews = some T → ∀ s' w', Open db r copy ws side s' w' →
      Q (.ok ()) (s', w')) : wp (demanding DatabaseUp D) dbFlush Q (s, w) := by
  refine wp_open h (hD _ _ _) fun a w₁ x s' w' ha hdb hx => ?_
  simp only [respond] at hx
  obtain ⟨n, hx⟩ := of_dbCall_up (s := s.expire) h.valid ha hx
  rw [h.pending, hdb] at hx
  cases happ : Write.applyAll ws db.toInterviews with
  | none =>
    simp only [happ, Option.some.injEq, Prod.mk.injEq] at hx
    obtain ⟨rfl, rfl, rfl⟩ := hx
    exact herr happ _ _ hdb
  | some T =>
    simp only [happ, Option.some.injEq, Prod.mk.injEq] at hx
    obtain ⟨rfl, rfl, rfl⟩ := hx
    exact hok T happ _ _ ⟨hdb, h.copy, h.pending, h.side, h.valid⟩

/-- What is pending is committed, or nothing. -/
theorem wp_open_commit (h : Open db r copy ws side s w) {Q : Except Exc Unit → Session × World → Prop}
    (herr : Write.applyAll ws db.toInterviews = none → ∀ s' w', w'.db = db →
      Q (.error .integrityError) (s', w'))
    (hok : ∀ T, Write.applyAll ws db.toInterviews = some T → ∀ s' w',
      Open (side.foldl SideWrite.apply { db with toInterviews := T }) r copy [] [] s' w' →
        Q (.ok ()) (s', w')) : wp (demanding DatabaseUp D) dbCommit Q (s, w) := by
  refine wp_open h (hD _ _ _) fun a w₁ x s' w' ha hdb hx => ?_
  simp only [respond] at hx
  obtain ⟨n, hx⟩ := of_dbCall_up h.valid ha hx
  rw [h.pending, hdb] at hx
  cases happ : Write.applyAll ws db.toInterviews with
  | none =>
    simp only [happ, Option.some.injEq, Prod.mk.injEq] at hx
    obtain ⟨rfl, rfl, rfl⟩ := hx
    exact herr happ _ _ hdb
  | some T =>
    simp only [happ, Option.some.injEq, Prod.mk.injEq] at hx
    obtain ⟨rfl, rfl, rfl⟩ := hx
    refine hok T happ _ _ ⟨?_, h.copy, rfl, rfl, rfl⟩
    rw [← h.side, ← hdb]
    rfl

end Rules

end InterviewScheduler.Core
