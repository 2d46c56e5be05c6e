import Mathlib.Data.List.Perm.Basic

/-! # Computations that may raise

When a chain, a loop or a map in `Except` succeeds, and that the order of a list does not matter to
a map whose calls can raise only one exception (`bind_mapM_perm`). -/

namespace InterviewScheduler.Util

variable {ε α β : Type}

theorem bind_eq_ok {x : Except ε α} {f : α → Except ε β} {b : β} :
    (x >>= f) = .ok b ↔ ∃ a, x = .ok a ∧ f a = .ok b := by
  cases x with
  | error e => simp [bind, Except.bind]
  | ok a => simp [bind, Except.bind]

/-- A chain succeeds when its first part does, and the rest after it. -/
theorem exists_bind_eq_ok {x : Except ε α} {f : α → Except ε β} (hx : ∃ a, x = .ok a)
    (hf : ∀ a, x = .ok a → ∃ b, f a = .ok b) : ∃ b, (x >>= f) = .ok b := by
  obtain ⟨a, ha⟩ := hx
  obtain ⟨b, hb⟩ := hf a ha
  exact ⟨b, bind_eq_ok.mpr ⟨a, ha, hb⟩⟩

theorem exists_of_isSome {x : Except ε α} (h : x.toOption.isSome = true) : ∃ a, x = .ok a := by
  cases hx : x with
  | error e => simp [hx, Except.toOption] at h
  | ok a => exact ⟨a, rfl⟩

theorem pure_eq_ok {a b : α} : (pure a : Except ε α) = .ok b ↔ a = b := by
  simp [pure, Except.pure]

/-- A loop succeeds when every round does. -/
theorem forM_eq_ok {f : α → Except ε Unit} {l : List α} {u : Unit} :
    l.forM f = .ok u ↔ ∀ a ∈ l, f a = .ok () := by
  induction l with
  | nil => simp [List.forM, pure, Except.pure]
  | cons a l ih =>
    rw [show (a :: l).forM f = f a >>= fun _ => l.forM f from rfl, bind_eq_ok]
    simp only [List.mem_cons, forall_eq_or_imp, ← ih]
    exact ⟨fun ⟨_, h1, h2⟩ => ⟨h1, h2⟩, fun ⟨h1, h2⟩ => ⟨(), h1, h2⟩⟩

/-- A loop is not stopped by what passes at its end. -/
theorem forM_append_ok {f : α → Except ε Unit} (l : List α) {l' : List α} (h : ∀ a ∈ l', f a = .ok ()) :
    (l ++ l').forM f = l.forM f := by
  have hrest : l'.forM f = .ok () := forM_eq_ok.mpr h
  rw [List.forM_eq_forM] at hrest ⊢
  rw [List.forM_append, hrest]
  exact bind_pure (forM l f)

theorem mapM_eq_ok {f : α → Except ε β} {l : List α} {bs : List β} :
    l.mapM f = .ok bs ↔ List.Forall₂ (fun a b => f a = .ok b) l bs := by
  induction l generalizing bs with
  | nil =>
    rw [List.mapM_nil, pure_eq_ok, List.forall₂_nil_left_iff, eq_comm]
  | cons a l ih =>
    rw [List.mapM_cons, bind_eq_ok, List.forall₂_cons_left_iff]
    constructor
    · rintro ⟨b, hb, h⟩
      obtain ⟨bs', hbs', h⟩ := bind_eq_ok.mp h
      exact ⟨b, bs', hb, ih.mp hbs', (pure_eq_ok.mp h).symm⟩
    · rintro ⟨b, bs', hb, hbs', rfl⟩
      exact ⟨b, hb, bind_eq_ok.mpr ⟨bs', ih.mpr hbs', rfl⟩⟩

/-- An element on the right of a list relation has its partner on the left. -/
theorem forall₂_exists_left {R : α → β → Prop} {l : List α} {l' : List β} (h : List.Forall₂ R l l')
    {b : β} (hb : b ∈ l') : ∃ a ∈ l, R a b := by
  induction h with
  | nil => simp at hb
  | cons h1 _ ih =>
    rcases List.mem_cons.mp hb with rfl | hb
    · exact ⟨_, by simp, h1⟩
    · obtain ⟨a, ha, hr⟩ := ih hb
      exact ⟨a, by simp [ha], hr⟩

/-- A map succeeds when every call does. -/
theorem exists_mapM_eq_ok {f : α → Except ε β} {l : List α} :
    (∃ bs, l.mapM f = .ok bs) ↔ ∀ a ∈ l, ∃ b, f a = .ok b := by
  induction l with
  | nil => simp [pure, Except.pure]
  | cons a l ih =>
    simp only [mapM_eq_ok] at ih ⊢
    constructor
    · rintro ⟨_, h⟩
      cases h with
      | cons h1 h2 => simpa using ⟨⟨_, h1⟩, ih.mp ⟨_, h2⟩⟩
    · intro h
      obtain ⟨b, hb⟩ := h a (by simp)
      obtain ⟨bs, hbs⟩ := ih.mpr fun x hx => h x (by simp [hx])
      exact ⟨b :: bs, .cons hb hbs⟩

/-- A map raises what one of its calls raises. -/
theorem exists_of_mapM_eq_error {f : α → Except ε β} {l : List α} {e : ε}
    (h : l.mapM f = .error e) : ∃ a ∈ l, f a = .error e := by
  induction l with
  | nil => simp [pure, Except.pure] at h
  | cons a l ih =>
    rw [List.mapM_cons] at h
    cases ha : f a with
    | error e' =>
      rw [ha] at h
      exact ⟨a, by simp, by rw [ha]; simpa [bind, Except.bind] using h⟩
    | ok b =>
      rw [ha] at h
      cases hl : l.mapM f with
      | ok bs => simp [hl, bind, Except.bind, pure, Except.pure] at h
      | error e' =>
        simp only [hl, bind, Except.bind, Except.error.injEq] at h
        obtain ⟨x, hx, he⟩ := ih (hl.trans (by rw [h]))
        exact ⟨x, by simp [hx], he⟩

/-! ### One exception -/

/-- The computation returns, or raises the exception `e`. -/
def RaisesOnly (e : ε) (x : Except ε α) : Prop := ∀ e', x = .error e' → e' = e

theorem raisesOnly_of_eq_ok {e : ε} {x : Except ε α} {a : α} (h : x = .ok a) : RaisesOnly e x := by
  intro e' h'
  rw [h] at h'
  cases h'

theorem raisesOnly_of_eq_error {e : ε} {x : Except ε α} (h : x = .error e) : RaisesOnly e x := by
  intro e' h'
  exact (Except.error.inj (h.symm.trans h')).symm

theorem raisesOnly_pure {e : ε} {a : α} : RaisesOnly e (pure a : Except ε α) := raisesOnly_of_eq_ok rfl

theorem RaisesOnly.bind {e : ε} {x : Except ε α} {f : α → Except ε β} (hx : RaisesOnly e x)
    (hf : ∀ a, x = .ok a → RaisesOnly e (f a)) : RaisesOnly e (x >>= f) := by
  intro e' h
  cases hres : x with
  | error e'' =>
    rw [hres] at h
    obtain rfl : e'' = e' := Except.error.inj h
    exact hx e'' hres
  | ok a =>
    rw [hres] at h
    exact hf a hres e' h

theorem raisesOnly_mapM {e : ε} {f : α → Except ε β} {l : List α} (hf : ∀ a ∈ l, RaisesOnly e (f a)) :
    RaisesOnly e (l.mapM f) := by
  intro e' h
  obtain ⟨a, ha, he⟩ := exists_of_mapM_eq_error h
  exact hf a ha e' he

theorem RaisesOnly.eq_error {e : ε} {x : Except ε α} (hx : RaisesOnly e x) (h : ¬ ∃ a, x = .ok a) :
    x = .error e := by
  cases hres : x with
  | ok a => exact absurd ⟨a, hres⟩ h
  | error e' => rw [hx e' hres]

/-- **The order does not matter** to what is computed from a map, when its calls can raise only the
exception `e` and the rest of the computation does not depend on the order of the results. -/
theorem bind_mapM_perm {γ : Type} {f : α → Except ε β} {e : ε}
    (hf : ∀ a, RaisesOnly e (f a)) {g : List β → Except ε γ}
    (hg : ∀ bs bs', bs.Perm bs' → g bs = g bs') {l l' : List α} (h : l.Perm l') :
    (l.mapM f >>= g) = (l'.mapM f >>= g) := by
  cases hl : l.mapM f with
  | ok bs =>
    obtain ⟨bs', hbs', hperm⟩ := List.perm_comp_forall₂ h.symm (mapM_eq_ok.mp hl)
    rw [mapM_eq_ok.mpr hbs']
    exact hg bs bs' hperm.symm
  | error e' =>
    -- the other map cannot succeed either, and has only the one exception to raise
    cases hl' : l'.mapM f with
    | ok bs =>
      obtain ⟨a, ha, he⟩ := exists_of_mapM_eq_error hl
      obtain ⟨b, hb⟩ := exists_mapM_eq_ok.mp ⟨bs, hl'⟩ a (h.mem_iff.mp ha)
      rw [he] at hb
      cases hb
    | error e'' =>
      obtain ⟨a, -, ha⟩ := exists_of_mapM_eq_error hl
      obtain ⟨a', -, ha'⟩ := exists_of_mapM_eq_error hl'
      rw [hf a e' ha, hf a' e'' ha']

end InterviewScheduler.Util
