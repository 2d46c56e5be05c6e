import InterviewScheduler.Effects.Frame
import InterviewScheduler.Effects.Machine

/-! # A call among others

A call that runs from its beginning to its end while other callers are at work: between any two of its
effects they may change the shared state, by the relation `R`.

The logic `Logic.amid` is for the calls of a pool: its view is the caller's own state, and what that says
of the shared state is all that the others must leave true. -/

namespace InterviewScheduler.Effects

variable {F : Type → Type 1} {ε χ σ ω α β : Type} {M : Machine F ε χ σ ω} {R : ω → ω → Prop}

/-- The machine of such a call. A choice has, besides the answer, the state that the others leave. -/
def Machine.amid (M : Machine F ε χ σ ω) : Machine F ε (χ × ω) σ ω :=
  ⟨fun o c s _ => M.exec o c.1 s c.2⟩

/-- What the others do is in `R`. -/
def Amid (R : ω → ω → Prop) : Condition F (χ × ω) σ ω := fun _ _ c _ w => R w c.2

section Inversion

variable {C : Condition F χ σ ω} {s s' : σ} {w w' : ω}

/-- A run without the others is one among them, where they may do nothing. -/
theorem Runs.amid {p : Prog F ε α} {r : Except ε α}
    (hC : ∀ {β : Type} (o : F β) (c : χ) (s : σ) (w : ω), C β o c s w → R w w)
    (h : Runs M C p s w r s' w') : Runs M.amid (Amid R) p s w r s' w' := by
  induction h with
  | ret => exact .ret
  | raise => exact .raise
  | @op β o k c s w r s' w' r' s'' w'' hc hexec _ ih =>
    have hquiet : Amid R β o (c, w) s w := hC o c s w hc
    exact .op hquiet hexec ih

theorem Runs.of_perform {o : F α} {a : α} (h : Runs M C (.perform o) s w (.ok a) s' w') :
    ∃ c, C α o c s w ∧ M.exec o c s w = some (.ok a, s', w') := by
  unfold Prog.perform at h
  cases h with
  | @op β o k c s w r s₁ w₁ r' s'' w'' hc hexec hrest =>
    refine ⟨c, hc, ?_⟩
    cases r with
    | ok x =>
      cases hrest
      exact hexec
    | error e => cases hrest

/-- The two parts of a run that returns. -/
theorem Runs.of_bind {p : Prog F ε α} {f : α → Prog F ε β} {b : β}
    (h : Runs M C (p >>= f) s w (.ok b) s' w') :
    ∃ a s₁ w₁, Runs M C p s w (.ok a) s₁ w₁ ∧ Runs M C (f a) s₁ w₁ (.ok b) s' w' := by
  change Runs M C (p.bind f) s w (.ok b) s' w' at h
  induction p generalizing s w with
  | ret a => exact ⟨a, s, w, .ret, h⟩
  | raise e =>
    change Runs M C (.raise e) s w (.ok b) s' w' at h
    cases h
  | op o k ih =>
    change Runs M C (.op o fun r => (k r).bind f) s w (.ok b) s' w' at h
    cases h with
    | op hc hexec hrest =>
      obtain ⟨a, s₁, w₁, hp, hf⟩ := ih _ hrest
      exact ⟨a, s₁, w₁, .op hc hexec hp, hf⟩

end Inversion

/-! ### A logic for the calls of a pool -/

/-- The logic in which the view is the caller's own state `s`. Of the shared state it is known that `J s`
holds of it; between two effects of the caller it may become any other such state. -/
def Logic.amid (M : Machine F ε χ σ ω) (C : Condition F χ σ ω) (J : σ → ω → Prop)
    (D : ∀ β : Type, F β → σ → Prop) : Logic F ε σ where
  pre o s := D _ o s
  step o s r s' := ∃ c w w', J s w ∧ C _ o c s w ∧ M.exec o c s w = some (r, s', w')

section Rules

variable {C : Condition F χ σ ω} {J : σ → ω → Prop} {D : ∀ β : Type, F β → σ → Prop} {s : σ}
  {Q : Except ε α → σ → Prop}

theorem wp_amid {o : F α} (hD : D α o s)
    (h : ∀ c r s' w w', J s w → C α o c s w → M.exec o c s w = some (r, s', w') → Q r s') :
    wp (.amid M C J D) (.perform o) Q s := by
  refine wp_perform hD ?_
  rintro r s' ⟨c, w, w', hJ, hc, hex⟩
  exact h c r s' w w' hJ hc hex

/-- A program whose effects meet their demand where `I` holds, and keep it. -/
theorem wp_amid_uses {E : ∀ β : Type, F β → Prop} {p : Prog F ε α} {I : σ → Prop} (hp : p.Uses E)
    (hD : ∀ {β : Type} (o : F β) (s : σ), E β o → I s → D β o s)
    (hI : ∀ {β : Type} (o : F β) (c : χ) (s : σ) (w : ω) (r : Except ε β) (s' : σ) (w' : ω),
      E β o → I s → C β o c s w → M.exec o c s w = some (r, s', w') → I s')
    (h : I s) : wp (.amid M C J D) p (fun _ s' => I s') s := by
  refine wp_uses hp hD (fun o ho s r s' hs hstep => ?_) h
  obtain ⟨c, w, w', -, hc, hex⟩ := hstep
  exact hI o c s w r s' w' ho hs hc hex

end Rules

section Pools

variable {ι : Type} [DecidableEq ι] {C : Condition F χ σ ω} {J : σ → ω → Prop}
  {D : ∀ β : Type, F β → σ → Prop} {Q : Except ε α → σ → Prop} {P : Pool F ε α σ ω ι} {i : ι}

/-- **A step of a call that is proved**: its effect meets the demand, and all calls stay proved. -/
theorem Pool.amid_advance (hP : ∀ j, wp (.amid M C J D) (P.prog j) Q (P.loc j)) {o : F β}
    {k : Except ε β → Prog F ε α} {c : χ} {r : Except ε β} {s' : σ} {w' : ω}
    (hprog : P.prog i = .op o k) (hJ : J (P.loc i) P.shared) (hc : C β o c (P.loc i) P.shared)
    (hexec : M.exec o c (P.loc i) P.shared = some (r, s', w')) :
    D β o (P.loc i) ∧ ∀ j, wp (.amid M C J D) ((P.advance i (k r) s' w').prog j) Q
      ((P.advance i (k r) s' w').loc j) := by
  have hi := hP i
  rw [hprog] at hi
  refine ⟨hi.1, fun j => ?_⟩
  by_cases hj : j = i
  · subst hj
    simp only [Pool.advance, Function.update_self]
    exact hi.2 r s' ⟨c, P.shared, w', hJ, hc, hexec⟩
  · simp only [Pool.advance, Function.update_of_ne hj]
    exact hP j

end Pools

end InterviewScheduler.Effects
