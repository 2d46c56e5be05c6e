import InterviewScheduler.Effects.Frame
import InterviewScheduler.Effects.Machine

/-! # Following a machine

The logic in which the view is the state itself. It says of every effect of a program in which states
it is performed: a `Demand` that a program meets holds at every point of its runs (`Goes.meets`), and
its postcondition speaks of the state at the end (`Runs.meets`). -/

namespace InterviewScheduler.Effects

variable {F : Type → Type 1} {ε χ σ ω α β : Type}

/-- What is demanded of an effect in the state in which it is performed. -/
abbrev Demand (F : Type → Type 1) (σ ω : Type) := ∀ β : Type, F β → σ → ω → Prop

/-- The logic whose steps are those of the machine that meet `C`. -/
def Logic.following (M : Machine F ε χ σ ω) (C : Condition F χ σ ω) (D : Demand F σ ω) :
    Logic F ε (σ × ω) where
  pre o v := D _ o v.1 v.2
  step o v r v' := ∃ c, C _ o c v.1 v.2 ∧ M.exec o c v.1 v.2 = some (r, v'.1, v'.2)

/-! ### A record of the steps -/

/-- The machine that keeps a record beside the state of the caller. -/
def Machine.recording {η : Type} (M : Machine F ε χ σ ω)
    (record : ∀ {β : Type}, F β → σ → ω → Except ε β → η → η) : Machine F ε χ (σ × η) ω where
  exec o c s w := (M.exec o c s.1 w).map fun x => (x.1, (x.2.1, record o s.1 w x.1 s.2), x.2.2)

/-- A step of the machine, and what is recorded of it. -/
theorem of_exec_recording {η : Type} {M : Machine F ε χ σ ω}
    {record : ∀ {β : Type}, F β → σ → ω → Except ε β → η → η} {o : F β} {c : χ} {s s' : σ} {h h' : η}
    {w w' : ω} {r : Except ε β} (hex : (M.recording record).exec o c (s, h) w = some (r, (s', h'), w')) :
    M.exec o c s w = some (r, s', w') ∧ h' = record o s w r h := by
  obtain ⟨⟨r₁, s₁, w₁⟩, hstep, heq⟩ := Option.map_eq_some_iff.mp hex
  simp only [Prod.mk.injEq] at heq
  obtain ⟨rfl, ⟨rfl, rfl⟩, rfl⟩ := heq
  exact ⟨hstep, rfl⟩

/-! ### Runs -/

/-- The effects of a run are those that the program uses. -/
theorem Runs.of_uses {M : Machine F ε χ σ ω} {C : Condition F χ σ ω} {E : ∀ β : Type, F β → Prop}
    {p : Prog F ε α} {s s' : σ} {w w' : ω} {r : Except ε α} (h : Runs M C p s w r s' w')
    (hp : p.Uses E) : Runs M (fun β o c s w => C β o c s w ∧ E β o) p s w r s' w' := by
  induction h with
  | ret => exact .ret
  | raise => exact .raise
  | op hc hexec _ ih => exact .op ⟨hc, hp.1⟩ hexec (ih (hp.2 _))

/-- What every step keeps holds at the end. -/
theorem Runs.keeps {M : Machine F ε χ σ ω} {C : Condition F χ σ ω} {I : σ → ω → Prop}
    (hI : ∀ {β : Type} (o : F β) (c : χ) (s : σ) (w : ω) (r : Except ε β) (s' : σ) (w' : ω),
      I s w → M.exec o c s w = some (r, s', w') → I s' w')
    {p : Prog F ε α} {s s' : σ} {w w' : ω} {r : Except ε α} (h : Runs M C p s w r s' w')
    (h₀ : I s w) : I s' w' := by
  induction h with
  | ret => exact h₀
  | raise => exact h₀
  | op _ hexec _ ih => exact ih (hI _ _ _ _ _ _ _ h₀ hexec)

/-- A run is a way to its end. -/
theorem Runs.goes {M : Machine F ε χ σ ω} {C : Condition F χ σ ω} {p : Prog F ε α} {s s' : σ}
    {w w' : ω} {r : Except ε α} (h : Runs M C p s w r s' w') : ∃ p', Goes M C p s w p' s' w' := by
  induction h with
  | ret => exact ⟨_, .here⟩
  | raise => exact ⟨_, .here⟩
  | op hc hexec _ ih =>
    obtain ⟨p', hgo⟩ := ih
    exact ⟨p', .op hc hexec hgo⟩

theorem Goes.keeps {M : Machine F ε χ σ ω} {C : Condition F χ σ ω} {I : σ → ω → Prop}
    (hI : ∀ {β : Type} (o : F β) (c : χ) (s : σ) (w : ω) (r : Except ε β) (s' : σ) (w' : ω),
      I s w → M.exec o c s w = some (r, s', w') → I s' w')
    {p p' : Prog F ε α} {s s' : σ} {w w' : ω} (h : Goes M C p s w p' s' w') (h₀ : I s w) :
    I s' w' := by
  induction h with
  | here => exact h₀
  | op _ hexec _ ih => exact ih (hI _ _ _ _ _ _ _ h₀ hexec)

/-- What every step keeps holds at every step. -/
theorem Goes.invariant {M : Machine F ε χ σ ω} {C : Condition F χ σ ω} {I : σ → ω → Prop}
    (hI : ∀ {β : Type} (o : F β) (c : χ) (s : σ) (w : ω) (r : Except ε β) (s' : σ) (w' : ω),
      I s w → M.exec o c s w = some (r, s', w') → I s' w')
    {p p' : Prog F ε α} {s s' : σ} {w w' : ω} (h : Goes M C p s w p' s' w') (h₀ : I s w) :
    Goes M (fun β o c s w => C β o c s w ∧ I s w) p s w p' s' w' := by
  induction h with
  | here => exact .here
  | op hc hexec _ ih => exact .op ⟨hc, h₀⟩ hexec (ih (hI _ _ _ _ _ _ _ h₀ hexec))

/-! ### Answers -/

/-- The logic without a state: which effects a program performs, and what they may answer. -/
def Logic.answering (E : ∀ β : Type, F β → Prop) (A : ∀ β : Type, F β → Except ε β → Prop) :
    Logic F ε Unit where
  pre o _ := E _ o
  step o _ r _ := A _ o r

/-- What is proved of a program without a state holds in a logic that answers as it is assumed, and
whose steps keep `I`. -/
theorem wp_of_answering {ν : Type} {L : Logic F ε ν} {E : ∀ β : Type, F β → Prop}
    {A : ∀ β : Type, F β → Except ε β → Prop} {I : ν → Prop} {p : Prog F ε α}
    {R : Except ε α → Prop} (hp : wp (.answering E A) p (fun r _ => R r) ())
    (hpre : ∀ {β : Type} (o : F β) (v : ν), E β o → I v → L.pre o v)
    (hstep : ∀ {β : Type} (o : F β) (v : ν) (r : Except ε β) (v' : ν), E β o → I v →
      L.step o v r v' → A β o r ∧ I v')
    {v : ν} (hv : I v) : wp L p (fun r v' => R r ∧ I v') v := by
  induction p generalizing v with
  | ret a => exact ⟨hp, hv⟩
  | raise e => exact ⟨hp, hv⟩
  | op o k ih =>
    refine ⟨hpre o v hp.1 hv, fun r v' hs => ?_⟩
    obtain ⟨hr, hv'⟩ := hstep o v r v' hp.1 hv hs
    exact ih r (hp.2 r () hr) hv'

/-! ### Pools -/

section Pools

variable {ι : Type} [DecidableEq ι] {M : Machine F ε χ σ ω} {C : ι → Condition F χ σ ω}
  {P P' : Pool F ε α σ ω ι}

/-- The effects of an interleaving are those that its programs use. -/
theorem Pool.Reaches.of_uses {E : ι → ∀ β : Type, F β → Prop} (h : Pool.Reaches M C P P')
    (hP : ∀ i, (P.prog i).Uses (E i)) :
    Pool.Reaches M (fun i β o c s w => C i β o c s w ∧ E i β o) P P' ∧
      ∀ i, (P'.prog i).Uses (E i) := by
  induction h with
  | refl => exact ⟨.refl, hP⟩
  | tail _ hlast ih =>
    obtain ⟨hreach, huses⟩ := ih
    cases hlast with
    | @op i β o k c r s' w' hprog hc hexec =>
      have huse := huses i
      rw [hprog] at huse
      refine ⟨.tail hreach (.op hprog ⟨hc, huse.1⟩ hexec), fun j => ?_⟩
      by_cases hj : j = i
      · subst hj
        simpa [Pool.advance] using huse.2 r
      · simpa [Pool.advance, hj] using huses j

/-- What every step keeps holds throughout. -/
theorem Pool.Reaches.keeps {I : (ι → σ) → ω → Prop} (h : Pool.Reaches M C P P')
    (hI : ∀ (loc : ι → σ) (i : ι) {β : Type} (o : F β) (c : χ) (w : ω) (r : Except ε β) (s' : σ)
      (w' : ω), I loc w → C i β o c (loc i) w → M.exec o c (loc i) w = some (r, s', w') →
        I (Function.update loc i s') w') (h₀ : I P.loc P.shared) : I P'.loc P'.shared := by
  induction h with
  | refl => exact h₀
  | tail _ hlast ih =>
    cases hlast with
    | op _ hc hexec => exact hI _ _ _ _ _ _ _ _ ih hc hexec

end Pools

section Following

variable {M : Machine F ε χ σ ω} {C : Condition F χ σ ω} {D : Demand F σ ω} {s s' : σ} {w w' : ω}
  {Q : Except ε α → σ × ω → Prop}

theorem faithful_following : Faithful M C (.following M C D) fun v s w => v = (s, w) := by
  rintro β o c s w r s' w' v rfl - hc hex
  exact ⟨(s', w'), ⟨c, hc, hex⟩, rfl⟩

/-- What is proved of a program holds of what is left of it. -/
theorem Goes.follows {p p' : Prog F ε α} (h : Goes M C p s w p' s' w')
    (hp : wp (.following M C D) p Q (s, w)) : wp (.following M C D) p' Q (s', w') := by
  obtain ⟨⟨v, rfl, hp'⟩, -⟩ := h.sound faithful_following (I := fun _ _ => True)
    (fun _ _ _ _ _ _ _ _ _ _ _ _ _ => trivial) rfl hp trivial
  exact hp'

/-- **Every effect meets its demand**, wherever it is performed. -/
theorem Goes.meets {p : Prog F ε α} {o : F β} {k : Except ε β → Prog F ε α}
    (h : Goes M C p s w (.op o k) s' w') (hp : wp (.following M C D) p Q (s, w)) : D β o s' w' :=
  (h.follows hp).1

/-- **The postcondition holds at the end.** -/
theorem Runs.meets {p : Prog F ε α} {r : Except ε α} (h : Runs M C p s w r s' w')
    (hp : wp (.following M C D) p Q (s, w)) : Q r (s', w') := by
  obtain ⟨⟨v, hQ, rfl⟩, -⟩ := h.sound faithful_following (I := fun _ _ => True)
    (fun _ _ _ _ _ _ _ _ _ _ _ _ _ => trivial) rfl hp trivial
  exact hQ

theorem wp_follow {o : F α} (hD : D α o s w)
    (h : ∀ c r s' w', C α o c s w → M.exec o c s w = some (r, s', w') → Q r (s', w')) :
    wp (.following M C D) (.perform o) Q (s, w) := by
  refine wp_perform hD ?_
  rintro r ⟨s', w'⟩ ⟨c, hc, hex⟩
  exact h c r s' w' hc hex

/-- A program whose effects meet their demand in every state in which `I` holds, and keep it. -/
theorem wp_follow_uses {E : ∀ β : Type, F β → Prop} {p : Prog F ε α} {I : σ → ω → Prop}
    (hp : p.Uses E) (hD : ∀ {β : Type} (o : F β) (s : σ) (w : ω), E β o → I s w → D β o s w)
    (hI : ∀ {β : Type} (o : F β) (c : χ) (s : σ) (w : ω) (r : Except ε β) (s' : σ) (w' : ω),
      E β o → I s w → C β o c s w → M.exec o c s w = some (r, s', w') → I s' w')
    (h : I s w) : wp (.following M C D) p (fun _ v => I v.1 v.2) (s, w) := by
  induction p generalizing s w with
  | ret a => exact h
  | raise e => exact h
  | op o k ih =>
    refine ⟨hD o s w hp.1 h, ?_⟩
    rintro r ⟨s', w'⟩ ⟨c, hc, hex⟩
    exact ih r (hp.2 r) (hI o c s w r s' w' hp.1 h hc hex)

/-- What a program ends with, when the machine answers as it is assumed and the effects keep `I`. -/
theorem wp_follow_answering {E : ∀ β : Type, F β → Prop} {A : ∀ β : Type, F β → Except ε β → Prop}
    {p : Prog F ε α} {R : Except ε α → Prop} {I : σ → ω → Prop}
    (hp : wp (.answering E A) p (fun r _ => R r) ())
    (hD : ∀ {β : Type} (o : F β) (s : σ) (w : ω), E β o → I s w → D β o s w)
    (hI : ∀ {β : Type} (o : F β) (c : χ) (s : σ) (w : ω) (r : Except ε β) (s' : σ) (w' : ω),
      E β o → I s w → C β o c s w → M.exec o c s w = some (r, s', w') → I s' w' ∧ A β o r)
    (h : I s w) : wp (.following M C D) p (fun r v => R r ∧ I v.1 v.2) (s, w) := by
  refine wp_of_answering (I := fun v : σ × ω => I v.1 v.2) hp
    (fun o v ho hv => hD o v.1 v.2 ho hv) ?_ h
  rintro β o v r v' ho hv ⟨c, hc, hex⟩
  exact (hI o c v.1 v.2 r v'.1 v'.2 ho hv hc hex).symm

/-- A program whose effects meet their demand in every state. -/
theorem wp_follow_free {E : ∀ β : Type, F β → Prop} {p : Prog F ε α} (hp : p.Uses E)
    (hD : ∀ {β : Type} (o : F β) (s : σ) (w : ω), E β o → D β o s w) :
    wp (.following M C D) p (fun _ _ => True) (s, w) :=
  wp_follow_uses (I := fun _ _ => True) hp (fun o s w ho _ => hD o s w ho)
    (fun _ _ _ _ _ _ _ _ _ _ _ => trivial) trivial

end Following

end InterviewScheduler.Effects
