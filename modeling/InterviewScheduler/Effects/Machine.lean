import Mathlib.Logic.Relation
import Mathlib.Logic.Function.Basic
import InterviewScheduler.Effects.Wp

/-! # Machines that answer effects

A `Machine` answers one effect at a time: from a choice `χ` (what the outside world does at this
point), the state `σ` of the caller and the state `ω` that all callers share. An answer may be
impossible (`none`).

* A call alone (`Runs`) is performed from its beginning to its end, or is stopped on the way (`Goes`).
* A pool (`Pool.Step`) interleaves any number of calls, one effect at a time.

Both take a condition on the steps, so that assumptions about the environment are stated where they
are used. What a logic proves of a program holds of its runs (`Runs.sound`, `Goes.sound`) and in every
interleaving (`Pool.sound`), once the logic is faithful to the machine. -/

namespace InterviewScheduler.Effects

variable {F : Type → Type 1} {ε χ σ ω α ν ι : Type}

structure Machine (F : Type → Type 1) (ε χ σ ω : Type) where
  exec : ∀ {β : Type}, F β → χ → σ → ω → Option (Except ε β × σ × ω)

/-- A condition on the steps that are taken: the effect, the choice and the state before it. -/
abbrev Condition (F : Type → Type 1) (χ σ ω : Type) :=
  ∀ β : Type, F β → χ → σ → ω → Prop

/-! ### One call alone -/

/-- A complete run of a program whose steps all meet the condition `C`. -/
inductive Runs (M : Machine F ε χ σ ω) (C : Condition F χ σ ω) :
    Prog F ε α → σ → ω → Except ε α → σ → ω → Prop
  | ret {a s w} : Runs M C (.ret a) s w (.ok a) s w
  | raise {e s w} : Runs M C (.raise e) s w (.error e) s w
  | op {β} {o : F β} {k c s w r s' w' r' s'' w''} (hc : C β o c s w)
      (hexec : M.exec o c s w = some (r, s', w')) (hrest : Runs M C (k r) s' w' r' s'' w'') :
      Runs M C (.op o k) s w r' s'' w''

/-- A weaker condition admits more runs. -/
theorem Runs.mono {M : Machine F ε χ σ ω} {C C' : Condition F χ σ ω}
    (hC : ∀ {β : Type} (o : F β) (c : χ) (s : σ) (w : ω), C β o c s w → C' β o c s w)
    {p : Prog F ε α} {s s' : σ} {w w' : ω} {r : Except ε α} (h : Runs M C p s w r s' w') :
    Runs M C' p s w r s' w' := by
  induction h with
  | ret => exact .ret
  | raise => exact .raise
  | op hc hexec _ ih => exact .op (hC _ _ _ _ hc) hexec ih

/-- One step. -/
theorem Runs.perform {M : Machine F ε χ σ ω} {C : Condition F χ σ ω} {o : F α} {c : χ} {s s' : σ}
    {w w' : ω} {r : Except ε α} (hc : C α o c s w) (hexec : M.exec o c s w = some (r, s', w')) :
    Runs M C (.perform o) s w r s' w' := by
  cases r with
  | ok a => exact .op hc hexec .ret
  | error e => exact .op hc hexec .raise

theorem Runs.raiseIf {M : Machine F ε χ σ ω} {C : Condition F χ σ ω} {c : Prop} [Decidable c] {e : ε}
    {s : σ} {w : ω} (h : ¬ c) : Runs M C (.raiseIf c e) s w (.ok ()) s w := by
  unfold Prog.raiseIf
  rw [if_neg h]
  exact .ret

theorem Runs.orRaise {M : Machine F ε χ σ ω} {C : Condition F χ σ ω} {x : Option α} {a : α} {e : ε}
    {s : σ} {w : ω} (h : x = some a) : Runs M C (.orRaise x e) s w (.ok a) s w := by
  rw [h]
  exact .ret

/-- Two runs in sequence. -/
theorem Runs.bind {β : Type} {M : Machine F ε χ σ ω} {C : Condition F χ σ ω} {p : Prog F ε α}
    {f : α → Prog F ε β} {a : α} {s s' s'' : σ} {w w' w'' : ω} {r : Except ε β}
    (h : Runs M C p s w (.ok a) s' w') (h' : Runs M C (f a) s' w' r s'' w'') :
    Runs M C (p >>= f) s w r s'' w'' := by
  change Runs M C (p.bind f) s w r s'' w''
  generalize hx : (.ok a : Except ε α) = x at h
  induction h with
  | ret =>
    cases hx
    exact h'
  | raise => cases hx
  | op hc hexec _ ih => exact .op hc hexec (ih h' hx)

/-- The run along a list of choices, as long as every step passes the check. -/
def Machine.run (M : Machine F ε χ σ ω) (check : ∀ β : Type, F β → χ → σ → ω → Bool) :
    Prog F ε α → List χ → σ → ω → Option (Except ε α × σ × ω)
  | .ret a, _, s, w => some (.ok a, s, w)
  | .raise e, _, s, w => some (.error e, s, w)
  | .op _ _, [], _, _ => none
  | .op o k, c :: cs, s, w =>
    if check _ o c s w then
      match M.exec o c s w with
      | some (r, s', w') => M.run check (k r) cs s' w'
      | none => none
    else none

theorem runs_of_run {M : Machine F ε χ σ ω} {check : ∀ β : Type, F β → χ → σ → ω → Bool}
    {p : Prog F ε α} {cs : List χ} {s s' : σ} {w w' : ω} {r : Except ε α}
    (h : M.run check p cs s w = some (r, s', w')) :
    Runs M (fun β o c s w => check β o c s w) p s w r s' w' := by
  induction p generalizing cs s w with
  | ret a =>
    simp only [Machine.run, Option.some.injEq, Prod.mk.injEq] at h
    obtain ⟨rfl, rfl, rfl⟩ := h
    exact .ret
  | raise e =>
    simp only [Machine.run, Option.some.injEq, Prod.mk.injEq] at h
    obtain ⟨rfl, rfl, rfl⟩ := h
    exact .raise
  | op o k ih =>
    cases cs with
    | nil => simp [Machine.run] at h
    | cons c cs =>
      simp only [Machine.run] at h
      split at h
      · next hc =>
        split at h
        · next r₁ s₁ w₁ hexec => exact .op hc hexec (ih _ h)
        · simp at h
      · simp at h

/-- The logic is faithful to the machine, for the steps that meet `C`: a step from a state seen as
`v`, whose obligation is met, leads to a state that the logic allows. -/
def Faithful (M : Machine F ε χ σ ω) (C : Condition F χ σ ω) (L : Logic F ε ν)
    (Sees : ν → σ → ω → Prop) : Prop :=
  ∀ {β : Type} (o : F β) (c : χ) (s : σ) (w : ω) (r : Except ε β) (s' : σ) (w' : ω) (v : ν),
    Sees v s w → L.pre o v → C β o c s w → M.exec o c s w = some (r, s', w') →
      ∃ v', L.step o v r v' ∧ Sees v' s' w'

/-- **Invariants of a run.** What the logic proves holds at the end, and an invariant holds there when
every step that meets its obligation preserves it. -/
theorem Runs.sound {M : Machine F ε χ σ ω} {C : Condition F χ σ ω} {L : Logic F ε ν}
    {Sees : ν → σ → ω → Prop} (hf : Faithful M C L Sees) {I : σ → ω → Prop}
    (hstep : ∀ {β : Type} (o : F β) (c : χ) (s : σ) (w : ω) (r : Except ε β) (s' : σ) (w' : ω)
      (v : ν), I s w → Sees v s w → L.pre o v → C β o c s w → M.exec o c s w = some (r, s', w') →
        I s' w')
    {p : Prog F ε α} {s s' : σ} {w w' : ω} {r : Except ε α} (h : Runs M C p s w r s' w')
    {Q : Except ε α → ν → Prop} {v : ν} (hv : Sees v s w) (hp : wp L p Q v) (hI : I s w) :
    (∃ v', Q r v' ∧ Sees v' s' w') ∧ I s' w' := by
  induction h generalizing v with
  | ret => exact ⟨⟨v, hp, hv⟩, hI⟩
  | raise => exact ⟨⟨v, hp, hv⟩, hI⟩
  | op hc hexec _ ih =>
    obtain ⟨v', hnext, hv'⟩ := hf _ _ _ _ _ _ _ v hv hp.1 hc hexec
    exact ih hv' (hp.2 _ _ hnext) (hstep _ _ _ _ _ _ _ v hI hv hp.1 hc hexec)

/-! ### A call that is stopped -/

/-- The beginning of a run, up to any point: what is left of the program, and the states then. -/
inductive Goes (M : Machine F ε χ σ ω) (C : Condition F χ σ ω) :
    Prog F ε α → σ → ω → Prog F ε α → σ → ω → Prop
  | here {p s w} : Goes M C p s w p s w
  | op {β} {o : F β} {k c s w r s' w' p s'' w''} (hc : C β o c s w)
      (hexec : M.exec o c s w = some (r, s', w')) (hrest : Goes M C (k r) s' w' p s'' w'') :
      Goes M C (.op o k) s w p s'' w''

theorem Goes.mono {M : Machine F ε χ σ ω} {C C' : Condition F χ σ ω}
    (hC : ∀ {β : Type} (o : F β) (c : χ) (s : σ) (w : ω), C β o c s w → C' β o c s w)
    {p p' : Prog F ε α} {s s' : σ} {w w' : ω} (h : Goes M C p s w p' s' w') :
    Goes M C' p s w p' s' w' := by
  induction h with
  | here => exact .here
  | op hc hexec _ ih => exact .op (hC _ _ _ _ hc) hexec ih

/-- As far as a list of choices leads, as long as every step passes the check. -/
def Machine.go (M : Machine F ε χ σ ω) (check : ∀ β : Type, F β → χ → σ → ω → Bool) :
    Prog F ε α → List χ → σ → ω → Option (Prog F ε α × σ × ω)
  | p, [], s, w => some (p, s, w)
  | .op o k, c :: cs, s, w =>
    if check _ o c s w then
      match M.exec o c s w with
      | some (r, s', w') => M.go check (k r) cs s' w'
      | none => none
    else none
  | _, _ :: _, _, _ => none

theorem goes_of_go {M : Machine F ε χ σ ω} {check : ∀ β : Type, F β → χ → σ → ω → Bool}
    {p p' : Prog F ε α} {cs : List χ} {s s' : σ} {w w' : ω}
    (h : M.go check p cs s w = some (p', s', w')) :
    Goes M (fun β o c s w => check β o c s w) p s w p' s' w' := by
  induction cs generalizing p s w with
  | nil =>
    simp only [Machine.go, Option.some.injEq, Prod.mk.injEq] at h
    obtain ⟨rfl, rfl, rfl⟩ := h
    exact .here
  | cons c cs ih =>
    cases p with
    | ret a => simp [Machine.go] at h
    | raise e => simp [Machine.go] at h
    | op o k =>
      simp only [Machine.go] at h
      split at h
      · next hc =>
        split at h
        · next hexec => exact .op hc hexec (ih h)
        · simp at h
      · simp at h

/-- **Invariants of a run, wherever it is stopped.** -/
theorem Goes.sound {M : Machine F ε χ σ ω} {C : Condition F χ σ ω} {L : Logic F ε ν}
    {Sees : ν → σ → ω → Prop} (hf : Faithful M C L Sees) {I : σ → ω → Prop}
    (hstep : ∀ {β : Type} (o : F β) (c : χ) (s : σ) (w : ω) (r : Except ε β) (s' : σ) (w' : ω)
      (v : ν), I s w → Sees v s w → L.pre o v → C β o c s w → M.exec o c s w = some (r, s', w') →
        I s' w')
    {p p' : Prog F ε α} {s s' : σ} {w w' : ω} (h : Goes M C p s w p' s' w')
    {Q : Except ε α → ν → Prop} {v : ν} (hv : Sees v s w) (hp : wp L p Q v) (hI : I s w) :
    (∃ v', Sees v' s' w' ∧ wp L p' Q v') ∧ I s' w' := by
  induction h generalizing v with
  | here => exact ⟨⟨v, hv, hp⟩, hI⟩
  | op hc hexec _ ih =>
    obtain ⟨v', hnext, hv'⟩ := hf _ _ _ _ _ _ _ v hv hp.1 hc hexec
    exact ih hv' (hp.2 _ _ hnext) (hstep _ _ _ _ _ _ _ v hI hv hp.1 hc hexec)

/-! ### Any number of calls, interleaved -/

/-- Calls in progress, each with its own state, and the state they share. -/
structure Pool (F : Type → Type 1) (ε α σ ω ι : Type) where
  prog : ι → Prog F ε α
  loc : ι → σ
  shared : ω

namespace Pool

variable [DecidableEq ι]

/-- Call `i` has taken a step. -/
def advance (P : Pool F ε α σ ω ι) (i : ι) (p : Prog F ε α) (s : σ) (w : ω) :
    Pool F ε α σ ω ι where
  prog := Function.update P.prog i p
  loc := Function.update P.loc i s
  shared := w

/-- One call performs one effect. The condition may depend on the call. -/
inductive Step (M : Machine F ε χ σ ω) (C : ι → Condition F χ σ ω) :
    Pool F ε α σ ω ι → Pool F ε α σ ω ι → Prop
  | op {P : Pool F ε α σ ω ι} {i : ι} {β} {o : F β} {k c r s' w'} (hprog : P.prog i = .op o k)
      (hc : C i β o c (P.loc i) P.shared)
      (hexec : M.exec o c (P.loc i) P.shared = some (r, s', w')) :
      Step M C P (P.advance i (k r) s' w')

/-- The states that an interleaving can reach. -/
abbrev Reaches (M : Machine F ε χ σ ω) (C : ι → Condition F χ σ ω) :
    Pool F ε α σ ω ι → Pool F ε α σ ω ι → Prop :=
  Relation.ReflTransGen (Step M C)

theorem Reaches.mono {M : Machine F ε χ σ ω} {C C' : ι → Condition F χ σ ω}
    (hC : ∀ (i : ι) {β : Type} (o : F β) (c : χ) (s : σ) (w : ω), C i β o c s w → C' i β o c s w)
    {P P' : Pool F ε α σ ω ι} (h : Reaches M C P P') : Reaches M C' P P' := by
  induction h with
  | refl => exact .refl
  | tail _ hlast ih =>
    cases hlast with
    | op hprog hc hexec => exact .tail ih (.op hprog (hC _ _ _ _ _ hc) hexec)

/-- The interleaving along a schedule: which call takes the next step, and with which choice. -/
def run (M : Machine F ε χ σ ω) (check : ι → ∀ β : Type, F β → χ → σ → ω → Bool) :
    List (ι × χ) → Pool F ε α σ ω ι → Option (Pool F ε α σ ω ι)
  | [], P => some P
  | (i, c) :: sched, P =>
    match P.prog i with
    | .op o k =>
      if check i _ o c (P.loc i) P.shared then
        match M.exec o c (P.loc i) P.shared with
        | some (r, s', w') => run M check sched (P.advance i (k r) s' w')
        | none => none
      else none
    | _ => none

theorem reaches_of_run {M : Machine F ε χ σ ω} {check : ι → ∀ β : Type, F β → χ → σ → ω → Bool}
    {sched : List (ι × χ)} {P P' : Pool F ε α σ ω ι} (h : run M check sched P = some P') :
    Reaches M (fun i β o c s w => check i β o c s w) P P' := by
  induction sched generalizing P with
  | nil =>
    simp only [run, Option.some.injEq] at h
    exact h ▸ .refl
  | cons ic sched ih =>
    obtain ⟨i, c⟩ := ic
    simp only [run] at h
    split at h
    · next hprog =>
      split at h
      · next hc =>
        split at h
        · next hexec => exact .head (.op hprog hc hexec) (ih h)
        · simp at h
      · simp at h
    · simp at h

/-- The logic is faithful to the machine whatever the other calls do: `Sees` speaks of the caller's
own state only. -/
def Faithful (M : Machine F ε χ σ ω) (L : Logic F ε ν) (Sees : ν → σ → Prop) : Prop :=
  ∀ {β : Type} (o : F β) (c : χ) (s : σ) (w : ω) (r : Except ε β) (s' : σ) (w' : ω) (v : ν),
    Sees v s → M.exec o c s w = some (r, s', w') → ∃ v', L.step o v r v' ∧ Sees v' s'

/-- The same, for the steps that meet `C`. -/
def FaithfulUnder (M : Machine F ε χ σ ω) (C : Condition F χ σ ω) (L : Logic F ε ν)
    (Sees : ν → σ → Prop) : Prop :=
  ∀ {β : Type} (o : F β) (c : χ) (s : σ) (w : ω) (r : Except ε β) (s' : σ) (w' : ω) (v : ν),
    Sees v s → C β o c s w → M.exec o c s w = some (r, s', w') → ∃ v', L.step o v r v' ∧ Sees v' s'

/-- What holds of every call in progress: what is left of it is proved, each call in its own logic. -/
def Proved (L : ι → Logic F ε ν) (Sees : ν → σ → Prop) (Q : ι → Except ε α → ν → Prop)
    (P : Pool F ε α σ ω ι) : Prop :=
  ∀ i, ∃ v, Sees v (P.loc i) ∧ wp (L i) (P.prog i) (Q i) v

section Sound

variable {M : Machine F ε χ σ ω} {C : ι → Condition F χ σ ω} {L : ι → Logic F ε ν}
  {Sees : ν → σ → Prop} {Q : ι → Except ε α → ν → Prop} {I : (ι → σ) → ω → Prop}

/-- **Invariants of a pool.** Every call stays proved, and an invariant holds throughout when every
step that meets its obligation preserves it. -/
theorem sound_under (hf : ∀ i, FaithfulUnder M (C i) (L i) Sees)
    (hstep : ∀ (loc : ι → σ) (i : ι) {β : Type} (o : F β) (c : χ) (w : ω) (r : Except ε β) (s' : σ)
      (w' : ω) (v : ν), I loc w → Sees v (loc i) → (L i).pre o v → C i β o c (loc i) w →
        M.exec o c (loc i) w = some (r, s', w') → I (Function.update loc i s') w')
    {P P' : Pool F ε α σ ω ι} (h : Reaches M C P P') (hP : Proved L Sees Q P)
    (hI : I P.loc P.shared) : Proved L Sees Q P' ∧ I P'.loc P'.shared := by
  induction h with
  | refl => exact ⟨hP, hI⟩
  | tail _ hlast ih =>
    obtain ⟨hP, hI⟩ := ih
    cases hlast with
    | @op i β o k c r s' w' hprog hc hexec =>
      obtain ⟨v, hv, hwp⟩ := hP i
      rw [hprog] at hwp
      refine ⟨fun j => ?_, hstep _ i o c _ r s' w' v hI hv hwp.1 hc hexec⟩
      by_cases hj : j = i
      · subst hj
        obtain ⟨v', hstep', hv'⟩ := hf j o c _ _ r s' w' v hv hc hexec
        refine ⟨v', ?_, ?_⟩
        · simpa [advance] using hv'
        · simpa [advance] using hwp.2 r v' hstep'
      · obtain ⟨u, hu, hwu⟩ := hP j
        exact ⟨u, by simpa [advance, hj] using hu, by simpa [advance, hj] using hwu⟩

theorem sound (hf : ∀ i, Faithful M (L i) Sees)
    (hstep : ∀ (loc : ι → σ) (i : ι) {β : Type} (o : F β) (c : χ) (w : ω) (r : Except ε β) (s' : σ)
      (w' : ω) (v : ν), I loc w → Sees v (loc i) → (L i).pre o v → C i β o c (loc i) w →
        M.exec o c (loc i) w = some (r, s', w') → I (Function.update loc i s') w')
    {P P' : Pool F ε α σ ω ι} (h : Reaches M C P P') (hP : Proved L Sees Q P)
    (hI : I P.loc P.shared) : Proved L Sees Q P' ∧ I P'.loc P'.shared :=
  sound_under (fun i _ o c s w r s' w' v hv _ hex => hf i o c s w r s' w' v hv hex) hstep h hP hI

/-- Every step that can be taken in a state that the pool reaches is in `D`. -/
def Ensures (M : Machine F ε χ σ ω) (C D : ι → Condition F χ σ ω) (P₀ : Pool F ε α σ ω ι) : Prop :=
  ∀ {P : Pool F ε α σ ω ι}, Reaches M C P₀ P → ∀ {i : ι} {β : Type} {o : F β} {k c r s' w'},
    P.prog i = .op o k → C i β o c (P.loc i) P.shared →
      M.exec o c (P.loc i) P.shared = some (r, s', w') → D i β o c (P.loc i) P.shared

/-- What an invariant says of the steps that meet their obligations. -/
theorem ensures (hf : ∀ i, Faithful M (L i) Sees)
    (hstep : ∀ (loc : ι → σ) (i : ι) {β : Type} (o : F β) (c : χ) (w : ω) (r : Except ε β) (s' : σ)
      (w' : ω) (v : ν), I loc w → Sees v (loc i) → (L i).pre o v → C i β o c (loc i) w →
        M.exec o c (loc i) w = some (r, s', w') → I (Function.update loc i s') w')
    {D : ι → Condition F χ σ ω}
    (hD : ∀ (loc : ι → σ) (i : ι) {β : Type} (o : F β) (c : χ) (w : ω) (v : ν), I loc w →
      Sees v (loc i) → (L i).pre o v → C i β o c (loc i) w → D i β o c (loc i) w)
    {P : Pool F ε α σ ω ι} (hP : Proved L Sees Q P) (hI : I P.loc P.shared) : Ensures M C D P := by
  intro P' h i β o k c r s' w' hprog hc hexec
  obtain ⟨hP', hI'⟩ := sound hf hstep h hP hI
  obtain ⟨v, hv, hwp⟩ := hP' i
  rw [hprog] at hwp
  exact hD _ i o c _ v hI' hv hwp.1 hc

end Sound

end Pool

end InterviewScheduler.Effects
