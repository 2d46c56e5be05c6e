import Mathlib.Data.List.Forall2
import InterviewScheduler.Effects.Wp

/-! # The effects that a program uses

`p.Uses E`: whatever the effects answer, `p` performs effects of `E` only. What such effects preserve,
the whole program preserves (`wp_frame`), without a look at what it does. -/

namespace InterviewScheduler.Effects

variable {F : Type → Type 1} {ε α β γ ν : Type} {E : ∀ β : Type, F β → Prop}

namespace Prog

/-- Every effect of the program is in `E`. -/
def Uses (E : ∀ β : Type, F β → Prop) : Prog F ε α → Prop
  | .ret _ => True
  | .raise _ => True
  | .op o k => E _ o ∧ ∀ r, (k r).Uses E

/-- A larger class admits more. -/
theorem Uses.mono {E' : ∀ β : Type, F β → Prop} (hE : ∀ {β : Type} (o : F β), E β o → E' β o)
    {p : Prog F ε α} (h : p.Uses E) : p.Uses E' := by
  induction p with
  | ret a => trivial
  | raise e => trivial
  | op o k ih => exact ⟨hE o h.1, fun r => ih r (h.2 r)⟩

theorem uses_pure {a : α} : (pure a : Prog F ε α).Uses E := trivial

theorem uses_throw {e : ε} : (throw e : Prog F ε α).Uses E := trivial

theorem uses_perform {o : F α} (h : E α o) : (perform o : Prog F ε α).Uses E := by
  refine ⟨h, fun r => ?_⟩
  cases r with
  | ok a => trivial
  | error e => trivial

theorem uses_bind {p : Prog F ε α} {f : α → Prog F ε β} (hp : p.Uses E)
    (hf : ∀ a, (f a).Uses E) : (p >>= f).Uses E := by
  change (p.bind f).Uses E
  induction p with
  | ret a => exact hf a
  | raise e => trivial
  | op o k ih => exact ⟨hp.1, fun r => ih r (hp.2 r)⟩

/-- Whatever the effects answer, a value that the program returns is in `R`. -/
def Gives (R : α → Prop) : Prog F ε α → Prop
  | .ret a => R a
  | .raise _ => True
  | .op _ k => ∀ r, (k r).Gives R

theorem gives_perform {o : F α} {R : α → Prop} (h : ∀ a, R a) :
    (perform o : Prog F ε α).Gives R := by
  intro r
  cases r with
  | ok a => exact h a
  | error e => trivial

theorem gives_bind {p : Prog F ε α} {f : α → Prog F ε β} {R : α → Prop} {R' : β → Prop}
    (hp : p.Gives R) (hf : ∀ a, R a → (f a).Gives R') : (p >>= f).Gives R' := by
  change (p.bind f).Gives R'
  induction p with
  | ret a => exact hf a hp
  | raise e => trivial
  | op o k ih => exact fun r => ih r (hp r)

/-- What each call returns depends on its argument. -/
theorem gives_forEach_forall₂ {f : α → Prog F ε β} {l : List α} {R : α → β → Prop}
    (hf : ∀ a, (f a).Gives (R a)) : (forEach f l).Gives fun bs => List.Forall₂ R l bs := by
  induction l with
  | nil => exact .nil
  | cons a l ih => exact gives_bind (hf a) fun b hb => gives_bind ih fun bs hbs => .cons hb hbs

theorem gives_mono {p : Prog F ε α} {R R' : α → Prop} (h : p.Gives R) (hR : ∀ a, R a → R' a) :
    p.Gives R' := by
  induction p with
  | ret a => exact hR a h
  | raise e => trivial
  | op o k ih => exact fun r => ih r (h r)

/-- Sequencing, when what follows depends on what is returned. -/
theorem uses_bind_gives {p : Prog F ε α} {f : α → Prog F ε β} {R : α → Prop} (hp : p.Uses E)
    (hR : p.Gives R) (hf : ∀ a, R a → (f a).Uses E) : (p >>= f).Uses E := by
  change (p.bind f).Uses E
  induction p with
  | ret a => exact hf a hR
  | raise e => trivial
  | op o k ih => exact ⟨hp.1, fun r => ih r (hp.2 r) (hR r)⟩

theorem uses_map {p : Prog F ε α} {f : α → β} (hp : p.Uses E) : (f <$> p).Uses E := by
  change (p.bind fun a => .ret (f a)).Uses E
  exact uses_bind (f := fun a => .ret (f a)) hp fun _ => trivial

theorem uses_attempt {p : Prog F ε α} (hp : p.Uses E) : p.attempt.Uses E := by
  induction p with
  | ret a => trivial
  | raise e => trivial
  | op o k ih => exact ⟨hp.1, fun r => ih r (hp.2 r)⟩

theorem uses_tryCatch {p : Prog F ε α} {h : ε → Prog F ε α} (hp : p.Uses E)
    (hh : ∀ e, (h e).Uses E) : (tryCatch p h).Uses E := by
  refine uses_bind (uses_attempt hp) fun r => ?_
  cases r with
  | ok a => trivial
  | error e => exact hh e

theorem uses_finallyDo {p : Prog F ε α} {f : Prog F ε β} (hp : p.Uses E) (hf : f.Uses E) :
    (p.finallyDo f).Uses E := by
  refine uses_bind (uses_attempt hp) fun r => uses_bind (uses_attempt hf) fun _ => ?_
  cases r with
  | ok a => trivial
  | error e => trivial

theorem uses_raiseIf {c : Prop} [Decidable c] {e : ε} :
    (raiseIf c e : Prog F ε Unit).Uses E := by
  unfold raiseIf
  split
  · trivial
  · trivial

theorem uses_orRaise {x : Option α} {e : ε} : (orRaise x e : Prog F ε α).Uses E := by
  cases x with
  | none => trivial
  | some a => trivial

theorem uses_forEach {f : α → Prog F ε β} {l : List α} (hf : ∀ a, (f a).Uses E) :
    (forEach f l).Uses E := by
  induction l with
  | nil => trivial
  | cons a l ih =>
    refine uses_bind (f := fun b => _) (hf a) fun b => ?_
    exact uses_bind (f := fun bs => _) ih fun bs => trivial

theorem uses_forEach_mem {f : α → Prog F ε β} {l : List α} (hf : ∀ a ∈ l, (f a).Uses E) :
    (forEach f l).Uses E := by
  induction l with
  | nil => trivial
  | cons a l ih =>
    refine uses_bind (f := fun b => _) (hf a List.mem_cons_self) fun b => ?_
    exact uses_bind (f := fun bs => _) (ih fun x hx => hf x (List.mem_cons_of_mem _ hx)) fun bs => trivial

end Prog

/-- **What the effects of a program preserve, the program preserves.** -/
theorem wp_frame {L : Logic F ε ν} {I : ν → Prop} {p : Prog F ε α} (hp : p.Uses E)
    (hstep : ∀ {β : Type} (o : F β), E β o → ∀ v r v', I v → L.step o v r v' → I v')
    {Q : Except ε α → ν → Prop} {v : ν} (h : wp L p Q v) (hv : I v) :
    wp L p (fun r v' => Q r v' ∧ I v') v := by
  induction p generalizing v with
  | ret a => exact ⟨h, hv⟩
  | raise e => exact ⟨h, hv⟩
  | op o k ih =>
    refine ⟨h.1, fun r v' hs => ?_⟩
    have hv' : I v' := hstep o hp.1 v r v' hv hs
    exact ih r (hp.2 r) (h.2 r v' hs) hv'

/-- A program whose effects meet their preconditions wherever `I` holds, and keep it. -/
theorem wp_uses {L : Logic F ε ν} {I : ν → Prop} {p : Prog F ε α} (hp : p.Uses E)
    (hpre : ∀ {β : Type} (o : F β) (v : ν), E β o → I v → L.pre o v)
    (hstep : ∀ {β : Type} (o : F β), E β o → ∀ v r v', I v → L.step o v r v' → I v')
    {v : ν} (hv : I v) : wp L p (fun _ v' => I v') v := by
  induction p generalizing v with
  | ret a => exact hv
  | raise e => exact hv
  | op o k ih =>
    refine ⟨hpre o v hp.1 hv, fun r v' hs => ?_⟩
    exact ih r (hp.2 r) (hstep o hp.1 v r v' hv hs)

end InterviewScheduler.Effects
