import Mathlib.Tactic.SplitIfs
import InterviewScheduler.Effects.Prog

/-! # A logic for programs

`wp L p Q v` says that from the view `v` every effect of `p` meets its obligation and that whatever
`p` ends with satisfies `Q`. A `Logic` says what an effect requires of the view (`pre`) and how it
may change it (`step`). A view is what the logic tracks of the state, as little as a proof needs;
that it is faithful to a machine is said once, in `Effects.Machine`. -/

namespace InterviewScheduler.Effects

variable {F : Type → Type 1} {ε α β γ ν : Type}

/-- What effects require and do, on the views `ν`. -/
structure Logic (F : Type → Type 1) (ε ν : Type) where
  pre : ∀ {β : Type}, F β → ν → Prop
  step : ∀ {β : Type}, F β → ν → Except ε β → ν → Prop

/-- Every effect of `p` meets its obligation, and the end of `p` satisfies `Q`. -/
def wp (L : Logic F ε ν) : Prog F ε α → (Except ε α → ν → Prop) → ν → Prop
  | .ret a, Q, v => Q (.ok a) v
  | .raise e, Q, v => Q (.error e) v
  | .op o k, Q, v => L.pre o v ∧ ∀ r v', L.step o v r v' → wp L (k r) Q v'

/-- The postcondition of the first part of `p >>= f`. -/
def Then (L : Logic F ε ν) (f : α → Prog F ε β) (Q : Except ε β → ν → Prop) :
    Except ε α → ν → Prop
  | .ok a, v => wp L (f a) Q v
  | .error e, v => Q (.error e) v

/-- The logic that knows nothing: everything is allowed, and anything may happen. -/
def Logic.unconstrained : Logic F ε ν where
  pre _ _ := True
  step _ _ _ _ := True

/-- Every program is proved in it. -/
theorem wp_unconstrained (p : Prog F ε α) (v : ν) :
    wp .unconstrained p (fun _ _ => True) v := by
  induction p generalizing v with
  | ret a => trivial
  | raise e => trivial
  | op o k ih => exact ⟨trivial, fun r v' _ => ih r v'⟩

/-- The logic whose steps meet a condition too. -/
def Logic.restrict (L : Logic F ε ν) (K : ∀ β : Type, F β → ν → Except ε β → ν → Prop) :
    Logic F ε ν where
  pre := L.pre
  step o v r v' := L.step o v r v' ∧ K _ o v r v'

/-- What is proved holds in a logic that requires less and has no other steps. -/
theorem wp_weaken {L L' : Logic F ε ν} {p : Prog F ε α} {Q : Except ε α → ν → Prop} {v : ν}
    (hpre : ∀ {β : Type} (o : F β) (v : ν), L.pre o v → L'.pre o v)
    (hstep : ∀ {β : Type} (o : F β) (v : ν) (r : Except ε β) (v' : ν),
      L'.step o v r v' → L.step o v r v')
    (h : wp L p Q v) : wp L' p Q v := by
  induction p generalizing v with
  | ret a => exact h
  | raise e => exact h
  | op o k ih => exact ⟨hpre o v h.1, fun r v' hs => ih r (h.2 r v' (hstep o v r v' hs))⟩

theorem wp_restrict {L : Logic F ε ν} {K : ∀ β : Type, F β → ν → Except ε β → ν → Prop}
    {p : Prog F ε α} {Q : Except ε α → ν → Prop} {v : ν} (h : wp L p Q v) :
    wp (L.restrict K) p Q v := wp_weaken (L := L) (fun _ _ h => h) (fun _ _ _ _ h => h.1) h

/-- A condition that every step meets is no restriction. -/
theorem wp_of_restrict {L : Logic F ε ν} {K : ∀ β : Type, F β → ν → Except ε β → ν → Prop}
    {p : Prog F ε α} {Q : Except ε α → ν → Prop} {v : ν}
    (hK : ∀ {β : Type} (o : F β) (v : ν) (r : Except ε β) (v' : ν), K β o v r v')
    (h : wp (L.restrict K) p Q v) : wp L p Q v :=
  wp_weaken (L := L.restrict K) (fun _ _ h => h) (fun o v r v' hs => ⟨hs, hK o v r v'⟩) h

section Rules

variable {L : Logic F ε ν} {v : ν}

theorem wp_pure {a : α} {Q : Except ε α → ν → Prop} (h : Q (.ok a) v) :
    wp L (pure a) Q v := h

theorem wp_throw {e : ε} {Q : Except ε α → ν → Prop} (h : Q (.error e) v) :
    wp L (throw e) Q v := h

theorem wp_perform {o : F α} {Q : Except ε α → ν → Prop} (hpre : L.pre o v)
    (h : ∀ r v', L.step o v r v' → Q r v') : wp L (.perform o) Q v := by
  refine ⟨hpre, fun r v' hs => ?_⟩
  cases r with
  | ok a => exact h _ _ hs
  | error e => exact h _ _ hs

/-- Sequencing. -/
theorem wp_bind {p : Prog F ε α} {f : α → Prog F ε β} {Q : Except ε β → ν → Prop}
    (h : wp L p (Then L f Q) v) : wp L (p >>= f) Q v := by
  change wp L (p.bind f) Q v
  induction p generalizing v with
  | ret a => exact h
  | raise e => exact h
  | op o k ih => exact ⟨h.1, fun r v' hs => ih r (h.2 r v' hs)⟩

theorem wp_map {p : Prog F ε α} {f : α → β} {Q : Except ε β → ν → Prop}
    (h : wp L p (fun r => Q (r.map f)) v) : wp L (f <$> p) Q v := by
  change wp L (p.bind fun a => .ret (f a)) Q v
  induction p generalizing v with
  | ret a => exact h
  | raise e => exact h
  | op o k ih => exact ⟨h.1, fun r v' hs => ih r (h.2 r v' hs)⟩

/-- A weaker postcondition. -/
theorem wp_mono {p : Prog F ε α} {Q Q' : Except ε α → ν → Prop} (h : wp L p Q v)
    (hQ : ∀ r v', Q r v' → Q' r v') : wp L p Q' v := by
  induction p generalizing v with
  | ret a => exact hQ _ _ h
  | raise e => exact hQ _ _ h
  | op o k ih => exact ⟨h.1, fun r v' hs => ih r (h.2 r v' hs)⟩

theorem wp_attempt {p : Prog F ε α} {Q : Except ε (Except ε α) → ν → Prop}
    (h : wp L p (fun r => Q (.ok r)) v) : wp L p.attempt Q v := by
  induction p generalizing v with
  | ret a => exact h
  | raise e => exact h
  | op o k ih => exact ⟨h.1, fun r v' hs => ih r (h.2 r v' hs)⟩

/-- What follows a program whose exceptions are caught. -/
theorem wp_bind_attempt {p : Prog F ε α} {f : Except ε α → Prog F ε β} {Q : Except ε β → ν → Prop}
    (h : wp L p (fun r => wp L (f r) Q) v) : wp L (p.attempt >>= f) Q v := wp_bind (wp_attempt h)

/-- What a `try` block must leave: its result, or a state in which the handler succeeds. -/
def Caught (L : Logic F ε ν) (h : ε → Prog F ε α) (Q : Except ε α → ν → Prop) :
    Except ε α → ν → Prop
  | .ok a, v => Q (.ok a) v
  | .error e, v => wp L (h e) Q v

theorem wp_tryCatch {p : Prog F ε α} {hd : ε → Prog F ε α} {Q : Except ε α → ν → Prop}
    (h : wp L p (Caught L hd Q) v) : wp L (tryCatch p hd) Q v := by
  change wp L (p.attempt.bind _) Q v
  refine wp_bind (wp_attempt (wp_mono h ?_))
  rintro (e | a) v' h'
  · exact h'
  · exact h'

/-- The cleanup runs after either end, and its own exceptions are dropped. -/
theorem wp_finallyDo {p : Prog F ε α} {f : Prog F ε β} {Q : Except ε α → ν → Prop}
    (h : wp L p (fun r v' => wp L f (fun _ => Q r) v') v) : wp L (p.finallyDo f) Q v := by
  refine wp_bind (wp_attempt (wp_mono h fun r v' h' => wp_bind (wp_attempt ?_)))
  refine wp_mono h' fun _ v'' h'' => ?_
  cases r with
  | ok a => exact h''
  | error e => exact h''

theorem wp_raiseIf {c : Prop} [Decidable c] {e : ε} {Q : Except ε Unit → ν → Prop}
    (herr : c → Q (.error e) v) (hok : ¬ c → Q (.ok ()) v) : wp L (.raiseIf c e) Q v := by
  unfold Prog.raiseIf
  split_ifs with hc
  · exact herr hc
  · exact hok hc

theorem wp_orRaise {x : Option α} {e : ε} {Q : Except ε α → ν → Prop}
    (hnone : x = none → Q (.error e) v) (hsome : ∀ a, x = some a → Q (.ok a) v) :
    wp L (.orRaise x e) Q v := by
  cases x with
  | none => exact hnone rfl
  | some a => exact hsome a rfl

theorem wp_ite {c : Prop} [Decidable c] {p q : Prog F ε α} {Q : Except ε α → ν → Prop}
    (hp : c → wp L p Q v) (hq : ¬ c → wp L q Q v) : wp L (if c then p else q) Q v := by
  split_ifs with hc
  · exact hp hc
  · exact hq hc

/-- Sequencing, when nothing is asked of the end. -/
theorem wp_bind_any {p : Prog F ε α} {f : α → Prog F ε β} (hp : wp L p (fun _ _ => True) v)
    (hf : ∀ a v', wp L (f a) (fun _ _ => True) v') : wp L (p >>= f) (fun _ _ => True) v := by
  refine wp_bind (wp_mono hp ?_)
  rintro (e | a) v' -
  · trivial
  · exact hf a v'

theorem wp_tryCatch_any {p : Prog F ε α} {hd : ε → Prog F ε α} (hp : wp L p (fun _ _ => True) v)
    (hhd : ∀ e v', wp L (hd e) (fun _ _ => True) v') :
    wp L (tryCatch p hd) (fun _ _ => True) v := by
  refine wp_tryCatch (wp_mono hp ?_)
  rintro (e | a) v' -
  · exact hhd e v'
  · trivial

/-- A loop keeps an invariant when every round does; an exception leaves the loop. -/
theorem wp_forEach {f : α → Prog F ε β} {l : List α} {I : ν → Prop} {E : ε → ν → Prop}
    (hround : ∀ a ∈ l, ∀ v, I v → wp L (f a) (fun r v' => match r with
      | .ok _ => I v'
      | .error e => E e v') v) (hv : I v) :
    wp L (.forEach f l) (fun r v' => match r with
      | .ok _ => I v'
      | .error e => E e v') v := by
  induction l generalizing v with
  | nil => exact hv
  | cons a l ih =>
    refine wp_bind (wp_mono (hround a (by simp) v hv) ?_)
    rintro (e | b) v' h'
    · exact h'
    refine wp_bind (wp_mono (ih (fun x hx => hround x (by simp [hx])) h') ?_)
    rintro (e | bs) v'' h''
    · exact h''
    · exact h''

end Rules

end InterviewScheduler.Effects
