import Mathlib.Tactic.TypeStar

/-! # Programs over effects

A program is a tree: it returns, raises, or performs an effect and goes on with what the effect
answers, a value or an exception. The effects are a parameter, and so is what they mean: a machine
(`Effects.Machine`) answers them, one at a time. -/

namespace InterviewScheduler.Effects

/-- A program that performs effects `F`, raises `ε` and returns `α`. -/
inductive Prog (F : Type → Type 1) (ε α : Type) : Type 1
  | ret (a : α)
  | raise (e : ε)
  | op {β : Type} (o : F β) (k : Except ε β → Prog F ε α)

namespace Prog

variable {F : Type → Type 1} {ε α β γ : Type}

/-- Run `p`, then go on with what it returns. -/
def bind (p : Prog F ε α) (f : α → Prog F ε β) : Prog F ε β :=
  match p with
  | ret a => f a
  | raise e => raise e
  | op o k => op o fun r => (k r).bind f

instance : Monad (Prog F ε) where
  pure := ret
  bind := bind

/-- Go on with a value, or raise. -/
def ofExcept : Except ε α → Prog F ε α
  | .ok a => ret a
  | .error e => raise e

/-- One effect. -/
def perform (o : F α) : Prog F ε α := op o ofExcept

/-- Run `p` and return what it ends with, be it an exception. -/
def attempt : Prog F ε α → Prog F ε (Except ε α)
  | ret a => ret (.ok a)
  | raise e => ret (.error e)
  | op o k => op o fun r => (k r).attempt

/-- `try: p  except e: h e`. -/
protected def tryCatch (p : Prog F ε α) (h : ε → Prog F ε α) : Prog F ε α :=
  p.attempt.bind fun
    | .ok a => ret a
    | .error e => h e

instance : MonadExceptOf ε (Prog F ε) where
  throw := raise
  tryCatch := Prog.tryCatch

/-- `try: p  finally: f`, where an exception of `f` is dropped. -/
def finallyDo (p : Prog F ε α) (f : Prog F ε β) : Prog F ε α :=
  p.attempt.bind fun r => f.attempt.bind fun _ => ofExcept r

/-- `if c: raise e`. -/
def raiseIf (c : Prop) [Decidable c] (e : ε) : Prog F ε Unit :=
  if c then raise e else ret ()

/-- The value, or an exception in its absence. -/
def orRaise (x : Option α) (e : ε) : Prog F ε α :=
  match x with
  | some a => ret a
  | none => raise e

/-- `for x in xs: f(x)`, with the results in a list. -/
def forEach (f : α → Prog F ε β) : List α → Prog F ε (List β)
  | [] => ret []
  | x :: xs => (f x).bind fun b => (forEach f xs).bind fun bs => ret (b :: bs)

end Prog

end InterviewScheduler.Effects
