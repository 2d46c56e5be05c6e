import Mathlib.Algebra.Order.Field.Rat
import Mathlib.Algebra.Order.Ring.Abs
import Mathlib.Data.Rat.Floor

/-! # Floating-point arithmetic

A float is the rational that is its value. Every operation is the exact one, then rounded; the sum of a
list is an operation of its own, since Python adds up floats with a compensation for the rounding. The
results are those of finite floats.

With `Floats.exact` nothing is rounded; `Floats.double` rounds to the nearest of the doubles, to the even
one of two. -/

namespace InterviewScheduler.Engine

/-- How results are rounded, and how a list is added up. -/
structure Floats where
  round : ℚ → ℚ
  sum : List ℚ → ℚ

namespace Floats

/-- Exact rationals. -/
def exact : Floats := ⟨id, List.sum⟩

/-- The nearest integer, of two the even one. -/
def nearest (x : ℚ) : ℤ :=
  let rest := x - ⌊x⌋
  if rest < 1 / 2 ∨ (rest = 1 / 2 ∧ ⌊x⌋ % 2 = 0) then ⌊x⌋ else ⌊x⌋ + 1

/-- The power of two with the integer as exponent. -/
def power (e : ℤ) : ℚ := if 0 ≤ e then (2 ^ e.toNat : ℕ) else 1 / (2 ^ (-e).toNat : ℕ)

/-- The exponent of the last of the 53 binary digits of a number other than 0. -/
def lastDigit (x : ℚ) : ℤ :=
  let e : ℤ := (Nat.log2 x.num.natAbs : ℤ) - Nat.log2 x.den
  let e := if |x| < power e then e - 1 else e
  max (e - 52) (-1074)

/-- The nearest double. -/
def nearestDouble (x : ℚ) : ℚ :=
  if x = 0 then 0 else nearest (x / power (lastDigit x)) * power (lastDigit x)

/-- IEEE doubles. The sum of a list is rounded once, as the compensated sum of a few numbers of the same
sign is. -/
def double : Floats := ⟨nearestDouble, fun xs => nearestDouble xs.sum⟩

variable (fl : Floats) (a b : ℚ)

def add : ℚ := fl.round (a + b)

def sub : ℚ := fl.round (a - b)

def mul : ℚ := fl.round (a * b)

/-- The quotient by a number other than 0. -/
def quot : ℚ := fl.round (a / b)

@[simp] theorem round_exact : exact.round a = a := rfl

@[simp] theorem sum_exact (xs : List ℚ) : exact.sum xs = xs.sum := rfl

@[simp] theorem add_exact : exact.add a b = a + b := rfl

@[simp] theorem sub_exact : exact.sub a b = a - b := rfl

@[simp] theorem mul_exact : exact.mul a b = a * b := rfl

@[simp] theorem quot_exact : exact.quot a b = a / b := rfl

end Floats

end InterviewScheduler.Engine
