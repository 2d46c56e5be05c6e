import Mathlib.Algebra.Group.Nat.Defs
import InterviewScheduler.Engine.Types
import InterviewScheduler.Util.Except

/-! # The bounds of Python's dates and times

A `date` is in the years 1 to 9999, and so is a `datetime`; a `timedelta` is shorter than a billion days.
What leaves the bounds raises an `OverflowError`. -/

namespace InterviewScheduler.Engine

open InterviewScheduler.Util

/-- `date.min`, the first day of the year 1. -/
def dateMin : Date := -719162

/-- `date.max`, the last day of the year 9999. -/
def dateMax : Date := 2932896

def IsDate (d : Date) : Prop := dateMin ≤ d ∧ d ≤ dateMax

/-- A `datetime` in UTC. -/
def IsDatetime (t : Instant) : Prop := days dateMin ≤ t ∧ t < days (dateMax + 1)

def IsTimedelta (δ : ℤ) : Prop := days (-999999999) ≤ δ ∧ δ < days 1000000000

/-- An integer below the largest float, rounded, which can be an operand of a float. -/
def IsFloat (n : ℤ) : Prop := n.natAbs < 2 ^ 1024 - 2 ^ 970

instance : DecidablePred IsDate := fun d => inferInstanceAs (Decidable (dateMin ≤ d ∧ d ≤ dateMax))

instance : DecidablePred IsDatetime := fun t =>
  inferInstanceAs (Decidable (days dateMin ≤ t ∧ t < days (dateMax + 1)))

instance : DecidablePred IsTimedelta := fun δ =>
  inferInstanceAs (Decidable (days (-999999999) ≤ δ ∧ δ < days 1000000000))

instance : DecidablePred IsFloat := fun n =>
  inferInstanceAs (Decidable (n.natAbs < 2 ^ 1024 - 2 ^ 970))

section Checks

variable {p : ℤ → Prop} [DecidablePred p] {x y : ℤ}

/-- The result of an operation, if it is within the bounds. -/
def bounded (p : ℤ → Prop) [DecidablePred p] (x : ℤ) : Except EngineError ℤ :=
  if p x then .ok x else .error .overflowError

theorem bounded_eq_ok : bounded p x = .ok y ↔ p x ∧ x = y := by
  unfold bounded
  split_ifs with h
  · simp [h]
  · simp [h]

theorem bounded_of (h : p x) : bounded p x = .ok x := if_pos h

theorem raisesOnly_bounded : RaisesOnly .overflowError (bounded p x) := by
  intro e h
  unfold bounded at h
  split_ifs at h
  exact (Except.error.inj h).symm

end Checks

def date (d : Date) : Except EngineError Date := bounded IsDate d

def datetime (t : Instant) : Except EngineError Instant := bounded IsDatetime t

def timedelta (δ : ℤ) : Except EngineError ℤ := bounded IsTimedelta δ

end InterviewScheduler.Engine
