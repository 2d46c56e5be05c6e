import Mathlib.Data.Option.Basic
import Mathlib.Order.Basic
import Mathlib.Algebra.Order.Ring.Int

/-! # Keys that expire

A key of a Redis server: a value and, once it has been given one, the instant from which the key is
gone. Instants are the milliseconds of the server's clock, times to live are given in seconds. -/

namespace InterviewScheduler.Redis

/-- The value of a key. -/
structure Entry (α : Type) where
  value : α
  expiresAt : Option ℤ
  deriving DecidableEq, Repr

/-- A key is there or not. -/
abbrev Cell (α : Type) := Option (Entry α)

variable {α : Type}

/-- The key as a command finds it at `now`: it is gone from `expiresAt` on. -/
def Cell.live (c : Cell α) (now : ℤ) : Cell α :=
  c.filter fun e => e.expiresAt.all fun t => decide (now < t)

namespace Cell

theorem live_eq_some {c : Cell α} {now : ℤ} {e : Entry α} :
    c.live now = some e ↔ c = some e ∧ ∀ t, e.expiresAt = some t → now < t := by
  unfold live
  rw [Option.filter_eq_some_iff]
  cases h : e.expiresAt with
  | none => simp
  | some t => simp

@[simp] theorem live_none (now : ℤ) : Cell.live (none : Cell α) now = none := rfl

theorem live_some {value : α} {t now : ℤ} (h : now < t) :
    Cell.live (some ⟨value, some t⟩) now = some ⟨value, some t⟩ :=
  live_eq_some.mpr ⟨rfl, fun t' ht' => by rw [← Option.some.inj ht']; exact h⟩

/-- A key that is gone does not come back by itself. -/
theorem live_mono {c : Cell α} {now now' : ℤ} {e : Entry α} (hle : now ≤ now')
    (h : c.live now' = some e) : c.live now = some e := by
  obtain ⟨hc, hlt⟩ := live_eq_some.mp h
  exact live_eq_some.mpr ⟨hc, fun t ht => hle.trans_lt (hlt t ht)⟩

/-- A key is gone at an instant only if its time has come. -/
theorem live_eq_none {value : α} {t now : ℤ} (h : Cell.live (some ⟨value, some t⟩) now = none) :
    t ≤ now := by
  by_contra hlt
  rw [live_some (not_le.mp hlt)] at h
  cases h

/-! ### Commands -/

/-- `SET key value NX EX seconds`: an error for a time to live that is not positive, and otherwise
whether the key was set. -/
def setNxEx (c : Cell α) (now : ℤ) (value : α) (seconds : ℤ) : Option Bool × Cell α :=
  if seconds ≤ 0 then (none, c)
  else if (c.live now).isSome then (some false, c)
  else (some true, some ⟨value, some (now + 1000 * seconds)⟩)

/-- `GET key`. -/
def get (c : Cell α) (now : ℤ) : Option α := (c.live now).map (·.value)

/-- `INCR key` keeps the time to live. -/
def incr (c : Cell ℤ) (now : ℤ) : Entry ℤ :=
  match c.live now with
  | none => ⟨1, none⟩
  | some e => ⟨e.value + 1, e.expiresAt⟩

/-- `EXPIRE key seconds` of a key that is there: a time that is not in the future deletes it. -/
def expire (e : Entry α) (now seconds : ℤ) : Cell α :=
  if seconds ≤ 0 then none else some ⟨e.value, some (now + 1000 * seconds)⟩

/-- `TTL key`: in seconds, rounded; `-1` without a time to live, `-2` without a key. -/
def ttl (c : Cell α) (now : ℤ) : ℤ :=
  match c.live now with
  | none => -2
  | some ⟨_, none⟩ => -1
  | some ⟨_, some t⟩ => (t - now + 500) / 1000

/-- A key is set only where there is none. -/
theorem setNxEx_true {c : Cell α} {now seconds : ℤ} {value : α}
    (h : (c.setNxEx now value seconds).1 = some true) :
    c.live now = none ∧ 0 < seconds ∧
      (c.setNxEx now value seconds).2 = some ⟨value, some (now + 1000 * seconds)⟩ := by
  unfold setNxEx at h ⊢
  split_ifs at h ⊢ with hpos hsome
  · cases h
  · exact ⟨Option.not_isSome_iff_eq_none.mp hsome, not_le.mp hpos, rfl⟩

/-- Without that the key is as it was. -/
theorem setNxEx_snd {c : Cell α} {now seconds : ℤ} {value : α}
    (h : (c.setNxEx now value seconds).1 ≠ some true) : (c.setNxEx now value seconds).2 = c := by
  unfold setNxEx at h ⊢
  split_ifs at h ⊢
  · rfl
  · rfl
  · exact absurd rfl h

/-- A key that is there is left alone, whatever the reply. -/
theorem setNxEx_of_live {c : Cell α} {now seconds : ℤ} {value : α} {e : Entry α}
    (h : c.live now = some e) : (c.setNxEx now value seconds).2 = c := by
  refine setNxEx_snd fun hreply => ?_
  rw [(setNxEx_true hreply).1] at h
  cases h

end Cell

end InterviewScheduler.Redis
