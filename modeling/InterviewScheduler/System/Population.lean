import InterviewScheduler.Interviews.Furnishing
import InterviewScheduler.System.Tables

/-! # The system from its first day

At first there is nobody. Users are registered at any time, between any two steps of the calls in
progress, and the calls interleave as they like. Throughout, the tables are fit for the engine, and so is
what the calls are about to commit (`orderly_of_lives`). -/

namespace InterviewScheduler.System

open InterviewScheduler.Engine InterviewScheduler.Core InterviewScheduler.Effects
open InterviewScheduler.Interviews
open InterviewScheduler.Scheduling (engineRejected)

variable {ι : Type} {pf : Platform} {zones : ZoneDatabase} {B : BusyInterval → Prop} {calls : ι → Call}
  {w₀ w w' : World} {s s' : Session}

/-- Nobody is registered, nothing is stored, and the cache is empty. -/
structure Installed (w : World) : Prop extends Initial w where
  users : ∀ u, w.db.users u = none
  cache : ∀ key, w.cache key = none

/-- A user is registered. -/
def registered (user : User) (w : World) : World :=
  { w with db := { w.db with users := Function.update w.db.users user.id (some user) } }

/-- The blocks that Google answers satisfy `B`. -/
def Blocked (B : BusyInterval → Prop) : Condition Effect Choice Session World := fun _ o c _ _ =>
  match o with
  | .freeBusy _ _ _ => ∀ blocks, c.answer = .busy blocks → ∀ b ∈ blocks, B b
  | _ => True

/-- A call takes a step, or a user is registered with a zone that the schema accepts. -/
inductive Stirs [DecidableEq ι] (pf : Platform) (B : BusyInterval → Prop) :
    Pool Effect Exc Response Session World ι → Pool Effect Exc Response Session World ι → Prop
  | call {P P' : Pool Effect Exc Response Session World ι}
      (h : Pool.Step machine (fun _ => Blocked B) P P') : Stirs pf B P P'
  | register {P : Pool Effect Exc Response Session World ι} {user : User}
      (hnew : P.shared.db.users user.id = none) (hzone : Registrable pf.zones user.timezone) :
      Stirs pf B P { P with shared := registered user P.shared }

/-- What can happen from the first day on. -/
abbrev Lives [DecidableEq ι] (pf : Platform) (B : BusyInterval → Prop) :
    Pool Effect Exc Response Session World ι → Pool Effect Exc Response Session World ι → Prop :=
  Relation.ReflTransGen (Stirs pf B)

theorem lives_of_reaches [DecidableEq ι] {P P' : Pool Effect Exc Response Session World ι}
    (h : Pool.Reaches machine (fun _ => Blocked B) P P') : Lives pf B P P' := by
  induction h with
  | refl => exact .refl
  | tail _ hlast ih => exact .tail ih (.call hlast)

/-! ### One step -/

section Steps

variable {β : Type} {o : Effect β} {c : Choice} {x : Except Exc β}

/-- What is in the cache was there before, or is put there. -/
theorem cache_of_exec (h : machine.exec o c s w = some (x, s', w')) {key : FreeBusyKey}
    {blocks : List BusyInterval} (hkey : w'.cache key = some blocks) :
    w.cache key = some blocks ∨ blocks = o.cached := by
  have hold : ∀ {key blocks}, (w.elapse c).cache key = some blocks → w.cache key = some blocks := by
    intro key blocks hc
    change (if key ∈ c.evicted then none else w.cache key) = some blocks at hc
    split_ifs at hc
    exact hc
  change respond o c.answer s (w.elapse c) = _ at h
  cases o with
  | cacheSet key' busy =>
    simp only [respond, outerCall] at h
    split at h
    · simp only [Option.some.injEq, Prod.mk.injEq] at h
      obtain ⟨-, -, rfl⟩ := h
      simp only [Function.update_apply] at hkey
      split_ifs at hkey with heq
      · exact .inr (Option.some.inj hkey).symm
      · exact .inl (hold hkey)
    · simp only [Option.some.injEq, Prod.mk.injEq] at h
      obtain ⟨-, -, rfl⟩ := h
      exact .inl (hold hkey)
    · simp at h
  | _ =>
    simp only [respond, dbCall, outerCall, googleCall] at h
    repeat' split at h
    all_goals simp only [Option.some.injEq, Prod.mk.injEq, reduceCtorEq] at h
    all_goals obtain ⟨-, -, rfl⟩ := h
    all_goals exact .inl (hold hkey)

/-- The answers rely on the tables. -/
theorem tells_of_exec (hT : Furnished zones w.now w.db.toInterviews)
    (h : machine.exec o c s w = some (x, s', w')) : ∀ y, x = .ok y → Tells zones w'.now o y := by
  have hT' : Furnished zones w'.now w.db.toInterviews := hT.later (now_of_exec h).le
  intro y hy
  subst hy
  cases o with
  | now => exact Except.ok.inj (now_of_now h)
  | refresh r =>
    change respond (.refresh r) c.answer s (w.elapse c) = _ at h
    simp only [respond] at h
    rcases dbCall_cases h with ⟨e, -, hx, -, -⟩ | ⟨-, n, h⟩
    · simp at hx
    · split at h
      · next row hrow =>
        simp only [Option.some.injEq, Prod.mk.injEq, Except.ok.injEq] at h
        obtain ⟨rfl, -, -⟩ := h
        exact hT.rows r row hrow
      · simp at h
  | select query =>
    change respond (.select query) c.answer s (w.elapse c) = _ at h
    simp only [respond] at h
    rcases dbCall_cases h with ⟨e, -, hx, -, -⟩ | ⟨-, n, h⟩
    · simp at hx
    · simp only [Option.some.injEq, Prod.mk.injEq, Except.ok.injEq] at h
      obtain ⟨rfl, -, -⟩ := h
      exact ⟨n, w.db, hT', rfl⟩
  | slotWithRun slotId =>
    change respond (.slotWithRun slotId) c.answer s (w.elapse c) = _ at h
    simp only [respond] at h
    rcases dbCall_cases h with ⟨e, -, hx, -, -⟩ | ⟨-, n, h⟩
    · simp at hx
    · simp only [Option.some.injEq, Prod.mk.injEq, Except.ok.injEq] at h
      obtain ⟨rfl, -, -⟩ := h
      rintro ⟨slot, run⟩ hfound
      obtain ⟨hrun, hslot, -⟩ := Booking.of_slotWithRun (T := w.db.toInterviews) hfound
      exact hT.slots run hrun slot hslot
  | _ => trivial

end Steps

/-! ### Throughout -/

/-- The tables are fit, the cache has what Google has answered, and every call in progress keeps it so. -/
structure Orderly (zones : ZoneDatabase) (B : BusyInterval → Prop) (calls : ι → Call)
    (P : Pool Effect Exc Response Session World ι) : Prop where
  tables : Furnished zones P.shared.now P.shared.db.toInterviews
  cache : ∀ key blocks, P.shared.cache key = some blocks → ∀ b ∈ blocks, B b
  pending : ∀ i, ∀ y ∈ (P.loc i).pending, Supplies zones P.shared.now y
  proved : ∀ i, ∃ t ≤ P.shared.now, wp (furnishing zones B) (P.prog i)
    (fun x _ => ∀ u r, calls i = .generate u r → NotRejected zones B x) t

theorem orderly_started (h₀ : Installed w₀) : Orderly pf.zones B calls (started pf calls w₀) where
  tables := by
    have hT : (started pf calls w₀).shared.db.toInterviews = { users := w₀.db.users } := h₀.tables
    rw [hT]
    refine ⟨fun u user hu => ?_, by simp, by simp, by simp, fun e he => by simp at he⟩
    rw [h₀.users u] at hu
    simp at hu
  cache key blocks hkey := by
    change w₀.cache key = some blocks at hkey
    rw [h₀.cache key] at hkey
    simp at hkey
  pending i y hy := by simp [started] at hy
  proved i := ⟨_, le_rfl, furnishing_handle (calls i)⟩

theorem Orderly.call [DecidableEq ι] {P P' : Pool Effect Exc Response Session World ι}
    (hP : Orderly zones B calls P) (h : Pool.Step machine (fun _ => Blocked B) P P') :
    Orderly zones B calls P' := by
  cases h with
  | @op i β o k c x s' w' hprog hc hex =>
    obtain ⟨t, ht, hwp⟩ := hP.proved i
    rw [hprog] at hwp
    obtain ⟨⟨hstaged, hcached⟩, hrest⟩ := hwp
    have hlt : P.shared.now < w'.now := now_of_exec hex
    have hblocks : Blocks B β o c (P.loc i) P.shared := by
      cases o with
      | freeBusy token tmin tmax => exact hc
      | cacheGet key => exact hP.cache key
      | _ => trivial
    refine ⟨?_, fun key blocks hkey => ?_, ?_, fun j => ?_⟩
    · change Furnished zones w'.now w'.db.toInterviews
      rcases respond_cases (w := P.shared.elapse c) hex with ⟨-, -, T, hT, -, rfl⟩ | ⟨-, hdb, -⟩
      · rw [World.commit_toInterviews]
        refine keeps_applyAll (I := Furnished zones _) (W := Supplies zones _)
          (fun T y hT hy _ => hT.apply hy) (hP.tables.later hlt.le) (fun y hy => ?_) hT
        exact (hP.pending i y hy).later hlt.le
      · rw [hdb]
        exact hP.tables.later hlt.le
    · rcases cache_of_exec hex hkey with hold | rfl
      · exact hP.cache key blocks hold
      · exact hcached
    · refine (Function.forall_update_iff P.loc fun _ s => ∀ y ∈ s.pending, Supplies zones w'.now y).mpr
        ⟨fun y hy => ?_, fun j _ y hy => (hP.pending j y hy).later hlt.le⟩
      rcases pending_of_exec hex y hy with hy | hy
      · exact (hP.pending i y hy).later hlt.le
      · exact (hstaged y hy).later (ht.trans hlt.le)
    · change ∃ t ≤ w'.now, wp (furnishing zones B) (Function.update P.prog i (k x) j) _ t
      by_cases hj : j = i
      · subst hj
        rw [Function.update_self]
        exact ⟨w'.now, le_rfl, hrest x w'.now ⟨ht.trans hlt.le, replies_of_exec hblocks hex,
          tells_of_exec hP.tables hex⟩⟩
      · rw [Function.update_of_ne hj]
        obtain ⟨t', ht', hwp'⟩ := hP.proved j
        exact ⟨t', ht'.trans hlt.le, hwp'⟩

theorem Orderly.register {P : Pool Effect Exc Response Session World ι} (hP : Orderly zones B calls P)
    {user : User} (hzone : Registrable zones user.timezone) :
    Orderly zones B calls { P with shared := registered user P.shared } := by
  refine ⟨⟨fun u user' hu => ?_, hP.tables.rows, hP.tables.availability, hP.tables.slots,
    hP.tables.events⟩, hP.cache, hP.pending, hP.proved⟩
  change Function.update P.shared.db.users user.id (some user) u = some user' at hu
  rw [Function.update_apply] at hu
  split_ifs at hu with heq
  · obtain rfl := Option.some.inj hu
    exact hzone
  · exact hP.tables.users u user' hu

/-- **The tables are fit for the engine at any time**, whoever does what and in whatever order. -/
theorem orderly_of_lives [DecidableEq ι] (h₀ : Installed w₀) {P : Pool Effect Exc Response Session World ι}
    (h : Lives pf B (started pf calls w₀) P) : Orderly pf.zones B calls P := by
  induction h with
  | refl => exact orderly_started h₀
  | tail _ hlast ih =>
    cases hlast with
    | call hstep => exact ih.call hstep
    | register _ hzone => exact ih.register hzone

end InterviewScheduler.System
