import Mathlib.Logic.Relation
import Mathlib.Logic.Function.Basic
import InterviewScheduler.Redis.Keys

/-! # Who owns a lock

The calls of `redis_lock` (`app/core/locks.py`) on one key, each with its own token, against the key in
Redis. A call may be anywhere between its `set` and its release script when another one does a step, and
time may pass between any two steps; a command may be lost on its way, or its reply on the way back.

`lock_ownership`: the script takes out no entry of another call, a `set` that succeeds finds no holder
that has not released before its time to live was over, and a call that raised `LockNotAcquired` takes out
nothing. -/

namespace InterviewScheduler.Redis

/-! ### One call -/

/-- What happens to a command: it is answered, its answer is lost, it does not get there, or the task is
cancelled in the `await`. -/
inductive Link
  | answered
  | lost
  | unreachable
  | cancelled (executed : Bool)
  deriving DecidableEq, Repr

/-- The server executes the command. -/
def Link.executed : Link → Bool
  | answered => true
  | lost => true
  | unreachable => false
  | cancelled executed => executed

/-- What `await redis_client.set(...)` comes to. -/
inductive SetResult
  | ok
  | nil
  | exception
  | cancelled
  deriving DecidableEq, Repr

/-- The reply of the server, `none` for an error reply, as the call gets it. -/
def setResult (l : Link) (reply : Option Bool) : SetResult :=
  match l with
  | .answered =>
    match reply with
    | some true => .ok
    | some false => .nil
    | none => .exception
  | .lost => .exception
  | .unreachable => .exception
  | .cancelled _ => .cancelled

/-- The variable `held` after the `set`: `None` when Redis is down. -/
def held : SetResult → Option Bool
  | .ok => some true
  | .nil => some false
  | .exception => none
  | .cancelled => some false

/-- Where a call is. -/
inductive Phase
  | ready
  | inside (held : Option Bool)
  | raised
  | left
  deriving DecidableEq, Repr

/-- On from the `set`: `if held is False: raise LockNotAcquired(key)`. A cancelled task leaves through the
`finally` with `held = False`. -/
def enter (r : SetResult) : Phase :=
  if r = .cancelled then .left
  else if held r = some false then .raised
  else .inside (held r)

/-- `_RELEASE_LUA`. -/
def releaseLua {τ : Type} [DecidableEq τ] (c : Cell τ) (now : ℤ) (token : τ) : Cell τ :=
  if c.get now = some token then none else c

/-! ### Any number of calls -/

/-- The key, and where the calls are. The last three fields are history: whose `set` made the entry, when
a call was told that it holds the lock, and whether its script has run. -/
structure LockState (ι τ : Type) where
  now : ℤ
  cell : Cell τ
  phase : ι → Phase
  writer : Option ι
  acquired : ι → Option ℤ
  released : ι → Bool

/-- Time passes, a call does its `set`, or leaves its block. -/
inductive LockStep (ι : Type)
  | elapse (d : ℕ)
  | acquire (i : ι) (l : Link)
  | release (i : ι) (l : Link)

/-- The call that does the step. -/
def LockStep.caller {ι : Type} : LockStep ι → Option ι
  | elapse _ => none
  | acquire i _ => some i
  | release i _ => some i

section Calls

variable {ι τ : Type} [DecidableEq ι] [DecidableEq τ] (token : ι → τ) (ttl : ι → ℤ)

namespace LockState

/-- Before the first call. -/
def start (now : ℤ) : LockState ι τ :=
  { now, cell := none, phase := fun _ => .ready, writer := none, acquired := fun _ => none,
    released := fun _ => false }

/-- `SET key token NX EX ttl`, by a call that has drawn its token. -/
def acquire (σ : LockState ι τ) (i : ι) (l : Link) : LockState ι τ :=
  let r := σ.cell.setNxEx σ.now (token i) (ttl i)
  { σ with
    cell := if l.executed then r.2 else σ.cell
    phase := Function.update σ.phase i (enter (setResult l r.1))
    writer := if l.executed ∧ r.1 = some true then some i else σ.writer
    acquired := if setResult l r.1 = .ok then Function.update σ.acquired i (some σ.now) else σ.acquired }

/-- The `finally`, `if held:`, whatever the script or the network raises in it. -/
def release (σ : LockState ι τ) (i : ι) (h : Option Bool) (l : Link) : LockState ι τ :=
  if h = some true ∧ l.executed then
    { σ with
      cell := releaseLua σ.cell σ.now (token i)
      phase := Function.update σ.phase i .left
      released := Function.update σ.released i true }
  else { σ with phase := Function.update σ.phase i .left }

/-- A step, where its call can do it. -/
def step (σ : LockState ι τ) : LockStep ι → Option (LockState ι τ)
  | .elapse d => some { σ with now := σ.now + d }
  | .acquire i l =>
    match σ.phase i with
    | .ready => some (σ.acquire token ttl i l)
    | _ => none
  | .release i l =>
    match σ.phase i with
    | .inside h => some (σ.release token i h l)
    | _ => none

/-- Some steps lead from the one state to the other. -/
def Runs : LockState ι τ → LockState ι τ → Prop :=
  Relation.ReflTransGen fun σ σ' => ∃ x, σ.step token ttl x = some σ'

variable {token ttl} {σ σ' : LockState ι τ} {i j : ι} {l : Link} {h : Option Bool}

theorem step_acquire (hstep : σ.step token ttl (.acquire i l) = some σ') :
    σ.phase i = .ready ∧ σ' = σ.acquire token ttl i l := by
  unfold step at hstep
  dsimp only at hstep
  split at hstep
  · next hphase => exact ⟨hphase, (Option.some.inj hstep).symm⟩
  · cases hstep

theorem step_release (hstep : σ.step token ttl (.release i l) = some σ') :
    ∃ h, σ.phase i = .inside h ∧ σ' = σ.release token i h l := by
  unfold step at hstep
  dsimp only at hstep
  split at hstep
  · next h hphase => exact ⟨h, hphase, (Option.some.inj hstep).symm⟩
  · cases hstep

/-! ### The invariant -/

variable (token ttl) in
/-- A holder that has not released owns the entry until its time to live is over. -/
structure Owned (σ : LockState ι τ) : Prop where
  holder : ∀ i t, σ.acquired i = some t → σ.released i = false →
    σ.cell.live σ.now = some ⟨token i, some (t + 1000 * ttl i)⟩ ∨ t + 1000 * ttl i ≤ σ.now
  written : ∀ e, σ.cell.live σ.now = some e → ∃ j, σ.writer = some j ∧ e.value = token j
  entered : ∀ i t, σ.acquired i = some t → σ.phase i ≠ .ready

omit [DecidableEq ι] [DecidableEq τ] in
theorem owned_start (now : ℤ) : Owned token ttl (start now) := by
  refine ⟨fun i t h => ?_, fun e h => ?_, fun i t h => ?_⟩
  · cases h
  · cases h
  · cases h

theorem setResult_eq_ok {reply : Option Bool} (h : setResult l reply = .ok) :
    l.executed = true ∧ reply = some true := by
  unfold setResult at h
  split at h
  · split at h
    · exact ⟨rfl, rfl⟩
    · cases h
    · cases h
  · cases h
  · cases h
  · cases h

theorem setResult_eq_nil {reply : Option Bool} (h : setResult l reply = .nil) : reply = some false := by
  unfold setResult at h
  split at h
  · split at h
    · cases h
    · rfl
    · cases h
  · cases h
  · cases h
  · cases h

omit [DecidableEq τ] in
/-- A `set` leaves an entry that is there. -/
theorem acquire_live {e : Entry τ} (hlive : σ.cell.live σ.now = some e) :
    (σ.acquire token ttl i l).cell = σ.cell ∧ (σ.acquire token ttl i l).writer = σ.writer := by
  have hsame : (σ.cell.setNxEx σ.now (token i) (ttl i)).2 = σ.cell :=
    Cell.setNxEx_of_live hlive
  have hreply : (σ.cell.setNxEx σ.now (token i) (ttl i)).1 ≠ some true := by
    intro hreply
    rw [(Cell.setNxEx_true hreply).1] at hlive
    cases hlive
  constructor
  · show (if l.executed = true then _ else σ.cell) = σ.cell
    rw [hsame, ite_self]
  · exact if_neg fun hboth => hreply hboth.2

omit [DecidableEq τ] in
/-- A `set` that is told `ok` has made the entry. -/
theorem acquire_ok (hok : setResult l (σ.cell.setNxEx σ.now (token i) (ttl i)).1 = .ok) :
    σ.cell.live σ.now = none ∧ 0 < ttl i ∧
      (σ.acquire token ttl i l).cell = some ⟨token i, some (σ.now + 1000 * ttl i)⟩ ∧
      (σ.acquire token ttl i l).acquired = Function.update σ.acquired i (some σ.now) := by
  obtain ⟨hexec, hreply⟩ := setResult_eq_ok hok
  obtain ⟨hnone, hpos, hcell⟩ := Cell.setNxEx_true hreply
  refine ⟨hnone, hpos, ?_, if_pos hok⟩
  exact (if_pos hexec).trans hcell

omit [DecidableEq τ] in
theorem Owned.acquire (ho : Owned token ttl σ) (hready : σ.phase i = .ready) :
    Owned token ttl (σ.acquire token ttl i l) := by
  constructor
  · intro k t hk hreleased
    by_cases hok : setResult l (σ.cell.setNxEx σ.now (token i) (ttl i)).1 = .ok
    · obtain ⟨hnone, hpos, hcell, hacquired⟩ := acquire_ok hok
      rw [hacquired] at hk
      by_cases hki : k = i
      · subst hki
        rw [Function.update_self] at hk
        obtain rfl := Option.some.inj hk
        refine Or.inl ?_
        rw [hcell]
        exact Cell.live_some (by show σ.now < σ.now + 1000 * ttl k; omega)
      · rw [Function.update_of_ne hki] at hk
        refine (ho.holder k t hk hreleased).imp (fun hlive => ?_) id
        rw [hnone] at hlive
        cases hlive
    · have hk' : σ.acquired k = some t := by
        have hsame : (σ.acquire token ttl i l).acquired = σ.acquired := if_neg hok
        rwa [hsame] at hk
      refine (ho.holder k t hk' hreleased).imp (fun hlive => ?_) id
      rw [(acquire_live hlive).1]
      exact hlive
  · intro e he
    by_cases hwrites : l.executed = true ∧ (σ.cell.setNxEx σ.now (token i) (ttl i)).1 = some true
    · refine ⟨i, if_pos hwrites, ?_⟩
      obtain ⟨-, -, hcell⟩ := Cell.setNxEx_true hwrites.2
      have hcell' : (σ.acquire token ttl i l).cell = some ⟨token i, some (σ.now + 1000 * ttl i)⟩ :=
        (if_pos hwrites.1).trans hcell
      rw [hcell'] at he
      rw [← Option.some.inj (Cell.live_eq_some.mp he).1]
    · have hcell : (σ.acquire token ttl i l).cell = σ.cell := by
        show (if l.executed = true then _ else σ.cell) = σ.cell
        split_ifs with hexec
        · exact Cell.setNxEx_snd fun hreply => hwrites ⟨hexec, hreply⟩
        · rfl
      rw [hcell] at he
      obtain ⟨j, hj, hvalue⟩ := ho.written e he
      exact ⟨j, (if_neg hwrites).trans hj, hvalue⟩
  · intro k t hk
    show Function.update σ.phase i _ k ≠ _
    by_cases hki : k = i
    · subst hki
      rw [Function.update_self]
      unfold enter
      split_ifs <;> simp
    · rw [Function.update_of_ne hki]
      refine ho.entered k t ?_
      have hacq : (σ.acquire token ttl i l).acquired k = σ.acquired k := by
        show (if _ then Function.update σ.acquired i _ else σ.acquired) k = _
        split_ifs
        · exact Function.update_of_ne hki _ _
        · rfl
      rwa [hacq] at hk

/-- The script leaves the entry of another token. -/
theorem releaseLua_of_ne {c : Cell τ} {now : ℤ} {a : τ} {e : Entry τ} (hlive : c.live now = some e)
    (hne : e.value ≠ a) : releaseLua c now a = c := by
  refine if_neg fun hget => hne ?_
  unfold Cell.get at hget
  rw [hlive] at hget
  exact Option.some.inj hget

/-- What is in the key after the script was there before. -/
theorem live_releaseLua {c : Cell τ} {now : ℤ} {a : τ} {e : Entry τ}
    (hlive : (releaseLua c now a).live now = some e) : c.live now = some e := by
  unfold releaseLua at hlive
  split_ifs at hlive
  · cases hlive
  · exact hlive

theorem Owned.release (htoken : Function.Injective token) (ho : Owned token ttl σ)
    (hinside : σ.phase i = .inside h) : Owned token ttl (σ.release token i h l) := by
  have hphase : ∀ k, Function.update σ.phase i .left k = .ready → σ.phase k = .ready := by
    intro k hk
    by_cases hki : k = i
    · subst hki
      rw [Function.update_self] at hk
      cases hk
    · rwa [Function.update_of_ne hki] at hk
  unfold LockState.release
  split_ifs with hruns
  · constructor
    · intro k t hk hreleased
      have hki : k ≠ i := by
        rintro rfl
        have : Function.update σ.released k true k = false := hreleased
        rw [Function.update_self] at this
        cases this
      have hreleased' : σ.released k = false := by
        have : Function.update σ.released i true k = false := hreleased
        rwa [Function.update_of_ne hki] at this
      refine (ho.holder k t hk hreleased').imp (fun hlive => ?_) id
      show (releaseLua σ.cell σ.now (token i)).live σ.now = _
      rw [releaseLua_of_ne hlive fun heq => hki (htoken heq)]
      exact hlive
    · intro e he
      exact ho.written e (live_releaseLua he)
    · intro k t hk hready
      exact ho.entered k t hk (hphase k hready)
  · exact ⟨ho.holder, ho.written, fun k t hk hready => ho.entered k t hk (hphase k hready)⟩

omit [DecidableEq ι] [DecidableEq τ] in
theorem Owned.elapse {d : ℕ} (ho : Owned token ttl σ) :
    Owned token ttl { σ with now := σ.now + d } := by
  have hle : σ.now ≤ σ.now + d := by omega
  constructor
  · intro k t hk hreleased
    rcases ho.holder k t hk hreleased with hlive | hover
    · by_cases hlt : σ.now + d < t + 1000 * ttl k
      · refine Or.inl (Cell.live_eq_some.mpr ⟨(Cell.live_eq_some.mp hlive).1, fun t' ht' => ?_⟩)
        rw [← Option.some.inj ht']
        exact hlt
      · exact Or.inr (not_lt.mp hlt)
    · exact Or.inr (hover.trans hle)
  · intro e he
    exact ho.written e (Cell.live_mono hle he)
  · exact ho.entered

/-- One step keeps the invariant. -/
theorem Owned.step {x : LockStep ι} (htoken : Function.Injective token) (ho : Owned token ttl σ)
    (hstep : σ.step token ttl x = some σ') : Owned token ttl σ' := by
  cases x with
  | elapse d =>
    rw [← Option.some.inj hstep]
    exact ho.elapse
  | acquire i l =>
    obtain ⟨hready, rfl⟩ := step_acquire hstep
    exact ho.acquire hready
  | release i l =>
    obtain ⟨h, hinside, rfl⟩ := step_release hstep
    exact ho.release htoken hinside

/-- So does a run. -/
theorem Owned.runs (htoken : Function.Injective token) (ho : Owned token ttl σ)
    (hruns : Runs token ttl σ σ') : Owned token ttl σ' := by
  induction hruns with
  | refl => exact ho
  | tail _ hstep ih =>
    obtain ⟨x, hx⟩ := hstep
    exact ih.step htoken hx

/-! ### A call that was not let in -/

/-- A call that is past its `set`, and was not told that the lock is held, never will be. -/
theorem not_raised_of_runs (hruns : Runs token ttl σ σ') (hready : σ.phase i ≠ .ready)
    (hraised : σ.phase i ≠ .raised) : σ'.phase i ≠ .ready ∧ σ'.phase i ≠ .raised := by
  induction hruns with
  | refl => exact ⟨hready, hraised⟩
  | @tail ρ ρ' _ hstep ih =>
    obtain ⟨x, hx⟩ := hstep
    cases x with
    | elapse d =>
      rw [← Option.some.inj hx]
      exact ih
    | acquire j l =>
      obtain ⟨hj, rfl⟩ := step_acquire hx
      have hne : i ≠ j := fun heq => ih.1 (heq ▸ hj)
      have hsame : (ρ.acquire token ttl j l).phase i = ρ.phase i := Function.update_of_ne hne _ _
      rw [hsame]
      exact ih
    | release j l =>
      obtain ⟨h, hj, rfl⟩ := step_release hx
      have hsame : (ρ.release token j h l).phase = Function.update ρ.phase j .left := by
        unfold LockState.release
        split_ifs <;> rfl
      rw [hsame]
      by_cases hij : i = j
      · subst hij
        rw [Function.update_self]
        exact ⟨by simp, by simp⟩
      · rw [Function.update_of_ne hij]
        exact ih

omit [DecidableEq τ] in
/-- The step in which `LockNotAcquired` is raised leaves the key alone. -/
theorem acquire_raised (hraised : (σ.acquire token ttl i l).phase i = .raised) :
    (σ.acquire token ttl i l).cell = σ.cell := by
  have hphase : enter (setResult l (σ.cell.setNxEx σ.now (token i) (ttl i)).1) = .raised := by
    have : (σ.acquire token ttl i l).phase i = enter _ := Function.update_self _ _ _
    rwa [this] at hraised
  have hnil : setResult l (σ.cell.setNxEx σ.now (token i) (ttl i)).1 = .nil := by
    revert hphase
    generalize setResult l (σ.cell.setNxEx σ.now (token i) (ttl i)).1 = r
    cases r <;> simp [enter, held]
  have hreply := setResult_eq_nil hnil
  have hsame : (σ.cell.setNxEx σ.now (token i) (ttl i)).2 = σ.cell :=
    Cell.setNxEx_snd (by rw [hreply]; simp)
  show (if l.executed = true then _ else σ.cell) = σ.cell
  rw [hsame, ite_self]

end LockState

open LockState

variable {token ttl}

/-- **Lock ownership.** In any interleaving of the calls, and for each of its steps: the release of a call
leaves an entry that the `set` of another one has made; when a `set` succeeds, each earlier holder has
released or its time to live is over; and no step of a call that at last has raised `LockNotAcquired`
changes the key. -/
theorem lock_ownership (htoken : Function.Injective token) {now : ℤ} {σ σ' : LockState ι τ}
    {x : LockStep ι} (hreach : Runs token ttl (start now) σ) (hstep : σ.step token ttl x = some σ') :
    (∀ i l, x = .release i l → ∀ j, σ.writer = some j → j ≠ i →
      σ'.cell.live σ'.now = σ.cell.live σ.now) ∧
    (∀ j l, x = .acquire j l → σ'.phase j = .inside (some true) →
      ∀ i t, i ≠ j → σ.acquired i = some t → σ.released i = true ∨ t + 1000 * ttl i ≤ σ.now) ∧
    (∀ i σ'', x.caller = some i → Runs token ttl σ' σ'' → σ''.phase i = .raised →
      σ'.cell.live σ'.now = σ.cell.live σ.now) := by
  have ho : Owned token ttl σ := (owned_start now).runs htoken hreach
  refine ⟨?_, ?_, ?_⟩
  · rintro i l rfl j hwriter hji
    obtain ⟨h, -, rfl⟩ := step_release hstep
    unfold LockState.release
    split_ifs with hruns
    · show (releaseLua σ.cell σ.now (token i)).live σ.now = _
      cases hlive : σ.cell.live σ.now with
      | none =>
        cases hafter : (releaseLua σ.cell σ.now (token i)).live σ.now with
        | none => rfl
        | some e =>
          rw [live_releaseLua hafter] at hlive
          cases hlive
      | some e =>
        obtain ⟨k, hk, hvalue⟩ := ho.written e hlive
        obtain rfl : j = k := Option.some.inj (hwriter.symm.trans hk)
        rw [releaseLua_of_ne hlive fun heq => hji (htoken (hvalue.symm.trans heq))]
        exact hlive
    · rfl
  · rintro j l rfl hinside i t hij hacquired
    obtain ⟨-, rfl⟩ := step_acquire hstep
    have hphase : enter (setResult l (σ.cell.setNxEx σ.now (token j) (ttl j)).1) = .inside (some true) := by
      have : (σ.acquire token ttl j l).phase j = enter _ := Function.update_self _ _ _
      rwa [this] at hinside
    have hok : setResult l (σ.cell.setNxEx σ.now (token j) (ttl j)).1 = .ok := by
      revert hphase
      generalize setResult l (σ.cell.setNxEx σ.now (token j) (ttl j)).1 = r
      cases r <;> simp [enter, held]
    cases hreleased : σ.released i with
    | true => exact Or.inl rfl
    | false =>
      refine (ho.holder i t hacquired hreleased).imp (fun hlive => ?_) id
      rw [(acquire_ok hok).1] at hlive
      cases hlive
  · intro i σ'' hcaller hafter hraised
    cases x with
    | elapse d => cases hcaller
    | acquire j l =>
      obtain rfl : j = i := Option.some.inj hcaller
      obtain ⟨-, rfl⟩ := step_acquire hstep
      have hnow : (σ.acquire token ttl j l).phase j = .raised := by
        by_contra hne
        refine (not_raised_of_runs hafter ?_ hne).2 hraised
        show Function.update σ.phase j _ j ≠ _
        rw [Function.update_self]
        unfold enter
        split_ifs <;> simp
      rw [acquire_raised hnow]
      rfl
    | release j l =>
      obtain rfl : j = i := Option.some.inj hcaller
      obtain ⟨h, -, rfl⟩ := step_release hstep
      have hleft : (σ.release token j h l).phase j = .left := by
        unfold LockState.release
        split_ifs
        · exact Function.update_self _ _ _
        · exact Function.update_self _ _ _
      refine absurd hraised (not_raised_of_runs hafter ?_ ?_).2
      · rw [hleft]; simp
      · rw [hleft]; simp

end Calls

/-! ### A slow holder -/

/-- Call `0` has outlived its ten seconds, and call `1` holds the lock. -/
def slowHolder : LockState ℕ ℕ :=
  let first := (LockState.start 0).acquire id (fun _ => 10) 0 .answered
  LockState.acquire id (fun _ => 10) { first with now := first.now + (10000 : ℕ) } 1 .answered

theorem runs_slowHolder : LockState.Runs id (fun _ => 10) (LockState.start 0) slowHolder := by
  refine .tail (.tail (.tail .refl ⟨.acquire 0 .answered, rfl⟩) ⟨.elapse 10000, rfl⟩) ?_
  exact ⟨.acquire 1 .answered, rfl⟩

theorem lock_ownership_slow : (slowHolder.step id (fun _ => 10) (.release 0 .answered)).map
    (fun σ => σ.cell.live σ.now) = some (some ⟨1, some 20000⟩) := by
  have hstep : slowHolder.step id (fun _ => 10) (.release 0 .answered) =
      some (slowHolder.release id 0 (some true) .answered) := rfl
  have h := (lock_ownership Function.injective_id runs_slowHolder hstep).1 0 .answered rfl 1 rfl (by decide)
  rw [hstep]
  exact congrArg some (h.trans rfl)

end InterviewScheduler.Redis
