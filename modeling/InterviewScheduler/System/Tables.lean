import InterviewScheduler.Interviews.Footprint
import InterviewScheduler.System.Pools

/-! # What every write keeps

A property of the interview tables that every write of the operations keeps, when it breaks no constraint,
holds in every state that calls can reach, however they interleave. -/

namespace InterviewScheduler.System

open InterviewScheduler.Engine InterviewScheduler.Core InterviewScheduler.Effects
open InterviewScheduler.Interviews

variable {ι : Type} {pf : Platform} {calls : ι → Call} {w₀ w w' : World} {s s' : Session}
  {I : Interviews → Prop} {W : Write → Prop}

theorem keeps_applyAll (hI : ∀ T y, I T → W y → y.violates T = false → I (y.apply T)) {ws : List Write}
    {T T' : Interviews} (hT : I T) (hws : ∀ y ∈ ws, W y) (h : Write.applyAll ws T = some T') : I T' := by
  induction ws generalizing T with
  | nil =>
    simp only [Write.applyAll, Option.some.injEq] at h
    exact h ▸ hT
  | cons y ws ih =>
    obtain ⟨hv, h⟩ := Write.applyAll_cons_eq_some.mp h
    exact ih (hI T y hT (hws y List.mem_cons_self) hv) (fun z hz => hws z (List.mem_cons_of_mem _ hz)) h

/-- The tables have the property, and the writes that are pending keep it. -/
structure Keeping (I : Interviews → Prop) (W : Write → Prop) (loc : ι → Session) (w : World) : Prop where
  tables : I w.db.toInterviews
  pending : ∀ i, ∀ y ∈ (loc i).pending, W y

variable [DecidableEq ι]

theorem Keeping.step (hI : ∀ T y, I T → W y → y.violates T = false → I (y.apply T)) {loc : ι → Session}
    {i : ι} {β : Type} {o : Effect β} {c : Choice} {x : Except Exc β} (h : Keeping I W loc w)
    (hW : ∀ y, o.staged = some y → W y) (hex : machine.exec o c (loc i) w = some (x, s', w')) :
    Keeping I W (Function.update loc i s') w' := by
  constructor
  · rcases respond_cases hex with ⟨-, -, T, hT, -, rfl⟩ | ⟨-, hdb, -⟩
    · rw [World.commit_toInterviews]
      exact keeps_applyAll hI h.tables (h.pending i) hT
    · rw [hdb]
      exact h.tables
  · refine (Function.forall_update_iff loc fun _ s => ∀ y ∈ s.pending, W y).mpr
      ⟨fun y hy => ?_, fun j _ => h.pending j⟩
    rcases pending_of_exec hex y hy with hy | hy
    · exact h.pending i y hy
    · exact hW y hy

/-- **What every write keeps holds however the calls interleave.** -/
theorem keeps_of_reaches (hI : ∀ T y, I T → W y → y.violates T = false → I (y.apply T))
    (hW : ∀ i y, (calls i).Writes pf y → W y) (h₀ : I w₀.db.toInterviews)
    {P : Pool Effect Exc Response Session World ι}
    (h : Pool.Reaches machine (fun _ => Any) (started pf calls w₀) P) : I P.shared.db.toInterviews := by
  have hstart : Keeping I W (fun _ : ι => {}) { w₀ with log := [] } :=
    ⟨h₀, fun _ y hy => by simp at hy⟩
  have hreach := (Pool.Reaches.of_uses (E := fun i => Stages pf (calls i)) h
    fun i => stages_handle (calls i)).1
  have hkeeps := Pool.Reaches.keeps (I := Keeping I W) hreach
    (fun loc i β o c w r s' w' hk hC hex => hk.step hI (fun y hy => hW i y (hC.2 y hy)) hex) hstart
  exact hkeeps.tables

end InterviewScheduler.System
