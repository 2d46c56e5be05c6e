import InterviewScheduler.Core.Move
import InterviewScheduler.Interviews.ApiSpec

/-! # Sequences of complete operations

Calls of the ten operations that run one after the other, each to its end, whatever the outside world
answers. `Reaches` is the states they lead to. What every transaction of the lifecycle preserves holds
in all of them (`Reaches.keeps`): this is where the handlers and the abstract lifecycle meet. -/

namespace InterviewScheduler.System

open InterviewScheduler.Engine InterviewScheduler.Core InterviewScheduler.Effects
open InterviewScheduler.Lifecycle InterviewScheduler.Interviews

/-- No condition on the steps of a call. -/
def Any : Condition Effect Choice Session World := fun _ _ _ _ _ => True

/-- The states that a sequence of complete calls can reach, when each call is admitted in the state in
which it begins and the steps of its run meet the condition. -/
inductive Reaches (pf : Platform) (C : Condition Effect Choice Session World)
    (admits : Call → World → Prop) (w₀ : World) : World → Prop
  | init : Reaches pf C admits w₀ w₀
  | call {w w' : World} {call : Call} {x : Except Exc Response} {s' : Session}
      (h : Reaches pf C admits w₀ w) (ha : admits call w)
      (hr : Runs machine C (handle pf call) {} w x s' w') : Reaches pf C admits w₀ w'

theorem Reaches.mono {pf : Platform} {C C' : Condition Effect Choice Session World}
    {admits admits' : Call → World → Prop} {w₀ w : World}
    (hC : ∀ {β : Type} (o : Effect β) (c : Choice) (s : Session) (w : World),
      C β o c s w → C' β o c s w)
    (hadmits : ∀ call w, admits call w → admits' call w) (h : Reaches pf C admits w₀ w) :
    Reaches pf C' admits' w₀ w := by
  induction h with
  | init => exact .init
  | call _ ha hr ih => exact .call ih (hadmits _ _ ha) (hr.mono hC)

/-- There are users, but no interview yet. -/
structure Initial (w : World) : Prop where
  user_id : ∀ u user, w.db.users u = some user → user.id = u
  tables : w.db.toInterviews = { users := w.db.users }
  log : w.log = []

theorem Initial.wellFormed {w : World} (h : Initial w) : WellFormed w.db.toInterviews := by
  rw [h.tables]
  exact WellFormed.empty h.user_id

/-- A condition on the declines that pass the checks of the route; other calls are all admitted. -/
def OnDecline (Q : Interviews → Id → Prop) : Call → World → Prop
  | .decline userId r _, w => MayDecline w.db.toInterviews userId r → Q w.db.toInterviews r
  | _, _ => True

variable {pf : Platform} {C : Condition Effect Choice Session World} {admits : Call → World → Prop}
  {P : Interviews → Id → Prop} {w₀ w : World}

/-- What one call preserves. -/
theorem keeps_call {J : Interviews → List StatusChange → Prop}
    (hstep : ∀ ws T T' log, WellFormed T → J T log → Step P T T' →
      Write.applyAll ws T = some T' → J T' (log ++ statusChanges ws T T'))
    {call : Call} {x : Except Exc Response} {s' : Session} {w' : World}
    (hP : ∀ userId r reason, call = .decline userId r reason →
      MayDecline w.db.toInterviews userId r → P w.db.toInterviews r)
    (hr : Runs machine C (handle pf call) {} w x s' w') (hT : WellFormed w.db.toInterviews)
    (hJ : J w.db.toInterviews w.log) :
    WellFormed w'.db.toInterviews ∧ J w'.db.toInterviews w'.log := by
  have hp : wp (lifecycle True (fun _ _ => True) P) (handle pf call) Closes
      ({}, w.db.toInterviews) :=
    closes_handle (fun _ _ _ => trivial) (fun h => absurd trivial h)
      fun userId r reason hcall _ => hP userId r reason hcall
  refine (Runs.sound (faithful_alone _ _ C)
    (I := fun _ w => WellFormed w.db.toInterviews ∧ J w.db.toInterviews w.log)
    (fun o c s w x s' w' v hI hv hduty _ hex => ?_) hr rfl hp ⟨hT, hJ⟩).2
  obtain ⟨hT, hJ⟩ := hI
  subst hv
  have hstill : w'.db = w.db → w'.log = w.log →
      WellFormed w'.db.toInterviews ∧ J w'.db.toInterviews w'.log := fun hdb hlog => by
    rw [hdb, hlog]
    exact ⟨hT, hJ⟩
  cases move_of_exec hduty hex with
  | committed _ hC happ _ hdb hlog _ =>
    have hlegal : Step P w.db.toInterviews _ := ⟨_, hC.legal trivial hT, happ⟩
    rw [hdb, SideWrite.foldl_toInterviews, hlog]
    exact ⟨hT.applyAll happ, hstep _ _ _ _ hT hJ hlegal happ⟩
  | created _ _ _ _ hdb hlog _ => exact hstill hdb hlog
  | deleted _ hdb hlog _ => exact hstill hdb hlog
  | quiet _ hw => exact hstill hw.db hw.log
  | hit _ _ hw => exact hstill hw.db hw.log
  | read _ _ hw => exact hstill hw.db hw.log
  | looked _ _ hw => exact hstill hw.db hw.log
  | found _ _ hw => exact hstill hw.db hw.log
  | ranked _ _ hw => exact hstill hw.db hw.log
  | entered _ hw => exact hstill hw.db hw.log
  | left _ hw => exact hstill hw.db hw.log
  | failed _ _ hw => exact hstill hw.db hw.log

/-- **What every transaction preserves holds after every sequence of operations.** -/
theorem Reaches.keeps {J : Interviews → List StatusChange → Prop} {Q : Interviews → Id → Prop}
    (hstep : ∀ ws T T' log, WellFormed T → J T log → Step Q T T' →
      Write.applyAll ws T = some T' → J T' (log ++ statusChanges ws T T'))
    (h : Reaches pf C (OnDecline Q) w₀ w) (hT : WellFormed w₀.db.toInterviews)
    (hJ : J w₀.db.toInterviews w₀.log) :
    WellFormed w.db.toInterviews ∧ J w.db.toInterviews w.log := by
  induction h with
  | init => exact ⟨hT, hJ⟩
  | call _ ha hr ih =>
    refine keeps_call hstep (fun userId r reason hcall hmay => ?_) hr ih.1 ih.2
    subst hcall
    exact ha hmay

/-! ### Running a sequence -/

/-- The sequence along lists of choices, as long as every call is admitted and every step passes the
check. -/
def runCalls (pf : Platform) (check : ∀ β : Type, Effect β → Choice → Session → World → Bool)
    (passes : Call → World → Bool) : List (Call × List Choice) → World → Option World
  | [], w => some w
  | (call, cs) :: rest, w =>
    if passes call w then
      match machine.run check (handle pf call) cs {} w with
      | some (_, _, w') => runCalls pf check passes rest w'
      | none => none
    else none

theorem Reaches.trans {w₁ : World} (h : Reaches pf C admits w₀ w₁) (h' : Reaches pf C admits w₁ w) :
    Reaches pf C admits w₀ w := by
  induction h' with
  | init => exact h
  | call _ ha hr ih => exact .call ih ha hr

/-- A run that can be computed, with what can be decided of its end. -/
theorem reaches_of_runCalls {check : ∀ β : Type, Effect β → Choice → Session → World → Bool}
    (hcheck : ∀ {β : Type} (o : Effect β) (c : Choice) (s : Session) (w : World),
      check β o c s w → C β o c s w) {passes : Call → World → Bool}
    (hpasses : ∀ call w, passes call w → admits call w) {calls : List (Call × List Choice)}
    {p : World → Bool} (h : (runCalls pf check passes calls w₀).any p) :
    ∃ w, Reaches pf C admits w₀ w ∧ p w := by
  induction calls generalizing w₀ with
  | nil => exact ⟨w₀, .init, by simpa [runCalls] using h⟩
  | cons call rest ih =>
    simp only [runCalls] at h
    split at h
    · next ha =>
      split at h
      · next x s' w₁ hrun =>
        obtain ⟨w', hw', hp⟩ := ih h
        exact ⟨w', (Reaches.call .init (hpasses _ _ ha) ((runs_of_run hrun).mono hcheck)).trans hw',
          hp⟩
      · simp at h
    · simp at h

/-- A run that can be computed, of one call after a sequence. -/
theorem reaches_then {check : ∀ β : Type, Effect β → Choice → Session → World → Bool}
    (hcheck : ∀ {β : Type} (o : Effect β) (c : Choice) (s : Session) (w : World),
      check β o c s w → C β o c s w) {passes : Call → World → Bool}
    (hpasses : ∀ call w, passes call w → admits call w) {calls : List (Call × List Choice)}
    {call : Call} {cs : List Choice} {p : World → Except Exc Response → World → Bool}
    (h : (runCalls pf check passes calls w₀).any fun w =>
      (machine.run check (handle pf call) cs {} w).any fun y => p w y.1 y.2.2) :
    ∃ w x s' w', Reaches pf C admits w₀ w ∧ Runs machine C (handle pf call) {} w x s' w' ∧
      p w x w' := by
  obtain ⟨w, hw, hrun⟩ := reaches_of_runCalls hcheck hpasses h
  obtain ⟨⟨x, s', w'⟩, hx, hp⟩ := (Option.any_eq_true _ _).mp hrun
  exact ⟨w, x, s', w', hw, (runs_of_run hx).mono hcheck, hp⟩

end InterviewScheduler.System
