import InterviewScheduler.Scheduling.Alone
import InterviewScheduler.System.Lifecycle

/-! # A generation that raises

`generate` has many exits, and commits on the way what has become of calendar connections. Only one of
its exits is stored: the request whose own evaluation finds no common availability is FAILED, with an
entry in the audit log. Every other exception leaves the tables and the audit log as they were. -/

namespace InterviewScheduler.System

open InterviewScheduler.Engine InterviewScheduler.Core InterviewScheduler.Effects
open InterviewScheduler.Interviews
open InterviewScheduler.Scheduling (Generated Concludes noCommonAvailability engineRejected failureEntry
  generated_handle)

variable {pf : Platform} {w w' : World} {s' : Session} {u r : Id} {e : Exc}

/-- The call evaluates the request itself: it is not a caller that waits for another one. -/
def OwnEvaluation (r : Id) (w : World) : Prop := w.status r = some .readyForScheduling

/-- The request has become FAILED, with one entry in the audit log, and nothing else has changed. -/
structure MarkedFailed (u r : Id) (w w' : World) : Prop where
  before : w.status r = some .readyForScheduling
  tables : w'.db.toInterviews =
    w.db.toInterviews.modifyRequest r fun row => { row with status := .failed }
  runs : w'.db.runs = w.db.runs
  audits : ∃ actor reason, w.db.users u = some actor ∧
    w'.db.audits = w.db.audits ++ [failureEntry actor r reason]

theorem MarkedFailed.after (h : MarkedFailed u r w w') : w'.status r = some .failed := by
  obtain ⟨row, hrow, -⟩ := status_eq_some.mp h.before
  refine status_eq_some.mpr ⟨{ row with status := .failed }, ?_, rfl⟩
  rw [h.tables]
  simp [Interviews.modifyRequest, hrow]

/-- What a generation leaves that has raised. -/
theorem of_concludes {B : BusyInterval → Prop} {actor : User} {t : Instant}
    {x : Except Exc Scheduling.RecommendationResponse} {db : Db}
    (h : Concludes pf B w.db.toInterviews w.db.audits r t actor x db)
    (hx : x = .error e) :
    (e = noCommonAvailability ∧ OwnEvaluation r w ∧
      db.toInterviews = Write.force [.setStatus r .failed] w.db.toInterviews ∧
      ∃ reason, db.audits = w.db.audits ++ [failureEntry actor r reason]) ∨
    (¬ (e = noCommonAvailability ∧ OwnEvaluation r w) ∧
      Unwritten w.db.toInterviews w.db.audits db) := by
  cases h with
  | kept h hothers =>
    refine .inr ⟨fun hown => ?_, h⟩
    have hoth := hothers e hx
    rw [hown.1] at hoth
    exact hoth.1 rfl
  | waited h hrow hst =>
    refine .inr ⟨fun hown => ?_, h⟩
    obtain ⟨row', hrow', hready⟩ := status_eq_some.mp hown.2
    obtain rfl := Option.some.inj (hrow.symm.trans hrow')
    simp [hst] at hready
  | rejected h =>
    refine .inr ⟨fun hown => ?_, h⟩
    rw [← Except.error.inj hx] at hown
    simp [engineRejected, Exc.ofClass] at hown
  | failed hrow hst htables haudits =>
    exact .inl ⟨(Except.error.inj hx).symm, status_eq_some.mpr ⟨_, hrow, hst⟩, htables, _, haudits⟩
  | stored => simp at hx

/-- The call has ended with NO_COMMON_AVAILABILITY. -/
def isFailedEvaluation : Except Exc Response → Bool
  | .error e => decide (e = noCommonAvailability)
  | .ok _ => false

/-- **`generate` is atomic when it raises**, whatever has failed and in whatever state it was called. -/
theorem generate_atomic (hr : Runs machine Any (handle pf (.generate u r)) {} w (.error e) s' w') :
    (e = noCommonAvailability ∧ OwnEvaluation r w → MarkedFailed u r w w') ∧
    (¬ (e = noCommonAvailability ∧ OwnEvaluation r w) →
      w'.db.toInterviews = w.db.toInterviews ∧ w'.db.audits = w.db.audits) := by
  have hend := hr.meets (D := fun _ _ _ _ => True) (generated_handle (B := fun _ => True)
    (fun _ _ _ => trivial) (fun o _ _ _ _ => by cases o <;> simp [Blocks]) w)
  generalize hx : (.error e : Except Exc Response) = x at hend
  cases hend with
  | refused he h =>
    obtain rfl := Except.error.inj hx
    refine ⟨fun hown => ?_, fun _ => h⟩
    rw [hown.1] at he
    exact absurd rfl he.1
  | @concluded actor y db hactor h =>
    have hy : y = .error e := by
      cases y with
      | ok response => simp [Except.map] at hx
      | error e' => exact congrArg _ (Except.error.inj hx).symm
    rcases of_concludes h hy with ⟨he, hown, htables, reason, haudits⟩ | ⟨hnot, hkept⟩
    · refine ⟨fun _ => ⟨hown, htables, ?_, actor, reason, hactor, haudits⟩, fun hnot =>
        absurd ⟨he, hown⟩ hnot⟩
      exact (congrArg Interviews.runs htables).trans rfl
    · exact ⟨fun hown => absurd hown hnot, fun _ => hkept⟩

/-- The recommendations are asked for when all windows have passed. -/
theorem generate_atomic_sample : ∃ w e s' w',
    Reaches samplePlatform Any (fun _ _ => True) sampleWorld w ∧
    Runs machine Any (handle samplePlatform (.generate 1 10)) {} w (.error e) s' w' ∧
    MarkedFailed 1 10 w w' := by
  obtain ⟨w, hw, hp⟩ := reaches_sample [sampleCreate 10, sampleSubmit 10 540]
    (p := fun w => decide (w.status 10 = some .readyForScheduling) &&
      (machine.run (fun _ _ _ _ _ => true) (handle samplePlatform (.generate 1 10))
        ({ elapsed := 60000000000 } :: answered 1 ++ [pick 12] ++ answered 20) {} w).any fun x =>
          isFailedEvaluation x.1) (by decide +kernel)
  simp only [Bool.and_eq_true, decide_eq_true_eq, Option.any_eq_true] at hp
  obtain ⟨hst, ⟨x, s', w'⟩, hrun, hx⟩ := hp
  have hrun' : Runs machine Any (handle samplePlatform (.generate 1 10)) {} w x s' w' :=
    (runs_of_run hrun).mono fun _ _ _ _ _ => trivial
  cases x with
  | ok response => simp [isFailedEvaluation] at hx
  | error e =>
    obtain rfl := of_decide_eq_true hx
    exact ⟨w, _, s', w', hw, hrun', (generate_atomic hrun').1 ⟨rfl, hst⟩⟩

end InterviewScheduler.System
