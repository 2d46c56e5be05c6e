import InterviewScheduler.Scheduling.Snapshot
import InterviewScheduler.System.Generation
import InterviewScheduler.System.Tables

/-! # Runs and their snapshots

Whatever else runs at the same time, a run that is stored is one that the engine has computed from the
input of its snapshot, and it stays so: nothing but the selection of a slot changes a run. The snapshot
therefore gives the run again. -/

namespace InterviewScheduler.System

open InterviewScheduler.Engine InterviewScheduler.Core InterviewScheduler.Effects
open InterviewScheduler.Interviews
open InterviewScheduler.Scheduling (Computed Reproduces)

variable {ι : Type} {pf : Platform} {calls : ι → Call} {w₀ : World}

/-- The run was there at the start, or the engine has computed it. -/
def Known (pf : Platform) (R₀ : List RecommendationRun) (run : RecommendationRun) : Prop :=
  (∃ run₀ ∈ R₀, run₀.id = run.id) ∨ Computed pf run

theorem Known.select {R₀ : List RecommendationRun} {run : RecommendationRun} (h : Known pf R₀ run)
    (id : Id) : Known pf R₀ (run.select id) :=
  h.imp_right fun h => h.select id

/-- A write of an operation keeps the runs known. -/
theorem known_apply {R₀ : List RecommendationRun} {T : Interviews} {y : Write}
    (hT : ∀ run ∈ T.runs, Known pf R₀ run) (hy : ∀ run, y = .insertRun run → Computed pf run) :
    ∀ run ∈ (y.apply T).runs, Known pf R₀ run := by
  intro run hrun
  cases y with
  | insertRun row =>
    rcases List.mem_append.mp hrun with hrun | hrun
    · exact hT run hrun
    · rw [List.mem_singleton.mp hrun]
      exact .inr (hy row rfl)
  | selectSlot id =>
    obtain ⟨run₀, hrun₀, rfl⟩ := List.mem_map.mp hrun
    exact (hT run₀ hrun₀).select id
  | _ => exact hT run hrun

variable [DecidableEq ι]

/-- **Snapshots reproduce runs.** However any calls interleave, with failures anywhere: every run that
was stored since has a snapshot on which, decoded, the engine returns the slots of the run. -/
theorem snapshots_reproduce {isoformat : DateTime → String} {fromisoformat : String → Option DateTime}
    (hiso : ∀ t, fromisoformat (isoformat (.aware t)) = some (.aware t))
    {P : Pool Effect Exc Response Session World ι}
    (h : Pool.Reaches machine (fun _ => Any) (started pf calls w₀) P) :
    ∀ run ∈ P.shared.db.runs, (∃ run₀ ∈ w₀.db.runs, run₀.id = run.id) ∨
      Reproduces pf isoformat fromisoformat run := by
  have hknown := keeps_of_reaches (I := fun T => ∀ run ∈ T.runs, Known pf w₀.db.runs run)
    (W := fun y => ∀ run, y = .insertRun run → Computed pf run)
    (fun T y hT hy _ => known_apply hT hy) (fun i y hy run hrun => ?_)
    (fun run hrun => .inl ⟨run, hrun, rfl⟩) h
  · exact fun run hrun => (hknown run hrun).imp_right fun h => h.reproduces hiso
  · subst hrun
    exact (hy : Scheduling.Produced pf run).computed

/-! ### A sample -/

/-- Some instants in ISO format. -/
def isoTable : List (Instant × String) :=
  [(9, "1970-01-01T00:00:00.000009+00:00"), (32400000000, "1970-01-01T09:00:00+00:00"),
    (50400000000, "1970-01-01T14:00:00+00:00")]

/-- The ISO format of the instants in the table; the others are written as so many strokes. -/
def sampleIsoformat : DateTime → String
  | .naive _ => ""
  | .aware t =>
    match isoTable.find? fun x => x.1 = t with
    | some x => x.2
    | none => String.ofList ((if t < 0 then '-' else '+') :: List.replicate t.natAbs '/')

def sampleFromisoformat (s : String) : Option DateTime :=
  match isoTable.find? fun x => x.2 = s with
  | some x => some (.aware x.1)
  | none =>
    match s.toList with
    | '+' :: strokes => some (.aware strokes.length)
    | '-' :: strokes => some (.aware (-strokes.length))
    | _ => none

theorem sampleIsoformat_back (t : Instant) :
    sampleFromisoformat (sampleIsoformat (.aware t)) = some (.aware t) := by
  cases h : isoTable.find? fun x => x.1 = t with
  | some x =>
    have hback : ∀ y ∈ isoTable, sampleFromisoformat y.2 = some (.aware y.1) := by decide +kernel
    have heq := List.find?_some h
    unfold sampleIsoformat
    simp only [h]
    rw [hback x (List.mem_of_find?_eq_some h), of_decide_eq_true heq]
  | none =>
    have hhead : ∀ y ∈ isoTable, y.2.toList.head? = some '1' := by decide +kernel
    unfold sampleIsoformat
    simp only [h]
    have hnot : isoTable.find? (fun x => x.2 =
        String.ofList ((if t < 0 then '-' else '+') :: List.replicate t.natAbs '/')) = none := by
      rw [List.find?_eq_none]
      intro y hy heq
      have hy' := hhead y hy
      rw [of_decide_eq_true heq, String.toList_ofList, List.head?_cons] at hy'
      split_ifs at hy' <;> simp at hy'
    unfold sampleFromisoformat
    simp only [hnot, String.toList_ofList]
    split_ifs with hneg
    · simp only [List.length_replicate, Option.some.injEq, DateTime.aware.injEq]
      lia
    · simp only [List.length_replicate, Option.some.injEq, DateTime.aware.injEq]
      lia

/-- An administrator asks for the recommendations of a request that had some before. -/
theorem snapshots_reproduce_sample : ∃ P : Pool Effect Exc Response Session World Unit,
    P.shared.db.runs.map (·.id) = [20, 40] ∧ ∀ run ∈ P.shared.db.runs,
      (∃ run₀ ∈ readyWorld.db.runs, run₀.id = run.id) ∨
        Reproduces samplePlatform sampleIsoformat sampleFromisoformat run := by
  obtain ⟨P, hP, hp⟩ := reaches_any
    (started samplePlatform (generations (fun _ : Unit => 1) 10) readyWorld)
    (steps () (answered 2 ++ [pick 12] ++ answered 7 ++ [pick 40, pick 41, pick 42, pick 43] ++
      answered 8))
    (p := fun P => P.shared.db.runs.map (·.id) = [20, 40]) (by decide +kernel)
  exact ⟨P, of_decide_eq_true hp, snapshots_reproduce sampleIsoformat_back hP⟩

end InterviewScheduler.System
