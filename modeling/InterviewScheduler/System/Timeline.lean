import InterviewScheduler.Booking.Checks
import InterviewScheduler.System.Sequences

/-! # The times of the runs

A run is stored with the time at which its transaction began. In a sequence of operations a transaction
begins after everything before it was committed, so that no two runs have the same time and they are
stored in the order of their times. -/

namespace InterviewScheduler.System

open InterviewScheduler.Engine InterviewScheduler.Core InterviewScheduler.Effects
open InterviewScheduler.Lifecycle InterviewScheduler.Interviews
open InterviewScheduler.Booking (Timely)

variable {pf : Platform} {C : Condition Effect Choice Session World} {admits : Call → World → Prop}
  {P : Interviews → Id → Prop} {T : Interviews} {ws : List Write} {s s' : Session} {w₀ w w' : World}

/-! ### The runs after a transaction -/

/-- The time of the run that a write adds. -/
def addedTime : Write → Option Instant
  | .insertRun run => some run.generatedAt
  | _ => none

/-- The times of the runs are kept, and those of the new runs come last. -/
theorem generatedAt_force (ws : List Write) (T : Interviews) :
    (Write.force ws T).runs.map (·.generatedAt) =
      T.runs.map (·.generatedAt) ++ ws.filterMap addedTime := by
  induction ws generalizing T with
  | nil => simp
  | cons x xs ih =>
    rw [Write.force_cons, ih]
    cases x with
    | insertRun run => simp [Write.apply, addedTime]
    | selectSlot slotId =>
      have hsame : (fun run : RecommendationRun => run.generatedAt) ∘ RecommendationRun.select slotId =
          fun run => run.generatedAt := rfl
      simp [Write.apply, List.filterMap_cons, addedTime, hsame]
    | _ => simp [Write.apply, List.filterMap_cons, addedTime, Interviews.modifyRequest]

/-- A transaction adds one run at most. -/
theorem addedTimes (h : Legal P T ws) :
    ws.filterMap addedTime = [] ∨ ∃ run, .insertRun run ∈ ws ∧
      ws.filterMap addedTime = [run.generatedAt] := by
  cases h with
  | @recommend r row run => exact .inr ⟨run, by simp, by simp [List.filterMap_cons, addedTime]⟩
  | edit hrow hst hws =>
    refine .inl (List.filterMap_eq_nil_iff.mpr fun x hx => ?_)
    have hedit := hws x hx
    cases x with
    | insertRun run => exact hedit.elim
    | _ => rfl
  | @release r row event st =>
    left
    cases event <;> simp [cancelWrites, List.filterMap_cons, addedTime]
  | _ => left; simp [List.filterMap_cons, addedTime]

theorem timely_iff : Timely T ↔ (T.runs.map (·.generatedAt)).Pairwise (· < ·) := by
  rw [Timely, List.pairwise_map]

/-! ### In the middle of a call -/

/-- The runs are stored in the order of their times, all of them before the transaction of the session
began; a run that it adds has the time of the transaction. -/
structure Clocked (s : Session) (w : World) : Prop where
  timely : Timely w.db.toInterviews
  stored : ∀ run ∈ w.db.runs, run.generatedAt ≤ w.now
  began : ∀ t ∈ s.began, t ≤ w.now ∧ ∀ run ∈ w.db.runs, run.generatedAt < t
  pending : ∀ run, .insertRun run ∈ s.pending → s.began = some run.generatedAt

theorem Initial.clocked (h : Initial w) : Clocked {} w := by
  refine ⟨?_, ?_, by simp, by simp⟩
  · rw [h.tables]
    exact List.Pairwise.nil
  · rw [h.tables]
    simp

/-- Between two calls nothing is under way. -/
theorem Clocked.rest (h : Clocked s w) : Clocked {} w := ⟨h.timely, h.stored, by simp, by simp⟩

theorem Clocked.elapse (h : Clocked s w) (c : Choice) : Clocked s (w.elapse c) := by
  have hlt : w.now ≤ (w.elapse c).now := by
    change w.now ≤ w.now + c.elapsed + 1
    lia
  exact ⟨h.timely, fun run hrun => (h.stored run hrun).trans hlt,
    fun t ht => ⟨(h.began t ht).1.trans hlt, (h.began t ht).2⟩, h.pending⟩

/-- A statement begins the transaction, when there is none. -/
theorem Clocked.touch (h : Clocked s w) (hlt : ∀ run ∈ w.db.runs, run.generatedAt < w.now) :
    Clocked (s.touch w) w := by
  refine ⟨h.timely, h.stored, fun t ht => ?_, fun run hrun => ?_⟩
  · obtain rfl := Option.some.inj ht
    cases hb : s.began with
    | none => exact ⟨le_rfl, hlt⟩
    | some t => exact h.began t hb
  · have hb := h.pending run hrun
    change some (s.began.getD w.now) = _
    rw [hb]
    rfl

theorem Clocked.stage (h : Clocked s w) {y : Write} (hy : y.Timed s.began) : Clocked (s.stage y) w := by
  have hnew : ∀ run, .insertRun run ∈ s.pending ++ [y] → s.began = some run.generatedAt := by
    intro run hrun
    rcases List.mem_append.mp hrun with hrun | hrun
    · exact h.pending run hrun
    · obtain rfl := List.mem_singleton.mp hrun
      exact hy
  cases y with
  | setStatus r st =>
    simp only [Session.stage]
    split
    · exact h
    · exact ⟨h.timely, h.stored, h.began, hnew⟩
  | _ => exact ⟨h.timely, h.stored, h.began, hnew⟩

/-- Only what is pending and when the transaction began matters of the session. -/
theorem Clocked.of_eq (h : Clocked s w) (hp : s'.pending = s.pending) (hb : s'.began = s.began)
    (hdb : w'.db = w.db) (hnow : w'.now = w.now) : Clocked s' w' := by
  refine ⟨hdb ▸ h.timely, ?_, ?_, ?_⟩
  · rw [hdb, hnow]
    exact h.stored
  · rw [hdb, hnow, hb]
    exact h.began
  · rw [hp, hb]
    exact h.pending

theorem Clocked.cleared (h : Clocked s w) (hp : s'.pending = [])
    (hb : s'.began = s.began ∨ s'.began = none) (hdb : w'.db = w.db) (hnow : w'.now = w.now) :
    Clocked s' w' := by
  refine ⟨hdb ▸ h.timely, ?_, fun t ht => ?_, by simp [hp]⟩
  · rw [hdb, hnow]
    exact h.stored
  · rw [hdb, hnow]
    rcases hb with hb | hb
    · exact h.began t (hb ▸ ht)
    · rw [hb] at ht
      simp at ht

/-- A commit stores one run at most, with the time of its transaction. -/
theorem Clocked.commit (h : Clocked s w) (hlegal : Legal P w.db.toInterviews s.pending)
    (hT : Write.applyAll s.pending w.db.toInterviews = some T) : Clocked s.committed (w.commit s T) := by
  have htables : (w.commit s T).db.toInterviews = T := w.commit_toInterviews s T
  have htimes := generatedAt_force s.pending w.db.toInterviews
  rw [← Write.applyAll_eq_force hT] at htimes
  have hstored : ∀ t ∈ w.db.runs.map (·.generatedAt), t ≤ w.now := by
    rintro t ht
    obtain ⟨run, hrun, rfl⟩ := List.mem_map.mp ht
    exact h.stored run hrun
  have hall : T.runs.map (·.generatedAt) = w.db.runs.map (·.generatedAt) ∨
      ∃ t, s.began = some t ∧ T.runs.map (·.generatedAt) = w.db.runs.map (·.generatedAt) ++ [t] := by
    rcases addedTimes hlegal with hnone | ⟨run, hrun, hadd⟩
    · exact .inl (by rw [htimes, hnone, List.append_nil])
    · exact .inr ⟨run.generatedAt, h.pending run hrun, by rw [htimes, hadd]⟩
  have htimely := timely_iff.mp h.timely
  refine ⟨?_, fun run hrun => ?_, by simp [Session.committed], by simp [Session.committed]⟩
  · rw [htables, timely_iff]
    rcases hall with hsame | ⟨t, ht, hadd⟩
    · rw [hsame]
      exact htimely
    · rw [hadd, List.pairwise_append]
      refine ⟨htimely, List.pairwise_singleton _ _, fun x hx y hy => ?_⟩
      obtain ⟨run, hrun, rfl⟩ := List.mem_map.mp hx
      obtain rfl := List.mem_singleton.mp hy
      exact (h.began y ht).2 run hrun
  · have hmem : run.generatedAt ∈ T.runs.map (·.generatedAt) :=
      List.mem_map_of_mem (htables ▸ hrun)
    change run.generatedAt ≤ w.now
    rcases hall with hsame | ⟨t, ht, hadd⟩
    · exact hstored _ (hsame ▸ hmem)
    · rw [hadd] at hmem
      rcases List.mem_append.mp hmem with hmem | hmem
      · exact hstored _ hmem
      · rw [List.mem_singleton.mp hmem]
        exact (h.began t ht).1

/-- **Every step keeps the order of the runs.** -/
theorem Clocked.step {creates : Prop} {D : Session → Interviews → Prop} {β : Type} {o : Effect β}
    {c : Choice} {x : Except Exc β} (h : Clocked s w) (hduty : Duty creates D o s w.db.toInterviews)
    (hD : D s w.db.toInterviews → Legal P w.db.toInterviews s.pending)
    (hex : machine.exec o c s w = some (x, s', w')) : Clocked s' w' := by
  have hlt : ∀ run ∈ (w.elapse c).db.runs, run.generatedAt < (w.elapse c).now := by
    intro run hrun
    have hle := h.stored run hrun
    change run.generatedAt < w.now + c.elapsed + 1
    lia
  replace h := h.elapse c
  have htouch := h.touch hlt
  change respond o c.answer s (w.elapse c) = _ at hex
  replace hduty : Duty creates D o s (w.elapse c).db.toInterviews := hduty
  replace hD : D s (w.elapse c).db.toInterviews →
      Legal P (w.elapse c).db.toInterviews s.pending := hD
  generalize w.elapse c = w₁ at hex h htouch hlt hduty hD
  cases o with
  | stage y =>
    simp only [respond, Option.some.injEq, Prod.mk.injEq] at hex
    obtain ⟨-, rfl, rfl⟩ := hex
    exact h.stage hduty
  | commit =>
    simp only [respond] at hex
    rcases dbCall_cases hex with ⟨e, -, -, rfl, rfl⟩ | ⟨-, n, hex⟩
    · exact h.cleared rfl (.inl rfl) rfl rfl
    · split at hex
      · next T hT =>
        simp only [Option.some.injEq, Prod.mk.injEq] at hex
        obtain ⟨-, rfl, rfl⟩ := hex
        exact h.commit (hD hduty) hT
      · simp only [Option.some.injEq, Prod.mk.injEq] at hex
        obtain ⟨-, rfl, rfl⟩ := hex
        exact h.cleared rfl (.inl rfl) rfl rfl
  | _ =>
    simp only [respond, dbCall, outerCall, googleCall] at hex
    repeat' split at hex
    all_goals simp only [Option.some.injEq, Prod.mk.injEq, reduceCtorEq] at hex
    all_goals obtain ⟨-, rfl, rfl⟩ := hex
    all_goals first
      | exact h
      | exact htouch
      | exact htouch.of_eq rfl rfl rfl rfl
      | exact h.of_eq rfl rfl rfl rfl
      | exact h.cleared rfl (.inl rfl) rfl rfl
      | exact h.cleared rfl (.inr rfl) rfl rfl

/-! ### Sequences -/

/-- A call leaves the runs in order, and the tables well formed. -/
theorem Clocked.call (h : Clocked {} w) (hT : WellFormed w.db.toInterviews) {call : Call}
    {x : Except Exc Response} (hr : Runs machine C (handle pf call) {} w x s' w') :
    Clocked {} w' ∧ WellFormed w'.db.toInterviews := by
  have hp : wp (lifecycle True (fun _ _ => True) fun _ _ => True) (handle pf call) Closes
      ({}, w.db.toInterviews) :=
    closes_handle (fun _ _ _ => trivial) (fun h => absurd trivial h) fun _ _ _ _ _ _ => trivial
  obtain ⟨-, hI⟩ := Runs.sound (faithful_alone _ _ C)
    (I := fun s w => Clocked s w ∧ WellFormed w.db.toInterviews)
    (fun o c s w x s' w' v ⟨hI, hT⟩ hv hduty _ hex => by
      subst hv
      refine ⟨hI.step hduty (fun hC => hC.legal trivial hT) hex, ?_⟩
      obtain ⟨ws, hws⟩ : ∃ ws, Write.applyAll ws w.db.toInterviews = some w'.db.toInterviews := by
        rcases respond_cases hex with ⟨-, -, T, hT, -, rfl⟩ | ⟨-, hdb, -⟩
        · exact ⟨s.pending, by rw [World.commit_toInterviews]; exact hT⟩
        · exact ⟨[], by rw [hdb]; rfl⟩
      exact hT.applyAll hws) hr rfl hp ⟨h, hT⟩
  exact ⟨hI.1.rest, hI.2⟩

/-- **The runs are stored in the order of their times**, after every sequence of operations. -/
theorem clocked_of_reaches (h₀ : Initial w₀) (h : Reaches pf C admits w₀ w) :
    Clocked {} w ∧ WellFormed w.db.toInterviews := by
  induction h with
  | init => exact ⟨h₀.clocked, h₀.wellFormed⟩
  | call _ _ hr ih => exact ih.1.call ih.2 hr

end InterviewScheduler.System
