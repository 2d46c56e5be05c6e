import InterviewScheduler.System.History

/-! # The file of a request

Everything that is stored about a request is its file. A write is in the file of the request that it is
about, so the calls about other requests leave it alone, and the calls about it write in it only for a user
who is entitled to (`file_unchanged`). -/

namespace InterviewScheduler.System

open InterviewScheduler.Engine InterviewScheduler.Core InterviewScheduler.Effects
open InterviewScheduler.Interviews
open InterviewScheduler.Lifecycle (WellFormed)

variable {ι : Type} {pf : Platform} {B : BusyInterval → Prop} {calls : ι → Call} {w w' w₀ : World}
  {T : Interviews} {r : Id}

/-- What is stored about one request. -/
structure File where
  request : Option InterviewRequest
  participants : List InterviewParticipant
  availability : List CandidateAvailability
  runs : List RecommendationRun
  events : List InterviewEvent
  deriving DecidableEq, Repr

def fileOf (T : Interviews) (r : Id) : File where
  request := T.requests r
  participants := T.participants r
  availability := T.availability.filter (·.interviewRequestId = r)
  runs := T.runs.filter (·.interviewRequestId = r)
  events := T.events.filter (·.interviewRequestId = r)

/-! ### Writes -/

/-- An insertion for another request. -/
theorem filter_append_of_ne {α : Type} (key : α → Id) {l : List α} {a : α} (h : key a ≠ r) :
    (l ++ [a]).filter (key · = r) = l.filter (key · = r) := by
  simp [List.filter_append, h]

/-- Rows that keep their request, and that are changed for other requests only. -/
theorem filter_map_of_eq {α : Type} (key : α → Id) (f : α → α) {l : List α}
    (hkey : ∀ a, key (f a) = key a) (h : ∀ a ∈ l, key a = r → f a = a) :
    (l.map f).filter (key · = r) = l.filter (key · = r) := by
  induction l with
  | nil => rfl
  | cons a l ih =>
    have hl := ih fun b hb => h b (List.mem_cons_of_mem _ hb)
    by_cases ha : key a = r
    · have hfix := h a List.mem_cons_self ha
      simp [hfix, ha, hl]
    · have hfa : key (f a) ≠ r := by rwa [hkey]
      simp [hfa, ha, hl]

/-- A run without the slot is not changed by its selection. -/
theorem select_of_not_mem {s : Id} {run : RecommendationRun} (h : ∀ slot ∈ run.slots, slot.id ≠ s) :
    run.select s = run := by
  have hslots : (run.slots.map fun slot => if slot.id = s then { slot with isSelected := true } else slot) =
      run.slots := by
    conv_rhs => rw [← List.map_id run.slots]
    refine List.map_congr_left fun slot hslot => ?_
    rw [if_neg (h slot hslot)]
    rfl
  unfold RecommendationRun.select
  rw [hslots]

/-- **A write about another request is not in the file.** -/
theorem fileOf_apply (hT : WellFormed T) {x : Id} {y : Write} (hy : Concerns T x y) (hne : r ≠ x) :
    fileOf (y.apply T) r = fileOf T r := by
  have hmodify : ∀ f : InterviewRequest → InterviewRequest, fileOf (T.modifyRequest x f) r = fileOf T r := by
    intro f
    have hrow : (T.modifyRequest x f).requests r = T.requests r := by simp [hne]
    unfold fileOf
    rw [hrow]
    rfl
  cases y with
  | insertRequest row ps => exact hy.elim
  | setStatus z st =>
    obtain rfl : z = x := hy
    exact hmodify _
  | setOutcome z o notes =>
    obtain rfl : z = x := hy
    exact hmodify _
  | setDetails z rt d b =>
    obtain rfl : z = x := hy
    exact hmodify _
  | replacePanelists z ids =>
    obtain rfl : z = x := hy
    have hps : ((Write.replacePanelists z ids).apply T).participants r = T.participants r :=
      Function.update_of_ne hne _ _
    unfold fileOf
    rw [hps]
    rfl
  | insertAvailability a =>
    have ha : a.interviewRequestId ≠ r := fun h => hne (h.symm.trans hy)
    exact congrArg (fun l => { fileOf T r with availability := l })
      (filter_append_of_ne CandidateAvailability.interviewRequestId ha)
  | insertRun run =>
    have hrun : run.interviewRequestId ≠ r := fun h => hne (h.symm.trans hy)
    exact congrArg (fun l => { fileOf T r with runs := l })
      (filter_append_of_ne RecommendationRun.interviewRequestId hrun)
  | insertEvent e =>
    have he : e.interviewRequestId ≠ r := fun h => hne (h.symm.trans hy)
    exact congrArg (fun l => { fileOf T r with events := l })
      (filter_append_of_ne InterviewEvent.interviewRequestId he)
  | selectSlot s =>
    obtain ⟨run₀, hrun₀, hx, slot₀, hslot₀, hs⟩ := hy
    have hfix : ∀ run ∈ T.runs, run.interviewRequestId = r → run.select s = run := by
      intro run hrun hr
      refine select_of_not_mem fun slot hslot heq => hne ?_
      -- the slot is of one run only
      obtain ⟨rfl, -⟩ := hT.runs.slot run hrun run₀ hrun₀ slot hslot slot₀ hslot₀ (heq.trans hs.symm)
      exact hr.symm.trans hx
    exact congrArg (fun l => { fileOf T r with runs := l })
      (filter_map_of_eq RecommendationRun.interviewRequestId (RecommendationRun.select s) (fun _ => rfl) hfix)
  | cancelEvent i =>
    obtain ⟨e₀, he₀, hx, hi⟩ := hy
    have hkey : ∀ e : InterviewEvent, (e.cancel i).interviewRequestId = e.interviewRequestId :=
      fun e => (InterviewEvent.of_booking (e.cancel_booking i)).2.1
    have hfix : ∀ e ∈ T.events, e.interviewRequestId = r → e.cancel i = e := by
      intro e he hr
      have hid : e.id ≠ i := by
        intro heq
        obtain rfl := hT.events_nodup e he e₀ he₀ (heq.trans hi.symm)
        exact hne (hr.symm.trans hx)
      unfold InterviewEvent.cancel
      rw [if_neg hid]
    exact congrArg (fun l => { fileOf T r with events := l })
      (filter_map_of_eq InterviewEvent.interviewRequestId (InterviewEvent.cancel i) hkey hfix)

/-- A new request leaves the files of the others alone. -/
theorem fileOf_insertRequest {row : InterviewRequest} {ps : List InterviewParticipant}
    (hne : r ≠ row.id) : fileOf ((Write.insertRequest row ps).apply T) r = fileOf T r := by
  have hrow : ((Write.insertRequest row ps).apply T).requests r = T.requests r := Function.update_of_ne hne _ _
  have hps : ((Write.insertRequest row ps).apply T).participants r = T.participants r :=
    Function.update_of_ne hne _ _
  unfold fileOf
  rw [hrow, hps]
  rfl

/-! ### Calls -/

/-- The request is there, and its file is `file`, or a call about it is by a user who is entitled to it. -/
structure Guarding (pf : Platform) (calls : ι → Call) (r : Id) (file : File) (T : Interviews) : Prop where
  traceable : Traceable pf T
  exists_row : T.requests r ≠ none
  kept : fileOf T r = file ∨ ∃ i, (calls i).about = some r ∧ Entitled T (calls i)

theorem Guarding.apply {file : File} (h : Guarding pf calls r file T) {i : ι} {y : Write}
    (hy : Warranted pf (Guarding pf calls r file) (calls i) T y) (hv : y.violates T = false) :
    Guarding pf calls r file (y.apply T) := by
  have hgrows : Grows T (y.apply T) := grows_apply hv
  obtain ⟨row, hrow⟩ := Option.ne_none_iff_exists'.mp h.exists_row
  have hexists : (y.apply T).requests r ≠ none := by
    obtain ⟨row', hrow', -⟩ := hgrows.requests r row hrow
    rw [hrow']
    simp
  refine ⟨h.traceable.apply hy.supported hv, hexists, ?_⟩
  rcases h.kept with hfile | ⟨j, hj, hentitled⟩
  · rcases hy.concerns with ⟨row₁, ps, rfl⟩ | ⟨x, hx, hconcerns⟩
    · have hfresh : T.requests row₁.id = none := (Write.violates_insertRequest.mp hv).fresh
      have hne : r ≠ row₁.id := by
        rintro rfl
        exact h.exists_row hfresh
      exact .inl ((fileOf_insertRequest hne).trans hfile)
    · by_cases hr : r = x
      · subst hr
        -- the call has met the request, which is there all the time
        have hnamed : (calls i).Named (Guarding pf calls r file) := by
          intro T' r' hT' hr'
          obtain rfl := Option.some.inj (hx.symm.trans hr')
          exact hT'.exists_row
        exact .inr ⟨i, hx, (hy.entitled hnamed).grows hgrows⟩
      · exact .inl ((fileOf_apply h.traceable.wellFormed hconcerns hr).trans hfile)
  · exact .inr ⟨j, hj, hentitled.grows hgrows⟩

theorem Guarding.register {file : File} {user : User} (hnew : w.db.users user.id = none)
    (h : Guarding pf calls r file w.db.toInterviews) :
    Guarding pf calls r file (registered user w).db.toInterviews where
  traceable := Traceable.register hnew h.traceable
  exists_row := h.exists_row
  kept := h.kept.imp_right fun ⟨i, hi, hentitled⟩ => ⟨i, hi, hentitled.grows (grows_register hnew)⟩

/-- **Who may change what is stored about a request.** The calls start when the request is there already,
and interleave as they like, while users are registered. Unless a call about the request is by a user who
is entitled to it (an administrator, the candidate of the request, or for a decline a panelist), its row,
its participants, its submissions, its runs and its interviews are as they were. -/
theorem file_unchanged {κ : Type} [DecidableEq ι] [DecidableEq κ] {earlier : κ → Call} (h₀ : Installed w₀)
    {P₀ : Pool Effect Exc Response Session World κ} (hP₀ : Lives pf B (started pf earlier w₀) P₀)
    (hr : P₀.shared.db.requests r ≠ none) {P : Pool Effect Exc Response Session World ι}
    (hP : Lives pf B (started pf calls P₀.shared) P)
    (hno : ∀ i, (calls i).about = some r → ¬ Entitled P.shared.db.toInterviews (calls i)) :
    fileOf P.shared.db.toInterviews r = fileOf P₀.shared.db.toInterviews r := by
  have hstart : Guarding pf calls r (fileOf P₀.shared.db.toInterviews r) P₀.shared.db.toInterviews :=
    ⟨traceable_of_lives h₀ hP₀, hr, .inl rfl⟩
  have hend : Licit pf (Guarding pf calls r (fileOf P₀.shared.db.toInterviews r)) calls P :=
    licit_of_lives (fun _ hT => hT.traceable) (fun i T y hT hy hv => hT.apply hy hv)
      (fun user w hnew hT => hT.register hnew) hstart hP
  rcases hend.tables.kept with hfile | ⟨i, hi, hentitled⟩
  · exact hfile
  · exact absurd hentitled (hno i hi)

/-- The panelist asks for the interview to be cancelled. -/
def intrusion (_ : ℕ) : Call := .cancel 3 10 none

/-- The call has raised, and its user is no administrator. -/
def refused (P : Pool Effect Exc Response Session World ℕ) : Bool :=
  raised 0 P && (P.shared.db.users 3).all fun user => decide (user.role ≠ .admin)

/-- The panelist is refused, and the file of the request is as it was. -/
theorem file_unchanged_sample : ∃ P₀ P : Pool Effect Exc Response Session World ℕ,
    (∃ e ∈ P₀.shared.db.events, e.interviewRequestId = 10) ∧ (∃ e, P.prog 0 = .raise e) ∧
      fileOf P.shared.db.toInterviews 10 = fileOf P₀.shared.db.toInterviews 10 := by
  obtain ⟨P₀, hP₀, hp⟩ := reaches_of_schedule (registerAll firstUsers bookedPool)
    (A := fun _ => Blocked fun _ => True) (fun _ _ _ _ _ _ => blocked_of_notAsked)
    (steps 0 (sampleCreate 10).2 ++ steps 1 ((sampleSubmit 10 540).2.take 12) ++
      steps 2 ((sampleGenerate 10).2.take 22) ++ steps 3 ((sampleBook 10).2.take 23))
    (p := fun P₀ => (P₀.shared.db.requests 10).isSome &&
      (P₀.shared.db.events.any fun e => decide (e.interviewRequestId = 10)) &&
      (Pool.run machine (fun _ => notAsked) (steps 0 [{}])
        (started samplePlatform intrusion P₀.shared)).any refused)
    (by decide +kernel)
  simp only [Bool.and_eq_true, List.any_eq_true, decide_eq_true_eq] at hp
  obtain ⟨⟨hrow, hbooked⟩, hrun⟩ := hp
  obtain ⟨P, hP, hp⟩ := reaches_of_schedule (started samplePlatform intrusion P₀.shared)
    (A := fun _ => Blocked fun _ => True) (fun _ _ _ _ _ _ => blocked_of_notAsked) (steps 0 [{}]) hrun
  obtain ⟨hraised, hrole⟩ := Bool.and_eq_true_iff.mp hp
  refine ⟨P₀, P, hbooked, of_raised hraised, ?_⟩
  refine file_unchanged installed_emptyWorld
    ((lives_registered installed_emptyWorld).trans (lives_of_reaches hP₀)) ?_ (lives_of_reaches hP) fun i _ => ?_
  · exact Option.isSome_iff_ne_none.mp hrow
  · rintro ⟨user, huser, hadmin⟩
    rw [show P.shared.db.users 3 = some user from huser] at hrole
    exact of_decide_eq_true hrole hadmin

end InterviewScheduler.System
