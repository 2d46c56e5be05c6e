import InterviewScheduler.System.Locks

/-! # Generations at the same time

Any number of callers ask for the recommendations of one request. The lock is for the storing only: a
caller may find the run before it, under it, or while it waits for another caller. As long as locks
hold, one caller stores a run, and every caller that returns a run returns that one. -/

namespace InterviewScheduler.System

open InterviewScheduler.Engine InterviewScheduler.Core InterviewScheduler.Effects
open InterviewScheduler.Lifecycle InterviewScheduler.Interviews
open InterviewScheduler.Booking (of_latestRun mem_runsOf)
open InterviewScheduler.Scheduling (runToResponse Generates Delivered generates_generate)

variable {ι : Type} {pf : Platform} {users : ι → Id} {r : Id} {t₀ : Instant}
  {R₀ : List RecommendationRun} {stale : Option Id} {s s' : Session} {w₀ w w' : World}

/-- The calls of `generate` on a request, one for each user. -/
def generations (users : ι → Id) (r : Id) (i : ι) : Call := .generate (users i) r

/-! ### What a call returns -/

/-- The response of a handler of `generate`. -/
def Answers (r : Id) : Except Exc Response → Session × Interviews → Prop := fun x v =>
  ∃ y : Except Exc Scheduling.RecommendationResponse, x = y.map .recommendations ∧
    ∃ T, Generates False r {} T y v

theorem answers_handle {may : May} {P : Interviews → Id → Prop} {T : Interviews} {userId : Id}
    (hrec : may r .recommended) (hfail : may r .failed) :
    wp (lifecycle False may P) (handle pf (.generate userId r)) (Answers r) ({}, T) := by
  refine wp_route fresh_empty (fun e _ h => ⟨.error e, rfl, T, h.toClosed, .inl rfl⟩)
    fun user s₁ h₁ => wp_map ?_
  refine wp_mono (generates_generate h₁.toCalm (by simp [h₁.copies]) hrec hfail) fun y v hv => ?_
  exact ⟨y, rfl, T, hv.of_journal h₁.journal⟩

theorem proved_generations : Pool.Proved (logicOf (generations users r)) (fun v s => v.1 = s)
    (fun _ => Answers r) (started pf (generations users r) w₀) :=
  fun _ => ⟨({}, w₀.db.toInterviews), rfl, answers_handle ⟨rfl, .inl rfl⟩ ⟨rfl, .inr rfl⟩⟩

/-- The run that a call returns is in its journal, or it has found it on a request that it had read as
one that has a run. -/
theorem Answers.returned {out : Response} {v : Session × Interviews} (h : Answers r (.ok out) v) :
    ∃ run, out = .recommendations (runToResponse run) ∧ (.insertRun run ∈ v.1.trace.journal ∨
      ∃ n st, v.1.trace.ranked = some ⟨r, some run, n, some st⟩ ∧
        (st = .recommended ∨ st = .booked ∨ st = .completed)) := by
  obtain ⟨y, hy, T, hgen⟩ := h
  cases y with
  | error e => simp [Except.map] at hy
  | ok res =>
    obtain rfl : out = .recommendations res := by simpa [Except.map] using hy
    obtain ⟨-, run, rfl, hrun⟩ := hgen
    refine ⟨run, rfl, ?_⟩
    cases hrun with
    | stored hjournal => exact .inl (by rw [hjournal]; simp)
    | found _ h => exact .inr h.ranked

/-! ### One step -/

/-- What a step of a generation does to the request and its runs, and to the record of the call. -/
inductive Settles (r : Id) (s s' : Session) (w w' : World) : Prop
  | idle (hst : w'.status r = w.status r)
      (hruns : runsOf w'.db.toInterviews r = runsOf w.db.toInterviews r)
      (hjournal : ∀ run, .insertRun run ∈ s'.trace.journal → .insertRun run ∈ s.trace.journal)
  | stored {run : RecommendationRun} (hreread : s.Reread (.recommend r) .readyForScheduling)
      (hrun : .insertRun run ∈ s.pending)
      (hst : w.status r = some .readyForScheduling → w'.status r = some .recommended)
      (hruns : runsOf w'.db.toInterviews r = runsOf w.db.toInterviews r ++ [run])
      (hjournal : ∀ run', .insertRun run' ∈ s'.trace.journal →
        .insertRun run' ∈ s.trace.journal ∨ run' = run)
      (hsection : ∀ key st, ¬ s'.Reread key st)
  | failed (hreread : s.Reread (.recommend r) .readyForScheduling)
      (hst : w.status r = some .readyForScheduling → w'.status r = some .failed)
      (hruns : runsOf w'.db.toInterviews r = runsOf w.db.toInterviews r)
      (hjournal : ∀ run, .insertRun run ∈ s'.trace.journal → .insertRun run ∈ s.trace.journal)
      (hsection : ∀ key st, ¬ s'.Reread key st)

/-- What was read in a critical section is out of date after a write. -/
theorem not_reread_of_write {T : Interviews} (h : Transaction s w s' w' T)
    (hp : s.pending ≠ []) (key : LockKey) (st : RequestStatus) : ¬ s'.Reread key st := by
  rintro ⟨cr, hcr, -, hst⟩
  rw [h.trace, Trace.commit, if_neg hp] at hcr
  obtain ⟨cr₀, -, rfl⟩ := Option.map_eq_some_iff.mp hcr
  simp at hst

theorem settles_of_move {userId : Id} {creates : Prop} {β : Type} {o : Effect β}
    {x : Except Exc β} {T : Interviews}
    (hm : Move creates (Commits False (Call.generate userId r).Sets (fun _ _ => True) s T) o x s w
      s' w') : Settles r s s' w w' := by
  rcases hm.written with ⟨hidle, hj⟩ | ⟨-, hC, T', htx⟩
  · exact .idle (hidle.status r) (by rw [hidle.tables]) (by rw [hj]; exact fun _ h => h)
  have hd := hC.disciplined not_false
  have hj : s'.trace.journal = s.trace.journal ++ s.pending := by rw [htx.trace]; rfl
  -- a transaction that writes neither runs nor statuses
  have hidle : (∀ run, .insertRun run ∉ s.pending) → (∀ id, .selectSlot id ∉ s.pending) →
      (∀ st, .setStatus r st ∉ s.pending) → Settles r s s' w w' := by
    intro hins hsel hset
    refine .idle ?_ ?_ fun run hrun => ?_
    · cases hst : w.status r with
      | none => exact htx.status_none hd.not_insertRequest hst
      | some st => exact htx.status_of_not_set hset hst
    · rw [htx.force, runsOf, Write.runs_force hins hsel, runsOf]
    · rw [hj, List.mem_append] at hrun
      exact hrun.resolve_right (hins run)
  cases hd with
  | quiet h => exact hidle (by simp [h]) (by simp [h]) (by simp [h])
  | edit h =>
    exact hidle (fun _ hmem => (h _ hmem).elim) (fun _ hmem => (h _ hmem).elim)
      fun _ hmem => (h _ hmem).elim
  | recomplete h => exact hidle (by simp [h]) (by simp [h]) (by simp [h])
  | @recommend r' run hmay hpending hrun _ hreread =>
    obtain ⟨rfl, -⟩ := hmay
    have hmem : .insertRun run ∈ s.pending := by simp [hpending]
    refine .stored hreread hmem (fun hst => ?_) ?_ (fun run' hrun' => ?_)
      (not_reread_of_write htx (by simp [hpending]))
    · exact htx.status_of_set (by simp [hpending]) (by simp [hpending]) hst
    · rw [htx.force, hpending]
      simp [runsOf, Write.apply, Interviews.modifyRequest, List.filter_append, hrun]
    · rw [hj, hpending, List.mem_append] at hrun'
      exact hrun'.imp_right fun h => by simpa using h
  | @fail r' hmay hpending _ hreread =>
    obtain ⟨rfl, -⟩ := hmay
    refine .failed hreread (fun hst => ?_) ?_ (fun run hrun => ?_)
      (not_reread_of_write htx (by simp [hpending]))
    · exact htx.status_of_set (by simp [hpending]) (by simp [hpending]) hst
    · rw [htx.force, runsOf, Write.runs_force (by simp [hpending]) (by simp [hpending]), runsOf]
    · rw [hj, hpending] at hrun
      simpa using hrun
  | submit hmay => exact absurd hmay.2 (by simp)
  | book hmay => exact absurd hmay.2 (by simp)
  | resume hmay => exact absurd hmay.2 (by simp)
  | release hmay _ _ hrel =>
    obtain ⟨-, hst⟩ := hmay
    rcases hrel with ⟨-, rfl⟩ | ⟨-, -, rfl⟩ <;> simp at hst
  | complete hmay => exact absurd hmay.2 (by simp)

/-! ### The invariant -/

/-- How far the generation is, for calls that began after `t₀`, when the runs of the request were `R₀`. -/
inductive Phase (r : Id) (t₀ : Instant) (R₀ : List RecommendationRun) (w : World) : Prop
  | ready (hst : w.status r = some .readyForScheduling) (hruns : runsOf w.db.toInterviews r = R₀)
  | recommended {run : RecommendationRun} (hst : w.status r = some .recommended)
      (hnew : t₀ < run.generatedAt) (hruns : runsOf w.db.toInterviews r = R₀ ++ [run])
  | failed (hst : w.status r = some .failed) (hruns : runsOf w.db.toInterviews r = R₀)

/-- A status that was read is READY_FOR_SCHEDULING, or the one the request has. -/
def Seen (r : Id) (st : RequestStatus) (w : World) : Prop :=
  st = .readyForScheduling ∨ w.status r = some st

/-- A run that was found on a request that has one is the run that was created. -/
def FoundCreated (r : Id) (R₀ : List RecommendationRun) (rk : Ranking) (w : World) : Prop :=
  rk.requestId = r → ∀ st ∈ rk.read, st = .recommended ∨ st = .booked ∨ st = .completed →
    ∀ run ∈ rk.run, runsOf w.db.toInterviews r = R₀ ++ [run]

/-- A status that was read in a critical section was so before, or is the one of the request. -/
theorem reread_of_move {creates C : Prop} {β : Type} {o : Effect β} {x : Except Exc β}
    (hm : Move creates C o x s w s' w') {key : LockKey} {st : RequestStatus}
    (h : s'.Reread key st) : s.Reread key st ∨ w.status key.requestId = some st := by
  obtain ⟨cr, hcr, hkey, hst⟩ := h
  cases hm.sections with
  | same h _ => exact .inl ⟨cr, h ▸ hcr, hkey, hst⟩
  | hit h _ =>
    rw [h] at hcr
    obtain ⟨cr₀, hcr₀, rfl⟩ := Option.map_eq_some_iff.mp hcr
    exact .inl ⟨cr₀, hcr₀, hkey, hst⟩
  | @read r' row hrow h _ =>
    rw [h] at hcr
    obtain ⟨cr₁, hcr₁, rfl⟩ := Option.map_eq_some_iff.mp hcr
    obtain ⟨cr₀, hcr₀, rfl⟩ := Option.map_eq_some_iff.mp hcr₁
    dsimp only at hkey hst
    split at hst
    · next hr =>
      rw [if_pos hr] at hkey
      obtain rfl : row.status = st := Option.some.inj hst
      rw [← hkey]
      exact .inr (status_eq_some.mpr ⟨row, hr ▸ hrow, rfl⟩)
    · next hr =>
      rw [if_neg hr] at hkey
      exact .inl ⟨cr₀, hcr₀, hkey, hst⟩
  | entered h _ =>
    rw [h] at hcr
    obtain rfl := Option.some.inj hcr
    simp [Session.entry] at hst
  | left h _ => simp [h] at hcr
  | wrote _ h _ =>
    rw [h] at hcr
    obtain ⟨cr₀, -, rfl⟩ := Option.map_eq_some_iff.mp hcr
    simp at hst

theorem inSection_of_reread {key : LockKey} {st : RequestStatus} (h : s.Reread key st) :
    InSection key s := by
  obtain ⟨cr, hcr, hkey, -⟩ := h
  exact ⟨cr, hcr, hkey⟩

structure Generating (r : Id) (t₀ : Instant) (R₀ : List RecommendationRun) (stale : Option Id)
    (loc : ι → Session) (w : World) : Prop where
  holding : Holding (.recommend r) stale loc (w.locks (.recommend r))
  now : t₀ ≤ w.now
  dated : ∀ j, Dated t₀ (loc j)
  phase : Phase r t₀ R₀ w
  reread : ∀ j st, (loc j).Reread (.recommend r) st → w.status r = some st
  seen : ∀ j st n, (loc j).trace.reads r = some ⟨st, n⟩ → Seen r st w
  ranked : ∀ j, ∀ rk ∈ (loc j).trace.ranked, FoundCreated r R₀ rk w
  stored : ∀ j run, .insertRun run ∈ (loc j).trace.journal →
    runsOf w.db.toInterviews r = R₀ ++ [run]

section Steps

variable (hold : ∀ run ∈ R₀, run.generatedAt ≤ t₀)

theorem Phase.runs_of_ready (h : Phase r t₀ R₀ w) (hst : w.status r = some .readyForScheduling) :
    runsOf w.db.toInterviews r = R₀ := by
  cases h with
  | ready _ hruns => exact hruns
  | recommended hst' => rw [hst] at hst'; simp at hst'
  | failed hst' => rw [hst] at hst'; simp at hst'

theorem Phase.settles (h : Phase r t₀ R₀ w) (hs : Settles r s s' w w')
    (hreread : ∀ st, s.Reread (.recommend r) st → w.status r = some st) (hdated : Dated t₀ s) :
    Phase r t₀ R₀ w' := by
  cases hs with
  | idle hst hruns =>
    cases h with
    | ready hst₀ hruns₀ => exact .ready (hst.trans hst₀) (hruns.trans hruns₀)
    | recommended hst₀ hnew hruns₀ => exact .recommended (hst.trans hst₀) hnew (hruns.trans hruns₀)
    | failed hst₀ hruns₀ => exact .failed (hst.trans hst₀) (hruns.trans hruns₀)
  | stored hre hrun hst hruns =>
    have hready := hreread _ hre
    exact .recommended (hst hready) (hdated.runs _ hrun) (by rw [hruns, h.runs_of_ready hready])
  | failed hre hst hruns =>
    have hready := hreread _ hre
    exact .failed (hst hready) (by rw [hruns, h.runs_of_ready hready])

/-- A run that was created stays the only one. -/
theorem Phase.created (h : Phase r t₀ R₀ w) (hs : Settles r s s' w w')
    (hreread : ∀ st, s.Reread (.recommend r) st → w.status r = some st) {run : RecommendationRun}
    (hruns : runsOf w.db.toInterviews r = R₀ ++ [run]) :
    runsOf w'.db.toInterviews r = R₀ ++ [run] := by
  cases hs with
  | idle _ hsame => exact hsame.trans hruns
  | stored hre =>
    have hready := h.runs_of_ready (hreread _ hre)
    rw [hruns] at hready
    simp at hready
  | failed _ _ hsame => exact hsame.trans hruns

theorem Seen.settles {st : RequestStatus} (h : Seen r st w) (hs : Settles r s s' w w')
    (hreread : ∀ st, s.Reread (.recommend r) st → w.status r = some st) : Seen r st w' := by
  -- a status that was read before a write of the request was READY
  have hready : s.Reread (.recommend r) .readyForScheduling → st = .readyForScheduling := by
    intro hre
    rcases h with h | h
    · exact h
    · rw [hreread _ hre] at h
      exact (Option.some.inj h).symm
  cases hs with
  | idle hst => exact h.imp_right hst.trans
  | stored hre => exact .inl (hready hre)
  | failed hre => exact .inl (hready hre)

include hold in
/-- What is found to be the latest run of a request that has one is the run that was created. -/
theorem Phase.found (h : Phase r t₀ R₀ w) {rk : Ranking} {pick : ℕ}
    (hrun : rk.run = latestRun pick w.db.toInterviews rk.requestId)
    (hread : ∀ st ∈ rk.read, rk.requestId = r → Seen r st w) : FoundCreated r R₀ rk w := by
  intro hr st hst hhas run hmem
  have hstatus : w.status r = some st := by
    refine (hread st hst hr).resolve_left ?_
    rcases hhas with rfl | rfl | rfl <;> simp
  rw [hrun, hr] at hmem
  obtain ⟨⟨hstored, htop⟩, hreq⟩ := of_latestRun hmem
  cases h with
  | ready hready =>
    rw [hstatus] at hready
    obtain rfl := Option.some.inj hready
    simp at hhas
  | failed hfailed =>
    rw [hstatus] at hfailed
    obtain rfl := Option.some.inj hfailed
    simp at hhas
  | @recommended run' _ hnew hruns =>
    have hin : run ∈ R₀ ++ [run'] := hruns ▸ mem_runsOf.mpr ⟨hstored, hreq⟩
    have hin' : run' ∈ runsOf w.db.toInterviews r := by simp [hruns]
    obtain ⟨hstored', hreq'⟩ := mem_runsOf.mp hin'
    rcases List.mem_append.mp hin with hin | hin
    · -- the runs of before are older than the one that was created
      have h₁ := htop run' hstored' (hreq'.trans hreq.symm)
      have h₂ := hold run hin
      lia
    · rw [List.mem_singleton.mp hin]
      exact hruns

theorem FoundCreated.mono {rk : Ranking} (h : FoundCreated r R₀ rk w)
    (hkeep : ∀ run, runsOf w.db.toInterviews r = R₀ ++ [run] →
      runsOf w'.db.toInterviews r = R₀ ++ [run]) : FoundCreated r R₀ rk w' :=
  fun hr st hst hhas run hrun => hkeep run (h hr st hst hhas run hrun)

variable [DecidableEq ι]

include hold in
theorem Generating.step {loc : ι → Session} {i : ι} {userId : Id} {β : Type} {o : Effect β}
    {c : Choice} {x : Except Exc β} {T : Interviews} (h : Generating r t₀ R₀ stale loc w)
    (hkept : LockKept (.recommend r) stale β o c (loc i) w)
    (hduty : Duty (∃ r', (Call.generate userId r).Sets r' .booked)
      (Commits False (Call.generate userId r).Sets fun _ _ => True) o (loc i) T)
    (hex : machine.exec o c (loc i) w = some (x, s', w')) :
    Generating r t₀ R₀ stale (Function.update loc i s') w' := by
  have hm := move_of_exec hduty hex
  have hs : Settles r (loc i) s' w w' := settles_of_move hm
  have hlock := locking_of_exec hkept hduty hex
  obtain ⟨hdated, hnow⟩ := (h.dated i).step h.now hduty hex
  have hphase := h.phase.settles hs (h.reread i) (h.dated i)
  have hkeep : ∀ run, runsOf w.db.toInterviews r = R₀ ++ [run] →
      runsOf w'.db.toInterviews r = R₀ ++ [run] := fun run => h.phase.created hs (h.reread i)
  refine ⟨(h.holding.elapse hkept.1).step hlock, hnow, ?_, hphase, ?_, ?_, ?_, ?_⟩
  · exact (Function.forall_update_iff loc fun _ s => Dated t₀ s).mpr ⟨hdated, fun j _ => h.dated j⟩
  · refine (Function.forall_update_iff loc fun _ s => ∀ st, s.Reread (.recommend r) st →
      w'.status r = some st).mpr ⟨fun st hre => ?_, fun j hj st hre => ?_⟩
    · have hst : w.status r = some st := (reread_of_move hm hre).elim (h.reread i st) id
      cases hs with
      | idle hsame => exact hsame.trans hst
      | stored _ _ _ _ _ hsection => exact absurd hre (hsection _ _)
      | failed _ _ _ _ hsection => exact absurd hre (hsection _ _)
    · -- nobody else is in the section of a caller that writes
      have halone : ¬ (loc i).Reread (.recommend r) .readyForScheduling := fun hre' =>
        hj (h.holding.alone j i (inSection_of_reread hre) (inSection_of_reread hre'))
      cases hs with
      | idle hsame => exact hsame.trans (h.reread j st hre)
      | stored hre' => exact absurd hre' halone
      | failed hre' => exact absurd hre' halone
  · exact readings_step hm h.seen (fun st hst => .inr hst) fun st n hseen =>
      hseen.settles hs (h.reread i)
  · refine (Function.forall_update_iff loc fun _ s => ∀ rk ∈ s.trace.ranked,
      FoundCreated r R₀ rk w').mpr ⟨fun rk hrk => ?_, fun j _ rk hrk => (h.ranked j rk hrk).mono hkeep⟩
    rcases hm.ranking hrk with hrk | ⟨pick, hrun, -, hread, -⟩
    · exact (h.ranked i rk hrk).mono hkeep
    · refine (h.phase.found hold hrun fun st hst hr => ?_).mono hkeep
      rw [hread, hr] at hst
      obtain ⟨⟨st', n⟩, hn, rfl⟩ := Option.map_eq_some_iff.mp hst
      exact h.seen i _ n hn
  · refine (Function.forall_update_iff loc fun _ s => ∀ run, .insertRun run ∈ s.trace.journal →
      runsOf w'.db.toInterviews r = R₀ ++ [run]).mpr
      ⟨fun run hrun => ?_, fun j _ run hrun => hkeep run (h.stored j run hrun)⟩
    cases hs with
    | idle _ _ hjournal => exact hkeep run (h.stored i run (hjournal run hrun))
    | failed _ _ _ hjournal => exact hkeep run (h.stored i run (hjournal run hrun))
    | stored hre _ _ hruns hjournal =>
      rcases hjournal run hrun with hrun | rfl
      · exact hkeep run (h.stored i run hrun)
      · rw [hruns, h.phase.runs_of_ready (h.reread i _ hre)]

/-- **Generations at the same time create one run**, and every call that returns a run returns it, when
Redis is up and no lock expires while its holder runs. -/
theorem generates_once (hready : w₀.status r = some .readyForScheduling)
    (hpast : ∀ run ∈ runsOf w₀.db.toInterviews r, run.generatedAt ≤ w₀.now)
    {P : Pool Effect Exc Response Session World ι}
    (h : Pool.Reaches machine (fun _ => LockKept (.recommend r) (w₀.locks (.recommend r)))
      (started pf (generations users r) w₀) P) :
    ∃ created, runsOf P.shared.db.toInterviews r = runsOf w₀.db.toInterviews r ++ created ∧
      created.length ≤ 1 ∧ ∀ i out, P.prog i = .ret out →
        ∃ run ∈ created, out = .recommendations (runToResponse run) := by
  have hstart : Generating r w₀.now (runsOf w₀.db.toInterviews r) (w₀.locks (.recommend r))
      (fun _ : ι => {}) { w₀ with log := [] } :=
    { holding := ⟨by simp, fun j j' hj => by simp [InSection] at hj⟩
      now := le_rfl
      dated := fun _ => dated_empty
      phase := .ready hready rfl
      reread := fun j st hre => by simp [Session.Reread] at hre
      seen := by simp
      ranked := by simp
      stored := by simp }
  have hsound : Pool.Proved (logicOf (generations users r)) (fun v s => v.1 = s) (fun _ => Answers r)
      P ∧ Generating r w₀.now (runsOf w₀.db.toInterviews r) (w₀.locks (.recommend r)) P.loc
        P.shared := by
    refine Pool.sound (fun i => faithful_pool _ _)
      (fun loc i β o c w x s' w' v hI hv hduty hkept hex => ?_) h proved_generations hstart
    obtain ⟨s, T⟩ := v
    obtain rfl : s = loc i := hv
    exact hI.step hpast hkept hduty hex
  obtain ⟨hproved, hI⟩ := hsound
  -- what a call returns is the run that was created
  have hreturn : ∀ i out, P.prog i = .ret out → ∃ run,
      out = .recommendations (runToResponse run) ∧
        runsOf P.shared.db.toInterviews r = runsOf w₀.db.toInterviews r ++ [run] := by
    intro i out hprog
    obtain ⟨v, hv, hwp⟩ := hproved i
    rw [hprog] at hwp
    obtain ⟨run, hout, hrun⟩ := Answers.returned hwp
    rw [hv] at hrun
    refine ⟨run, hout, ?_⟩
    rcases hrun with hrun | ⟨n, st, hranked, hhas⟩
    · exact hI.stored i run hrun
    · exact hI.ranked i _ hranked rfl st rfl hhas run rfl
  cases hI.phase with
  | ready _ hruns =>
    refine ⟨[], by simp [hruns], by simp, fun i out hprog => ?_⟩
    obtain ⟨run, -, hrun⟩ := hreturn i out hprog
    simp [hruns] at hrun
  | failed _ hruns =>
    refine ⟨[], by simp [hruns], by simp, fun i out hprog => ?_⟩
    obtain ⟨run, -, hrun⟩ := hreturn i out hprog
    simp [hruns] at hrun
  | @recommended run _ _ hruns =>
    refine ⟨[run], hruns, by simp, fun i out hprog => ?_⟩
    obtain ⟨run', hout, hrun'⟩ := hreturn i out hprog
    rw [hruns] at hrun'
    exact ⟨run', by simpa using hrun'.symm, hout⟩

end Steps

/-! ### A sample -/

/-- The request 10 after a decline of its first recommendations. -/
def readyWorld : World :=
  { recommendedWorld with
    db := { recommendedWorld.db with
      requests := (googleWorld .readyForScheduling []).db.requests } }

/-- The same as a check. -/
def lockKept (key : LockKey) (β : Type) (_ : Effect β) (c : Choice) (_ : Session) (_ : World) :
    Bool := key ∉ c.expired ∧ c.answer ≠ .fail

theorem lockKept_of_check {key : LockKey} {β : Type} {o : Effect β} {c : Choice} {s : Session}
    {w : World} (h : lockKept key β o c s w) : LockKept key none β o c s w := by
  obtain ⟨hexpired, hup⟩ := of_decide_eq_true h
  exact ⟨fun hmem => absurd hmem hexpired, .inr hup, fun _ _ => nofun⟩

/-- Two administrators ask for the recommendations; the second one waits for the first one's run. -/
theorem generates_once_sample : ∃ P : Pool Effect Exc Response Session World Bool,
    (∀ i, ∃ out, P.prog i = .ret out) ∧
    ∃ created, runsOf P.shared.db.toInterviews 10 = runsOf readyWorld.db.toInterviews 10 ++ created ∧
      created.length ≤ 1 ∧ ∀ i out, P.prog i = .ret out →
        ∃ run ∈ created, out = .recommendations (runToResponse run) := by
  obtain ⟨P, hP, hp⟩ := reaches_of_schedule
    (started samplePlatform (generations (fun _ : Bool => 1) 10) readyWorld)
    (A := fun _ => LockKept (.recommend 10) none) (fun _ _ _ _ _ _ => lockKept_of_check)
    (steps true (answered 2 ++ [pick 12] ++ answered 1) ++
      steps false (answered 2 ++ [pick 13] ++ answered 1) ++
      steps true (answered 6 ++ [pick 40, pick 41, pick 42, pick 43] ++ answered 8) ++
      steps false (answered 4))
    (p := fun P => returned true P && returned false P) (by decide +kernel)
  obtain ⟨htrue, hfalse⟩ := Bool.and_eq_true_iff.mp hp
  refine ⟨P, fun i => ?_, generates_once rfl ?_ hP⟩
  · cases i with
    | true => exact of_returned htrue
    | false => exact of_returned hfalse
  · decide

end InterviewScheduler.System
