import InterviewScheduler.System.Unlocked

/-! # The latest run

A booking is for a slot of the run that its call has found to be the latest one of the request. The
lookup is made before the lock and not again under it. As long as no newer run is stored after it, the
slot belongs to the latest run when the booking is committed, whatever other calls do meanwhile. -/

namespace InterviewScheduler.System

open InterviewScheduler.Engine InterviewScheduler.Core InterviewScheduler.Effects
open InterviewScheduler.Lifecycle InterviewScheduler.Interviews
open InterviewScheduler.Booking (of_slotWithRun of_latestRun mem_runsOf)

variable {ι : Type} {pf : Platform} {calls : ι → Call} {r : Id} {w₀ w : World}

/-! ### Bookings among any calls -/

/-- A booking call for the request. -/
inductive Call.Books : Call → Id → Prop
  | book (userId r slotId : Id) : Books (.book userId r slotId) r

instance (call : Call) (r : Id) : Decidable (Call.Books call r) :=
  match call with
  | .book userId r' slotId =>
    if h : r' = r then .isTrue (h ▸ .book userId r' slotId)
    else .isFalse fun hb => by cases hb; exact h rfl
  | .createRequest _ _ | .updateRequest _ _ _ | .submit _ _ _ | .generate _ _ | .decline _ _ _
  | .reschedule _ _ _ | .cancel _ _ _ | .recordOutcome _ _ _ _ | .createNextRound _ _ _ =>
    .isFalse nofun

theorem Call.Books.guarded {call : Call} (h : Call.Books call r) : call.Guarded r := by
  cases h with
  | book userId _ slotId => exact .book userId r slotId

/-- The bookings of the request are proved; the other calls may do anything. -/
def bookingLogic (calls : ι → Call) (r : Id) (i : ι) : Logic Effect Exc (Session × Interviews) :=
  if Call.Books (calls i) r then logicOf calls i else .unconstrained

theorem faithful_bookingLogic (calls : ι → Call) (r : Id) (i : ι) :
    Pool.Faithful machine (bookingLogic calls r i) fun v s => v.1 = s := by
  unfold bookingLogic
  split
  · exact faithful_pool _ _
  · intro β o c s w x s' w' v _ _
    exact ⟨(s', v.2), trivial, rfl⟩

theorem proved_bookingLogic : Pool.Proved (bookingLogic calls r) (fun v s => v.1 = s)
    (fun _ _ _ => True) (started pf calls w₀) := by
  intro i
  refine ⟨({}, w₀.db.toInterviews), rfl, ?_⟩
  unfold bookingLogic
  split
  · next hbook =>
    refine wp_mono (closes_handle (fun _ _ h => h) (fun _ => ⟨r, hbook.guarded⟩) ?_) fun _ _ _ => trivial
    exact fun _ _ _ _ _ _ => trivial
  · exact wp_unconstrained _ _

/-- Whatever a step does, the tables are as before or after a transaction. -/
theorem tables_of_exec {β : Type} {o : Effect β} {c : Choice} {s s' : Session} {w w' : World}
    {x : Except Exc β} (h : machine.exec o c s w = some (x, s', w')) :
    ∃ ws, Write.applyAll ws w.db.toInterviews = some w'.db.toInterviews := by
  rcases respond_cases h with ⟨-, -, T, hT, -, rfl⟩ | ⟨-, hdb, -⟩
  · rw [World.commit_toInterviews]
    exact ⟨s.pending, hT⟩
  · rw [hdb]
    exact ⟨[], rfl⟩

/-! ### What the lookups say -/

/-- The runs of a request, as far as they never change. -/
def keysOf (T : Interviews) (r : Id) : List RunKey :=
  (T.runs.map RecommendationRun.key).filter fun k => k.interviewRequestId = r

theorem keysOf_eq (T : Interviews) (r : Id) :
    keysOf T r = (runsOf T r).map RecommendationRun.key := by
  rw [keysOf, List.filter_map]
  rfl

theorem keysOf_prefix {T T' : Interviews} {ws : List Write} (h : Write.applyAll ws T = some T') :
    keysOf T r <+: keysOf T' r := by
  rw [Write.applyAll_eq_force h]
  exact (Write.keys_force ws T).filter _

/-- A slot that was found in a run is in it. -/
def Located (f : Finding) (T : Interviews) : Prop :=
  ∃ k ∈ T.runs.map RecommendationRun.key, k.id = f.runId ∧ f.slotId ∈ k.slotIds

/-- A run that was found to be the latest is stored, and was the latest among those stored then. -/
def Topped (r : Id) (run : RecommendationRun) (n : ℕ) (T : Interviews) : Prop :=
  run.key ∈ keysOf T r ∧ n ≤ (keysOf T r).length ∧
    ∀ k ∈ (keysOf T r).take n, k.generatedAt ≤ run.generatedAt

theorem located_of_slotWithRun {T : Interviews} {slotId : Id} {slot : RecommendedSlot}
    {run : RecommendationRun} (h : slotWithRun T slotId = some (slot, run)) :
    Located ⟨slot.id, run.id⟩ T := by
  obtain ⟨hrun, hslot, -⟩ := of_slotWithRun h
  exact ⟨run.key, List.mem_map_of_mem hrun, rfl, List.mem_map_of_mem hslot⟩

theorem topped_of_latestRun {T : Interviews} {pick : ℕ} {run : RecommendationRun}
    (h : latestRun pick T r = some run) : Topped r run (runsOf T r).length T := by
  obtain ⟨⟨hrun, htop⟩, hr⟩ := of_latestRun h
  rw [Topped, keysOf_eq, List.length_map]
  refine ⟨List.mem_map_of_mem (mem_runsOf.mpr ⟨hrun, hr⟩), le_rfl, fun k hk => ?_⟩
  obtain ⟨run', hrun', rfl⟩ := List.mem_map.mp (List.mem_of_mem_take hk)
  obtain ⟨hmem, hr'⟩ := mem_runsOf.mp hrun'
  exact htop run' hmem (hr'.trans hr.symm)

section Frame

variable {T T' : Interviews} {ws : List Write}

theorem Located.applyAll {f : Finding} (h : Located f T) (happ : Write.applyAll ws T = some T') :
    Located f T' := by
  obtain ⟨k, hk, hf⟩ := h
  rw [Write.applyAll_eq_force happ]
  exact ⟨k, (Write.keys_force ws T).subset hk, hf⟩

theorem Topped.applyAll {run : RecommendationRun} {n : ℕ} (h : Topped r run n T)
    (happ : Write.applyAll ws T = some T') : Topped r run n T' := by
  obtain ⟨hmem, hn, htop⟩ := h
  obtain ⟨new, hnew⟩ := keysOf_prefix (r := r) happ
  rw [Topped, ← hnew, List.length_append, List.take_append_of_le_length hn]
  exact ⟨List.mem_append_left _ hmem, by omega, htop⟩

end Frame

/-! ### The booked slot -/

/-- The slot that is booked belongs to the latest run of the request. -/
def BooksLatest (r : Id) (s : Session) (w : World) : Prop :=
  ∀ slotId, .selectSlot slotId ∈ s.pending → ∃ run, IsLatest w.db.toInterviews run ∧
    run.interviewRequestId = r ∧ ∃ slot ∈ run.slots, slot.id = slotId

/-- No run of the request was stored since the call has looked up the latest one, but for runs that are
not newer. -/
def NoNewerRun (r : Id) (s : Session) (w : World) : Prop :=
  ∀ rk ∈ s.trace.ranked, rk.requestId = r → ∀ run ∈ rk.run,
    ∀ run' ∈ (runsOf w.db.toInterviews r).drop rk.stored, run'.generatedAt ≤ run.generatedAt

instance (r : Id) (s : Session) (w : World) : Decidable (NoNewerRun r s w) :=
  inferInstanceAs (Decidable (∀ rk ∈ s.trace.ranked, _ → ∀ run ∈ rk.run, _))

/-- A condition on the commits of the bookings. -/
def OnBookings (calls : ι → Call) (r : Id) (p : Session → World → Prop) (i : ι) :
    Condition Effect Choice Session World := fun β o c s w =>
  Call.Books (calls i) r → AtCommit p β o c s w

structure Looked (r : Id) (s : Session) (T : Interviews) : Prop where
  found : ∀ f ∈ s.trace.found, Located f T
  ranked : ∀ rk ∈ s.trace.ranked, rk.requestId = r → ∀ run ∈ rk.run, Topped r run rk.stored T

structure RunsLooked (calls : ι → Call) (r : Id) (loc : ι → Session) (w : World) : Prop where
  wellFormed : WellFormed w.db.toInterviews
  looked : ∀ j, Call.Books (calls j) r → Looked r (loc j) w.db.toInterviews

theorem Looked.applyAll {s : Session} {T T' : Interviews} {ws : List Write} (h : Looked r s T)
    (happ : Write.applyAll ws T = some T') : Looked r s T' where
  found f hf := (h.found f hf).applyAll happ
  ranked rk hrk hr run hrun := (h.ranked rk hrk hr run hrun).applyAll happ

theorem Looked.step {creates C : Prop} {β : Type} {o : Effect β} {x : Except Exc β}
    {s s' : Session} {w' : World} {ws : List Write} (h : Looked r s w.db.toInterviews)
    (hm : Move creates C o x s w s' w')
    (happ : Write.applyAll ws w.db.toInterviews = some w'.db.toInterviews) :
    Looked r s' w'.db.toInterviews := by
  refine Looked.applyAll ⟨fun f hf => ?_, fun rk hrk hr run hrun => ?_⟩ happ
  · rcases hm.finding hf with hold | ⟨slotId, slot, run, hnew, rfl⟩
    · exact h.found f hold
    · exact located_of_slotWithRun hnew
  · rcases hm.ranking hrk with hold | ⟨pick, hlatest, hstored, -⟩
    · exact h.ranked rk hold hr run hrun
    · subst hr
      rw [hstored]
      have hpick : latestRun pick w.db.toInterviews rk.requestId = some run := hlatest.symm.trans hrun
      exact topped_of_latestRun hpick

/-- **The slot of a booking is in the latest run**, when no newer one was stored since. -/
theorem booksLatest {may : May} {s : Session} (hT : WellFormed w.db.toInterviews)
    (hd : Disciplined may s) (hmay : ∀ r' st, may r' st → r' = r)
    (h : Looked r s w.db.toInterviews) (hnew : NoNewerRun r s w) : BooksLatest r s w := by
  intro slotId hmem
  obtain ⟨r', hr', run, n, st, hfound, hranked⟩ := hd.of_selectSlot hmem
  obtain rfl := hmay r' _ hr'
  obtain ⟨k, hk, hid, hslot⟩ := h.found _ hfound
  obtain ⟨hmem', -, htop⟩ := h.ranked _ hranked rfl run rfl
  have hold := hnew _ hranked rfl run rfl
  -- the run that was found to be the latest is the one of the slot
  obtain ⟨run₁, hrun₁, rfl⟩ := List.mem_map.mp hk
  rw [keysOf_eq] at hmem' htop
  obtain ⟨run₂, hrun₂, hkey⟩ := List.mem_map.mp hmem'
  obtain ⟨hrun₂, hr₂⟩ := mem_runsOf.mp hrun₂
  have hid₂ : run₂.id = run.id := congrArg RunKey.id hkey
  have hgen : run₂.generatedAt = run.generatedAt := congrArg RunKey.generatedAt hkey
  obtain rfl := hT.runs.run run₁ hrun₁ run₂ hrun₂ (hid.trans hid₂.symm)
  refine ⟨run₁, ⟨hrun₁, fun run' hrun' hr' => ?_⟩, hr₂, List.mem_map.mp hslot⟩
  rw [hgen]
  have hin : run' ∈ runsOf w.db.toInterviews r' := mem_runsOf.mpr ⟨hrun', hr'.trans hr₂⟩
  rw [← List.take_append_drop n (runsOf w.db.toInterviews r'), List.mem_append] at hin
  rcases hin with hin | hin
  · refine htop run'.key ?_
    rw [← List.map_take]
    exact List.mem_map_of_mem hin
  · exact hold run' hin

/-- **A booked slot belongs to the latest run** in every interleaving of bookings with any calls, in which
no newer run is stored between the lookup of the latest run and the commit of the booking. -/
theorem booksLatest_of_noNewerRun [DecidableEq ι] (hT : WellFormed w₀.db.toInterviews) :
    Pool.Ensures machine (OnBookings calls r (NoNewerRun r)) (OnBookings calls r (BooksLatest r))
      (started pf calls w₀) := by
  refine Pool.ensures (I := RunsLooked calls r) (faithful_bookingLogic calls r)
    (fun loc i β o c w x s' w' v hI hv hduty hA hex => ?_)
    (fun loc i β o c w v hI hv hduty hA hbook ho => ?_) proved_bookingLogic ?_
  · obtain ⟨ws, happ⟩ := tables_of_exec hex
    refine ⟨hI.wellFormed.applyAll happ, fun j hj => ?_⟩
    by_cases hji : j = i
    · subst hji
      obtain ⟨s, T⟩ := v
      obtain rfl : s = loc j := hv
      rw [Function.update_self]
      rw [bookingLogic, if_pos hj] at hduty
      exact (hI.looked j hj).step (move_of_exec hduty hex) happ
    · rw [Function.update_of_ne hji]
      exact (hI.looked j hj).applyAll happ
  · obtain ⟨s, T⟩ := v
    obtain rfl : s = loc i := hv
    rw [bookingLogic, if_pos hbook] at hduty
    cases o with
    | commit =>
      have hC : Commits False (calls i).Sets (fun _ _ => True) (loc i) T := hduty
      refine booksLatest hI.wellFormed (hC.disciplined not_false) (fun r' st h => ?_)
        (hI.looked i hbook) (hA hbook trivial)
      cases hcall : calls i with
      | book userId r₁ slotId =>
        rw [hcall] at h hbook
        cases hbook
        exact h.1
      | _ =>
        rw [hcall] at hbook
        cases hbook
    | _ => exact ho.elim
  · exact ⟨hT, fun j _ => ⟨by simp [started], by simp [started]⟩⟩

/-! ### A sample -/

/-- A booking of the first slot, a decline, and new recommendations. -/
def bookAmong : ℕ → Call
  | 0 => .book 1 10 21
  | 1 => .decline 3 10 none
  | _ => .generate 1 10

/-- The next step is the commit of a booking of the slot 21. -/
def BooksSlot (s : Session) : Prop := .selectSlot 21 ∈ s.pending

instance (s : Session) : Decidable (BooksSlot s) := inferInstanceAs (Decidable (_ ∈ _))

/-- The slot is booked while new recommendations are refused. -/
theorem booksLatest_of_noNewerRun_sample : ∃ P : Pool Effect Exc Response Session World ℕ,
    Pool.Reaches machine (OnBookings bookAmong 10 (NoNewerRun 10))
      (started samplePlatform bookAmong recommendedWorld) P ∧ commitsNext 0 (fun s _ => BooksSlot s) P ∧
    Pool.Ensures machine (OnBookings bookAmong 10 (NoNewerRun 10))
      (OnBookings bookAmong 10 (BooksLatest 10)) (started samplePlatform bookAmong recommendedWorld) := by
  obtain ⟨P, hP, hp⟩ := reaches_of_schedule (started samplePlatform bookAmong recommendedWorld)
    (A := OnBookings bookAmong 10 (NoNewerRun 10)) (fun _ _ _ _ _ _ h _ => atCommit_of_check h)
    (steps 0 (answered 4) ++ steps 2 (answered 3) ++ steps 0 ([pick 7] ++ answered 5 ++
      [pick 30, pick 31] ++ answered 6))
    (p := commitsNext 0 fun s _ => BooksSlot s) (by decide +kernel)
  exact ⟨P, hP, hp, booksLatest_of_noNewerRun wellFormed_recommendedWorld⟩

/-- **A slot of an old run is booked.** The booking has found its run to be the latest one; the request is
declined and gets new recommendations; under its lock the booking finds it RECOMMENDED. -/
theorem book_takes_old_run : ¬ Pool.Ensures machine (fun _ => LocksHold)
    (OnBookings bookAmong 10 (BooksLatest 10)) (started samplePlatform bookAmong recommendedWorld) := by
  obtain ⟨P, hP, hp⟩ := reaches_of_schedule (started samplePlatform bookAmong recommendedWorld)
    (fun _ _ => locksHold_of_check)
    (steps 0 (answered 4) ++ steps 1 (answered 4 ++ [pick 8] ++ answered 8) ++
      steps 2 (answered 2 ++ [pick 9] ++ answered 7 ++ [pick 40, pick 41, pick 42, pick 43] ++
        answered 8) ++
      steps 0 ([pick 7] ++ answered 5 ++ [pick 30, pick 31] ++ answered 6))
    (p := commitsNext 0 fun s w => BooksSlot s ∧ ∃ run' ∈ w.db.runs, run'.interviewRequestId = 10 ∧
      ∀ run ∈ w.db.runs, (∃ slot ∈ run.slots, slot.id = 21) → run.generatedAt < run'.generatedAt)
    (by decide +kernel)
  refine not_ensures hP hp (fun _ _ _ => ⟨rfl, .inr nofun⟩) fun s w h hD => ?_
  obtain ⟨hmem, run', hrun', hr', hnewer⟩ := of_decide_eq_true h
  obtain ⟨run, ⟨hrun, htop⟩, hr, hslot⟩ := hD (.book 1 10 21) trivial 21 hmem
  have hlt := hnewer run hrun hslot
  have hle := htop run' hrun' (hr'.trans hr.symm)
  exact absurd hle (not_le.mpr hlt)

end InterviewScheduler.System
