import InterviewScheduler.System.Phantoms

/-! # Calls that run at the same time

A pool of calls, any of which may take the next step. What a call has read may be out of date when it
commits. A reading or a lookup therefore goes with the length of the log, or of the table, at that
time: what it says is true of that prefix, and stays true of it (`readings_step`, `lookups_step`). An
invariant of a pool is a property of the tables with what it makes true of the readings. -/

namespace InterviewScheduler.System

open InterviewScheduler.Engine InterviewScheduler.Core InterviewScheduler.Effects
open InterviewScheduler.Lifecycle InterviewScheduler.Interviews

variable {ι : Type} {pf : Platform} {calls : ι → Call} {r : Id} {w₀ : World}

/-- The calls, none of which has begun. The log is the record of what they do. -/
def started (pf : Platform) (calls : ι → Call) (w : World) :
    Pool Effect Exc Response Session World ι where
  prog i := handle pf (calls i)
  loc _ := {}
  shared := { w with log := [] }

/-- Each call is proved with the statuses that it may set. -/
abbrev logicOf (calls : ι → Call) (i : ι) : Logic Effect Exc (Session × Interviews) :=
  lifecycle False (calls i).Sets fun _ _ => True

theorem proved_started (hcalls : ∀ i, (calls i).Guarded r) :
    Pool.Proved (logicOf calls) (fun v s => v.1 = s) (fun _ => Closes) (started pf calls w₀) :=
  fun i => ⟨({}, w₀.db.toInterviews), rfl, closes_handle (fun _ _ h => h) (fun _ => ⟨r, hcalls i⟩)
    fun _ _ _ _ _ _ => trivial⟩

/-! ### The log -/

/-- The log has a change of the request to one of the statuses. -/
def Logged (S : RequestStatus → Prop) (r : Id) (log : List StatusChange) : Prop :=
  ∃ ch ∈ log, ch.requestId = r ∧ S ch.after

instance {S : RequestStatus → Prop} [DecidablePred S] (r : Id) (log : List StatusChange) :
    Decidable (Logged S r log) := inferInstanceAs (Decidable (∃ ch ∈ log, _ ∧ _))

variable {S : RequestStatus → Prop} {log log' : List StatusChange}

theorem logged_append : Logged S r (log ++ log') ↔ Logged S r log ∨ Logged S r log' := by
  constructor
  · rintro ⟨ch, hch, h⟩
    rcases List.mem_append.mp hch with hch | hch
    · exact .inl ⟨ch, hch, h⟩
    · exact .inr ⟨ch, hch, h⟩
  · rintro (⟨ch, hch, h⟩ | ⟨ch, hch, h⟩)
    · exact ⟨ch, List.mem_append_left _ hch, h⟩
    · exact ⟨ch, List.mem_append_right _ hch, h⟩

/-- A log is what it was at some time with what came later. -/
theorem logged_take_or_drop (n : ℕ) :
    Logged S r log ↔ Logged S r (log.take n) ∨ Logged S r (log.drop n) := by
  rw [← logged_append, List.take_append_drop]

theorem not_logged_nil : ¬ Logged S r [] := by
  rintro ⟨ch, hch, -⟩
  simp at hch

theorem wellFormed_of_transaction {s s' : Session} {w w' : World} {T : Interviews}
    (h : Transaction s w s' w' T) (hT : WellFormed w.db.toInterviews) :
    WellFormed w'.db.toInterviews := by
  rw [h.tables]
  exact hT.applyAll h.applied

/-! ### Readings -/

section Tracks

variable {creates C : Prop} {β : Type} {o : Effect β} {x : Except Exc β} {s s' : Session}
  {w w' : World}

/-- The status of the request is the one that was read, or a later one which is in the log. -/
def Tracks (r : Id) (st : RequestStatus) (n : ℕ) (w : World) : Prop :=
  n ≤ w.log.length ∧
    ∃ st₁, w.status r = some st₁ ∧ (st₁ = st ∨ Logged (· = st₁) r (w.log.drop n))

theorem tracks_now {st : RequestStatus} (h : w.status r = some st) : Tracks r st w.log.length w :=
  ⟨le_rfl, st, h, .inl rfl⟩

theorem Tracks.step {st : RequestStatus} {n : ℕ} (h : Tracks r st n w)
    (hm : Move creates C o x s w s' w') : Tracks r st n w' := by
  obtain ⟨hn, st₁, hst₁, hlog⟩ := h
  rcases hm.tables with hidle | ⟨-, -, T, htx⟩
  · unfold Tracks
    rw [hidle.log, hidle.status]
    exact ⟨hn, st₁, hst₁, hlog⟩
  · have hdrop : w'.log.drop n = w.log.drop n ++
        statusChanges s.pending w.db.toInterviews T := by
      rw [htx.log, List.drop_append_of_le_length hn]
    refine ⟨?_, ?_⟩
    · rw [htx.log, List.length_append]
      omega
    · rw [hdrop]
      obtain ⟨st₂, hst₂, rfl | hnew⟩ := htx.same_or_logged hst₁
      · exact ⟨st₂, hst₂, hlog.imp_right fun h => logged_append.mpr (.inl h)⟩
      · exact ⟨st₂, hst₂, .inr (logged_append.mpr (.inr ⟨_, hnew, rfl, rfl⟩))⟩

/-- With no change of the request's status since the reading, it is the status still. -/
theorem Tracks.current {st : RequestStatus} {n : ℕ} (h : Tracks r st n w)
    (hnone : ¬ Logged (fun _ => True) r (w.log.drop n)) : w.status r = some st := by
  obtain ⟨-, st₁, hst₁, rfl | ⟨ch, hch, hr, -⟩⟩ := h
  · exact hst₁
  · exact absurd ⟨ch, hch, hr, trivial⟩ hnone

end Tracks

section Steps

variable [DecidableEq ι] {creates C : Prop} {β : Type} {o : Effect β} {x : Except Exc β}
  {loc : ι → Session} {i : ι} {s' : Session} {w w' : World}

/-- What the last readings of a request say stays true, when it is true of a reading that is made now
and is kept by the step. -/
theorem readings_step {G : RequestStatus → ℕ → World → Prop}
    (hm : Move creates C o x (loc i) w s' w')
    (hold : ∀ j st n, (loc j).trace.reads r = some ⟨st, n⟩ → G st n w)
    (hfresh : ∀ st, w.status r = some st → G st w.log.length w)
    (hkeep : ∀ st n, G st n w → G st n w') (j : ι) (st : RequestStatus) (n : ℕ)
    (h : (Function.update loc i s' j).trace.reads r = some ⟨st, n⟩) : G st n w' := by
  by_cases hj : j = i
  · subst hj
    rw [Function.update_self] at h
    rcases hm.reads r with hsame | ⟨row, hrow, hnew, -⟩
    · rw [hsame] at h
      exact hkeep st n (hold j st n h)
    · rw [hnew] at h
      obtain ⟨rfl, rfl⟩ : row.status = st ∧ w.log.length = n := by simpa using h
      exact hkeep _ _ (hfresh _ (status_eq_some.mpr ⟨row, hrow, rfl⟩))
  · rw [Function.update_of_ne hj] at h
    exact hkeep st n (hold j st n h)

/-- The same for the lookups of the CONFIRMED event. -/
theorem lookups_step {G : Option Id → ℕ → World → Prop}
    (hm : Move creates C o x (loc i) w s' w')
    (hold : ∀ j ev n, (loc j).trace.looked = some ⟨r, ev, n⟩ → G ev n w)
    (hfresh : G ((w.db.events.find? fun e => e.ConfirmedFor r).map (·.id)) w.db.events.length w)
    (hkeep : ∀ ev n, G ev n w → G ev n w') (j : ι) (ev : Option Id) (n : ℕ)
    (h : (Function.update loc i s' j).trace.looked = some ⟨r, ev, n⟩) : G ev n w' := by
  by_cases hj : j = i
  · subst hj
    rw [Function.update_self] at h
    rcases hm.lookup with hsame | ⟨r', hnew, -⟩
    · rw [hsame] at h
      exact hkeep ev n (hold j ev n h)
    · rw [hnew] at h
      obtain ⟨rfl, rfl, rfl⟩ : r' = r ∧
          (w.db.events.find? fun e => e.ConfirmedFor r').map (·.id) = ev ∧
            w.db.events.length = n := by simpa using h
      exact hkeep _ _ hfresh
  · rw [Function.update_of_ne hj] at h
    exact hkeep ev n (hold j ev n h)


end Steps

/-! ### Invariants -/

section Invariants

variable [DecidableEq ι] {A D : ι → Condition Effect Choice Session World}
  {I : (ι → Session) → World → Prop}

/-- A step of call `i` preserves the invariant. -/
abbrev Preserves (calls : ι → Call) (A : ι → Condition Effect Choice Session World)
    (I : (ι → Session) → World → Prop) : Prop :=
  ∀ (loc : ι → Session) (i : ι) {β : Type} (o : Effect β) (c : Choice) (x : Except Exc β) (w : World)
    (s' : Session) (w' : World) (T : Interviews), I loc w → A i β o c (loc i) w →
      Move (∃ r, (calls i).Sets r .booked) (Commits False (calls i).Sets (fun _ _ => True) (loc i) T) o
        x (loc i) w s' w' → I (Function.update loc i s') w'

/-- **Invariants of a pool of guarded calls.** -/
theorem invariant_of_reaches (hcalls : ∀ i, (calls i).Guarded r) (hstep : Preserves calls A I)
    {P : Pool Effect Exc Response Session World ι}
    (h : Pool.Reaches machine A (started pf calls w₀) P)
    (hI : I (fun _ => {}) { w₀ with log := [] }) : I P.loc P.shared := by
  refine (Pool.sound (fun i => faithful_pool _ _) (fun loc i β o c w x s' w' v hI hv hduty hA hex => ?_)
    h (proved_started hcalls) hI).2
  obtain ⟨s, T⟩ := v
  obtain rfl : s = loc i := hv
  exact hstep loc i o c x w s' w' T hI hA (move_of_exec hduty hex)

/-- What an invariant says of the commits of guarded calls. -/
theorem ensures_of_invariant (hcalls : ∀ i, (calls i).Guarded r) (hstep : Preserves calls A I)
    (hcommit : ∀ (loc : ι → Session) (i : ι) (w : World) (c : Choice), I loc w →
      Disciplined (calls i).Sets (loc i) → A i Unit .commit c (loc i) w →
        D i Unit .commit c (loc i) w)
    (hother : ∀ (i : ι) {β : Type} (o : Effect β) (c : Choice) (s : Session) (w : World),
      ¬ o.IsCommit → D i β o c s w) (hI : I (fun _ => {}) { w₀ with log := [] }) :
    Pool.Ensures machine A D (started pf calls w₀) := by
  refine Pool.ensures (fun i => faithful_pool _ _)
    (fun loc i β o c w x s' w' v hI hv hduty hA hex => ?_)
    (fun loc i β o c w v hI hv hduty hA => ?_) (proved_started hcalls) hI
  · obtain ⟨s, T⟩ := v
    obtain rfl : s = loc i := hv
    exact hstep loc i o c x w s' w' T hI hA (move_of_exec hduty hex)
  · obtain ⟨s, T⟩ := v
    obtain rfl : s = loc i := hv
    cases o with
    | commit =>
      have hC : Commits False (calls i).Sets (fun _ _ => True) (loc i) T := hduty
      exact hcommit loc i w c hI (hC.disciplined not_false) hA
    | _ => exact hother i _ c _ w nofun

end Invariants

/-! ### Conditions on the commits -/

/-- A condition on the state in which a transaction is committed. -/
def AtCommit (p : Session → World → Prop) : Condition Effect Choice Session World := fun _ o _ s w =>
  o.IsCommit → p s w

/-- The same as a check. -/
def atCommit (p : Session → World → Prop) [∀ s w, Decidable (p s w)] (β : Type) (o : Effect β)
    (_ : Choice) (s : Session) (w : World) : Bool :=
  match o with
  | .commit => p s w
  | _ => true

theorem atCommit_of_check {p : Session → World → Prop} [∀ s w, Decidable (p s w)] {β : Type}
    {o : Effect β} {c : Choice} {s : Session} {w : World} (h : atCommit p β o c s w = true) :
    AtCommit p β o c s w := by
  cases o with
  | commit => exact fun _ => of_decide_eq_true h
  | _ => exact fun ho => ho.elim

/-! ### Running a pool -/

/-- Two calls. -/
def pair (a b : Call) : Bool → Call
  | true => a
  | false => b

/-- An interleaving that can be computed, with what can be decided of its end. -/
theorem reaches_of_schedule [DecidableEq ι] (P₀ : Pool Effect Exc Response Session World ι)
    {check : ι → ∀ β : Type, Effect β → Choice → Session → World → Bool}
    {A : ι → Condition Effect Choice Session World}
    (hcheck : ∀ (i : ι) {β : Type} (o : Effect β) (c : Choice) (s : Session) (w : World),
      check i β o c s w → A i β o c s w) (sched : List (ι × Choice))
    {p : Pool Effect Exc Response Session World ι → Bool}
    (h : (Pool.run machine check sched P₀).any p) : ∃ P, Pool.Reaches machine A P₀ P ∧ p P := by
  obtain ⟨P, hrun, hp⟩ := (Option.any_eq_true _ _).mp h
  exact ⟨P, (Pool.reaches_of_run hrun).mono fun i β o c s w h => hcheck i o c s w h, hp⟩

/-- The interleavings without a condition. -/
theorem reaches_any [DecidableEq ι] (P₀ : Pool Effect Exc Response Session World ι)
    (sched : List (ι × Choice)) {p : Pool Effect Exc Response Session World ι → Bool}
    (h : (Pool.run machine (fun _ _ _ _ _ _ => true) sched P₀).any p) :
    ∃ P, Pool.Reaches machine (fun _ => Any) P₀ P ∧ p P :=
  reaches_of_schedule P₀ (fun _ _ _ _ _ _ _ => trivial) sched h

/-- The interleavings whose commits meet a condition. -/
theorem reaches_atCommit [DecidableEq ι] (P₀ : Pool Effect Exc Response Session World ι)
    (q : ι → Session → World → Prop) [∀ i s w, Decidable (q i s w)] (sched : List (ι × Choice))
    {p : Pool Effect Exc Response Session World ι → Bool}
    (h : (Pool.run machine (fun i => atCommit (q i)) sched P₀).any p) :
    ∃ P, Pool.Reaches machine (fun i => AtCommit (q i)) P₀ P ∧ p P :=
  reaches_of_schedule P₀ (fun _ _ _ _ _ _ => atCommit_of_check) sched h

/-- The next steps of a call. -/
def steps (i : ι) (cs : List Choice) : List (ι × Choice) := cs.map (i, ·)

/-- The next step of the call is a commit, it succeeds, and the state before it passes the check. -/
def commitsNext (i : ι) (p : Session → World → Bool) (P : Pool Effect Exc Response Session World ι) :
    Bool :=
  match P.prog i with
  | .op .commit _ =>
    p (P.loc i) P.shared &&
      match machine.exec .commit {} (P.loc i) P.shared with
      | some (.ok _, _, _) => true
      | _ => false
  | _ => false

/-- The call has returned. -/
def returned (i : ι) (P : Pool Effect Exc Response Session World ι) : Bool :=
  match P.prog i with
  | .ret _ => true
  | _ => false

theorem of_returned {i : ι} {P : Pool Effect Exc Response Session World ι} (h : returned i P) :
    ∃ out, P.prog i = .ret out := by
  unfold returned at h
  split at h
  · next out hprog => exact ⟨out, hprog⟩
  · simp at h

/-- The call has raised. -/
def raised (i : ι) (P : Pool Effect Exc Response Session World ι) : Bool :=
  match P.prog i with
  | .raise _ => true
  | _ => false

theorem of_raised {i : ι} {P : Pool Effect Exc Response Session World ι} (h : raised i P) :
    ∃ e, P.prog i = .raise e := by
  unfold raised at h
  split at h
  · next e hprog => exact ⟨e, hprog⟩
  · simp at h

/-- The call has raised that exception. -/
def raisedWith (e : Exc) (i : ι) (P : Pool Effect Exc Response Session World ι) : Bool :=
  match P.prog i with
  | .raise e' => decide (e' = e)
  | _ => false

theorem of_raisedWith {e : Exc} {i : ι} {P : Pool Effect Exc Response Session World ι}
    (h : raisedWith e i P) : P.prog i = .raise e := by
  unfold raisedWith at h
  split at h
  · next e' hprog => rw [hprog, of_decide_eq_true h]
  · simp at h

/-- A commit that is not in `D` can be taken. -/
theorem not_ensures [DecidableEq ι] {A D : ι → Condition Effect Choice Session World}
    {P₀ P : Pool Effect Exc Response Session World ι} (hP : Pool.Reaches machine A P₀ P) {i : ι}
    {p : Session → World → Bool} (h : commitsNext i p P)
    (hA : ∀ s w, p s w → A i Unit .commit {} s w) (hD : ∀ s w, p s w → ¬ D i Unit .commit {} s w) :
    ¬ Pool.Ensures machine A D P₀ := by
  intro hens
  unfold commitsNext at h
  split at h
  · next k hprog =>
    simp only [Bool.and_eq_true] at h
    obtain ⟨hp, hexec⟩ := h
    split at hexec
    · next s' w' hexec' => exact hD _ _ hp (hens hP hprog (hA _ _ hp) hexec')
    · simp at hexec
  · simp at h

end InterviewScheduler.System
