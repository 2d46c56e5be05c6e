import InterviewScheduler.System.Cancellation

/-! # Critical sections

`book`, `reschedule` and `cancel` check the status once more under the booking lock. `book` reads the
row again; the other two get the instance that they have loaded before the lock, as the session keeps
it. So `book` decides on a status that was committed after its entry, and the other two on one that was
committed before it. The lock makes up for neither. While a call waits for it the others go on, and the
re-recommendation of `reschedule` runs when the lock is released. What is right is right because no
status that changes the decision is committed between the reading and the entry. -/

namespace InterviewScheduler.System

open InterviewScheduler.Engine InterviewScheduler.Core InterviewScheduler.Effects
open InterviewScheduler.Lifecycle InterviewScheduler.Interviews

variable {ι : Type} {pf : Platform} {calls : ι → Call} {r : Id} {w₀ w : World}

/-- The operations with a critical section under the booking lock, but for `decline`. -/
inductive Sectioned : Call → Id → Prop
  | book (userId r slotId : Id) : Sectioned (.book userId r slotId) r
  | reschedule (userId r : Id) (reason : Option (Text 1000)) :
      Sectioned (.reschedule userId r reason) r
  | cancel (userId r : Id) (reason : Option (Text 1000)) : Sectioned (.cancel userId r reason) r

theorem Sectioned.guarded {call : Call} (h : Sectioned call r) : call.Guarded r := by
  cases h with
  | book userId _ slotId => exact .book userId r slotId
  | reschedule userId _ reason => exact .reschedule userId r reason
  | cancel userId _ reason => exact .cancel userId r reason

/-- The guard of an operation. -/
def allows : Call → RequestStatus → Bool
  | .book _ _ _, st => st = .recommended
  | .reschedule _ _ _, st => reschedulable st
  | .cancel _ _ _, st => cancellable st
  | _, _ => true

/-- The status of the operation's own transition. -/
def transition : Call → Option RequestStatus
  | .book _ _ _ => some .booked
  | .reschedule _ _ _ => some .rescheduling
  | .cancel _ _ _ => some .cancelled
  | _ => none

/-- The status that was committed when the call entered its critical section meets the guard. -/
def EnteredUnderGuard (call : Call) (r : Id) (s : Session) : Prop :=
  ∃ cr ∈ s.trace.critical, cr.key = .booking r ∧ ∃ st ∈ cr.entered, allows call st

instance (call : Call) (r : Id) (s : Session) : Decidable (EnteredUnderGuard call r s) :=
  inferInstanceAs (Decidable (∃ cr ∈ s.trace.critical, _ ∧ ∃ st ∈ cr.entered, _))

/-- The call commits its transition only if the guard was met at the entry. -/
def DecidesOnEntry (call : Call) (r : Id) (s : Session) (_ : World) : Prop :=
  ∀ st ∈ transition call, .setStatus r st ∈ s.pending → EnteredUnderGuard call r s

/-- The part of a log between two of its lengths. -/
def between (n m : ℕ) (log : List StatusChange) : List StatusChange := (log.take m).drop n

/-- The call reads the row again in its critical section. -/
def refreshes : Call → Bool
  | .book _ _ _ => true
  | _ => false

/-- What is committed between the entry and the reading that the call decides on does not change the
decision. For `book`, which reads after its entry, it has no status that the guard admits; for the
others, which have read before, none that the guard refuses. -/
def Undisturbed (call : Call) (r : Id) (s : Session) (w : World) : Prop :=
  ∀ cr ∈ s.trace.critical, if refreshes call then
    ∀ rd ∈ s.trace.reads r, ¬ Logged (allows call · = true) r (between cr.logged rd.logged w.log)
  else ∀ rd ∈ cr.loaded, ¬ Logged (allows call · = false) r (between rd.logged cr.logged w.log)

instance (call : Call) (r : Id) (s : Session) (w : World) : Decidable (Undisturbed call r s w) :=
  inferInstanceAs (Decidable (∀ cr ∈ s.trace.critical, ite _ _ _))

/-! ### What a section knows -/

section Between

variable {log log' : List StatusChange} {n m : ℕ}

theorem between_append (h : m ≤ log.length) : between n m (log ++ log') = between n m log := by
  unfold between
  rw [List.take_append_of_le_length h]

theorem between_length : between n log.length log = log.drop n := by
  unfold between
  rw [List.take_length]

end Between

/-- The critical section of a call with its readings: what was committed at the entry, what was read
before it, and what was read since. -/
structure Timed (r : Id) (s : Session) (w : World) (cr : Critical) : Prop where
  logged : cr.logged ≤ w.log.length
  entered : ∀ st ∈ cr.entered, Tracks r st cr.logged w
  absent : cr.entered = none → w.status r = none
  loaded : ∀ rd ∈ cr.loaded, ∃ st ∈ cr.entered,
    st = rd.status ∨ Logged (· = st) r (between rd.logged cr.logged w.log)
  read : ∀ st ∈ cr.reread, ∃ n, s.trace.reads r = some ⟨st, n⟩ ∧ n ≤ w.log.length ∧
    ∃ st₀ ∈ cr.entered, st = st₀ ∨ Logged (· = st) r (between cr.logged n w.log)

/-- The readings of the calls, and their critical sections. -/
structure Timings (r : Id) (loc : ι → Session) (w : World) : Prop where
  reads : ∀ j st n, (loc j).trace.reads r = some ⟨st, n⟩ → Tracks r st n w
  sections : ∀ j, ∀ cr ∈ (loc j).trace.critical, cr.key = .booking r → Timed r (loc j) w cr

section Steps

variable {creates : Prop} {may : May} {β : Type} {o : Effect β} {x : Except Exc β}
  {s s₀ s' : Session} {w' : World} {T : Interviews} {cr : Critical}

/-- What a section knows stays true while other calls go on. -/
theorem Timed.step (h : Timed r s w cr)
    (hm : Move creates (Commits False may (fun _ _ => True) s₀ T) o x s₀ w s' w') :
    Timed r s w' cr := by
  obtain ⟨log, hlog⟩ : ∃ log, w'.log = w.log ++ log := by
    rcases hm.tables with hidle | ⟨-, -, T', htx⟩
    · exact ⟨[], by rw [hidle.log, List.append_nil]⟩
    · exact ⟨_, htx.log⟩
  have hle : w.log.length ≤ w'.log.length := by simp [hlog]
  refine ⟨h.logged.trans hle, fun st hst => (h.entered st hst).step hm, fun hnone => ?_,
    fun rd hrd => ?_, fun st hst => ?_⟩
  · rcases hm.tables with hidle | ⟨-, hC, T', htx⟩
    · rw [hidle.status]
      exact h.absent hnone
    · exact htx.status_none (hC.disciplined not_false).not_insertRequest (h.absent hnone)
  · rw [hlog, between_append h.logged]
    exact h.loaded rd hrd
  · obtain ⟨n, hn, hlen, hst₀⟩ := h.read st hst
    exact ⟨n, hn, hlen.trans hle, by rwa [hlog, between_append hlen]⟩

/-- A change of the section that keeps what was read from the database. -/
theorem Timed.of_eq (h : Timed r s w cr) {cr' : Critical} (hlogged : cr'.logged = cr.logged)
    (hentered : cr'.entered = cr.entered) (hloaded : cr'.loaded = cr.loaded)
    (hreread : ∀ st ∈ cr'.reread, st ∈ cr.reread) (hreads : s'.trace.reads r = s.trace.reads r) :
    Timed r s' w cr' where
  logged := by rw [hlogged]; exact h.logged
  entered := by rw [hentered, hlogged]; exact h.entered
  absent := by rw [hentered]; exact h.absent
  loaded := by rw [hentered, hlogged, hloaded]; exact h.loaded
  read := by
    rw [hentered, hlogged, hreads]
    exact fun st hst => h.read st (hreread st hst)

/-- The section begins. -/
theorem timed_entry {token : Option Id}
    (hreads : ∀ st n, s.trace.reads r = some ⟨st, n⟩ → Tracks r st n w) :
    Timed r s' w (s.entry w (.booking r) token) where
  logged := le_rfl
  entered st hst := tracks_now hst
  absent h := h
  loaded rd hrd := by
    obtain ⟨-, st₁, hst₁, hlog⟩ := hreads rd.status rd.logged hrd
    exact ⟨st₁, hst₁, by rwa [Session.entry, between_length]⟩
  read st hst := by simp [Session.entry] at hst

/-- The row is read in the section. -/
theorem Timed.read_now (h : Timed r s w cr) {row : InterviewRequest} {cr' : Critical}
    (hrow : w.db.requests r = some row) (hlogged : cr'.logged = cr.logged)
    (hentered : cr'.entered = cr.entered) (hloaded : cr'.loaded = cr.loaded)
    (hreread : cr'.reread = some row.status)
    (hreads : s'.trace.reads r = some ⟨row.status, w.log.length⟩) : Timed r s' w cr' where
  logged := by rw [hlogged]; exact h.logged
  entered := by rw [hentered, hlogged]; exact h.entered
  absent := by rw [hentered]; exact h.absent
  loaded := by rw [hentered, hlogged, hloaded]; exact h.loaded
  read st hst := by
    rw [hreread] at hst
    obtain rfl := Option.some.inj hst
    have hstatus : w.status r = some row.status := status_eq_some.mpr ⟨row, hrow, rfl⟩
    refine ⟨_, hreads, le_rfl, ?_⟩
    rw [hentered, hlogged, between_length]
    cases he : cr.entered with
    | none => simp [h.absent he] at hstatus
    | some st₀ =>
      obtain ⟨-, st₁, hst₁, hlog⟩ := h.entered st₀ he
      rw [hstatus] at hst₁
      obtain rfl := Option.some.inj hst₁
      exact ⟨st₀, rfl, hlog⟩

/-- A step of a call keeps what its section knows. -/
theorem timed_step (hm : Sections s w s')
    (hreads : ∀ st n, s.trace.reads r = some ⟨st, n⟩ → Tracks r st n w)
    (h : ∀ cr ∈ s.trace.critical, cr.key = .booking r → Timed r s w cr) :
    ∀ cr ∈ s'.trace.critical, cr.key = .booking r → Timed r s' w cr := by
  intro cr hcr hkey
  cases hm with
  | same hc hr =>
    rw [hc] at hcr
    exact (h cr hcr hkey).of_eq rfl rfl rfl (fun _ h => h) (by rw [hr])
  | hit hc hr =>
    rw [hc] at hcr
    obtain ⟨cr₀, hcr₀, rfl⟩ := Option.mem_map.mp hcr
    exact (h cr₀ hcr₀ hkey).of_eq rfl rfl rfl (fun _ h => h) (by rw [hr])
  | @read r' row hrow hc hr =>
    rw [hc] at hcr
    simp only [Trace.decide, Trace.reread, Option.map_map] at hcr
    obtain ⟨cr₀, hcr₀, rfl⟩ := Option.mem_map.mp hcr
    by_cases hr' : cr₀.key.requestId = r'
    · simp only [Function.comp_apply, hr', ↓reduceIte] at hkey ⊢
      obtain rfl : r = r' := by rw [← hr', hkey]; rfl
      exact (h cr₀ hcr₀ hkey).read_now hrow rfl rfl rfl rfl (by rw [hr, Function.update_self])
    · simp only [Function.comp_apply, hr', ↓reduceIte] at hkey ⊢
      have hne : r ≠ r' := by
        rw [hkey] at hr'
        exact hr'
      exact (h cr₀ hcr₀ hkey).of_eq rfl rfl rfl (fun _ h => h) (by rw [hr, Function.update_of_ne hne])
  | @entered key token hc hr =>
    rw [hc] at hcr
    obtain rfl := Option.some.inj hcr
    obtain rfl : key = .booking r := hkey
    exact timed_entry hreads
  | left hc hr => simp [hc] at hcr
  | wrote _ hc hr =>
    rw [hc] at hcr
    obtain ⟨cr₀, hcr₀, rfl⟩ := Option.mem_map.mp hcr
    exact (h cr₀ hcr₀ hkey).of_eq rfl rfl rfl (by simp) (by rw [hr])

end Steps

theorem timings_step [DecidableEq ι] {A : ι → Condition Effect Choice Session World} :
    Preserves calls A (Timings (ι := ι) r) := by
  intro loc i β o c x w s' w' T hI _ hm
  refine ⟨readings_step hm hI.reads (fun _ => tracks_now) (fun _ _ h => h.step hm), fun j => ?_⟩
  have hkeep : ∀ j, ∀ cr ∈ (Function.update loc i s' j).trace.critical, cr.key = .booking r →
      Timed r (Function.update loc i s' j) w cr := by
    intro j
    by_cases hj : j = i
    · subst hj
      rw [Function.update_self]
      exact timed_step hm.sections (hI.reads j) (hI.sections j)
    · rw [Function.update_of_ne hj]
      exact hI.sections j
  exact fun cr hcr hkey => (hkeep j cr hcr hkey).step hm

/-! ### What is committed -/

/-- A transition that follows from a status is one from a status that the guard admits. -/
theorem allows_of_transition {call : Call} {st st₀ : RequestStatus} (hst : st ∈ transition call)
    (h : st = .booked ∧ st₀ = .recommended ∨ Releases st₀ st) : allows call st₀ := by
  cases call with
  | book =>
    obtain rfl : .booked = st := Option.some.inj hst
    simpa [allows, Releases] using h
  | reschedule =>
    obtain rfl : .rescheduling = st := Option.some.inj hst
    simpa [allows, Releases, reschedulable] using h
  | cancel =>
    obtain rfl : .cancelled = st := Option.some.inj hst
    simpa [allows, Releases, cancellable, terminal] using h
  | _ => rfl

/-- A call that is undisturbed has decided on a status that the guard admits if and when the committed
one was admitted at the entry. -/
theorem decidesOnEntry {call : Call} {s : Session} (hd : Disciplined call.Sets s)
    (htimed : ∀ cr ∈ s.trace.critical, cr.key = .booking r → Timed r s w cr)
    (hnone : Undisturbed call r s w) : DecidesOnEntry call r s w := by
  intro st hst hmem
  have hlocked : st = .booked ∨ st = .cancelled ∨ st = .rescheduling := by
    cases call <;> simp_all [transition]
  obtain ⟨st₀, ⟨n, hn⟩, -, hfrom⟩ := hd.of_locked hmem hlocked
  have hallows := allows_of_transition hst (hfrom.imp (fun h => ⟨h.1, h.2.1⟩) (·.1))
  rcases hfrom with ⟨rfl, -, cr, hcr, hkey, hre⟩ | ⟨hrel, cr, hcr, hkey, hloaded⟩
  · have hrefreshes : refreshes call := by cases call <;> simp_all [transition, refreshes]
    have hbetween := hnone cr hcr
    rw [if_pos hrefreshes] at hbetween
    obtain ⟨m, hm, -, st₁, hst₁, hlog⟩ := (htimed cr hcr hkey).read st₀ hre
    refine ⟨cr, hcr, hkey, st₁, hst₁, ?_⟩
    rcases hlog with rfl | ⟨ch, hch, hr, rfl⟩
    · exact hallows
    · exact absurd ⟨ch, hch, hr, hallows⟩ (hbetween _ hm)
  · have hne : st ≠ .booked := by rcases hrel with ⟨-, rfl⟩ | ⟨-, -, rfl⟩ <;> simp
    have hrefreshes : ¬ refreshes call := by cases call <;> simp_all [transition, refreshes]
    have hbetween := hnone cr hcr
    rw [if_neg hrefreshes] at hbetween
    have hrd : cr.loaded = some ⟨st₀, n⟩ := hloaded.trans hn
    obtain ⟨st₁, hst₁, hlog⟩ := (htimed cr hcr hkey).loaded _ hrd
    refine ⟨cr, hcr, hkey, st₁, hst₁, ?_⟩
    rcases hlog with rfl | ⟨ch, hch, hr, rfl⟩
    · exact hallows
    · by_contra hrefused
      exact hbetween _ hrd ⟨ch, hch, hr, by simpa using hrefused⟩

/-- **Critical sections decide on the committed state** in every interleaving in which no status that
changes the decision is committed between a call's entry and the reading that it decides on. -/
theorem decidesOnEntry_of_undisturbed [DecidableEq ι] (hcalls : ∀ i, Sectioned (calls i) r) :
    Pool.Ensures machine (fun i => AtCommit (Undisturbed (calls i) r))
      (fun i => AtCommit (DecidesOnEntry (calls i) r)) (started pf calls w₀) := by
  refine ensures_of_invariant (fun i => (hcalls i).guarded) timings_step
    (fun loc i w c hI hd hA _ => decidesOnEntry hd (hI.sections i) (hA trivial))
    (fun i β o c s w ho h => absurd h ho) ⟨fun j st n hj => ?_, fun j cr hcr => ?_⟩
  · simp at hj
  · simp at hcr

/-! ### A sample -/

/-- Perfect locks: Redis answers, and no lock expires. -/
def LocksHold : Condition Effect Choice Session World := fun _ o c _ _ =>
  c.expired = [] ∧ (o.Lockless ∨ c.answer ≠ .fail)

/-- The same as a check. -/
def locksHold (β : Type) (_ : Effect β) (c : Choice) (_ : Session) (_ : World) : Bool :=
  c.expired = [] ∧ c.answer ≠ .fail

theorem locksHold_of_check {β : Type} (o : Effect β) (c : Choice) (s : Session) (w : World)
    (h : locksHold β o c s w) : LocksHold β o c s w :=
  ⟨(of_decide_eq_true h).1, .inr (of_decide_eq_true h).2⟩

theorem sectioned_rescheduleAndCancel (i : Bool) : Sectioned (rescheduleAndCancel i) 10 := by
  cases i with
  | true => exact .reschedule 1 10 none
  | false => exact .cancel 1 10 none

/-- A reschedule that is about to commit. -/
theorem decidesOnEntry_of_undisturbed_sample : ∃ P : Pool Effect Exc Response Session World Bool,
    Pool.Reaches machine (fun i => AtCommit (Undisturbed (rescheduleAndCancel i) 10))
      (started samplePlatform rescheduleAndCancel bookedWorld) P ∧
    commitsNext true (fun s _ => .setStatus 10 .rescheduling ∈ s.pending) P ∧
    Pool.Ensures machine (fun i => AtCommit (Undisturbed (rescheduleAndCancel i) 10))
      (fun i => AtCommit (DecidesOnEntry (rescheduleAndCancel i) 10))
      (started samplePlatform rescheduleAndCancel bookedWorld) := by
  obtain ⟨P, hP, hp⟩ := reaches_atCommit (started samplePlatform rescheduleAndCancel bookedWorld)
    (fun i => Undisturbed (rescheduleAndCancel i) 10)
    (steps true (answered 3 ++ [pick 7] ++ answered 7))
    (p := commitsNext true fun s _ => .setStatus 10 .rescheduling ∈ s.pending) (by decide +kernel)
  exact ⟨P, hP, hp, decidesOnEntry_of_undisturbed sectioned_rescheduleAndCancel⟩

/-- **A reschedule decides on a status that has passed.** It loads the BOOKED request; the request is
cancelled; the reschedule takes the lock, gets the BOOKED instance once more and is about to commit. -/
theorem reschedule_decides_late : ¬ Pool.Ensures machine (fun _ => LocksHold)
    (fun i => AtCommit (DecidesOnEntry (rescheduleAndCancel i) 10))
    (started samplePlatform rescheduleAndCancel bookedWorld) := by
  obtain ⟨P, hP, hp⟩ := reaches_of_schedule (started samplePlatform rescheduleAndCancel bookedWorld)
    (fun _ _ => locksHold_of_check)
    (steps true (answered 3) ++ steps false (answered 3 ++ [pick 8] ++ answered 9) ++
      steps true ([pick 7] ++ answered 6))
    (p := commitsNext true fun s _ => .setStatus 10 .rescheduling ∈ s.pending ∧
      ¬ EnteredUnderGuard (rescheduleAndCancel true) 10 s) (by decide +kernel)
  refine not_ensures hP hp (fun _ _ _ => ⟨rfl, .inr nofun⟩) fun s w h hD => ?_
  obtain ⟨hmem, hnot⟩ := of_decide_eq_true h
  exact hnot (hD trivial _ rfl hmem)

/-- The first run of the request 10, with one slot. -/
def sampleRun : RecommendationRun where
  id := 20
  interviewRequestId := 10
  generatedAt := 0
  algorithmVersion := ""
  inputSnapshot :=
    { referenceTime := .aware 0, durationMinutes := 60, bufferMinutes := 15, proximityHorizonDays := 14
      slotStepMinutes := 15, topN := 3, weights := ⟨0, 0, 0, 0, 0⟩, participants := []
      candidateWindows := [] }
  slots :=
    [{ id := 21, startTime := minutes 600, endTime := minutes 660, totalScore := 0
       scoreBreakdown := ⟨0, 0, 0, 0, 0⟩, explanation := "", rank := 1 }]

/-- The request 10 after its first recommendations. -/
def recommendedWorld : World :=
  let w := googleWorld .recommended []
  { w with db := { w.db with
      availability := [⟨11, 10, 2, "UTC", 0, [⟨minutes 540, minutes 840⟩]⟩]
      runs := [sampleRun] } }

theorem wellFormed_recommendedWorld : WellFormed recommendedWorld.db.toInterviews where
  user_id := initial_sampleWorld.user_id
  events_nodup := by simp [recommendedWorld, googleWorld]
  one_confirmed := by simp [recommendedWorld, googleWorld]
  event_request := by simp [recommendedWorld, googleWorld]
  participant_user := wellFormed_googleWorld.participant_user
  runs := ⟨by simp [recommendedWorld], by simp [recommendedWorld, sampleRun]⟩

/-- Two bookings of the first slot, and a reschedule. -/
def bookTwiceAndReschedule : ℕ → Call
  | 0 => .book 1 10 21
  | 1 => .book 1 10 21
  | _ => .reschedule 1 10 none

/-- **A booking decides on a status that is yet to come.** It has loaded the RECOMMENDED request; the other
booking books it, and the reschedule releases it and its lock; the booking enters its section, where the
request is READY_FOR_SCHEDULING; the re-recommendation, which holds the other lock, commits RECOMMENDED;
the booking reads the row again and is about to commit. -/
theorem book_decides_early : ¬ Pool.Ensures machine (fun _ => LocksHold)
    (fun i => AtCommit (DecidesOnEntry (bookTwiceAndReschedule i) 10))
    (started samplePlatform bookTwiceAndReschedule recommendedWorld) := by
  obtain ⟨P, hP, hp⟩ := reaches_of_schedule
    (started samplePlatform bookTwiceAndReschedule recommendedWorld) (fun _ _ => locksHold_of_check)
    (steps 0 (answered 4) ++
      steps 1 (answered 4 ++ [pick 8] ++ answered 5 ++ [pick 30, pick 31] ++ answered 11) ++
      steps 2 (answered 3 ++ [pick 9] ++ answered 15) ++ steps 0 ([pick 7] ++ answered 1) ++
      steps 2 (answered 1 ++ [pick 10] ++ answered 7 ++ [pick 40, pick 41, pick 42, pick 43] ++
        answered 7) ++
      steps 0 (answered 4 ++ [pick 50, pick 51] ++ answered 6))
    (p := commitsNext 0 fun s _ => .setStatus 10 .booked ∈ s.pending ∧
      ¬ EnteredUnderGuard (bookTwiceAndReschedule 0) 10 s) (by decide +kernel)
  refine not_ensures hP hp (fun _ _ _ => ⟨rfl, .inr nofun⟩) fun s w h hD => ?_
  obtain ⟨hmem, hnot⟩ := of_decide_eq_true h
  exact hnot (hD trivial _ rfl hmem)

end InterviewScheduler.System
