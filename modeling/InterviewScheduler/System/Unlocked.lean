import InterviewScheduler.System.Sections

/-! # Operations without a lock

`record_outcome`, the submission of availability and `update_request` check the status and write later,
with no lock in between. They are right when the status has not changed since they have read it: an
outcome must not be recorded over a release, and a submission or an edit not after another submission. -/

namespace InterviewScheduler.System

open InterviewScheduler.Engine InterviewScheduler.Core InterviewScheduler.Effects
open InterviewScheduler.Lifecycle InterviewScheduler.Interviews

variable {ι : Type} {pf : Platform} {calls : ι → Call} {r : Id} {w₀ w : World}

/-! ### Outcomes among releases -/

/-- The calls of an outcome, a cancellation or a reschedule. -/
inductive OutcomeOrRelease : Call → Id → Prop
  | recordOutcome (userId r : Id) (outcome : Outcome) (notes : Option (Text 2000)) :
      OutcomeOrRelease (.recordOutcome userId r outcome notes) r
  | reschedule (userId r : Id) (reason : Option (Text 1000)) :
      OutcomeOrRelease (.reschedule userId r reason) r
  | cancel (userId r : Id) (reason : Option (Text 1000)) :
      OutcomeOrRelease (.cancel userId r reason) r

theorem OutcomeOrRelease.guarded {call : Call} (h : OutcomeOrRelease call r) : call.Guarded r := by
  cases h with
  | recordOutcome userId _ outcome notes => exact .recordOutcome userId r outcome notes
  | reschedule userId _ reason => exact .reschedule userId r reason
  | cancel userId _ reason => exact .cancel userId r reason

/-- The status of a request that was released. -/
def Freed (st : RequestStatus) : Prop := st = .cancelled ∨ st = .rescheduling

instance : DecidablePred Freed := fun _ => inferInstanceAs (Decidable (_ ∨ _))

/-- The status of a request whose interview is, or was, to take place. -/
def Held (st : RequestStatus) : Prop := st = .booked ∨ st = .completed

theorem Held.not_freed {st : RequestStatus} (h : Held st) : ¬ Freed st := by
  rcases h with rfl | rfl <;> simp [Freed]

theorem OutcomeOrRelease.sets {call : Call} (h : OutcomeOrRelease call r) {r' : Id}
    {st : RequestStatus} (hset : call.Sets r' st) : r' = r ∧ st ≠ .booked := by
  cases h with
  | recordOutcome => obtain ⟨rfl, rfl⟩ := hset; simp
  | reschedule => obtain ⟨rfl, rfl | rfl | rfl | rfl⟩ := hset <;> simp
  | cancel => obtain ⟨rfl, rfl⟩ := hset; simp

/-- **Outcomes do not race releases**: a COMPLETED request has its CONFIRMED event, and no request
becomes COMPLETED after it was cancelled. -/
structure OutcomesKept (r : Id) (w : World) : Prop where
  confirmed : w.status r = some .completed → Confirmed w.db.toInterviews r
  log : w.log.Pairwise fun ch ch' => ch.requestId = r → ch'.requestId = r →
    ch.after = .cancelled → ch'.after ≠ .completed

/-- An outcome is committed only if the request was not released since the call has read it. -/
def NotFreed (r : Id) (s : Session) (w : World) : Prop :=
  .setStatus r .completed ∈ s.pending →
    ∀ rd ∈ s.trace.reads r, ¬ Logged Freed r (w.log.drop rd.logged)

instance (r : Id) (s : Session) (w : World) : Decidable (NotFreed r s w) :=
  inferInstanceAs (Decidable (_ → ∀ rd ∈ s.trace.reads r, _))

/-- What a reading says: a request that was held was not released before, and is CONFIRMED until it is
released. -/
def HeldUntilFreed (r : Id) (st : RequestStatus) (n : ℕ) (w : World) : Prop :=
  n ≤ w.log.length ∧ (Held st → ¬ Logged Freed r (w.log.take n) ∧
    (¬ Logged Freed r w.log → Confirmed w.db.toInterviews r))

/-- What holds of the request itself. -/
structure HeldSound (r : Id) (w : World) : Prop where
  held : ∀ st, w.status r = some st → Held st →
    ¬ Logged Freed r w.log ∧ Confirmed w.db.toInterviews r
  log : w.log.Pairwise fun ch ch' => ch.requestId = r → ch'.requestId = r →
    ch.after = .cancelled → ch'.after ≠ .completed

structure OutcomesSound (r : Id) (loc : ι → Session) (w : World) : Prop where
  sound : HeldSound r w
  reads : ∀ j st n, (loc j).trace.reads r = some ⟨st, n⟩ → Tracks r st n w
  held : ∀ j st n, (loc j).trace.reads r = some ⟨st, n⟩ → HeldUntilFreed r st n w

section Steps

variable {s s' : Session} {w' : World} {T : Interviews} {call : Call}

theorem HeldSound.fresh (h : HeldSound r w) {st : RequestStatus} (hst : w.status r = some st) :
    HeldUntilFreed r st w.log.length w := by
  refine ⟨le_rfl, fun hheld => ?_⟩
  obtain ⟨hlog, hc⟩ := h.held st hst hheld
  rw [List.take_length]
  exact ⟨hlog, fun _ => hc⟩

/-- A release is in the log when it is committed, whatever the status was before. -/
theorem logged_of_release (hd : Disciplined call.Sets s) (htx : Transaction s w s' w' T)
    {st : RequestStatus} (hset : .setStatus r st ∈ s.pending) (hst : Freed st)
    (hreads : ∀ st n, s.trace.reads r = some ⟨st, n⟩ → Tracks r st n w) : Logged Freed r w'.log := by
  obtain ⟨⟨st₀, ⟨n, hn⟩, hfollows⟩, -, huniq⟩ := hd.of_setStatus hset
  have hne : st ≠ st₀ := hfollows.ne.symm
  obtain ⟨-, st₁, hst₁, hlast⟩ := hreads st₀ n hn
  have hnew := htx.status_of_set hset huniq hst₁
  rw [htx.log, logged_append]
  by_cases heq : st₁ = st
  · -- the request was released already, after the reading
    subst heq
    obtain ⟨ch, hch, hr, hafter⟩ := hlast.resolve_left hne
    exact .inl ⟨ch, List.mem_of_mem_drop hch, hr, hafter ▸ hst⟩
  · exact .inr ⟨_, htx.logged hst₁ hnew heq, rfl, hst⟩

/-- Until it is released the request keeps its CONFIRMED event. -/
theorem confirmed_until_freed (hcall : OutcomeOrRelease call r) (hd : Disciplined call.Sets s)
    (htx : Transaction s w s' w' T)
    (hreads : ∀ st n, s.trace.reads r = some ⟨st, n⟩ → Tracks r st n w)
    (hc : Confirmed w.db.toInterviews r) (hlog : ¬ Logged Freed r w'.log) :
    Confirmed w'.db.toInterviews r := by
  obtain ⟨e, he, hce⟩ := hc
  refine ⟨e, ?_, hce⟩
  rw [htx.force]
  refine Write.mem_events_force he fun id hid => hlog ?_
  obtain ⟨r', st, hset, hst⟩ := hd.of_cancelEvent hid
  obtain ⟨rfl, -⟩ := hcall.sets (hd.of_setStatus hset).2.1
  exact logged_of_release hd htx hset hst hreads

theorem not_freed_of_append {log : List StatusChange} (hlog : w'.log = w.log ++ log)
    (h : ¬ Logged Freed r w'.log) : ¬ Logged Freed r w.log := fun h' =>
  h (hlog ▸ logged_append.mpr (.inl h'))

theorem HeldUntilFreed.transaction {st : RequestStatus} {n : ℕ} (h : HeldUntilFreed r st n w)
    (hcall : OutcomeOrRelease call r) (hd : Disciplined call.Sets s)
    (htx : Transaction s w s' w' T)
    (hreads : ∀ st n, s.trace.reads r = some ⟨st, n⟩ → Tracks r st n w) :
    HeldUntilFreed r st n w' := by
  obtain ⟨hn, hheld⟩ := h
  refine ⟨?_, fun hst => ?_⟩
  · rw [htx.log, List.length_append]
    omega
  · obtain ⟨htake, hc⟩ := hheld hst
    rw [htx.log, List.take_append_of_le_length hn, ← htx.log]
    exact ⟨htake, fun hlog =>
      confirmed_until_freed hcall hd htx hreads (hc (not_freed_of_append htx.log hlog)) hlog⟩

/-- The status that the request has after a transaction which leaves it held. -/
theorem HeldSound.transaction (h : HeldSound r w) (hcall : OutcomeOrRelease call r)
    (hd : Disciplined call.Sets s) (htx : Transaction s w s' w' T)
    (hreads : ∀ st n, s.trace.reads r = some ⟨st, n⟩ → Tracks r st n w)
    (hheld : ∀ st n, s.trace.reads r = some ⟨st, n⟩ → HeldUntilFreed r st n w)
    (hfree : NotFreed r s w) : HeldSound r w' := by
  -- an outcome is recorded when the request was never released
  have hnever : .setStatus r .completed ∈ s.pending →
      ¬ Logged Freed r w.log ∧ Confirmed w.db.toInterviews r := by
    intro hset
    obtain ⟨⟨st₀, ⟨n, hn⟩, hfollows⟩, -, -⟩ := hd.of_setStatus hset
    have hst₀ : Held st₀ := by
      cases hfollows with
      | complete => exact .inl rfl
      | release h => rcases h with ⟨-, h⟩ | ⟨-, -, h⟩ <;> simp at h
    obtain ⟨htake, hc⟩ := (hheld _ _ hn).2 hst₀
    have hlog : ¬ Logged Freed r w.log := by
      rw [logged_take_or_drop n, not_or]
      exact ⟨htake, hfree hset _ hn⟩
    exact ⟨hlog, hc hlog⟩
  -- what the transaction adds to the log is the status that it sets
  have hadded : ∀ ch ∈ statusChanges s.pending w.db.toInterviews T, ch.requestId = r →
      .setStatus r ch.after ∈ s.pending ∧ w'.status r = some ch.after := by
    rintro ch hch rfl
    exact ⟨(htx.of_mem hch).2, (htx.of_mem hch).1⟩
  constructor
  · intro st hst hheldst
    have hbefore : ¬ Logged Freed r w.log ∧ Confirmed w.db.toInterviews r := by
      by_cases hset : .setStatus r .completed ∈ s.pending
      · exact hnever hset
      · cases hold : w.status r with
        | none =>
          rw [htx.status_none hd.not_insertRequest hold] at hst
          simp at hst
        | some st₁ =>
          obtain ⟨st₂, hst₂, rfl | hmem⟩ := htx.status hold
          · rw [hst] at hst₂
            obtain rfl := Option.some.inj hst₂
            exact h.held _ hold hheldst
          · rw [hst] at hst₂
            obtain rfl := Option.some.inj hst₂
            obtain ⟨-, hmay, -⟩ := hd.of_setStatus hmem
            rcases hheldst with rfl | rfl
            · exact absurd rfl (hcall.sets hmay).2
            · exact absurd hmem hset
    have hlog : ¬ Logged Freed r w'.log := by
      rw [htx.log, logged_append, not_or]
      refine ⟨hbefore.1, ?_⟩
      rintro ⟨ch, hch, hr, hfreed⟩
      have hafter := (hadded ch hch hr).2
      rw [hst] at hafter
      exact hheldst.not_freed (Option.some.inj hafter ▸ hfreed)
    exact ⟨hlog, confirmed_until_freed hcall hd htx hreads hbefore.2 hlog⟩
  · rw [htx.log, List.pairwise_append]
    refine ⟨h.log, ?_, fun ch hch ch' hch' hr hr' hafter hafter' => ?_⟩
    · refine List.pairwise_of_forall_mem_list fun ch hch ch' hch' hr hr' hafter hafter' => ?_
      -- the transaction leaves one status
      have h₁ := (hadded ch hch hr).2
      have h₂ := (hadded ch' hch' hr').2
      rw [hafter] at h₁
      rw [h₁, hafter'] at h₂
      simp at h₂
    · have hset := (hadded ch' hch' hr').1
      rw [hafter'] at hset
      exact (hnever hset).1 ⟨ch, hch, hr, .inl hafter⟩

/-- A step that changes neither the tables nor the log. -/
theorem HeldSound.idle (h : HeldSound r w) (hw : Idle w w') : HeldSound r w' := by
  refine ⟨?_, by rw [hw.log]; exact h.log⟩
  intro st hst hheld
  rw [hw.status] at hst
  rw [hw.log, hw.tables]
  exact h.held st hst hheld

theorem HeldUntilFreed.idle {st : RequestStatus} {n : ℕ} (h : HeldUntilFreed r st n w)
    (hw : Idle w w') : HeldUntilFreed r st n w' := by
  unfold HeldUntilFreed
  rw [hw.log, hw.tables]
  exact h

end Steps

theorem outcomesSound_step [DecidableEq ι] (hcalls : ∀ i, OutcomeOrRelease (calls i) r) :
    Preserves calls (fun _ => AtCommit (NotFreed r)) (OutcomesSound (ι := ι) r) := by
  intro loc i β o c x w s' w' T hI hfree hm
  have hreads := readings_step hm hI.reads (fun _ => tracks_now) fun _ _ h => h.step hm
  rcases hm.tables with hidle | ⟨ho, hC, T', htx⟩
  · exact ⟨hI.sound.idle hidle, hreads, readings_step hm hI.held (fun _ => hI.sound.fresh)
      fun _ _ h => h.idle hidle⟩
  · have hd := hC.disciplined not_false
    refine ⟨?_, hreads, readings_step hm hI.held (fun _ => hI.sound.fresh) fun _ _ h => ?_⟩
    · exact hI.sound.transaction (hcalls i) hd htx (hI.reads i) (hI.held i) (hfree ho)
    · exact h.transaction (hcalls i) hd htx (hI.reads i)

/-- **Outcomes do not race releases** in an interleaving in which no outcome is committed over a
release that its call has not read. -/
theorem outcomesKept_of_reaches [DecidableEq ι] (hcalls : ∀ i, OutcomeOrRelease (calls i) r)
    (hheld : ∀ st, w₀.status r = some st → Held st → Confirmed w₀.db.toInterviews r)
    {P : Pool Effect Exc Response Session World ι}
    (h : Pool.Reaches machine (fun _ => AtCommit (NotFreed r)) (started pf calls w₀) P) :
    OutcomesKept r P.shared := by
  have hstart : HeldSound r { w₀ with log := [] } :=
    ⟨fun st hst h => ⟨not_logged_nil, hheld st hst h⟩, .nil⟩
  have hI := invariant_of_reaches (fun i => (hcalls i).guarded) (outcomesSound_step hcalls) h
    ⟨hstart, by simp, by simp⟩
  exact ⟨fun hst => (hI.sound.held _ hst (.inr rfl)).2, hI.sound.log⟩

/-- An outcome of the request 10 and its cancellation. -/
def outcomeAndCancel : Bool → Call := pair (.recordOutcome 1 10 .passed none) (.cancel 1 10 none)

theorem outcomeOrRelease_outcomeAndCancel (i : Bool) : OutcomeOrRelease (outcomeAndCancel i) 10 := by
  cases i with
  | true => exact .recordOutcome 1 10 .passed none
  | false => exact .cancel 1 10 none

theorem confirmed_bookedWorld : Confirmed bookedWorld.db.toInterviews 10 :=
  ⟨_, List.mem_singleton.mpr rfl, rfl, rfl⟩

/-- The outcome is recorded while the cancellation is under way. -/
theorem outcomesKept_of_reaches_sample : ∃ P : Pool Effect Exc Response Session World Bool,
    P.shared.status 10 = some .completed ∧ OutcomesKept 10 P.shared := by
  obtain ⟨P, hP, hp⟩ := reaches_atCommit (started samplePlatform outcomeAndCancel bookedWorld)
    (fun _ => NotFreed 10) (steps false (answered 2) ++ steps true (answered 7))
    (p := fun P => P.shared.status 10 = some .completed) (by decide +kernel)
  exact ⟨P, of_decide_eq_true hp, outcomesKept_of_reaches outcomeOrRelease_outcomeAndCancel
    (fun _ _ _ => confirmed_bookedWorld) hP⟩

/-- **An outcome is recorded for a cancelled interview.** `record_outcome` reads BOOKED; the request is
cancelled, with a lock that works; the request becomes COMPLETED without a CONFIRMED event. -/
theorem outcome_after_cancel : ∃ P : Pool Effect Exc Response Session World Bool,
    Pool.Reaches machine (fun _ => LocksHold) (started samplePlatform outcomeAndCancel bookedWorld) P ∧
    Confirmed bookedWorld.db.toInterviews 10 ∧
    P.shared.log.map (·.after) = [.cancelled, .completed] ∧ ¬ OutcomesKept 10 P.shared := by
  obtain ⟨P, hP, hp⟩ := reaches_of_schedule (started samplePlatform outcomeAndCancel bookedWorld)
    (fun _ _ => locksHold_of_check)
    (steps true (answered 2) ++ steps false (answered 3 ++ [pick 8] ++ answered 8) ++
      steps true (answered 5))
    (p := fun P => P.shared.status 10 = some .completed ∧
      (∀ e ∈ P.shared.db.events, ¬ e.ConfirmedFor 10) ∧
      P.shared.log.map (·.after) = [.cancelled, .completed]) (by decide +kernel)
  obtain ⟨hst, hnone, hlog⟩ := of_decide_eq_true hp
  refine ⟨P, hP, confirmed_bookedWorld, hlog, fun h => ?_⟩
  obtain ⟨e, he, hc⟩ := h.confirmed hst
  exact hnone e he hc

/-! ### Submissions among edits -/

/-- The calls of a submission of availability or an edit of the request. -/
inductive SubmitOrUpdate : Call → Id → Prop
  | submit (userId r : Id) (data : Availability.SubmitAvailabilityRequest) :
      SubmitOrUpdate (.submit userId r data) r
  | updateRequest (userId r : Id) (data : UpdateInterviewRequest) :
      SubmitOrUpdate (.updateRequest userId r data) r

theorem SubmitOrUpdate.guarded {call : Call} (h : SubmitOrUpdate call r) : call.Guarded r := by
  cases h with
  | submit userId _ data => exact .submit userId r data
  | updateRequest userId _ data => exact .updateRequest userId r data

/-- The availability rows of a request. -/
def availabilityOf (T : Interviews) (r : Id) : List CandidateAvailability :=
  T.availability.filter fun a => a.interviewRequestId = r

/-- No status of the request was committed since the call has read it. -/
def Unmoved (r : Id) (s : Session) (w : World) : Prop :=
  s.pending ≠ [] → ∀ rd ∈ s.trace.reads r, ¬ Logged (fun _ => True) r (w.log.drop rd.logged)

instance (r : Id) (s : Session) (w : World) : Decidable (Unmoved r s w) :=
  inferInstanceAs (Decidable (_ → ∀ rd ∈ s.trace.reads r, _))

/-- An edit is committed only in an editable status. -/
def EditsInTime (r : Id) (s : Session) (w : World) : Prop :=
  (∃ x ∈ s.pending, Edits r x) → ∃ st ∈ w.status r, st ∈ editableStatuses

instance (r : Id) (s : Session) (w : World) : Decidable (EditsInTime r s w) :=
  inferInstanceAs (Decidable ((∃ x ∈ s.pending, Edits r x) → ∃ st ∈ w.status r, _))

/-- The gate: at most one row is added to the `n` of the start, and none while the candidate's answer is
awaited. -/
structure Gated (n : ℕ) (r : Id) (loc : ι → Session) (w : World) : Prop where
  rows : (availabilityOf w.db.toInterviews r).length ≤ n + 1
  awaiting : w.status r = some .awaitingCandidateAvailability →
    (availabilityOf w.db.toInterviews r).length = n
  reads : ∀ j st n, (loc j).trace.reads r = some ⟨st, n⟩ → Tracks r st n w

/-- What was read last is the committed status. -/
theorem Gated.current {n : ℕ} {loc : ι → Session} (h : Gated n r loc w) {i : ι}
    (hcur : Unmoved r (loc i) w) (hp : (loc i).pending ≠ []) {st : RequestStatus}
    (hread : (loc i).LastRead r st) : w.status r = some st := by
  obtain ⟨m, hm⟩ := hread
  exact (h.reads i st m hm).current (hcur hp _ hm)

theorem gated_step [DecidableEq ι] (hcalls : ∀ i, SubmitOrUpdate (calls i) r) (n : ℕ) :
    Preserves calls (fun _ => AtCommit (Unmoved r)) (Gated (ι := ι) n r) := by
  intro loc i β o c x w s' w' T hI hcur hm
  have hreads := readings_step hm hI.reads (fun _ => tracks_now) fun _ _ h => h.step hm
  rcases hm.tables with hidle | ⟨ho, hC, T', htx⟩
  · refine ⟨?_, ?_, hreads⟩
    · rw [hidle.tables]
      exact hI.rows
    · rw [hidle.tables, hidle.status]
      exact hI.awaiting
  · have hd := hC.disciplined not_false
    by_cases hins : ∃ a, .insertAvailability a ∈ (loc i).pending ∧ a.interviewRequestId = r
    · obtain ⟨a, ha, rfl⟩ := hins
      obtain ⟨hpending, hread⟩ := hd.of_insertAvailability ha
      -- the row is the first one: the status was AWAITING until now
      have hst := hI.current (hcur ho) (List.ne_nil_of_mem ha) hread
      have hrows : availabilityOf w'.db.toInterviews a.interviewRequestId =
          availabilityOf w.db.toInterviews a.interviewRequestId ++ [a] := by
        rw [htx.force, hpending]
        simp [availabilityOf, Write.apply, Interviews.modifyRequest]
      have hst' : w'.status a.interviewRequestId = some .readyForScheduling :=
        htx.status_of_set (by simp [hpending]) (by simp [hpending]) hst
      have hn := hI.awaiting hst
      refine ⟨?_, fun h => ?_, hreads⟩
      · rw [hrows, List.length_append, List.length_singleton]
        omega
      · rw [hst'] at h
        simp at h
    · have hrows : availabilityOf w'.db.toInterviews r = availabilityOf w.db.toInterviews r := by
        rw [htx.force]
        exact Write.availability_force fun a ha hr => hins ⟨a, ha, hr⟩
      refine ⟨by rw [hrows]; exact hI.rows, fun h => ?_, hreads⟩
      rw [hrows]
      refine hI.awaiting ?_
      cases hold : w.status r with
      | none =>
        rw [htx.status_none hd.not_insertRequest hold] at h
        simp at h
      | some st =>
        obtain ⟨st', hst', rfl | hset⟩ := htx.status hold
        · rw [← hst', h]
        · rw [hst'] at h
          obtain rfl := Option.some.inj h
          obtain ⟨⟨_, -, hfollows⟩, -⟩ := hd.of_setStatus hset
          exact absurd rfl hfollows.ne_awaiting

/-- **The gate holds** in an interleaving in which nothing is committed on a status that was changed
since the call has read it: at most one availability row is added, and no edit is late. -/
theorem gate_of_reaches [DecidableEq ι] (hcalls : ∀ i, SubmitOrUpdate (calls i) r) :
    (∀ P, Pool.Reaches machine (fun _ => AtCommit (Unmoved r)) (started pf calls w₀) P →
      (availabilityOf P.shared.db.toInterviews r).length ≤
        (availabilityOf w₀.db.toInterviews r).length + 1) ∧
    Pool.Ensures machine (fun _ => AtCommit (Unmoved r)) (fun _ => AtCommit (EditsInTime r))
      (started pf calls w₀) := by
  have hguarded : ∀ i, (calls i).Guarded r := fun i => (hcalls i).guarded
  have hstart : Gated (availabilityOf w₀.db.toInterviews r).length r (fun _ : ι => ({} : Session))
      { w₀ with log := [] } := ⟨Nat.le_succ _, fun _ => rfl, by simp⟩
  refine ⟨fun P h => (invariant_of_reaches hguarded (gated_step hcalls _) h hstart).rows, ?_⟩
  refine ensures_of_invariant hguarded (gated_step hcalls _)
    (fun loc i w c hI hd hcur _ => ?_) (fun i β o c s w ho h => absurd h ho) hstart
  rintro ⟨x, hx, hedit⟩
  obtain ⟨st, hst, hread⟩ := hd.of_edit hx hedit
  exact ⟨st, hI.current (hcur trivial) (List.ne_nil_of_mem hx) hread, hst⟩

/-- The request 10, before the candidate has answered. -/
def awaitingWorld : World := googleWorld .awaitingCandidateAvailability []

/-- A submission by the candidate of the request 10. -/
def sampleAnswer : Call := (sampleSubmit 10 540).1

theorem thirty_pos (d : ℤ) (h : Patch.value 30 = .value d) : 0 < d := by
  cases h
  decide

theorem noBuffer_nonneg (b : ℤ) (h : Patch.unset = .value b) : 0 ≤ b := by
  cases h

theorem noPanel_valid (ids : List Id) (h : Patch.unset = .value ids) : ids ≠ [] ∧ ids.Nodup := by
  cases h

/-- The interview is shortened to half an hour. -/
def sampleUpdate : Call :=
  .updateRequest 1 10
    { durationMinutes := .value 30
      duration_pos := thirty_pos
      buffer_nonneg := noBuffer_nonneg
      panelistIds_valid := noPanel_valid }

theorem submitOrUpdate_sample (i : Bool) : SubmitOrUpdate (pair sampleAnswer sampleUpdate i) 10 := by
  cases i with
  | true => exact .submit 2 10 _
  | false => exact .updateRequest 1 10 _

/-- The edit is committed while the submission is under way. -/
theorem gate_of_reaches_sample : ∃ P : Pool Effect Exc Response Session World Bool,
    P.shared.status 10 = some .readyForScheduling ∧
    (P.shared.db.requests 10).map (·.durationMinutes) = some 30 ∧
    (availabilityOf P.shared.db.toInterviews 10).length ≤ 0 + 1 := by
  obtain ⟨P, hP, hp⟩ := reaches_atCommit
    (started samplePlatform (pair sampleAnswer sampleUpdate) awaitingWorld) (fun _ => Unmoved 10)
    (steps false (answered 3) ++ steps true (answered 3 ++ [pick 11]) ++ steps false (answered 4) ++
      steps true (answered 7))
    (p := fun P => P.shared.status 10 = some .readyForScheduling ∧
      (P.shared.db.requests 10).map (·.durationMinutes) = some 30) (by decide +kernel)
  obtain ⟨hst, hlen⟩ := of_decide_eq_true hp
  exact ⟨P, hst, hlen, (gate_of_reaches submitOrUpdate_sample).1 P hP⟩

/-- **The gate does not hold among others.** Two submissions read AWAITING and both store a row; an
edit that has read AWAITING is committed after a submission. -/
theorem gate_fails :
    (∃ P : Pool Effect Exc Response Session World Bool,
      awaitingWorld.status 10 = some .awaitingCandidateAvailability ∧
      availabilityOf awaitingWorld.db.toInterviews 10 = [] ∧
      Pool.Reaches machine (fun _ => LocksHold)
        (started samplePlatform (fun _ => sampleAnswer) awaitingWorld) P ∧
      (availabilityOf P.shared.db.toInterviews 10).length = 2) ∧
    ¬ Pool.Ensures machine (fun _ => LocksHold) (fun _ => AtCommit (EditsInTime 10))
      (started samplePlatform (pair sampleAnswer sampleUpdate) awaitingWorld) := by
  constructor
  · obtain ⟨P, hP, hp⟩ := reaches_of_schedule
      (started samplePlatform (fun _ => sampleAnswer) awaitingWorld) (fun _ _ => locksHold_of_check)
      (steps true (answered 3 ++ [pick 11]) ++ steps false (answered 3 ++ [pick 12]) ++
        steps true (answered 7) ++ steps false (answered 7))
      (p := fun P => (availabilityOf P.shared.db.toInterviews 10).length = 2) (by decide +kernel)
    exact ⟨P, rfl, rfl, hP, of_decide_eq_true hp⟩
  · obtain ⟨P, hP, hp⟩ := reaches_of_schedule
      (started samplePlatform (pair sampleAnswer sampleUpdate) awaitingWorld)
      (fun _ _ => locksHold_of_check)
      (steps false (answered 3) ++ steps true (answered 3 ++ [pick 11] ++ answered 7) ++
        steps false (answered 3))
      (p := commitsNext false fun s w => ¬ EditsInTime 10 s w) (by decide +kernel)
    refine not_ensures hP hp (fun _ _ _ => ⟨rfl, .inr nofun⟩) fun s w h hD => ?_
    exact of_decide_eq_true h (hD trivial)

end InterviewScheduler.System
