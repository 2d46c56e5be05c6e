import InterviewScheduler.Core.Logic
import InterviewScheduler.Lifecycle.Invariants

/-! # The discipline of the handlers

What every commit of a handler meets (`Commits`). A handler that runs alone commits the transactions
of `Legal`. Among others it knows its session only: what it commits is then `Disciplined`, each status
that it writes follows from the last one it has read. `may` lists the statuses it may set.

The rest is how the proofs about the services speak of a session: nothing is under way (`Calm`), a
call outside leaves it as it was (`Same`), and at the end every calendar event is accounted for
(`Closed`). -/

namespace InterviewScheduler.Core.Session

open InterviewScheduler.Engine InterviewScheduler.Lifecycle

/-! ### What a session knows -/

/-- The last status of the request that was read from the database. -/
def LastRead (s : Session) (r : Id) (st : RequestStatus) : Prop := ∃ n, s.trace.reads r = some ⟨st, n⟩

/-- The last status that was read in the critical section of the lock. -/
def Decided (s : Session) (key : LockKey) (st : RequestStatus) : Prop :=
  ∃ cr, s.trace.critical = some cr ∧ cr.key = key ∧ cr.decided = some st

/-- The last status that was read from the database in the critical section of the lock, since the last
write there. -/
def Reread (s : Session) (key : LockKey) (st : RequestStatus) : Prop :=
  ∃ cr, s.trace.critical = some cr ∧ cr.key = key ∧ cr.reread = some st

/-- The request was not read from the database in the critical section of the lock. -/
def Kept (s : Session) (key : LockKey) : Prop :=
  ∃ cr, s.trace.critical = some cr ∧ cr.key = key ∧ cr.loaded = s.trace.reads key.requestId

/-- The slot was found in the run that was then the latest of the request. -/
def Chosen (s : Session) (r slotId : Id) : Prop :=
  ∃ run n st, s.trace.found = some ⟨slotId, run.id⟩ ∧ s.trace.ranked = some ⟨r, some run, n, st⟩

/-- The transaction has an audit record. -/
def Audits (s : Session) : Prop := ∃ row, .insertAudit row ∈ s.side

/-- A pending response is followed by a change of a calendar connection. -/
def Renews (s : Session) : Prop :=
  ∀ before after r u st, s.side = before ++ .setResponse r u st :: after →
    ∃ x ∈ after, x.isRenewal = true

/-- Nothing is under way. -/
structure Calm (s : Session) : Prop where
  pending : s.pending = []
  reported : s.reported = []
  owed : s.trace.owed = []
  dropped : s.trace.dropped = []

/-- The calendar events that were created and deleted are accounted for. -/
structure Closed (s : Session) : Prop where
  owed : s.trace.owed = []
  dropped : s.trace.dropped = []

/-- What a call outside leaves as it was. -/
structure Same (s s' : Session) : Prop where
  copies : s'.copies = s.copies
  pending : s'.pending = s.pending
  reported : s'.reported = s.reported
  trace : s'.trace = s.trace

/-- What the reading of a row keeps of the record. -/
structure Keeps (s s' : Session) : Prop where
  side : s'.side = s.side
  journal : s'.trace.journal = s.trace.journal
  found : s'.trace.found = s.trace.found
  ranked : s'.trace.ranked = s.trace.ranked
  inside : ∀ key token, s.Inside key token → s'.Inside key token

/-- The call has ended without a write. -/
structure Ended (s s' : Session) : Prop extends Closed s' where
  journal : s'.trace.journal = s.trace.journal

/-- A database call has failed, and the session with it. -/
structure Broken (s s' : Session) : Prop extends s.Ended s' where
  invalid : s'.invalid = true
  copies : s'.copies = fun _ => none

variable {s s' s'' : Session}

theorem Calm.closed (h : s.Calm) : s.Closed := ⟨h.owed, h.dropped⟩

theorem Same.refl (s : Session) : s.Same s := ⟨rfl, rfl, rfl, rfl⟩

theorem Same.trans (h : s.Same s') (h' : s'.Same s'') : s.Same s'' :=
  ⟨h'.copies.trans h.copies, h'.pending.trans h.pending, h'.reported.trans h.reported,
    h'.trace.trans h.trace⟩

theorem Same.calm (h : s.Same s') (hs : s.Calm) : s'.Calm where
  pending := h.pending.trans hs.pending
  reported := h.reported.trans hs.reported
  owed := by rw [h.trace]; exact hs.owed
  dropped := by rw [h.trace]; exact hs.dropped

theorem Same.ended (h : s.Same s') (hs : s.Calm) : s.Ended s' where
  toClosed := (h.calm hs).closed
  journal := by rw [h.trace]

theorem Ended.of_same (h : s'.Ended s'') (hs : s.Same s') : s.Ended s'' where
  toClosed := h.toClosed
  journal := by rw [h.journal, hs.trace]

theorem Broken.of_same (h : s'.Broken s'') (hs : s.Same s') : s.Broken s'' where
  toEnded := h.toEnded.of_same hs
  invalid := h.invalid
  copies := h.copies

theorem same_touch (s : Session) (w : World) : s.Same (s.touch w) := ⟨rfl, rfl, rfl, rfl⟩

theorem same_expired (s : Session) (b : Bool) : s.Same { s with expired := b } :=
  ⟨rfl, rfl, rfl, rfl⟩

/-- A side write that is not a reconciliation task. -/
theorem same_side (s : Session) {x : SideWrite} (hx : x.reports = []) :
    s.Same { s with side := s.side ++ [x] } where
  copies := rfl
  pending := rfl
  reported := by simp [reported, hx]
  trace := rfl

theorem broken_fail (s : Session) (h : s.trace.owed = []) : s.Broken s.fail where
  owed := by simp [Session.fail, Trace.fail, h]
  dropped := rfl
  journal := rfl
  invalid := rfl
  copies := rfl

/-- A flush or a commit has failed. -/
theorem broken_expired (s : Session) (b : Bool) (h : s.trace.owed = []) :
    s.Broken { s with expired := b }.fail :=
  (broken_fail { s with expired := b } h).of_same (s.same_expired b)

theorem ended_fail (s : Session) (h : s.trace.owed = []) : s.Ended s.fail :=
  (s.broken_fail h).toEnded

theorem Calm.committed (h : s.Calm) : s.Same s.committed where
  copies := rfl
  pending := h.pending.symm
  reported := h.reported.symm
  trace := by
    obtain ⟨hp, -, ho, hd⟩ := h
    have ht : s.trace.commit [] s.side = s.trace := by
      cases ht : s.trace
      simp_all [Trace.commit]
    simp [Session.committed, hp, ht]

theorem Calm.decide (h : s.Calm) (st : RequestStatus) :
    Calm { s with trace := s.trace.decide st } := ⟨h.pending, h.reported, h.owed, h.dropped⟩

theorem Calm.load (h : s.Calm) (w : World) (r : Id) (row : Option InterviewRequest) :
    ((s.touch w).load w r row).Calm := by
  cases row <;> exact ⟨h.pending, h.reported, h.owed, h.dropped⟩

theorem keeps_load (s : Session) (w : World) (r : Id) (row : Option InterviewRequest) :
    s.Keeps ((s.touch w).load w r row) := by
  cases row with
  | none => exact ⟨rfl, rfl, rfl, rfl, fun _ _ h => h⟩
  | some row => exact ⟨rfl, rfl, rfl, rfl, fun _ _ h => h.of_same (s.sameSection_load w r (some row))⟩

/-- In the critical section a row that is read is what the call decides on. -/
theorem decided_load {w : World} {key : LockKey} {token : Option Id} (h : s.Inside key token) (r : Id)
    (row : InterviewRequest) : ((s.touch w).load w r (some row)).Decided key row.status := by
  obtain ⟨cr, hcr, hkey, -⟩ := h
  by_cases hr : key.requestId = r
  · refine ⟨{ cr with decided := some row.status, reread := some row.status }, ?_, hkey, rfl⟩
    simp [load, Trace.read, Trace.decide, Trace.reread, hcr, hkey, hr]
  · refine ⟨{ cr with decided := some row.status }, ?_, hkey, rfl⟩
    simp [load, Trace.read, Trace.decide, Trace.reread, hcr, hkey, hr]

theorem reread_load {w : World} {key : LockKey} {token : Option Id} (h : s.Inside key token)
    (row : InterviewRequest) :
    ((s.touch w).load w key.requestId (some row)).Reread key row.status := by
  obtain ⟨cr, hcr, hkey, -⟩ := h
  refine ⟨{ cr with decided := some row.status, reread := some row.status }, ?_, hkey, rfl⟩
  simp [load, Trace.read, Trace.decide, Trace.reread, hcr, hkey]

theorem decided_decide {key : LockKey} {token : Option Id} (h : s.Inside key token)
    (st : RequestStatus) : Decided { s with trace := s.trace.decide st } key st := by
  obtain ⟨cr, hcr, hkey, -⟩ := h
  exact ⟨{ cr with decided := some st }, by simp [Trace.decide, hcr], hkey, rfl⟩

theorem inside_enter (s : Session) (w : World) (key : LockKey) (token : Option Id) :
    (s.enter w key token).Inside key token := ⟨_, rfl, rfl, rfl⟩

theorem kept_enter (s : Session) (w : World) (key : LockKey) (token : Option Id) :
    (s.enter w key token).Kept key := ⟨_, rfl, rfl, rfl⟩

theorem Kept.decide {key : LockKey} (h : s.Kept key) (st : RequestStatus) :
    Kept { s with trace := s.trace.decide st } key := by
  obtain ⟨cr, hcr, hkey, hloaded⟩ := h
  exact ⟨{ cr with decided := some st }, by simp [Trace.decide, hcr], hkey, hloaded⟩

theorem Calm.enter (h : s.Calm) (w : World) (key : LockKey) (token : Option Id) :
    (s.enter w key token).Calm := ⟨h.pending, h.reported, h.owed, h.dropped⟩

theorem Calm.leave (h : s.Calm) : s.leave.Calm := ⟨h.pending, h.reported, h.owed, h.dropped⟩

theorem Closed.leave (h : s.Closed) : s.leave.Closed := ⟨h.owed, h.dropped⟩

/-- A response that is followed by the change of a connection. -/
theorem renews_append {s : Session} {x : SideWrite} (hx : x.isRenewal = true) {side : List SideWrite}
    (hside : s.side = side ++ [x]) : s.Renews := by
  intro before after r u st h
  rw [hside] at h
  rcases List.eq_nil_or_concat' after with rfl | ⟨init, y, rfl⟩
  · have h := List.append_inj' h rfl
    obtain rfl : x = .setResponse r u st := by simpa using h.2
    simp [SideWrite.isRenewal] at hx
  · have h : side ++ [x] = (before ++ .setResponse r u st :: init) ++ [y] := by simpa using h
    obtain rfl : x = y := by simpa using (List.append_inj' h rfl).2
    exact ⟨x, by simp, hx⟩

/-- No response is pending. -/
theorem renews_of_not_mem {s : Session} (h : ∀ r u st, SideWrite.setResponse r u st ∉ s.side) :
    s.Renews := by
  intro before after r u st hside
  exact absurd (hside ▸ by simp) (h r u st)

/-- A status is set that differs from the one the session holds. -/
theorem stage_setStatus {r : Id} {st : RequestStatus} {row : InterviewRequest}
    (hrow : s.copies r = some row) (hne : row.status ≠ st) :
    s.stage (.setStatus r st) =
      { s.modifyCopy r (fun row => { row with status := st }) with
        pending := s.pending ++ [.setStatus r st] } := by
  simp [stage, hrow, hne]

/-- The transaction is committed: nothing is under way any more. -/
theorem calm_committed (h : s.trace.owed = []) : s.committed.Calm where
  pending := rfl
  reported := rfl
  owed := by simp [Session.committed, Trace.commit, h]
  dropped := rfl

end InterviewScheduler.Core.Session

namespace InterviewScheduler.Lifecycle

open InterviewScheduler.Engine InterviewScheduler.Core InterviewScheduler.Effects

/-! ### What a handler may commit -/

/-- The statuses that a handler may set, by request. -/
abbrev May := Id → RequestStatus → Prop

/-- The cancellation of the event that was looked up, if there was one. -/
def cancelLooked (event : Option Id) : List Write := (event.map Write.cancelEvent).toList

/-- **What a handler commits among others.** Each status that it writes follows from the last one it
has read, and one that it writes under a lock from the last one it has read there. A booking and the
outcome of a generation follow from a status that was read there from the database, and a release from
one that was read before. -/
inductive Disciplined (may : May) (s : Session) : Prop
  | quiet (h : s.pending = [])
  | edit {r : Id} {st : RequestStatus} (hpending : ∀ x ∈ s.pending, Edits r x)
      (hread : s.LastRead r st) (hst : st ∈ editableStatuses)
  | submit {r : Id} {a : CandidateAvailability} (hmay : may r .readyForScheduling)
      (hpending : s.pending = [.insertAvailability a, .setStatus r .readyForScheduling])
      (ha : a.interviewRequestId = r) (hread : s.LastRead r .awaitingCandidateAvailability)
  | book {r : Id} {e : InterviewEvent} {slot : Id} (hmay : may r .booked)
      (hpending : s.pending = [.insertEvent e, .setStatus r .booked, .selectSlot slot])
      (he : e.ConfirmedFor r) (hread : s.LastRead r .recommended)
      (hdec : s.Decided (.booking r) .recommended) (hchosen : s.Chosen r slot)
      (hreread : s.Reread (.booking r) .recommended)
  | recommend {r : Id} {run : RecommendationRun} (hmay : may r .recommended)
      (hpending : s.pending = [.insertRun run, .setStatus r .recommended])
      (hrun : run.interviewRequestId = r) (hread : s.LastRead r .readyForScheduling)
      (hreread : s.Reread (.recommend r) .readyForScheduling)
  | fail {r : Id} (hmay : may r .failed) (hpending : s.pending = [.setStatus r .failed])
      (hread : s.LastRead r .readyForScheduling)
      (hreread : s.Reread (.recommend r) .readyForScheduling)
  | resume {r : Id} (hmay : may r .readyForScheduling)
      (hpending : s.pending = [.setStatus r .readyForScheduling]) (hread : s.LastRead r .booked)
  | release {r : Id} {event : Option Id} {n : ℕ} {st st' : RequestStatus} (hmay : may r st')
      (hpending : s.pending = cancelLooked event ++ [.setStatus r st'])
      (hlooked : s.trace.looked = some ⟨r, event, n⟩) (hrel : Releases st st')
      (hread : s.LastRead r st) (hdec : s.Decided (.booking r) st) (hkept : s.Kept (.booking r))
  | complete {r : Id} {outcome : Outcome} {notes : Option String} (hmay : may r .completed)
      (hpending : s.pending = [.setOutcome r outcome notes, .setStatus r .completed])
      (hread : s.LastRead r .booked)
  | recomplete {r : Id} {outcome : Outcome} {notes : Option String}
      (hpending : s.pending = [.setOutcome r outcome notes]) (hread : s.LastRead r .completed)

/-- The status that a handler sets, by the one that it has read last. -/
inductive Follows : RequestStatus → RequestStatus → Prop
  | submit : Follows .awaitingCandidateAvailability .readyForScheduling
  | recommend : Follows .readyForScheduling .recommended
  | fail : Follows .readyForScheduling .failed
  | book : Follows .recommended .booked
  | resume : Follows .booked .readyForScheduling
  | release {st st' : RequestStatus} (h : Releases st st') : Follows st st'
  | complete : Follows .booked .completed

theorem Follows.not_terminal {st st' : RequestStatus} (h : Follows st st') :
    st ≠ .cancelled ∧ st ≠ .completed := by
  cases h with
  | release h =>
    rcases h with ⟨rfl, -⟩ | ⟨h, h', -⟩
    · simp
    · exact ⟨h, h'⟩
  | _ => simp

/-- A status that is set is a new one. -/
theorem Follows.ne {st st' : RequestStatus} (h : Follows st st') : st ≠ st' := by
  cases h with
  | release h =>
    rcases h with ⟨rfl, rfl⟩ | ⟨h, -, rfl⟩
    · simp
    · exact h
  | _ => simp

/-- No handler sets AWAITING_CANDIDATE_AVAILABILITY. -/
theorem Follows.ne_awaiting {st st' : RequestStatus} (h : Follows st st') :
    st' ≠ .awaitingCandidateAvailability := by
  cases h with
  | release h => rcases h with ⟨-, rfl⟩ | ⟨-, -, rfl⟩ <;> simp
  | _ => simp

section Disciplined

variable {may : May} {s : Session} {r : Id} {st : RequestStatus}

/-- **Each status that is set follows from the last one that was read.** -/
theorem Disciplined.of_setStatus (h : Disciplined may s) (hmem : .setStatus r st ∈ s.pending) :
    (∃ st₀, s.LastRead r st₀ ∧ Follows st₀ st) ∧ may r st ∧
      ∀ x, .setStatus r x ∈ s.pending → x = st := by
  cases h with
  | quiet h => simp [h] at hmem
  | edit h => exact (h _ hmem).elim
  | submit hmay h _ hread =>
    rw [h] at hmem ⊢
    obtain ⟨rfl, rfl⟩ := by simpa using hmem
    exact ⟨⟨_, hread, .submit⟩, hmay, by simp⟩
  | book hmay h _ hread =>
    rw [h] at hmem ⊢
    obtain ⟨rfl, rfl⟩ := by simpa using hmem
    exact ⟨⟨_, hread, .book⟩, hmay, by simp⟩
  | recommend hmay h _ hread =>
    rw [h] at hmem ⊢
    obtain ⟨rfl, rfl⟩ := by simpa using hmem
    exact ⟨⟨_, hread, .recommend⟩, hmay, by simp⟩
  | fail hmay h hread =>
    rw [h] at hmem ⊢
    obtain ⟨rfl, rfl⟩ := by simpa using hmem
    exact ⟨⟨_, hread, .fail⟩, hmay, by simp⟩
  | resume hmay h hread =>
    rw [h] at hmem ⊢
    obtain ⟨rfl, rfl⟩ := by simpa using hmem
    exact ⟨⟨_, hread, .resume⟩, hmay, by simp⟩
  | @release r' event n st₀ st' hmay h _ hrel hread =>
    rw [h] at hmem ⊢
    have hnot : ∀ y x, .setStatus y x ∉ cancelLooked event := fun y x => by
      cases event <;> simp [cancelLooked]
    obtain ⟨rfl, rfl⟩ : r = r' ∧ st = st' := by simpa [hnot] using hmem
    exact ⟨⟨_, hread, .release hrel⟩, hmay, by simp [hnot]⟩
  | complete hmay h hread =>
    rw [h] at hmem ⊢
    obtain ⟨rfl, rfl⟩ := by simpa using hmem
    exact ⟨⟨_, hread, .complete⟩, hmay, by simp⟩
  | recomplete h => simp [h] at hmem

/-- A request is created by no handler that runs among others. -/
theorem Disciplined.not_insertRequest (h : Disciplined may s) (row : InterviewRequest)
    (ps : List InterviewParticipant) : .insertRequest row ps ∉ s.pending := by
  intro hmem
  cases h with
  | edit h => exact (h _ hmem).elim
  | @release _ event _ _ _ _ h =>
    rw [h] at hmem
    cases event <;> simp [cancelLooked] at hmem
  | _ => simp_all

/-- An event is inserted with the status BOOKED. -/
theorem Disciplined.of_insertEvent {e : InterviewEvent} (h : Disciplined may s)
    (hmem : .insertEvent e ∈ s.pending) : .setStatus e.interviewRequestId .booked ∈ s.pending := by
  cases h with
  | quiet h => simp [h] at hmem
  | edit h => exact (h _ hmem).elim
  | book _ h he =>
    rw [h] at hmem ⊢
    obtain rfl := by simpa using hmem
    simp [he.1]
  | @release _ event _ _ _ _ h =>
    rw [h] at hmem
    cases event <;> simp [cancelLooked] at hmem
  | _ => simp_all

/-- Availability is stored when the candidate's answer is awaited. -/
theorem Disciplined.of_insertAvailability {a : CandidateAvailability} (h : Disciplined may s)
    (hmem : .insertAvailability a ∈ s.pending) :
    s.pending = [.insertAvailability a, .setStatus a.interviewRequestId .readyForScheduling] ∧
      s.LastRead a.interviewRequestId .awaitingCandidateAvailability := by
  cases h with
  | edit h => exact (h _ hmem).elim
  | submit _ h ha hread =>
    rw [h] at hmem
    obtain rfl := by simpa using hmem
    rw [ha]
    exact ⟨h, hread⟩
  | @release _ event _ _ _ _ h =>
    rw [h] at hmem
    cases event <;> simp [cancelLooked] at hmem
  | _ => simp_all

/-- A request is edited when it was read in an editable status. -/
theorem Disciplined.of_edit {x : Write} (h : Disciplined may s) (hmem : x ∈ s.pending)
    (hx : Edits r x) : ∃ st ∈ editableStatuses, s.LastRead r st := by
  cases h with
  | @edit r' st h hread hst =>
    have hx' := h x hmem
    obtain rfl : r' = r := by
      cases x <;> simp_all [Edits]
    exact ⟨st, hst, hread⟩
  | @release _ event _ _ _ _ h =>
    refine absurd hx ((show ∀ x ∈ s.pending, ¬ Edits r x from ?_) x hmem)
    rw [h]
    cases event <;> simp [cancelLooked, Edits]
  | _ => exact absurd hx ((show ∀ x ∈ s.pending, ¬ Edits r x by simp [*, Edits]) x hmem)

/-- The slot that is selected was found in the run that was then the latest. -/
theorem Disciplined.of_selectSlot {slotId : Id} (h : Disciplined may s)
    (hmem : .selectSlot slotId ∈ s.pending) : ∃ r, may r .booked ∧ s.Chosen r slotId := by
  cases h with
  | edit h => exact (h _ hmem).elim
  | @book r _ _ hmay h _ _ _ hchosen =>
    rw [h] at hmem
    obtain rfl := by simpa using hmem
    exact ⟨r, hmay, hchosen⟩
  | @release _ event _ _ _ _ h =>
    rw [h] at hmem
    cases event <;> simp [cancelLooked] at hmem
  | _ => simp_all

/-- A release cancels the event that it has looked up. -/
theorem Disciplined.of_released (h : Disciplined may s)
    (hmem : .setStatus r st ∈ s.pending) (hst : st = .cancelled ∨ st = .rescheduling) :
    ∃ event n, s.trace.looked = some ⟨r, event, n⟩ ∧
      s.pending = cancelLooked event ++ [.setStatus r st] := by
  cases h with
  | quiet h => simp [h] at hmem
  | edit h => exact (h _ hmem).elim
  | @release r' event n st₀ st' _ h hlooked _ =>
    have hnot : ∀ y x, .setStatus y x ∉ cancelLooked event := fun y x => by
      cases event <;> simp [cancelLooked]
    have hmem' := hmem
    rw [h] at hmem'
    obtain ⟨rfl, rfl⟩ : r = r' ∧ st = st' := by simpa [hnot] using hmem'
    exact ⟨event, n, hlooked, h⟩
  | _ => simp_all

/-- A booking and a release follow from what was read in the critical section. -/
theorem Disciplined.of_locked (h : Disciplined may s) (hmem : .setStatus r st ∈ s.pending)
    (hst : st = .booked ∨ st = .cancelled ∨ st = .rescheduling) :
    ∃ st₀, s.LastRead r st₀ ∧ s.Decided (.booking r) st₀ ∧
      (st = .booked ∧ st₀ = .recommended ∧ s.Reread (.booking r) st₀ ∨
        Releases st₀ st ∧ s.Kept (.booking r)) := by
  cases h with
  | quiet h => simp [h] at hmem
  | edit h => exact (h _ hmem).elim
  | book _ h _ hread hdec _ hreread =>
    rw [h] at hmem
    obtain ⟨rfl, rfl⟩ := by simpa using hmem
    exact ⟨_, hread, hdec, .inl ⟨rfl, rfl, hreread⟩⟩
  | @release r' event n st₀ st' _ h _ hrel hread hdec hkept =>
    have hnot : ∀ y x, .setStatus y x ∉ cancelLooked event := fun y x => by
      cases event <;> simp [cancelLooked]
    rw [h] at hmem
    obtain ⟨rfl, rfl⟩ : r = r' ∧ st = st' := by simpa [hnot] using hmem
    exact ⟨st₀, hread, hdec, .inr ⟨hrel, hkept⟩⟩
  | _ => simp_all

/-- An event is cancelled by a release only. -/
theorem Disciplined.of_cancelEvent {id : Id} (h : Disciplined may s)
    (hmem : .cancelEvent id ∈ s.pending) :
    ∃ r st, .setStatus r st ∈ s.pending ∧ (st = .cancelled ∨ st = .rescheduling) := by
  cases h with
  | quiet h => simp [h] at hmem
  | edit h => exact (h _ hmem).elim
  | @release r event n st st' _ h _ hrel =>
    refine ⟨r, st', by simp [h], ?_⟩
    rcases hrel with ⟨-, rfl⟩ | ⟨-, -, rfl⟩
    · exact .inr rfl
    · exact .inl rfl
  | _ => simp_all

end Disciplined

/-- **What every transaction meets.** -/
structure Transacts (alone : Prop) (may : May) (P : Interviews → Id → Prop) (s : Session)
    (T : Interviews) : Prop where
  legal : alone → WellFormed T → Legal P T s.pending
  disciplined : ¬ alone → Disciplined may s
  /-- the row of a booking refers to a calendar event that the call has created -/
  hosted : ∀ e, .insertEvent e ∈ s.pending → e.provider = .google →
    e.calendarEventId ∈ s.trace.owed
  /-- a calendar event that was deleted is that of a CONFIRMED row which is now cancelled -/
  dropped : alone → ∀ id ∈ s.trace.dropped, ∃ e ∈ T.events, e.calendarEventId = id ∧
    e.status = .confirmed ∧ e.provider = .google ∧ .cancelEvent e.id ∈ s.pending

/-- **What every commit meets.** The first transaction of a call has an audit record; before it only
calendar connections are committed, with the response that may be pending then. -/
structure Commits (alone : Prop) (may : May) (P : Interviews → Id → Prop) (s : Session)
    (T : Interviews) : Prop extends Transacts alone may P s T where
  audited : s.trace.journal = [] → s.Audits ∨ s.pending = [] ∧ s.Renews

/-- The logic of the ten operations. -/
abbrev lifecycle (alone : Prop) (may : May) (P : Interviews → Id → Prop) :
    Logic Effect Exc (Session × Interviews) :=
  handlers alone (∃ r, may r .booked) (Commits alone may P)

variable {alone : Prop} {may : May} {P : Interviews → Id → Prop} {s s' : Session} {T : Interviews}
  {α β : Type}

theorem Disciplined.same (h : Disciplined may s) (hs : s.Same s') : Disciplined may s' := by
  obtain ⟨-, hp, -, ht⟩ := hs
  have hread : ∀ {r st}, s.LastRead r st → s'.LastRead r st := fun h => by
    rwa [Session.LastRead, ht]
  have hdec : ∀ {key st}, s.Decided key st → s'.Decided key st := fun h => by
    rwa [Session.Decided, ht]
  have hreread : ∀ {key st}, s.Reread key st → s'.Reread key st := fun h => by
    rwa [Session.Reread, ht]
  cases h with
  | quiet h => exact .quiet (hp.trans h)
  | edit h hr hst => exact .edit (hp ▸ h) (hread hr) hst
  | submit hmay h ha hr => exact .submit hmay (hp.trans h) ha (hread hr)
  | book hmay h he hr hd hc hre =>
    exact .book hmay (hp.trans h) he (hread hr) (hdec hd) (by rwa [Session.Chosen, ht]) (hreread hre)
  | recommend hmay h hrun hr hd => exact .recommend hmay (hp.trans h) hrun (hread hr) (hreread hd)
  | fail hmay h hr hd => exact .fail hmay (hp.trans h) (hread hr) (hreread hd)
  | resume hmay h hr => exact .resume hmay (hp.trans h) (hread hr)
  | release hmay h hlooked hrel hr hd hk =>
    exact .release hmay (hp.trans h) (by rwa [ht]) hrel (hread hr) (hdec hd) (by rwa [Session.Kept, ht])
  | complete hmay h hr => exact .complete hmay (hp.trans h) (hread hr)
  | recomplete h hr => exact .recomplete (hp.trans h) (hread hr)

theorem Transacts.same (h : Transacts alone may P s T) (hs : s.Same s') :
    Transacts alone may P s' T where
  legal ha hT := hs.pending ▸ h.legal ha hT
  disciplined ha := (h.disciplined ha).same hs
  hosted := by rw [hs.pending, hs.trace]; exact h.hosted
  dropped := by rw [hs.pending, hs.trace]; exact h.dropped

/-- A commit of a session in which nothing is pending. -/
theorem commits_quiet (hp : s.pending = []) (hd : s.trace.dropped = [])
    (haudit : s.trace.journal = [] → s.Audits ∨ s.Renews) : Commits alone may P s T where
  legal _ _ := hp ▸ .stay
  disciplined _ := .quiet hp
  hosted := by simp [hp]
  dropped := by simp [hd]
  audited h := (haudit h).imp_right fun h => ⟨hp, h⟩

/-- The session holds the row of a request as it was last read, and nothing is under way. -/
structure Holds (alone : Prop) (r : Id) (row : InterviewRequest) (s : Session) (T : Interviews) : Prop
    extends s.Calm where
  copy : s.copies r = some row
  read : s.LastRead r row.status
  truth : alone → T.requests r = some row

theorem Holds.same {r : Id} {row : InterviewRequest} (h : Holds alone r row s T) (hs : s.Same s') :
    Holds alone r row s' T where
  toCalm := hs.calm h.toCalm
  copy := by rw [hs.copies]; exact h.copy
  read := by rw [Session.LastRead, hs.trace]; exact h.read
  truth := h.truth

/-- A row that was just read. -/
theorem holds_load {r : Id} {row : InterviewRequest} {w : World} (hs : s.Calm)
    (hrow : w.db.requests r = some row) (hT : alone → w.db.toInterviews = T) :
    Holds alone r row ((s.touch w).load w r (some row)) T where
  toCalm := hs.load w r (some row)
  copy := by simp
  read := ⟨w.log.length, by simp [Session.load, Trace.read, Trace.reread, Trace.decide]⟩
  truth ha := by rw [← hT ha]; exact hrow

/-- The critical section of a call that began at `s₀` and decides on `row`. -/
structure Guarded (alone : Prop) (key : LockKey) (r : Id) (row : InterviewRequest) (s₀ s : Session)
    (T : Interviews) : Prop extends Holds alone r row s T where
  decided : s.Decided key row.status
  journal : s.trace.journal = s₀.trace.journal
  found : s.trace.found = s₀.trace.found
  ranked : s.trace.ranked = s₀.trace.ranked

section Guarded

variable {key : LockKey} {r : Id} {row : InterviewRequest} {s₀ : Session}

theorem Guarded.same (h : Guarded alone key r row s₀ s T) (hs : s.Same s') :
    Guarded alone key r row s₀ s' T where
  toHolds := h.toHolds.same hs
  decided := by rw [Session.Decided, hs.trace]; exact h.decided
  journal := by rw [hs.trace]; exact h.journal
  found := by rw [hs.trace]; exact h.found
  ranked := by rw [hs.trace]; exact h.ranked

/-- The CONFIRMED event was looked up. -/
theorem Guarded.look (h : Guarded alone key r row s₀ s T) (w : World) (lk : Lookup) :
    Guarded alone key r row s₀ { s.touch w with trace := { s.trace with looked := some lk } } T where
  toHolds := ⟨⟨h.pending, h.reported, h.owed, h.dropped⟩, h.copy, h.read, h.truth⟩
  decided := h.decided
  journal := h.journal
  found := h.found
  ranked := h.ranked

/-- The critical section of a call that decides on a row which it has read there from the database. -/
structure GuardedAnew (alone : Prop) (key : LockKey) (r : Id) (row : InterviewRequest)
    (s₀ s : Session) (T : Interviews) : Prop extends Guarded alone key r row s₀ s T where
  reread : s.Reread key row.status

theorem GuardedAnew.same (h : GuardedAnew alone key r row s₀ s T) (hs : s.Same s') :
    GuardedAnew alone key r row s₀ s' T where
  toGuarded := h.toGuarded.same hs
  reread := by rw [Session.Reread, hs.trace]; exact h.reread

theorem GuardedAnew.look (h : GuardedAnew alone key r row s₀ s T) (w : World) (lk : Lookup) :
    GuardedAnew alone key r row s₀ { s.touch w with trace := { s.trace with looked := some lk } } T where
  toGuarded := h.toGuarded.look w lk
  reread := h.reread

/-- The critical section of a call that decides, among others, on a row that it has read before. -/
structure GuardedOnce (alone : Prop) (key : LockKey) (r : Id) (row : InterviewRequest)
    (s₀ s : Session) (T : Interviews) : Prop extends Guarded alone key r row s₀ s T where
  kept : ¬ alone → s.Kept key

theorem GuardedOnce.look (h : GuardedOnce alone key r row s₀ s T) (w : World) (lk : Lookup) :
    GuardedOnce alone key r row s₀ { s.touch w with trace := { s.trace with looked := some lk } } T where
  toGuarded := h.toGuarded.look w lk
  kept := h.kept

theorem Guarded.ended (h : Guarded alone key r row s₀ s T) : s₀.Ended s :=
  ⟨h.toCalm.closed, h.journal⟩

theorem Guarded.ended_of_ended (h : Guarded alone key r row s₀ s T) (hs : s.Ended s') :
    s₀.Ended s' :=
  ⟨hs.toClosed, hs.journal.trans h.journal⟩

end Guarded

/-! ### Calls outside -/

/-- What a call outside leaves: the session as it was, or an exception other than an `AppError`. -/
def Asked (s : Session) (T : Interviews) : Except Exc α → Session × Interviews → Prop
  | .ok _, v => s.Same v.1 ∧ v.2 = T
  | .error e, v => (s.Same v.1 ∨ e.isApp = false ∧ s.Broken v.1) ∧ v.2 = T

/-- A call that leaves the session as it was, whatever it answers. -/
def Unchanged (s : Session) (T : Interviews) : Except Exc α → Session × Interviews → Prop :=
  fun _ v => s.Same v.1 ∧ v.2 = T

theorem Asked.of_same {r : Except Exc α} {v : Session × Interviews} (h : Asked s' T r v)
    (hs : s.Same s') : Asked s T r v := by
  cases r with
  | ok a => exact ⟨hs.trans h.1, h.2⟩
  | error e => exact ⟨h.1.imp hs.trans fun h => ⟨h.1, h.2.of_same hs⟩, h.2⟩

theorem Unchanged.asked {r : Except Exc α} {v : Session × Interviews} (h : Unchanged s T r v) :
    Asked s T r v := by
  cases r with
  | ok a => exact h
  | error e => exact ⟨.inl h.1, h.2⟩

/-- A call outside, followed by the rest of a program. -/
theorem wp_bind_asked {p : M α} {f : α → M β} {Q : Except Exc β → Session × Interviews → Prop}
    (hp : wp (lifecycle alone may P) p (Asked s T) (s, T))
    (herr : ∀ e s', (s.Same s' ∨ e.isApp = false ∧ s.Broken s') → Q (.error e) (s', T))
    (hf : ∀ a s', s.Same s' → wp (lifecycle alone may P) (f a) Q (s', T)) :
    wp (lifecycle alone may P) (p >>= f) Q (s, T) := by
  refine wp_bind (wp_mono hp ?_)
  rintro (e | a) ⟨s', T'⟩ ⟨h, rfl⟩
  · exact herr e s' h
  · exact hf a s' h

/-- Whatever a call outside answers, a calm session has ended well. -/
theorem ended_of_asked {e : Exc} (hs : s.Calm) (h : s.Same s' ∨ e.isApp = false ∧ s.Broken s') :
    s.Ended s' := h.elim (·.ended hs) (·.2.toEnded)

/-- Two calls outside, one after the other. -/
theorem asked_bind {p : M α} {f : α → M β} (hs : s.Calm)
    (hp : wp (lifecycle alone may P) p (Asked s T) (s, T))
    (hf : ∀ a s', s'.Calm → wp (lifecycle alone may P) (f a) (Asked s' T) (s', T)) :
    wp (lifecycle alone may P) (p >>= f) (Asked s T) (s, T) :=
  wp_bind_asked hp (fun _ _ h => ⟨h, rfl⟩) fun a s' hsame =>
    wp_mono (hf a s' (hsame.calm hs)) fun _ _ h => h.of_same hsame

/-- The same, when what follows needs more than a calm session. -/
theorem asked_bind_same {p : M α} {f : α → M β}
    (hp : wp (lifecycle alone may P) p (Asked s T) (s, T))
    (hf : ∀ a s', s.Same s' → wp (lifecycle alone may P) (f a) (Asked s' T) (s', T)) :
    wp (lifecycle alone may P) (p >>= f) (Asked s T) (s, T) :=
  wp_bind_asked hp (fun _ _ h => ⟨h, rfl⟩) fun a s' hsame =>
    wp_mono (hf a s' hsame) fun _ _ h => h.of_same hsame

theorem asked_pure {a : α} : wp (lifecycle alone may P) (pure a) (Asked s T) (s, T) :=
  wp_pure ⟨.refl s, rfl⟩

theorem asked_throw {e : Exc} : wp (lifecycle alone may P) (throw e : M α) (Asked s T) (s, T) :=
  wp_throw ⟨.inl (.refl s), rfl⟩

theorem asked_raiseIf {c : Prop} [Decidable c] {e : Exc} :
    wp (lifecycle alone may P) (Prog.raiseIf c e) (Asked s T) (s, T) :=
  wp_raiseIf (fun _ => ⟨.inl (.refl s), rfl⟩) fun _ => ⟨.refl s, rfl⟩

theorem asked_orRaise {x : Option α} {e : Exc} :
    wp (lifecycle alone may P) (Prog.orRaise x e) (Asked s T) (s, T) :=
  wp_orRaise (fun _ => ⟨.inl (.refl s), rfl⟩) fun _ _ => ⟨.refl s, rfl⟩

theorem asked_uuid4 : wp (lifecycle alone may P) uuid4 (Asked s T) (s, T) :=
  wp_uuid4 fun _ => ⟨.refl s, rfl⟩

theorem asked_now : wp (lifecycle alone may P) now (Asked s T) (s, T) :=
  wp_now fun _ => ⟨.refl s, rfl⟩

theorem asked_dbSelect (hs : s.trace.owed = []) {query : ℕ → Db → α} :
    wp (lifecycle alone may P) (dbSelect query) (Asked s T) (s, T) :=
  wp_dbSelect (fun _ he => ⟨.inr ⟨he, s.broken_fail hs⟩, rfl⟩) fun _ w _ => ⟨s.same_touch w, rfl⟩

theorem asked_dbFlush (hs : s.trace.owed = []) :
    wp (lifecycle alone may P) dbFlush (Asked s T) (s, T) :=
  wp_dbFlush (fun _ he => ⟨.inr ⟨he, s.broken_expired true hs⟩, rfl⟩)
    fun w => ⟨s.same_touch w, rfl⟩

theorem asked_dbCommit (hs : s.Calm) (haudit : s.trace.journal = [] → s.Audits ∨ s.Renews) :
    wp (lifecycle alone may P) dbCommit (Asked s T) (s, T) :=
  wp_dbCommit (commits_quiet hs.pending hs.dropped haudit)
    (fun _ b he => ⟨.inr ⟨he, s.broken_expired b hs.owed⟩, rfl⟩)
    ⟨hs.committed, by simp [hs.pending]⟩

/-- The change of a calendar connection is committed on its own. -/
theorem asked_renew (hs : s.Calm) {x : SideWrite} (hx : x.isRenewal = true) {a : α} {f : α → M β}
    (hf : ∀ s', s'.Calm → wp (lifecycle alone may P) (f a) (Asked s' T) (s', T)) :
    wp (lifecycle alone may P) ((do dbAddSide x; dbFlush; pure a) >>= fun a => dbCommit >>= fun _ =>
      f a) (Asked s T) (s, T) := by
  have hreports : x.reports = [] := by
    cases x <;> first | rfl | simp [SideWrite.isRenewal] at hx
  have h₁ := s.same_side hreports
  refine wp_bind (wp_bind (wp_dbAddSide (wp_bind (wp_dbFlush (fun e he => ?_) fun w => ?_))))
  · have hexpired := h₁.trans (Session.same_expired _ true)
    exact ⟨.inr ⟨he, (Session.broken_fail _ (hexpired.calm hs).owed).of_same hexpired⟩, rfl⟩
  have h₂ := h₁.trans (Session.same_touch _ w)
  have hrenews := Session.renews_append (s := Session.touch { s with side := s.side ++ [x] } w) hx rfl
  change wp _ (dbCommit >>= fun _ => f a) _ _
  refine wp_bind_asked (asked_dbCommit (h₂.calm hs) fun _ => .inr hrenews) (fun e s' h => ⟨?_, rfl⟩)
    fun _ s₃ h₃ => ?_
  · exact h.imp h₂.trans fun h => ⟨h.1, h.2.of_same h₂⟩
  · have h₀₃ := h₂.trans h₃
    exact wp_mono (hf s₃ (h₀₃.calm hs)) fun _ _ h => h.of_same h₀₃

theorem asked_dbAddSide {x : SideWrite} (hx : x.reports = []) :
    wp (lifecycle alone may P) (dbAddSide x) (Asked s T) (s, T) :=
  wp_dbAddSide ⟨s.same_side hx, rfl⟩

/-- A loop of calls outside. -/
theorem asked_forEach {f : α → M β} {l : List α} (hs : s.Calm)
    (hf : ∀ a s', s'.Calm → wp (lifecycle alone may P) (f a) (Asked s' T) (s', T)) :
    wp (lifecycle alone may P) (.forEach f l) (Asked s T) (s, T) := by
  induction l generalizing s with
  | nil => exact asked_pure
  | cons a l ih =>
    refine asked_bind hs (hf a s hs) fun b s₁ h₁ => ?_
    exact asked_bind h₁ (ih h₁) fun bs s₂ _ => asked_pure

/-- The calendar is accounted for at the end, however the call ends. -/
def Closes : Except Exc α → Session × Interviews → Prop := fun _ v => v.1.Closed

/-- A call outside, in the middle of a program that has nothing under way. -/
theorem closes_bind {p : M α} {f : α → M β} (hs : s.Calm)
    (hp : wp (lifecycle alone may P) p (Asked s T) (s, T))
    (hf : ∀ a s', s.Same s' → wp (lifecycle alone may P) (f a) Closes (s', T)) :
    wp (lifecycle alone may P) (p >>= f) Closes (s, T) :=
  wp_bind_asked hp (fun _ _ h => (ended_of_asked hs h).toClosed) hf

/-- Two parts that both account for the calendar. -/
theorem closes_then {p : M α} {f : α → M β} (hp : wp (lifecycle alone may P) p Closes (s, T))
    (hf : ∀ a s' T', s'.Closed → wp (lifecycle alone may P) (f a) Closes (s', T')) :
    wp (lifecycle alone may P) (p >>= f) Closes (s, T) := by
  refine wp_bind (wp_mono hp ?_)
  rintro (e | a) ⟨s', T'⟩ h
  · exact h
  · exact hf a s' T' h

/-! ### The database -/

/-- `get` of a session in which nothing is under way. -/
theorem wp_dbGet_calm (hs : s.Calm) {r : Id}
    {Q : Except Exc (Option InterviewRequest) → Session × Interviews → Prop}
    (herr : ∀ e s', s.Ended s' → Q (.error e) (s', T))
    (hok : ∀ row s', s'.Calm → s.Keeps s' → Q (.ok row) (s', T)) :
    wp (lifecycle alone may P) (dbGet r) Q (s, T) := by
  cases hrow : s.copies r with
  | some row => exact wp_dbGet_hit hrow (hok _ _ (hs.decide _)
      ⟨rfl, rfl, rfl, rfl, fun _ _ h => h.of_same (s.sameSection_decide _)⟩)
  | none =>
    refine wp_dbGet_miss hrow (fun e _ => herr e _ (s.ended_fail hs.owed)) fun _ w _ => ?_
    exact hok _ _ (hs.load w r _) (s.keeps_load w r _)

/-- `refresh` of a session in which nothing is under way. -/
theorem wp_dbRefresh_calm (hs : s.Calm) {r : Id}
    {Q : Except Exc InterviewRequest → Session × Interviews → Prop}
    (herr : ∀ e s', s.Ended s' → Q (.error e) (s', T))
    (hok : ∀ (w : World) row s', s' = (s.touch w).load w r (some row) → Holds alone r row s' T →
      Q (.ok row) (s', T)) :
    wp (lifecycle alone may P) (dbRefresh r) Q (s, T) := by
  refine wp_dbRefresh (fun e _ => herr e _ (s.ended_fail hs.owed)) ?_ fun w row hrow hT => ?_
  · exact herr _ _ ((Session.Same.refl s).ended hs)
  · exact hok w row _ rfl (holds_load hs hrow hT)

theorem closes_dbGet (hs : s.Closed) {r : Id} :
    wp (lifecycle alone may P) (dbGet r) (fun _ v => v.1.Closed ∧ v.2 = T) (s, T) := by
  cases hrow : s.copies r with
  | some row => exact wp_dbGet_hit hrow ⟨⟨hs.owed, hs.dropped⟩, rfl⟩
  | none =>
    refine wp_dbGet_miss hrow (fun _ _ => ⟨(s.ended_fail hs.owed).toClosed, rfl⟩) fun _ w _ => ?_
    cases w.db.requests r <;> exact ⟨⟨hs.owed, hs.dropped⟩, rfl⟩

theorem closes_dbSelect (hs : s.Closed) {query : ℕ → Db → α} :
    wp (lifecycle alone may P) (dbSelect query) Closes (s, T) :=
  wp_dbSelect (fun _ _ => (s.ended_fail hs.owed).toClosed) fun _ _ _ => ⟨hs.owed, hs.dropped⟩

/-- The end of a transaction: the audit record, then the commit. -/
theorem wp_recordAudit_commit {actor : User} {action : String} {id : Id}
    {metadata : List (String × String)} {f : Unit → M α}
    {Q : Except Exc α → Session × Interviews → Prop} (hC : Transacts alone may P s T)
    (herr : ∀ e s', s.Same s' → Q (.error e) (s'.fail, T))
    (hok : ∀ s', s.Same s' →
      wp (lifecycle alone may P) (f ()) Q (s'.committed, Write.force s.pending T)) :
    wp (lifecycle alone may P) (recordAudit actor action id metadata >>= fun _ => dbCommit >>= f) Q
      (s, T) := by
  have haudit : s.Same { s with side := s.side ++ [.insertAudit
      { actorId := actor.id, actorRole := actor.role, action, entityType := "interview_request",
        entityId := id, metadata }] } := s.same_side rfl
  refine wp_bind (wp_bind (wp_dbAddSide (wp_dbFlush
    (fun e _ => herr e _ (haudit.trans (Session.same_expired _ true))) fun w => ?_)))
  have hsame := haudit.trans (Session.same_touch _ w)
  have haudits : Session.Audits (Session.touch { s with side := s.side ++ [.insertAudit
      { actorId := actor.id, actorRole := actor.role, action, entityType := "interview_request",
        entityId := id, metadata }] } w) := ⟨_, List.mem_append_right _ (List.mem_singleton.mpr rfl)⟩
  refine wp_bind (wp_dbCommit ⟨hC.same hsame, fun _ => .inl haudits⟩ 
    (fun e b _ => herr e _ (hsame.trans (Session.same_expired _ b))) ?_)
  rw [hsame.pending]
  exact hok _ hsame

end InterviewScheduler.Lifecycle
