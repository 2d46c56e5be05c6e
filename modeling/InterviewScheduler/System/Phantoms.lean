import InterviewScheduler.System.Lifecycle

/-! # Phantom bookings

A CONFIRMED row of Google Calendar is a phantom when its calendar event was deleted and no OPEN
reconciliation task is about it. `decline`, `reschedule` and `cancel` delete the event before they commit
the row's cancellation, and only a delete that fails opens a task: a failure between the two leaves a
phantom. With no such failure there is none, after any sequence of operations. -/

namespace InterviewScheduler.System

open InterviewScheduler.Engine InterviewScheduler.Core InterviewScheduler.Effects
open InterviewScheduler.Lifecycle InterviewScheduler.Interviews

/-- The row of a booking that is held in Google Calendar. -/
structure GoogleBooking (T : Interviews) (e : InterviewEvent) : Prop where
  mem : e ∈ T.events
  confirmed : e.status = .confirmed
  google : e.provider = .google

/-- **Every booking refers to a calendar event that was not deleted, or has an OPEN task.** -/
def NoPhantom (w : World) : Prop :=
  ∀ e, GoogleBooking w.db.toInterviews e →
    e.calendarEventId ∉ w.google.deleted ∨ HasTask w.db e.calendarEventId

/-- The bookings refer to calendar events of their own, and none is a phantom. -/
structure Consistent (w : World) : Prop where
  wellFormed : WellFormed w.db.toInterviews
  created : ∀ e, GoogleBooking w.db.toInterviews e → e.calendarEventId ∈ w.google.created
  unique : ∀ e e', GoogleBooking w.db.toInterviews e → GoogleBooking w.db.toInterviews e' →
    e.calendarEventId = e'.calendarEventId → e = e'
  noPhantom : NoPhantom w

theorem Initial.consistent {w : World} (h : Initial w) : Consistent w := by
  have hnone : ∀ e, ¬ GoogleBooking w.db.toInterviews e := fun e he => by
    have hmem := he.mem
    rw [h.tables] at hmem
    simp at hmem
  exact ⟨h.wellFormed, fun e he => absurd he (hnone e), fun e _ he => absurd he (hnone e),
    fun e he => absurd he (hnone e)⟩

/-- No call fails between a delete of a calendar event and the commit that records it. -/
def Recorded : Condition Effect Choice Session World := Unfailing fun s => s.trace.dropped ≠ []

/-! ### The bookings after a transaction -/

/-- A transaction inserts one event at most. -/
theorem insertEvent_unique {P : Interviews → Id → Prop} {T : Interviews} {ws : List Write}
    (h : Legal P T ws) {e e' : InterviewEvent} (he : .insertEvent e ∈ ws)
    (he' : .insertEvent e' ∈ ws) : e = e' := by
  cases h with
  | edit _ _ hws => exact (hws _ he).elim
  | @release _ _ event => cases event <;> simp [cancelWrites] at he
  | _ => simp_all

/-- A booking after a transaction is an old one, or the one that was inserted. -/
theorem GoogleBooking.of_force {T : Interviews} {ws : List Write} {e : InterviewEvent}
    (h : GoogleBooking (Write.force ws T) e) :
    (GoogleBooking T e ∧ .cancelEvent e.id ∉ ws) ∨ .insertEvent e ∈ ws :=
  (Write.confirmed_force h.mem h.confirmed).imp_left fun ⟨hmem, hnot⟩ =>
    ⟨⟨hmem, h.confirmed, h.google⟩, hnot⟩

/-! ### In the middle of a call -/

/-- What holds at every step of a call. The calendar events that it owes belong to no booking, and of
a booking whose event was deleted it still knows, or there is a task. -/
structure Accounted (s : Session) (w : World) : Prop where
  wellFormed : WellFormed w.db.toInterviews
  created : ∀ e, GoogleBooking w.db.toInterviews e → e.calendarEventId ∈ w.google.created
  unique : ∀ e e', GoogleBooking w.db.toInterviews e → GoogleBooking w.db.toInterviews e' →
    e.calendarEventId = e'.calendarEventId → e = e'
  owed : ∀ id ∈ s.trace.owed, id ∈ w.google.created ∧ id ∉ w.google.deleted ∧
    ∀ e, GoogleBooking w.db.toInterviews e → e.calendarEventId ≠ id
  dropped : ∀ e, GoogleBooking w.db.toInterviews e → e.calendarEventId ∈ w.google.deleted →
    e.calendarEventId ∈ s.trace.dropped ∨ HasTask w.db e.calendarEventId

theorem Consistent.accounted {w : World} (h : Consistent w) : Accounted {} w where
  wellFormed := h.wellFormed
  created := h.created
  unique := h.unique
  owed := by simp
  dropped e he hdel := .inr ((h.noPhantom e he).resolve_left (not_not.mpr hdel))

/-- At the end of a call nothing is under way. -/
theorem Accounted.consistent {s : Session} {w : World} (h : Accounted s w) (hs : s.Closed) :
    Consistent w where
  wellFormed := h.wellFormed
  created := h.created
  unique := h.unique
  noPhantom e he := by
    by_cases hdel : e.calendarEventId ∈ w.google.deleted
    · refine .inr ((h.dropped e he hdel).resolve_left ?_)
      simp [hs.dropped]
    · exact .inl hdel

section Step

variable {s s' : Session} {w w' : World}

/-- A step that leaves the database and the calendar as they are. -/
theorem Accounted.still (h : Accounted s w) (ho : ∀ id ∈ s'.trace.owed, id ∈ s.trace.owed)
    (hd : s'.trace.dropped = s.trace.dropped) (hw : Still w w') : Accounted s' w' where
  wellFormed := by rw [hw.db]; exact h.wellFormed
  created := by rw [hw.db, hw.google]; exact h.created
  unique := by rw [hw.db]; exact h.unique
  owed id hid := by rw [hw.db, hw.google]; exact h.owed id (ho id hid)
  dropped := by rw [hw.db, hw.google, hd]; exact h.dropped

/-- A calendar event is created, and owed. -/
theorem Accounted.create {id : String} (h : Accounted s w) (hnew : id ∉ w.google.created)
    (hkept : id ∉ w.google.deleted)
    (htrace : s'.trace = { s.trace with owed := s.trace.owed ++ [id] }) (hdb : w'.db = w.db)
    (hgoogle : w'.google = { w.google with created := w.google.created ++ [id] }) :
    Accounted s' w' where
  wellFormed := by rw [hdb]; exact h.wellFormed
  created e he := by
    rw [hdb] at he
    simp [hgoogle, h.created e he]
  unique := by rw [hdb]; exact h.unique
  owed x hx := by
    rw [hdb, hgoogle]
    rw [htrace] at hx
    rcases List.mem_append.mp hx with hx | hx
    · obtain ⟨hc, hd, hfree⟩ := h.owed x hx
      exact ⟨List.mem_append_left _ hc, hd, hfree⟩
    · obtain rfl := List.mem_singleton.mp hx
      refine ⟨by simp, hkept, fun e he heq => hnew ?_⟩
      rw [← heq]
      exact h.created e he
  dropped := by rw [hdb, hgoogle, htrace]; exact h.dropped

/-- A calendar event is deleted: an owed one, which no booking refers to, or one to be recorded. -/
theorem Accounted.delete {id : String} (h : Accounted s w) (htrace : s'.trace = s.trace.delete id)
    (hdb : w'.db = w.db)
    (hgoogle : w'.google = { w.google with deleted := w.google.deleted ++ [id] }) :
    Accounted s' w' := by
  have howed : ∀ x ∈ s'.trace.owed, x ∈ s.trace.owed ∧ x ≠ id := by
    intro x hx
    rw [htrace, Trace.delete] at hx
    split at hx
    · simpa using hx
    · next hnot => exact ⟨hx, fun heq => hnot (heq ▸ hx)⟩
  refine ⟨by rw [hdb]; exact h.wellFormed, by rw [hdb, hgoogle]; exact h.created,
    by rw [hdb]; exact h.unique, fun x hx => ?_, fun e he hdel => ?_⟩
  · obtain ⟨hx, hne⟩ := howed x hx
    obtain ⟨hc, hd, hfree⟩ := h.owed x hx
    rw [hdb, hgoogle]
    exact ⟨hc, by simp [hd, hne], hfree⟩
  · rw [hdb] at he ⊢
    rw [hgoogle] at hdel
    have hstill : ∀ x, x ∈ s.trace.dropped → x ∈ s'.trace.dropped := fun x hx => by
      rw [htrace, Trace.delete]
      split
      · exact hx
      · exact List.mem_append_left _ hx
    rcases List.mem_append.mp hdel with hdel | hdel
    · exact (h.dropped e he hdel).imp_left (hstill _)
    · obtain heq := List.mem_singleton.mp hdel
      have hnot : id ∉ s.trace.owed := fun hid => (h.owed id hid).2.2 e he heq
      refine .inl ?_
      rw [htrace, Trace.delete, if_neg hnot, heq]
      simp

/-- A transaction is committed: it records what was deleted, and its booking is the call's own. -/
theorem Accounted.commit {may : May} {P : Interviews → Id → Prop} {T : Interviews}
    (h : Accounted s w) (hC : Commits True may P s w.db.toInterviews)
    (hT : Write.applyAll s.pending w.db.toInterviews = some T)
    (htrace : s'.trace = s.trace.commit s.pending s.side)
    (hdb : w'.db = s.side.foldl SideWrite.apply { w.db with toInterviews := T })
    (hgoogle : w'.google = w.google) : Accounted s' w' := by
  have htables : w'.db.toInterviews = Write.force s.pending w.db.toInterviews := by
    rw [hdb, SideWrite.foldl_toInterviews, Write.applyAll_eq_force hT]
  have hlegal := hC.legal trivial h.wellFormed
  have hcases : ∀ e, GoogleBooking w'.db.toInterviews e →
      (GoogleBooking w.db.toInterviews e ∧ .cancelEvent e.id ∉ s.pending) ∨
        (.insertEvent e ∈ s.pending ∧ e.calendarEventId ∈ s.trace.owed) := by
    intro e he
    rw [htables] at he
    exact he.of_force.imp_right fun hin => ⟨hin, hC.hosted e hin he.google⟩
  refine ⟨?_, fun e he => ?_, fun e e' he he' heq => ?_, fun id hid => ?_, fun e he hdel => ?_⟩
  · rw [hdb, SideWrite.foldl_toInterviews]
    exact h.wellFormed.applyAll hT
  · rw [hgoogle]
    rcases hcases e he with ⟨hold, -⟩ | ⟨-, howed⟩
    · exact h.created e hold
    · exact (h.owed _ howed).1
  · rcases hcases e he with ⟨hold, -⟩ | ⟨hin, howed⟩ <;>
      rcases hcases e' he' with ⟨hold', -⟩ | ⟨hin', howed'⟩
    · exact h.unique e e' hold hold' heq
    · exact absurd heq ((h.owed _ howed').2.2 e hold)
    · exact absurd heq.symm ((h.owed _ howed).2.2 e' hold')
    · exact insertEvent_unique hlegal hin hin'
  · rw [htrace, Trace.commit, List.mem_filter, decide_eq_true_eq] at hid
    obtain ⟨hid, hfree, -⟩ := hid
    obtain ⟨hc, hd, hother⟩ := h.owed id hid
    rw [hgoogle]
    refine ⟨hc, hd, fun e he heq => ?_⟩
    rcases hcases e he with ⟨hold, -⟩ | ⟨hin, -⟩
    · exact hother e hold heq
    · -- the row that was inserted accounts for the event
      refine hfree (List.mem_flatMap.mpr ⟨_, hin, ?_⟩)
      simp [Write.references, he.confirmed, heq]
  · rw [hgoogle] at hdel
    rw [hdb]
    refine .inr (hasTask_foldl _ ?_)
    rcases hcases e he with ⟨hold, hnot⟩ | ⟨-, howed⟩
    · rcases h.dropped e hold hdel with hdrop | htask
      · -- the row of a deleted event is cancelled by this transaction
        obtain ⟨e₀, hmem, hcal, hc, hprovider, hcancel⟩ := hC.dropped trivial _ hdrop
        obtain rfl := h.unique e₀ e ⟨hmem, hc, hprovider⟩ hold hcal
        exact absurd hcancel hnot
      · exact htask
    · exact absurd hdel (h.owed _ howed).2.1

/-- **Every step keeps the calendar events accounted for.** -/
theorem Accounted.step {may : May} {P : Interviews → Id → Prop} {creates : Prop} {β : Type}
    {o : Effect β} {c : Choice} {x : Except Exc β} (h : Accounted s w)
    (hduty : Duty creates (Commits True may P) o s w.db.toInterviews) (hrec : Recorded β o c s w)
    (hex : machine.exec o c s w = some (x, s', w')) : Accounted s' w' := by
  cases move_of_exec hduty hex with
  | committed _ hC hT htrace hdb _ hgoogle => exact h.commit hC hT htrace hdb hgoogle
  | created _ hnew hkept htrace hdb _ hgoogle => exact h.create hnew hkept htrace hdb hgoogle
  | deleted htrace hdb _ hgoogle => exact h.delete htrace hdb hgoogle
  | failed hfail htrace hw =>
    have hnone : s.trace.dropped = [] := by
      rcases hfail with ⟨e, rfl⟩ | ⟨-, hnone⟩
      · by_contra hne
        exact hrec hne e s' w' hex
      · exact hnone
    refine h.still (fun id hid => ?_) (by rw [htrace, hnone]; rfl) hw
    rw [htrace] at hid
    exact List.mem_of_mem_filter hid
  | quiet htrace hw => exact h.still (by simp [htrace]) (by rw [htrace]) hw
  | hit _ htrace hw => exact h.still (by simp [htrace, Trace.decide]) (by rw [htrace]; rfl) hw
  | read _ htrace hw =>
    exact h.still (by simp [htrace, Trace.read, Trace.decide, Trace.reread]) (by rw [htrace]; rfl) hw
  | looked _ htrace hw => exact h.still (by simp [htrace]) (by rw [htrace]) hw
  | found _ htrace hw => exact h.still (by simp [htrace, Session.find]) (by rw [htrace]; rfl) hw
  | ranked _ htrace hw => exact h.still (by simp [htrace, Session.rank]) (by rw [htrace]; rfl) hw
  | entered htrace hw => exact h.still (by simp [htrace, Session.enter]) (by rw [htrace]; rfl) hw
  | left htrace hw => exact h.still (by simp [htrace, Session.leave]) (by rw [htrace]; rfl) hw

end Step

/-! ### Sequences -/

variable {pf : Platform} {admits : Call → World → Prop} {w₀ w : World}

theorem Consistent.call (h : Consistent w) {call : Call} {x : Except Exc Response} {s' : Session}
    {w' : World} (hr : Runs machine Recorded (handle pf call) {} w x s' w') : Consistent w' := by
  have hp : wp (lifecycle True (fun _ _ => True) fun _ _ => True) (handle pf call) Closes
      ({}, w.db.toInterviews) :=
    closes_handle (fun _ _ _ => trivial) (fun h => absurd trivial h) fun _ _ _ _ _ _ => trivial
  obtain ⟨⟨v, hclosed, rfl⟩, hI⟩ := Runs.sound (faithful_alone _ _ Recorded) (I := Accounted)
    (fun o c s w x s' w' v hI hv hduty hrec hex => by subst hv; exact hI.step hduty hrec hex)
    hr rfl hp h.accounted
  exact hI.consistent hclosed

/-- **There are no phantom bookings** after any sequence of operations in which no call fails between
the delete of a calendar event and the commit that records it. -/
theorem noPhantom_of_reaches (h₀ : Consistent w₀) (h : Reaches pf Recorded admits w₀ w) :
    NoPhantom w := by
  have hall : Consistent w := by
    induction h with
    | init => exact h₀
    | call _ _ hr ih => exact ih.call hr
  exact hall.noPhantom

/-! ### A sample -/

def googlePlatform : Platform := { samplePlatform with calendarSimulated := false }

/-- No interview yet; the panelist is connected to Google Calendar. The token cannot be refreshed. -/
def connectedWorld (tokenExpiresAt : Option Instant) : World where
  db :=
    { users := sampleUsers
      connections := fun u => if u = 3 then some
        { userId := 3, status := .connected, accessTokenEncrypted := some "token"
          refreshTokenEncrypted := none, tokenExpiresAt } else none }

theorem initial_connectedWorld (tokenExpiresAt : Option Instant) :
    Initial (connectedWorld tokenExpiresAt) where
  user_id := initial_sampleWorld.user_id
  tables := rfl
  log := rfl

/-- The recommendations, when Google Calendar answers with the given blocks. -/
def hostedGenerate (r : Id) (busy : List BusyInterval) : Call × List Choice :=
  (.generate 1 r, answered 2 ++ [pick (r + 2)] ++ answered 9 ++ [{ answer := .busy busy }] ++
    answered 2 ++ [pick (r + 10), pick (r + 11), pick (r + 12), pick (r + 13)] ++ answered 10)

/-- A booking after some time, whose calendar event is `g1`. -/
def hostedBook (r : Id) (elapsed : ℕ) : Call × List Choice :=
  (.book 1 r (r + 11), [{ elapsed := elapsed }] ++ answered 3 ++ [pick (r + 3)] ++ answered 7 ++
    [{ answer := .event ⟨"g1", none, none⟩ }, pick (r + 4)] ++ answered 20)

/-- An interview from its creation to its booking in Google Calendar. -/
def hostedBooked (r : Id) (start : ℤ) : List (Call × List Choice) :=
  [sampleCreate r, sampleSubmit r start, hostedGenerate r [], hostedBook r 0]

/-- The sequences with Google Calendar. -/
theorem reaches_hosted {t : Option Instant} (calls : List (Call × List Choice))
    {p : World → Bool} (h : (runCalls googlePlatform (fun _ _ _ _ _ => true) (fun _ _ => true) calls
      (connectedWorld t)).any p) :
    ∃ w, Reaches googlePlatform Any (fun _ _ => True) (connectedWorld t) w ∧ p w :=
  reaches_of_runCalls (fun _ _ _ _ _ => trivial) (fun _ _ _ => trivial) h

/-- A booking that is held in Google Calendar as `g1`. -/
def sampleEvent : InterviewEvent where
  id := 20
  interviewRequestId := 10
  startTime := minutes 540
  endTime := minutes 600
  calendarEventId := "g1"
  meetingLink := none
  provider := .google
  status := .confirmed

/-- The request 10, whose panelist is connected to Google Calendar. -/
def googleWorld (status : RequestStatus) (events : List InterviewEvent) : World where
  db :=
    { users := sampleUsers
      requests := fun r => if r = 10 then some
        { id := 10, candidateId := 2, createdBy := 1, roundType := .technical, durationMinutes := 60
          bufferMinutes := 15, status } else none
      participants := fun r => if r = 10 then [⟨2, .candidate⟩, ⟨3, .panelist⟩] else []
      events
      connections := fun u => if u = 3 then some
        { userId := 3, status := .connected, accessTokenEncrypted := some "token"
          refreshTokenEncrypted := none, tokenExpiresAt := none } else none }
  google := { created := events.map (·.calendarEventId) }

theorem wellFormed_googleWorld :
    WellFormed (googleWorld .booked [sampleEvent]).db.toInterviews where
  user_id := initial_sampleWorld.user_id
  events_nodup := by simp [googleWorld]
  one_confirmed := by simp [googleWorld]
  event_request := by simp [googleWorld, sampleEvent]
  participant_user r p hp := by
    by_cases hr : r = 10
    · have hp : p = ⟨2, .candidate⟩ ∨ p = ⟨3, .panelist⟩ := by simpa [googleWorld, hr] using hp
      rcases hp with rfl | rfl <;> simp [googleWorld, sampleUsers]
    · simp [googleWorld, hr] at hp
  runs := ⟨by simp [googleWorld], by simp [googleWorld]⟩

theorem consistent_googleWorld : Consistent (googleWorld .booked [sampleEvent]) where
  wellFormed := wellFormed_googleWorld
  created e he := List.mem_map_of_mem he.mem
  unique e e' he he' _ := (List.mem_singleton.mp he.mem).trans (List.mem_singleton.mp he'.mem).symm
  noPhantom _ _ := .inl (by simp [googleWorld])

/-- The runs in which no recording of a delete fails. -/
theorem reaches_recorded (calls : List (Call × List Choice)) {p : World → Bool}
    (h : (runCalls googlePlatform (unfailing fun s => decide (s.trace.dropped ≠ []))
      (fun _ _ => true) calls (googleWorld .booked [sampleEvent])).any p) :
    ∃ w, Reaches googlePlatform Recorded (fun _ _ => True) (googleWorld .booked [sampleEvent]) w ∧
      p w :=
  reaches_of_runCalls (unfailing_of_check fun _ => decide_eq_true) (fun _ _ _ => trivial) h

/-- A booking that is cancelled, in Google Calendar too. -/
theorem noPhantom_of_reaches_sample : ∃ w : World, w.google.deleted = ["g1"] ∧
    w.status 10 = some .cancelled ∧ NoPhantom w := by
  obtain ⟨w, hw, hp⟩ := reaches_recorded
    [(.cancel 1 10 none, answered 3 ++ [pick 7] ++ answered 20)]
    (p := fun w => w.google.deleted = ["g1"] ∧ w.status 10 = some .cancelled) (by decide +kernel)
  obtain ⟨hdel, hst⟩ := of_decide_eq_true hp
  exact ⟨w, hdel, hst, noPhantom_of_reaches consistent_googleWorld hw⟩

/-- **A phantom booking.** The calendar event is deleted, then the commit of the cancellation fails. -/
theorem cancel_leaves_phantom : ∃ w, Consistent (googleWorld .booked [sampleEvent]) ∧
    Reaches googlePlatform Any (fun call _ => call = .cancel 1 10 none)
      (googleWorld .booked [sampleEvent]) w ∧ ¬ NoPhantom w := by
  have hrun : ((machine.run (fun _ _ _ _ _ => true) (handle googlePlatform (.cancel 1 10 none))
      (answered 3 ++ [pick 7] ++ answered 10 ++ [{ answer := .fail }] ++ answered 1) {}
      (googleWorld .booked [sampleEvent])).any fun (_, _, w) =>
        w.db.events = [sampleEvent] ∧ w.google.deleted = ["g1"] ∧ w.db.tasks = []) := by
    decide +kernel
  obtain ⟨⟨x, s', w⟩, hrun, hp⟩ := (Option.any_eq_true _ _).mp hrun
  obtain ⟨hevents, hdel, htasks⟩ := of_decide_eq_true hp
  refine ⟨w, consistent_googleWorld,
    .call .init rfl ((runs_of_run hrun).mono fun _ _ _ _ _ => trivial), fun h => ?_⟩
  rcases h sampleEvent ⟨by simp [hevents], rfl, rfl⟩ with h | ⟨task, hmem, -⟩
  · exact h (by simp [hdel, sampleEvent])
  · simp [htasks] at hmem

end InterviewScheduler.System
