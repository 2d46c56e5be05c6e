import InterviewScheduler.Core.Models
import InterviewScheduler.Engine.Pipeline

/-! # The lifecycle of an interview

What the operations may do to the interview tables, without how they do it: `Legal P T ws` lists the
transactions `ws` that an operation may commit from the tables `T` when it runs alone. `P` is what is
known of a request that a panelist declines before it is booked; nothing else guards that
transition.

`Edge` is the documented state machine of `interview_requests.status`. -/

namespace InterviewScheduler.Lifecycle

open InterviewScheduler.Engine InterviewScheduler.Core

/-- The edges of the documented state machine. -/
inductive Edge : RequestStatus → RequestStatus → Prop
  | publish : Edge .draft .awaitingCandidateAvailability
  | submit : Edge .awaitingCandidateAvailability .readyForScheduling
  | recommend : Edge .readyForScheduling .recommended
  | book : Edge .recommended .booked
  | complete : Edge .booked .completed
  | fail : Edge .readyForScheduling .failed
  | reschedule : Edge .booked .rescheduling
  | resume : Edge .rescheduling .readyForScheduling
  | decline : Edge .recommended .readyForScheduling
  | cancel {st : RequestStatus} (h : st ≠ .cancelled) (h' : st ≠ .completed) : Edge st .cancelled

theorem Edge.not_terminal {st st' : RequestStatus} (h : Edge st st') :
    st ≠ .cancelled ∧ st ≠ .completed := by
  cases h with
  | cancel h h' => exact ⟨h, h'⟩
  | _ => simp

/-- Two half-open intervals meet. -/
def Overlap (e e' : InterviewEvent) : Prop := e.startTime < e'.endTime ∧ e'.startTime < e.endTime

theorem Overlap.symm {e e' : InterviewEvent} (h : Overlap e e') : Overlap e' e := ⟨h.2, h.1⟩

/-- The user takes part in the request. -/
def TakesPart (T : Interviews) (userId requestId : Id) : Prop :=
  ∃ p ∈ T.participants requestId, p.userId = userId

/-- The user is a PANELIST who is assigned to the request, and so may decline it. -/
def MayDecline (T : Interviews) (userId requestId : Id) : Prop :=
  (∃ user, T.users userId = some user ∧ user.role = .panelist) ∧
    ∃ p ∈ T.participants requestId, p.userId = userId ∧ p.roleInInterview = .panelist

/-- No participant of the request has a CONFIRMED event on another request that meets the event. -/
def NoClash (T : Interviews) (e : InterviewEvent) : Prop :=
  ∀ e' ∈ T.events, e'.status = .confirmed → e'.interviewRequestId ≠ e.interviewRequestId →
    (∃ u, TakesPart T u e.interviewRequestId ∧ TakesPart T u e'.interviewRequestId) → ¬ Overlap e e'

/-- The user has no CONFIRMED event on another request that meets the given time. -/
def FreeAt (T : Interviews) (requestId userId : Id) (startTime endTime : Instant) : Prop :=
  ∀ e ∈ T.events, e.status = .confirmed → e.interviewRequestId ≠ requestId →
    TakesPart T userId e.interviewRequestId → ¬ (e.startTime < endTime ∧ startTime < e.endTime)

/-- The slot does not meet the interval. -/
def Avoids (slot : RecommendedSlot) (b : TimeInterval) : Prop :=
  ¬ (b.start < slot.endTime ∧ slot.startTime < b.stop)

/-- **What a run proposes suits the panel**, as far as the engine has looked: the slots meet no busy
block of the run's snapshot and no interview of a panelist. -/
structure Proposed (T : Interviews) (run : RecommendationRun) : Prop where
  panel : ∃ p ∈ T.participants run.interviewRequestId, p.roleInInterview = .panelist
  proper : ∀ slot ∈ run.slots, slot.startTime < slot.endTime
  busy : ∀ slot ∈ run.slots, ∀ q ∈ run.inputSnapshot.participants, q.isCandidate = false →
    ∀ b ∈ busyOf q, Avoids slot b
  free : ∀ slot ∈ run.slots, ∀ p ∈ T.participants run.interviewRequestId,
    p.roleInInterview = .panelist →
      FreeAt T run.interviewRequestId p.userId slot.startTime slot.endTime
  /-- the engine is given no bookings to balance -/
  workload : ∀ slot ∈ run.slots, slot.scoreBreakdown.workloadBalance = 1

/-- The run is the latest one of its request. -/
def IsLatest (T : Interviews) (run : RecommendationRun) : Prop :=
  run ∈ T.runs ∧ ∀ run' ∈ T.runs, run'.interviewRequestId = run.interviewRequestId →
    run'.generatedAt ≤ run.generatedAt

/-- The event takes the time of a slot of the latest run of its request. -/
def Takes (T : Interviews) (e : InterviewEvent) (slotId : Id) : Prop :=
  ∃ run, IsLatest T run ∧ run.interviewRequestId = e.interviewRequestId ∧
    ∃ slot ∈ run.slots, slot.id = slotId ∧ e.startTime = slot.startTime ∧ e.endTime = slot.endTime

/-- The write edits the request: its details or its panel. -/
def Edits (r : Id) : Write → Prop
  | .setDetails r' _ _ _ => r' = r
  | .replacePanelists r' _ => r' = r
  | _ => False

instance (r : Id) : DecidablePred (Edits r)
  | .setDetails r' _ _ _ => inferInstanceAs (Decidable (r' = r))
  | .replacePanelists r' _ => inferInstanceAs (Decidable (r' = r))
  | .insertRequest _ _ | .setStatus _ _ | .setOutcome _ _ _ | .insertAvailability _ | .insertRun _
  | .selectSlot _ | .insertEvent _ | .cancelEvent _ => inferInstanceAs (Decidable False)

/-- The writes that cancel an event, if there is one. -/
def cancelWrites (event : Option InterviewEvent) : List Write :=
  (event.map fun e => Write.cancelEvent e.id).toList

/-- What a release leads to: a booked request is rescheduled, an open one cancelled. -/
def Releases (before after : RequestStatus) : Prop :=
  (before = .booked ∧ after = .rescheduling) ∨
    (before ≠ .cancelled ∧ before ≠ .completed ∧ after = .cancelled)

/-- **The transactions of the ten operations.** -/
inductive Legal (P : Interviews → Id → Prop) (T : Interviews) : List Write → Prop
  | stay : Legal P T []
  | create {row : InterviewRequest} {ps : List InterviewParticipant}
      (hstatus : row.status = .awaitingCandidateAvailability) (houtcome : row.outcome = none) :
      Legal P T [.insertRequest row ps]
  | edit {r : Id} {row : InterviewRequest} {ws : List Write} (hrow : T.requests r = some row)
      (hstatus : row.status ∈ editableStatuses) (hws : ∀ x ∈ ws, Edits r x) : Legal P T ws
  | submit {r : Id} {row : InterviewRequest} {a : CandidateAvailability}
      (hrow : T.requests r = some row) (hstatus : row.status = .awaitingCandidateAvailability)
      (ha : a.interviewRequestId = r) (hw : a.windows ≠ []) :
      Legal P T [.insertAvailability a, .setStatus r .readyForScheduling]
  | recommend {r : Id} {row : InterviewRequest} {run : RecommendationRun}
      (hrow : T.requests r = some row) (hstatus : row.status = .readyForScheduling)
      (hrun : run.interviewRequestId = r) (hproposed : Proposed T run) :
      Legal P T [.insertRun run, .setStatus r .recommended]
  | fail {r : Id} {row : InterviewRequest} (hrow : T.requests r = some row)
      (hstatus : row.status = .readyForScheduling) : Legal P T [.setStatus r .failed]
  | book {r : Id} {row : InterviewRequest} {e : InterviewEvent} {slot : Id}
      (hrow : T.requests r = some row) (hstatus : row.status = .recommended)
      (he : e.ConfirmedFor r) (hclash : NoClash T e) (htakes : Takes T e slot) :
      Legal P T [.insertEvent e, .setStatus r .booked, .selectSlot slot]
  | reopen {r : Id} {row : InterviewRequest} (hrow : T.requests r = some row)
      (hstatus : row.status ≠ .booked) (hP : P T r) : Legal P T [.setStatus r .readyForScheduling]
  | resume {r : Id} {row : InterviewRequest} (hrow : T.requests r = some row)
      (hstatus : row.status = .rescheduling) : Legal P T [.setStatus r .readyForScheduling]
  | release {r : Id} {row : InterviewRequest} {event : Option InterviewEvent} {st : RequestStatus}
      (hrow : T.requests r = some row) (hstatus : Releases row.status st)
      (hevent : T.events.find? (fun e => e.ConfirmedFor r) = event) :
      Legal P T (cancelWrites event ++ [.setStatus r st])
  | complete {r : Id} {row : InterviewRequest} {outcome : Outcome} {notes : Option String}
      (hrow : T.requests r = some row) (hstatus : row.status = .booked) :
      Legal P T [.setOutcome r outcome notes, .setStatus r .completed]
  | recomplete {r : Id} {row : InterviewRequest} {outcome : Outcome} {notes : Option String}
      (hrow : T.requests r = some row) (hstatus : row.status = .completed) :
      Legal P T [.setOutcome r outcome notes]

/-- One committed transaction. -/
def Step (P : Interviews → Id → Prop) (T T' : Interviews) : Prop :=
  ∃ ws, Legal P T ws ∧ Write.applyAll ws T = some T'

end InterviewScheduler.Lifecycle
