import InterviewScheduler.System.Sequences

/-! # Invariants of sequences of operations

The invariants of the lifecycle hold after every sequence of complete operations. Three of them need a
condition on `decline`, which alone of the operations does not look at the status of a request that is
not booked: it makes it READY_FOR_SCHEDULING from whatever state it is in. -/

namespace InterviewScheduler.System

open InterviewScheduler.Engine InterviewScheduler.Core InterviewScheduler.Effects
open InterviewScheduler.Lifecycle InterviewScheduler.Interviews

/-! ### A sample -/

def samplePlatform : Platform where
  zones := .utcOnly
  encrypt := some
  decrypt := some
  calendarSimulated := true
  sendGridConfigured := false

/-- An administrator, a candidate and a panelist. -/
def sampleUsers : Id → Option User
  | 1 => some { id := 1, email := "admin@example.com", role := .admin }
  | 2 => some { id := 2, email := "candidate@example.com", role := .candidate }
  | 3 => some { id := 3, email := "panelist@example.com", role := .panelist }
  | _ => none

def sampleWorld : World := { db := { users := sampleUsers } }

theorem initial_sampleWorld : Initial sampleWorld where
  user_id u user h := by
    change sampleUsers u = some user at h
    unfold sampleUsers at h
    split at h <;> simp_all
    all_goals subst h; rfl
  tables := rfl
  log := rfl

/-- Effects that are all answered, at once. -/
def answered (n : ℕ) : List Choice := List.replicate n {}

/-- The value of a generated id, or the order of rows. -/
def pick (n : ℕ) : Choice := { answer := .pick n }

/-- An administrator creates the request `r`. -/
def sampleCreate (r : Id) : Call × List Choice :=
  (.createRequest 1
    { candidateId := 2, roundType := .technical, durationMinutes := 60, panelistIds := [3]
      duration_pos := by decide, buffer_nonneg := by decide, panelistIds_nodup := by decide
      candidate_not_panelist := by decide },
    answered 2 ++ [pick r] ++ answered 5)

/-- The candidate offers five hours. -/
def sampleSubmit (r : Id) (start : ℤ) : Call × List Choice :=
  (.submit 2 r
    { timezone := "UTC", windows := [⟨minutes start, minutes (start + 300)⟩]
      windows_ne_nil := by simp, windows_le := by simp [Availability.maxWindows] },
    answered 3 ++ [pick (r + 1)] ++ answered 10)

/-- The recommendations, whose slots have the ids from `r + 11` on. -/
def sampleGenerate (r : Id) : Call × List Choice :=
  (.generate 1 r, answered 2 ++ [pick (r + 2)] ++ answered 7 ++
    [pick (r + 10), pick (r + 11), pick (r + 12), pick (r + 13)] ++ answered 10)

def sampleBook (r : Id) : Call × List Choice :=
  (.book 1 r (r + 11),
    answered 4 ++ [pick (r + 3)] ++ answered 5 ++ [pick (r + 4), pick (r + 5)] ++ answered 20)

def sampleOutcome (r : Id) : Call × List Choice := (.recordOutcome 1 r .passed none, answered 20)

def sampleDecline (r : Id) : Call × List Choice :=
  (.decline 3 r none, answered 4 ++ [pick (r + 6)] ++ answered 20)

def sampleCancel (r : Id) : Call × List Choice :=
  (.cancel 1 r none, answered 3 ++ [pick (r + 7)] ++ answered 20)

/-- An interview from its creation to its booking. -/
def sampleBooked (r : Id) (start : ℤ) : List (Call × List Choice) :=
  [sampleCreate r, sampleSubmit r start, sampleGenerate r, sampleBook r]

/-- The sample sequences with no condition on the calls. -/
theorem reaches_sample (calls : List (Call × List Choice)) {p : World → Bool}
    (h : (runCalls samplePlatform (fun _ _ _ _ _ => true) (fun _ _ => true) calls
      sampleWorld).any p) :
    ∃ w, Reaches samplePlatform Any (fun _ _ => True) sampleWorld w ∧ p w :=
  reaches_of_runCalls (fun _ _ _ _ _ => trivial) (fun _ _ _ => trivial) h

/-- Every call but a decline. -/
def noDecline : Call → World → Bool
  | .decline _ _ _, _ => false
  | _, _ => true

theorem reaches_noDecline {Q : Interviews → Id → Prop} (calls : List (Call × List Choice))
    {p : World → Bool}
    (h : (runCalls samplePlatform (fun _ _ _ _ _ => true) noDecline calls sampleWorld).any p) :
    ∃ w, Reaches samplePlatform Any (OnDecline Q) sampleWorld w ∧ p w := by
  refine reaches_of_runCalls (fun _ _ _ _ _ => trivial) (fun call w hcall => ?_) h
  cases call with
  | decline => simp [noDecline] at hcall
  | _ => trivial

/-! ### The status machine -/

variable {pf : Platform} {w₀ w : World}

/-- **The documented status machine.** When no request is declined in DRAFT, FAILED, CANCELLED or
COMPLETED, every committed change of a status is one of its edges. -/
theorem edge_of_reaches (h₀ : Initial w₀) (h : Reaches pf Any (OnDecline DeclineAllowed) w₀ w) :
    ∀ ch ∈ w.log,
      Edge ch.before ch.after ∧ ch.before ≠ .cancelled ∧ ch.before ≠ .completed := by
  have hedges : ∀ ch ∈ w.log, Edge ch.before ch.after := by
    refine (h.keeps (J := fun _ log => ∀ ch ∈ log, Edge ch.before ch.after)
      (fun ws T T' log hT hlog hstep _ ch hch => ?_) h₀.wellFormed (by simp [h₀.log])).2
    rcases List.mem_append.mp hch with hch | hch
    · exact hlog ch hch
    · obtain ⟨row, row', hrow, hrow', hb, ha, hne⟩ := of_mem_statusChanges hch
      rw [hb, ha]
      exact hstep.edge hT (fun _ => id) hrow hrow' hne
  exact fun ch hch => ⟨hedges ch hch, (hedges ch hch).not_terminal⟩

/-- A request that is created, scheduled and cancelled. -/
theorem edge_of_reaches_sample : ∃ w : World, w.status 10 = some .cancelled ∧ w.log.length = 3 ∧
    ∀ ch ∈ w.log, Edge ch.before ch.after ∧ ch.before ≠ .cancelled ∧ ch.before ≠ .completed := by
  obtain ⟨w, hw, hp⟩ := reaches_noDecline
    [sampleCreate 10, sampleSubmit 10 540, sampleGenerate 10, sampleCancel 10]
    (p := fun w => w.status 10 = some .cancelled ∧ w.log.length = 3) (by decide +kernel)
  obtain ⟨hst, hlen⟩ := of_decide_eq_true hp
  exact ⟨w, hst, hlen, edge_of_reaches initial_sampleWorld hw⟩

/-- **A cancelled request comes back.** A panelist declines an interview that was cancelled. -/
theorem decline_leaves_cancelled : ∃ w, Initial sampleWorld ∧
    Reaches samplePlatform Any (fun _ _ => True) sampleWorld w ∧
    ∃ ch ∈ w.log, ch.before = .cancelled ∧ ¬ Edge ch.before ch.after := by
  obtain ⟨w, hw, hp⟩ := reaches_sample [sampleCreate 10, sampleCancel 10, sampleDecline 10]
    (p := fun w => w.log.any fun ch => ch.before = .cancelled) (by decide +kernel)
  obtain ⟨ch, hch, hbefore⟩ := List.any_eq_true.mp hp
  have hbefore := of_decide_eq_true hbefore
  exact ⟨w, initial_sampleWorld, hw, ch, hch, hbefore, fun h => h.not_terminal.1 hbefore⟩

/-! ### Status, event and outcome -/

/-- The request is not COMPLETED. -/
def NotCompleted (T : Interviews) (r : Id) : Prop :=
  ∀ row, T.requests r = some row → row.status ≠ .completed

/-- **Status, event and outcome agree**, when no COMPLETED request is declined. -/
theorem agree_of_reaches (h₀ : Initial w₀) (h : Reaches pf Any (OnDecline NotCompleted) w₀ w) :
    Agree w.db.toInterviews := by
  refine (h.keeps (J := fun T _ => Agree T) (fun ws T T' log hT hagree hstep _ => ?_)
    h₀.wellFormed ?_).2
  · exact hstep.agree hT (fun _ row hP => hP row) hagree
  · rw [h₀.tables]
    intro x row hrow
    simp at hrow

/-- An interview that took place. -/
theorem agree_of_reaches_sample : ∃ w : World, w.status 10 = some .completed ∧
    Agree w.db.toInterviews := by
  obtain ⟨w, hw, hp⟩ := reaches_noDecline
    (sampleBooked 10 540 ++ [sampleOutcome 10])
    (p := fun w => w.status 10 = some .completed) (by decide +kernel)
  exact ⟨w, of_decide_eq_true hp, agree_of_reaches initial_sampleWorld hw⟩

/-- **A completed interview is declined.** It keeps its CONFIRMED event and its outcome. -/
theorem decline_keeps_outcome : ∃ w, Initial sampleWorld ∧
    Reaches samplePlatform Any (fun _ _ => True) sampleWorld w ∧ ¬ Agree w.db.toInterviews := by
  obtain ⟨w, hw, hp⟩ := reaches_sample
    (sampleBooked 10 540 ++ [sampleOutcome 10, sampleDecline 10])
    (p := fun w => (w.db.requests 10).any fun row =>
      row.status = .readyForScheduling ∧ row.outcome = some .passed) (by decide +kernel)
  obtain ⟨row, hrow, hdec⟩ := (Option.any_eq_true _ _).mp hp
  obtain ⟨hst, hout⟩ := of_decide_eq_true hdec
  refine ⟨w, initial_sampleWorld, hw, fun h => ?_⟩
  have := (h 10 row hrow).2.mp (by simp [hout])
  simp [hst] at this

/-! ### Availability -/

/-- The request has availability, if it exists. -/
def HasOffer (T : Interviews) (r : Id) : Prop :=
  ∀ row, T.requests r = some row → HasAvailability T r

/-- **Availability precedes scheduling**, when no request without availability is declined. -/
theorem offered_of_reaches (h₀ : Initial w₀) (h : Reaches pf Any (OnDecline HasOffer) w₀ w) :
    Offered w.db.toInterviews := by
  refine (h.keeps (J := fun T _ => Offered T) (fun ws T T' log hT hoffered hstep _ => ?_)
    h₀.wellFormed ?_).2
  · exact hstep.offered hT (fun _ row hP => hP row) hoffered
  · rw [h₀.tables]
    intro x row hrow
    simp at hrow

/-- An interview that is booked. -/
theorem offered_of_reaches_sample : ∃ w : World, w.status 10 = some .booked ∧
    Offered w.db.toInterviews := by
  obtain ⟨w, hw, hp⟩ := reaches_noDecline (sampleBooked 10 540)
    (p := fun w => w.status 10 = some .booked) (by decide +kernel)
  exact ⟨w, of_decide_eq_true hp, offered_of_reaches initial_sampleWorld hw⟩

/-- **A request is declined before the candidate has answered.** It is READY_FOR_SCHEDULING without
availability. -/
theorem decline_skips_availability : ∃ w, Initial sampleWorld ∧
    Reaches samplePlatform Any (fun _ _ => True) sampleWorld w ∧ ¬ Offered w.db.toInterviews := by
  obtain ⟨w, hw, hp⟩ := reaches_sample [sampleCreate 10, sampleDecline 10]
    (p := fun w => (w.db.requests 10).any (fun row => row.status = .readyForScheduling) ∧
      w.db.availability = []) (by decide +kernel)
  obtain ⟨hrow, hnone⟩ := of_decide_eq_true hp
  obtain ⟨row, hrow, hst⟩ := (Option.any_eq_true _ _).mp hrow
  refine ⟨w, initial_sampleWorld, hw, fun h => ?_⟩
  obtain ⟨a, ha, -⟩ := h 10 row hrow (by simp [of_decide_eq_true hst, scheduledStatuses])
  rw [hnone] at ha
  simp at ha

/-! ### Double booking -/

theorem overlap_of_not_disjoint {e e' : InterviewEvent}
    (h : ¬ Disjoint (Set.Ico e.startTime e.endTime) (Set.Ico e'.startTime e'.endTime)) :
    Overlap e e' := by
  obtain ⟨t, ⟨h1, h2⟩, h3, h4⟩ := Set.not_disjoint_iff.mp h
  exact ⟨lt_of_le_of_lt h1 h4, lt_of_le_of_lt h3 h2⟩

/-- **No user takes part in two interviews at the same time.** -/
theorem noDoubleBooking_of_reaches (h₀ : Initial w₀) (h : Reaches pf Any (fun _ _ => True) w₀ w) :
    ∀ e ∈ w.db.events, ∀ e' ∈ w.db.events, e.status = .confirmed → e'.status = .confirmed →
      e.interviewRequestId ≠ e'.interviewRequestId → ∀ u,
      TakesPart w.db.toInterviews u e.interviewRequestId →
      TakesPart w.db.toInterviews u e'.interviewRequestId →
      Disjoint (Set.Ico e.startTime e.endTime) (Set.Ico e'.startTime e'.endTime) := by
  have hall : Reaches pf Any (OnDecline fun _ _ => True) w₀ w :=
    h.mono (fun _ _ _ _ => id) fun call w _ => by cases call <;> simp [OnDecline]
  obtain ⟨-, -, hno⟩ := hall.keeps (J := fun T _ => Frozen T ∧ NoDoubleBooking T)
    (fun ws T T' log hT ⟨hF, hD⟩ hstep _ => ⟨hstep.frozen hT hF, hstep.noDoubleBooking hT hF hD⟩)
    h₀.wellFormed (by rw [h₀.tables]; exact ⟨fun _ _ h => by simp at h, fun _ h => by simp at h⟩)
  intro e he e' he' hc hc' hne u hu hu'
  by_contra hnot
  exact hno e he hc e' he' hc' hne.symm ⟨u, hu, hu'⟩ (overlap_of_not_disjoint hnot)

/-- Two interviews of the same people on one day. -/
theorem noDoubleBooking_of_reaches_sample : ∃ w : World, w.db.events.length = 2 ∧
    ∀ e ∈ w.db.events, ∀ e' ∈ w.db.events, e.status = .confirmed → e'.status = .confirmed →
      e.interviewRequestId ≠ e'.interviewRequestId → ∀ u,
      TakesPart w.db.toInterviews u e.interviewRequestId →
      TakesPart w.db.toInterviews u e'.interviewRequestId →
      Disjoint (Set.Ico e.startTime e.endTime) (Set.Ico e'.startTime e'.endTime) := by
  obtain ⟨w, hw, hp⟩ := reaches_sample (sampleBooked 10 540 ++ sampleBooked 40 900)
    (p := fun w => w.db.events.length = 2) (by decide +kernel)
  exact ⟨w, of_decide_eq_true hp, noDoubleBooking_of_reaches initial_sampleWorld hw⟩

end InterviewScheduler.System
