import InterviewScheduler.Engine.Representation

/-! # What is out of the candidate's reach

A busy block outside of the candidate's windows does not matter to the engine: a slot lies in the windows
with its buffers. So two inputs have the same outcome, results and errors, when their participants are
busy at the same instants of the windows and their blocks pass the same checks
(`generateRecommendations_eq_of_alikeWithin`). -/

namespace InterviewScheduler.Engine

open InterviewScheduler.Intervals InterviewScheduler.Util

variable {db : ZoneDatabase} {a b : EngineInput} {S : Set Instant}

/-- The same participant, busy at the same instants of `S`; the check of the busy blocks ends alike. -/
structure Participant.AlikeWithin (S : Set Instant) (p q : Participant) : Prop where
  profile : p.profile = q.profile
  checked : p.busy.forM validateBusy = q.busy.forM validateBusy
  busy : ∀ t ∈ S, t ∈ busySet p ↔ t ∈ busySet q

/-- **Inputs that differ out of the candidate's reach.** -/
structure EngineInput.AlikeWithin (a b : EngineInput) : Prop where
  referenceTime : a.referenceTime = b.referenceTime
  constraints : a.constraints = b.constraints
  existingBookings : a.existingBookings = b.existingBookings
  weights : a.weights = b.weights
  windows : a.candidateWindows = b.candidateWindows
  participants : List.Forall₂ (Participant.AlikeWithin (candidateSet a)) a.participants b.participants

theorem Participant.AlikeWithin.timezone {p q : Participant} (h : p.AlikeWithin S q) :
    p.timezone = q.timezone := by
  have := congrArg Participant.timezone h.profile
  exact this

theorem Participant.AlikeWithin.isCandidate {p q : Participant} (h : p.AlikeWithin S q) :
    p.isCandidate = q.isCandidate := by
  have := congrArg Participant.isCandidate h.profile
  exact this

theorem Participant.AlikeWithin.validate {p q : Participant} (h : p.AlikeWithin S q) :
    validateParticipant db p = validateParticipant db q := by
  unfold validateParticipant
  rw [h.timezone, h.checked]

section Lists

variable {ps qs : List Participant} (h : List.Forall₂ (Participant.AlikeWithin S) ps qs)
include h

theorem map_profile_of_alikeWithin : ps.map Participant.profile = qs.map Participant.profile := by
  induction h with
  | nil => rfl
  | cons hp _ ih => rw [List.map_cons, List.map_cons, hp.profile, ih]

theorem validate_of_alikeWithin :
    ps.forM (validateParticipant db) = qs.forM (validateParticipant db) := by
  induction h with
  | nil => rfl
  | cons hp _ ih =>
    rw [List.forM_eq_forM] at ih ⊢
    rw [List.forM_cons, List.forM_cons, hp.validate, ih]

/-- As many of the participants are candidates, and as many are not. -/
theorem length_filter_of_alikeWithin (f : Bool → Bool) :
    (ps.filter fun p => f p.isCandidate).length = (qs.filter fun q => f q.isCandidate).length := by
  induction h with
  | nil => rfl
  | cons hp _ ih =>
    rw [List.filter_cons, List.filter_cons, hp.isCandidate]
    split_ifs
    · rw [List.length_cons, List.length_cons, ih]
    · exact ih

theorem forall_mem_of_alikeWithin {P Q : Participant → Prop}
    (hPQ : ∀ p q, p.AlikeWithin S q → (P p ↔ Q q)) : (∀ p ∈ ps, P p) ↔ ∀ q ∈ qs, Q q := by
  induction h with
  | nil => simp
  | cons hp _ ih => simp only [List.forall_mem_cons, hPQ _ _ hp, ih]

end Lists

section Inputs

variable (h : a.AlikeWithin b)
include h

theorem EngineInput.AlikeWithin.sameRequest : SameRequest a b where
  referenceTime := h.referenceTime
  constraints := h.constraints
  existingBookings := h.existingBookings
  weights := h.weights
  profiles := by rw [map_profile_of_alikeWithin h.participants]

/-- `_validate` ends alike. -/
theorem EngineInput.AlikeWithin.validate : validate db a = validate db b := by
  have hone := length_filter_of_alikeWithin h.participants id
  have hnone : a.participants.filter (!·.isCandidate) = [] ↔
      b.participants.filter (!·.isCandidate) = [] := by
    rw [← List.length_eq_zero_iff, ← List.length_eq_zero_iff,
      length_filter_of_alikeWithin h.participants (!·)]
  have hloop : a.participants.forM (validateParticipant db) = b.participants.forM (validateParticipant db) :=
    validate_of_alikeWithin h.participants
  unfold Engine.validate
  simp only [id] at hone
  simp only [h.constraints, h.referenceTime, h.windows, hone, hnone, hloop]

theorem EngineInput.AlikeWithin.candidateSpan : candidateSpan a = candidateSpan b := by
  unfold Engine.candidateSpan
  rw [h.windows]

/-- The common free sets are the same. -/
theorem EngineInput.AlikeWithin.commonFreeSet : commonFreeSet db a = commonFreeSet db b := by
  have hset : candidateSet a = candidateSet b := by
    unfold candidateSet
    rw [h.windows]
  have hwork : ∀ p q, p.AlikeWithin (candidateSet a) q → workingSet db a p = workingSet db b q := by
    intro p q hpq
    unfold workingSet touchedDays
    rw [h.candidateSpan, hpq.timezone, h.constraints]
  ext t
  show (_ ∧ _ ∧ _) ↔ (_ ∧ _ ∧ _)
  rw [← hset]
  refine and_congr_right fun ht => and_congr ?_ ?_
  · exact forall_mem_of_alikeWithin h.participants fun p q hpq => by rw [hwork p q hpq]
  · refine forall_mem_of_alikeWithin h.participants fun p q hpq => ?_
    rw [hpq.isCandidate, hpq.busy t ht]

/-- **What is out of the candidate's reach does not matter**, to the result or to the error. -/
theorem generateRecommendations_eq_of_alikeWithin :
    generateRecommendations db a = generateRecommendations db b := by
  have hvalid : Engine.validate db a = Engine.validate db b := h.validate
  cases hv : Engine.validate db a with
  | ok u =>
    have ha := (validate_eq_ok.mp hv).1
    have hb := (validate_eq_ok.mp (hvalid.symm.trans hv)).1
    exact generateRecommendations_congr h.sameRequest ha hb h.candidateSpan h.commonFreeSet
  | error e =>
    have hfail : ∀ {α : Type} (f : Unit → Except EngineError α), (Except.error e >>= f) = .error e :=
      fun f => rfl
    unfold generateRecommendations
    rw [← hvalid, hv, hfail, hfail]

end Inputs

end InterviewScheduler.Engine
