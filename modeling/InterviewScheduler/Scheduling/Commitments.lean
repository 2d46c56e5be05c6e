import InterviewScheduler.Engine.Relevance
import InterviewScheduler.Lifecycle.Runs
import InterviewScheduler.Scheduling.Proposal

/-! # The interviews of the panel as busy blocks

Only the panelists' CONFIRMED interviews that meet the hull of the windows are looked up. The engine would
find the same with all of them (`generateRecommendations_prefilter`): a slot with its buffers lies in the
windows, so an interview outside of the hull is out of its reach. -/

namespace InterviewScheduler.Scheduling

open InterviewScheduler.Intervals InterviewScheduler.Engine InterviewScheduler.Core
open InterviewScheduler.Lifecycle
open InterviewScheduler.Booking (Part Parts partsOf confirmedFor)

/-- `confirmed_events_for_users` without bounds: all CONFIRMED events of other requests with one of the
users. -/
def allConfirmedFor (T : Interviews) (userIds : List Id) (excludeRequestId : Id) :
    List (Id × Instant × Instant) :=
  T.events.flatMap fun e =>
    if e.status = .confirmed ∧ e.interviewRequestId ≠ excludeRequestId then
      ((T.participants e.interviewRequestId).filter (·.userId ∈ userIds)).map
        fun p => (p.userId, e.startTime, e.endTime)
    else []

variable {T : Interviews} {users : List Id} {r u : Id} {a b : Instant} {x : Id × Instant × Instant}

/-- An entry of a user is an interview of that user. -/
theorem mem_allConfirmedFor : x ∈ allConfirmedFor T users r ↔
    ∃ e ∈ T.events, e.status = .confirmed ∧ e.interviewRequestId ≠ r ∧
      TakesPart T x.1 e.interviewRequestId ∧ x.1 ∈ users ∧ x.2 = (e.startTime, e.endTime) := by
  unfold allConfirmedFor
  rw [List.mem_flatMap]
  constructor
  · rintro ⟨e, he, hx⟩
    split_ifs at hx with hc
    · obtain ⟨p, hp, rfl⟩ := List.mem_map.mp hx
      obtain ⟨hp, hu⟩ := List.mem_filter.mp hp
      exact ⟨e, he, hc.1, hc.2, ⟨p, hp, rfl⟩, of_decide_eq_true hu, rfl⟩
    · simp at hx
  · rintro ⟨e, he, hc, hne, ⟨p, hp, hpu⟩, hu, hx⟩
    refine ⟨e, he, ?_⟩
    rw [if_pos ⟨hc, hne⟩]
    refine List.mem_map.mpr ⟨p, List.mem_filter.mpr ⟨hp, ?_⟩, ?_⟩
    · rw [hpu]
      exact decide_eq_true hu
    · rw [hpu, ← hx]

/-- The bounds select the entries that meet them. -/
theorem mem_confirmedFor_iff : x ∈ confirmedFor T users r a b ↔
    x ∈ allConfirmedFor T users r ∧ x.2.1 < b ∧ a < x.2.2 := by
  unfold confirmedFor allConfirmedFor
  simp only [List.mem_flatMap]
  constructor
  · rintro ⟨e, he, hx⟩
    split_ifs at hx with hc
    · obtain ⟨hst, hne, h1, h2⟩ := hc
      obtain ⟨p, hp, rfl⟩ := List.mem_map.mp hx
      refine ⟨⟨e, he, ?_⟩, h1, h2⟩
      rw [if_pos ⟨hst, hne⟩]
      exact List.mem_map_of_mem hp
    · simp at hx
  · rintro ⟨⟨e, he, hx⟩, h1, h2⟩
    split_ifs at hx with hc
    · obtain ⟨p, hp, rfl⟩ := List.mem_map.mp hx
      refine ⟨e, he, ?_⟩
      rw [if_pos ⟨hc.1, hc.2, h1, h2⟩]
      exact List.mem_map_of_mem hp
    · simp at hx

theorem allConfirmedFor_proper (hT : EventsProper T) (hx : x ∈ allConfirmedFor T users r) :
    x.2.1 < x.2.2 := by
  obtain ⟨e, he, -, -, -, -, hx⟩ := mem_allConfirmedFor.mp hx
  rw [hx]
  exact hT e he

/-! ### Two lists of commitments -/

section Input

variable {db : ZoneDatabase} {request : InterviewRequest} {avail : CandidateAvailability}
  {panelists : Parts} {ref : Instant} {windows : List AvailabilityWindow}
  {busyByUser : List (Id × List BusyInterval)} {some all : List (Id × Instant × Instant)}

/-- Commitments in order are not rejected, so that the check does not see them. -/
theorem forM_withInternal (hall : ∀ x ∈ all, x.2.1 < x.2.2) (user : Id) :
    (withInternal busyByUser all user).forM validateBusy =
      (((busyByUser.find? fun x => x.1 = user).map (·.2)).getD []).forM validateBusy := by
  refine Util.forM_append_ok _ fun i hi => ?_
  obtain ⟨x, hx, rfl⟩ := List.mem_map.mp hi
  exact validateBusy_eq_ok.mpr ⟨_, _, rfl, rfl, hall x (List.mem_filter.mp hx).1⟩

/-- The instants of a user's commitments. -/
theorem mem_busy_withInternal {t : Instant} {p : Participant}
    (hp : p.busy = withInternal busyByUser all u) :
    t ∈ busySet p ↔
      (∃ i ∈ ((busyByUser.find? fun x => x.1 = u).map (·.2)).getD [], i.start.astimezone ≤ t ∧
        t < i.stop.astimezone) ∨ ∃ x ∈ all, x.1 = u ∧ x.2.1 ≤ t ∧ t < x.2.2 := by
  have hbusy : t ∈ busySet p ↔ ∃ i ∈ withInternal busyByUser all u,
      i.start.astimezone ≤ t ∧ t < i.stop.astimezone := by
    rw [← hp]
    unfold busySet busyOf
    rw [mem_cover]
    constructor
    · rintro ⟨_, hblock, ht⟩
      obtain ⟨i, hi, rfl⟩ := List.mem_map.mp hblock
      exact ⟨i, hi, ht⟩
    · rintro ⟨i, hi, ht⟩
      exact ⟨_, List.mem_map_of_mem hi, ht⟩
  rw [hbusy]
  unfold withInternal
  constructor
  · rintro ⟨i, hi, ht⟩
    rcases List.mem_append.mp hi with hi | hi
    · exact .inl ⟨i, hi, ht⟩
    · obtain ⟨x, hx, rfl⟩ := List.mem_map.mp hi
      obtain ⟨hx, hu⟩ := List.mem_filter.mp hx
      exact .inr ⟨x, hx, of_decide_eq_true hu, ht⟩
  · rintro (⟨i, hi, ht⟩ | ⟨x, hx, hu, ht⟩)
    · exact ⟨i, List.mem_append_left _ hi, ht⟩
    · refine ⟨⟨.aware x.2.1, .aware x.2.2⟩, List.mem_append_right _ (List.mem_map.mpr ⟨x, ?_, rfl⟩), ht⟩
      exact List.mem_filter.mpr ⟨hx, decide_eq_true hu⟩

/-- The instants of the windows are met by a commitment exactly when they are by one that meets the
bounds. -/
theorem alikeWithin_committed (hsome : ∀ x ∈ some, x.2.1 < x.2.2) (hall : ∀ x ∈ all, x.2.1 < x.2.2)
    (hmem : ∀ x, x ∈ some ↔ x ∈ all ∧ x.2.1 < timeMax windows ∧ timeMin windows < x.2.2) :
    (engineInput request avail panelists ref windows (withInternal busyByUser some)).AlikeWithin
      (engineInput request avail panelists ref windows (withInternal busyByUser all)) where
  referenceTime := rfl
  constraints := rfl
  existingBookings := rfl
  weights := rfl
  windows := rfl
  participants := by
    refine .cons ⟨rfl, rfl, fun _ _ => Iff.rfl⟩ (List.forall₂_map_left_iff.mpr
      (List.forall₂_map_right_iff.mpr (List.forall₂_same.mpr fun p _ => ⟨rfl, ?_, fun t ht => ?_⟩)))
    · exact (forM_withInternal hsome p.2.id).trans (forM_withInternal hall p.2.id).symm
    · obtain ⟨h1, h2⟩ := of_mem_candidateSet ht
      rw [mem_busy_withInternal rfl, mem_busy_withInternal rfl]
      refine or_congr_right ⟨?_, ?_⟩
      · rintro ⟨x, hx, hu, hx1, hx2⟩
        exact ⟨x, ((hmem x).mp hx).1, hu, hx1, hx2⟩
      · rintro ⟨x, hx, hu, hx1, hx2⟩
        exact ⟨x, (hmem x).mpr ⟨hx, lt_of_le_of_lt hx1 h2, lt_of_le_of_lt h1 hx2⟩, hu, hx1, hx2⟩

/-- **The prefilter is lossless**: the outcome is the same, result or error, with all the commitments of
the panel. -/
theorem generateRecommendations_prefilter (hT : EventsProper T) (pick pick' : ℕ) :
    generateRecommendations db (engineInput request avail panelists ref windows
        (withInternal busyByUser (inSomeOrder pick
          (confirmedFor T users r (timeMin windows) (timeMax windows))))) =
      generateRecommendations db (engineInput request avail panelists ref windows
        (withInternal busyByUser (inSomeOrder pick' (allConfirmedFor T users r)))) := by
  have hall : ∀ x ∈ inSomeOrder pick' (allConfirmedFor T users r), x.2.1 < x.2.2 := fun x hx =>
    allConfirmedFor_proper hT ((inSomeOrder_perm _ _).mem_iff.mp hx)
  have hmem : ∀ x, x ∈ inSomeOrder pick (confirmedFor T users r (timeMin windows) (timeMax windows)) ↔
      x ∈ inSomeOrder pick' (allConfirmedFor T users r) ∧ x.2.1 < timeMax windows ∧
        timeMin windows < x.2.2 := by
    intro x
    rw [(inSomeOrder_perm _ _).mem_iff, (inSomeOrder_perm _ _).mem_iff]
    exact mem_confirmedFor_iff
  exact generateRecommendations_eq_of_alikeWithin
    (alikeWithin_committed (fun x hx => hall x ((hmem x).mp hx).1) hall hmem)

/-- A slot keeps the buffer to the busy blocks of the panel, on both sides. -/
theorem slot_apart {inp : EngineInput} {res : EngineResult} {slot : ScoredSlot}
    (h : generateRecommendations db inp = .ok res) (hslot : slot ∈ res.slots) {p : Participant}
    (hp : p ∈ inp.participants) (hc : p.isCandidate = false) {i : TimeInterval} (hi : i ∈ busyOf p) :
    slot.endTime + minutes inp.constraints.bufferMinutes ≤ i.start ∨
      i.stop + minutes inp.constraints.bufferMinutes ≤ slot.startTime := by
  have hacc := (generateRecommendations_eq_ok.mp h).1
  have hproper := hacc.busyOf_proper hp i hi
  have hlt := slot_proper h hslot
  have hbuf : 0 ≤ minutes inp.constraints.bufferMinutes := by
    have := hacc.buffer_nonneg
    unfold minutes
    lia
  by_contra hnot
  obtain ⟨h1, h2⟩ := not_or.mp hnot
  -- the later of the two starts is a common point
  have hfree := slot_subset_commonFreeSet h hslot (a := max
    (slot.startTime - minutes inp.constraints.bufferMinutes) i.start) ⟨le_max_left _ _, max_lt (by lia) (by lia)⟩
  exact hfree.2.2 p hp hc ⟨i, hi, le_max_right _ _, max_lt (by lia) hproper⟩

end Input

end InterviewScheduler.Scheduling
