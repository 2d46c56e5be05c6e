import Mathlib.Order.Interval.Set.OrdConnected
import InterviewScheduler.Engine.Unbounded
import InterviewScheduler.Engine.Validation

/-! # The common free set

What the free intervals are for, pointwise: an instant is free in common (`commonFreeSet`) if the
candidate offers it, every participant is at work then, and no panelist is busy. The working hours
of a participant are the windows of the local days from the day the candidate's span starts on to
the day it ends on.

`freeIntervals_spec`: on an accepted input the list of the engine, over unbounded dates, covers exactly this
set, and is canonical, so that its intervals are the maximal intervals of the set. Nothing is assumed about
the working hours or the zones. -/

namespace InterviewScheduler.Engine

open InterviewScheduler.Intervals

/-- The instants the candidate offers. -/
def candidateSet (inp : EngineInput) : Set Instant := cover (normalizeWindows inp.candidateWindows)

/-- The hull of the candidate's windows. -/
def candidateSpan (inp : EngineInput) : TimeInterval :=
  spanOf (normalizeWindows inp.candidateWindows)

/-- The local days the candidate's span touches. -/
def touchedDays (db : ZoneDatabase) (inp : EngineInput) (p : Participant) : Set Date :=
  Set.Icc ((db.zone p.timezone).localDate (candidateSpan inp).start)
    ((db.zone p.timezone).localDate (candidateSpan inp).stop)

/-- The working hours of `p`, over the local days the candidate's span touches. -/
def workingSet (db : ZoneDatabase) (inp : EngineInput) (p : Participant) : Set Instant :=
  {t | ∃ d ∈ touchedDays db inp p,
    t ∈ (workingDay (db.zone p.timezone) inp.constraints.workingHours d).toSet}

/-- The instants `p` is busy. -/
def busySet (p : Participant) : Set Instant := cover (busyOf p)

/-- **The common free set.** -/
def commonFreeSet (db : ZoneDatabase) (inp : EngineInput) : Set Instant :=
  {t | t ∈ candidateSet inp ∧ (∀ p ∈ inp.participants, t ∈ workingSet db inp p) ∧
    ∀ p ∈ inp.participants, p.isCandidate = false → t ∉ busySet p}

/-! ### The pieces of `_free_intervals` -/

theorem mem_workingDays {tz : Zone} {wh : WorkingHours} {i : TimeInterval} :
    ∀ (n : ℕ) (d : Date), i ∈ Unbounded.workingDays tz wh n d ↔
      ∃ e, d ≤ e ∧ e < d + n ∧ i = workingDay tz wh e
  | 0, d => by
    simp only [Unbounded.workingDays, List.not_mem_nil, Nat.cast_zero, false_iff]
    rintro ⟨e, h1, h2, -⟩; lia
  | n + 1, d => by
    rw [Unbounded.workingDays, List.mem_cons, mem_workingDays n (d + 1)]
    constructor
    · rintro (rfl | ⟨e, h1, h2, rfl⟩)
      · exact ⟨d, le_rfl, by lia, rfl⟩
      · exact ⟨e, by lia, by push_cast; lia, rfl⟩
    · rintro ⟨e, h1, h2, rfl⟩
      rcases eq_or_lt_of_le h1 with rfl | h1
      · exact Or.inl rfl
      · exact Or.inr ⟨e, by lia, by push_cast at h2; lia, rfl⟩

theorem cover_workingIntervals (db : ZoneDatabase) (inp : EngineInput) (p : Participant) :
    cover (Unbounded.workingIntervals db p (candidateSpan inp) inp.constraints.workingHours) =
      workingSet db inp p := by
  rw [Unbounded.workingIntervals, cover_merge]
  ext t
  simp only [mem_cover, mem_workingDays, workingSet, touchedDays, Set.mem_Icc, Set.mem_ofPred_eq]
  constructor
  · rintro ⟨_, ⟨d, h1, h2, rfl⟩, ht⟩; exact ⟨d, ⟨h1, by lia⟩, ht⟩
  · rintro ⟨d, ⟨h1, h2⟩, ht⟩; exact ⟨_, ⟨d, h1, by lia, rfl⟩, ht⟩

theorem min?_getD_le {l : List ℤ} {x : ℤ} (hx : x ∈ l) : l.min?.getD 0 ≤ x := by
  obtain ⟨m, hm⟩ := Option.isSome_iff_exists.mp (List.isSome_min?_of_mem hx)
  rw [hm]
  exact (List.min?_eq_some_iff.mp hm).2 x hx

theorem le_max?_getD {l : List ℤ} {x : ℤ} (hx : x ∈ l) : x ≤ l.max?.getD 0 := by
  obtain ⟨m, hm⟩ := Option.isSome_iff_exists.mp (List.isSome_max?_of_mem hx)
  rw [hm]
  exact (List.max?_eq_some_iff.mp hm).2 x hx

/-- The windows lie in their hull. -/
theorem cover_subset_spanOf (windows : List TimeInterval) :
    cover windows ⊆ Set.Ico (spanOf windows).start (spanOf windows).stop := by
  rintro t ⟨i, hi, h1, h2⟩
  exact ⟨(min?_getD_le (List.mem_map_of_mem hi)).trans h1,
    h2.trans_le (le_max?_getD (List.mem_map_of_mem hi))⟩

/-- The hull starts at the first instant that is covered, and stops right after the last one. -/
theorem spanOf_extremes {windows : List TimeInterval} (hne : windows ≠ [])
    (hp : ∀ i ∈ windows, i.start < i.stop) :
    IsLeast (cover windows) (spanOf windows).start ∧
      IsGreatest (cover windows) ((spanOf windows).stop - 1) := by
  have hsub := cover_subset_spanOf windows
  obtain ⟨i, hi⟩ := List.exists_mem_of_ne_nil windows hne
  refine ⟨⟨?_, fun t ht => (hsub ht).1⟩, ⟨?_, fun t ht => ?_⟩⟩
  · obtain ⟨m, hm⟩ := Option.isSome_iff_exists.mp
      (List.isSome_min?_of_mem (List.mem_map_of_mem (f := HalfOpen.start) hi))
    obtain ⟨j, hj, hjm⟩ := List.mem_map.mp (List.min?_eq_some_iff.mp hm).1
    have hs : (spanOf windows).start = j.start := by
      unfold spanOf
      rw [hm, hjm]
      rfl
    rw [hs]
    exact ⟨j, hj, le_rfl, hp j hj⟩
  · obtain ⟨m, hm⟩ := Option.isSome_iff_exists.mp
      (List.isSome_max?_of_mem (List.mem_map_of_mem (f := HalfOpen.stop) hi))
    obtain ⟨j, hj, hjm⟩ := List.mem_map.mp (List.max?_eq_some_iff.mp hm).1
    have hs : (spanOf windows).stop = j.stop := by
      unfold spanOf
      rw [hm, hjm]
      rfl
    have hlt := hp j hj
    rw [hs]
    exact ⟨j, hj, by lia, by lia⟩
  · have := (hsub ht).2
    lia

/-- **The hull depends on the covered instants only.** -/
theorem spanOf_eq_of_cover_eq {ws vs : List TimeInterval} (hw : ws ≠ []) (hv : vs ≠ [])
    (hpw : ∀ i ∈ ws, i.start < i.stop) (hpv : ∀ i ∈ vs, i.start < i.stop)
    (hc : cover ws = cover vs) : spanOf ws = spanOf vs := by
  obtain ⟨hl, hg⟩ := spanOf_extremes hw hpw
  obtain ⟨hl', hg'⟩ := spanOf_extremes hv hpv
  rw [hc] at hl hg
  have hstart : (spanOf ws).start = (spanOf vs).start := hl.unique hl'
  have hstop : (spanOf ws).stop = (spanOf vs).stop := sub_left_injective (hg.unique hg')
  calc spanOf ws = ⟨(spanOf ws).start, (spanOf ws).stop⟩ := rfl
    _ = ⟨(spanOf vs).start, (spanOf vs).stop⟩ := by rw [hstart, hstop]
    _ = spanOf vs := rfl

/-- The instants that are free for one participant, inside the candidate's span. -/
def participantSet (db : ZoneDatabase) (inp : EngineInput) (p : Participant) : Set Instant :=
  (if p.isCandidate then workingSet db inp p ∩ candidateSet inp
    else workingSet db inp p \ busySet p) ∩
    Set.Ico (candidateSpan inp).start (candidateSpan inp).stop

theorem participantFree_spec {db : ZoneDatabase} {inp : EngineInput} {p : Participant}
    (hb : ∀ i ∈ busyOf p, i.start < i.stop) :
    let free := Unbounded.participantFree db inp.constraints.workingHours (candidateSpan inp)
      (merge (normalizeWindows inp.candidateWindows)) p
    cover free = participantSet db inp p ∧ Canonical free := by
  intro free
  have hw : Gapped (Unbounded.workingIntervals db p (candidateSpan inp) inp.constraints.workingHours) :=
    gapped_merge _
  simp only [free, Unbounded.participantFree, participantSet]
  split_ifs with hc
  · refine ⟨?_, canonical_clip (canonical_intersect _ _).gapped _ _⟩
    rw [cover_clip, cover_intersect, cover_merge, cover_workingIntervals]
    rfl
  · refine ⟨?_, canonical_clip (gapped_subtract hw hb) _ _⟩
    rw [cover_clip, cover_subtract, cover_workingIntervals]
    rfl

/-- Intersecting a list of canonical lists one after the other. -/
theorem foldl_intersect_spec : ∀ (rest : List (List TimeInterval)) (common : List TimeInterval),
    Canonical common → Canonical (rest.foldl intersect common) ∧
      ∀ t, t ∈ cover (rest.foldl intersect common) ↔ t ∈ cover common ∧ ∀ l ∈ rest, t ∈ cover l
  | [], common, h => by simp [h]
  | l :: rest, common, _ => by
    obtain ⟨h1, h2⟩ := foldl_intersect_spec rest _ (canonical_intersect common l)
    refine ⟨h1, fun t => ?_⟩
    rw [List.foldl_cons, h2 t, cover_intersect]
    simp only [Set.mem_inter_iff, List.mem_cons, forall_eq_or_imp, and_assoc]

/-- On an accepted input the sets of the participants meet in the common free set: there is a
candidate, and the windows lie in the span. -/
theorem mem_commonFreeSet_iff {db : ZoneDatabase} {inp : EngineInput} (h : Accepted db inp)
    {t : Instant} :
    t ∈ commonFreeSet db inp ↔ ∀ p ∈ inp.participants, t ∈ participantSet db inp p := by
  constructor
  · rintro ⟨hc, hw, hb⟩ p hp
    refine ⟨?_, cover_subset_spanOf _ hc⟩
    split_ifs with hcand
    · exact ⟨hw p hp, hc⟩
    · exact ⟨hw p hp, hb p hp (by simpa using hcand)⟩
  · intro ht
    refine ⟨?_, fun p hp => ?_, fun p hp hcand => ?_⟩
    · obtain ⟨p, hp, hcand⟩ := h.exists_candidate
      have := (ht p hp).1
      rw [if_pos hcand] at this
      exact this.2
    · have := (ht p hp).1
      split_ifs at this
      · exact this.1
      · exact this.1
    · have := (ht p hp).1
      rw [hcand] at this
      exact this.2

/-- **The engine's free intervals are the common free set**, as a canonical list. -/
theorem freeIntervals_spec {db : ZoneDatabase} {inp : EngineInput} (h : Accepted db inp) :
    cover (Unbounded.freeIntervals db inp (normalizeWindows inp.candidateWindows)) =
      commonFreeSet db inp ∧
    Canonical (Unbounded.freeIntervals db inp (normalizeWindows inp.candidateWindows)) := by
  set free := Unbounded.participantFree db inp.constraints.workingHours (candidateSpan inp)
    (merge (normalizeWindows inp.candidateWindows)) with hfree
  have hp : ∀ p ∈ inp.participants, cover (free p) = participantSet db inp p ∧ Canonical (free p) :=
    fun p hp => participantFree_spec (h.busyOf_proper hp)
  obtain ⟨p0, ps, hps⟩ := List.exists_cons_of_ne_nil h.participants_ne_nil
  have heq : Unbounded.freeIntervals db inp (normalizeWindows inp.candidateWindows) =
      (ps.map free).foldl intersect (free p0) := by
    unfold Unbounded.freeIntervals
    rw [hps]
    rfl
  obtain ⟨h1, h2⟩ := foldl_intersect_spec (ps.map free) (free p0) (hp p0 (by simp [hps])).2
  rw [heq]
  refine ⟨Set.ext fun t => ?_, h1⟩
  rw [h2 t, mem_commonFreeSet_iff h, hps, (hp p0 (by simp [hps])).1]
  simp only [List.forall_mem_map, List.mem_cons, forall_eq_or_imp]
  refine and_congr_right fun _ => forall₂_congr fun p hm => ?_
  rw [(hp p (by simp [hps, hm])).1]

end InterviewScheduler.Engine
