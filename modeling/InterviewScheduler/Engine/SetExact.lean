import InterviewScheduler.Engine.IntervalMath

/-! # Set-exactness of the interval math

`_intersect` as the source writes it, with its two indices, against the recursion of `sweep`
(`SweepState.run_eq`): the loop is left after at most one round for each interval of the two lists.
With that `_merge`, `_intersect` (`intersect_exact`) and `_subtract` (`subtract_exact`) are exact for
lists in any order. -/

namespace InterviewScheduler.Engine

open InterviewScheduler.Intervals

variable {α : Type} [LinearOrder α]

/-! ### The loop of `_intersect` -/

/-- The variables of the loop. -/
structure SweepState (α : Type) where
  i : ℕ
  j : ℕ
  out : List (HalfOpen α)

namespace SweepState

/-- The body of `while i < len(a) and j < len(b)`; there is none when the loop is left. -/
def round (a b : List (HalfOpen α)) (s : SweepState α) : Option (SweepState α) :=
  if h : s.i < a.length ∧ s.j < b.length then
    if (a.get ⟨s.i, h.1⟩).stop < (b.get ⟨s.j, h.2⟩).stop then
      some ⟨s.i + 1, s.j, s.out ++ overlap (a.get ⟨s.i, h.1⟩) (b.get ⟨s.j, h.2⟩)⟩
    else some ⟨s.i, s.j + 1, s.out ++ overlap (a.get ⟨s.i, h.1⟩) (b.get ⟨s.j, h.2⟩)⟩
  else none

/-- The loop, if it is left within `n` rounds. -/
def run (a b : List (HalfOpen α)) : ℕ → SweepState α → Option (SweepState α)
  | n, s =>
    match s.round a b with
    | none => some s
    | some s' =>
      match n with
      | 0 => none
      | n + 1 => run a b n s'

variable {a b : List (HalfOpen α)}

/-- A round moves one of the indices, and leaves to the rest of the sweep what it does not append. -/
theorem round_eq_some {s s' : SweepState α} (h : s.round a b = some s') :
    s.i < a.length ∧ s.j < b.length ∧ s'.i + s'.j = s.i + s.j + 1 ∧ s.i ≤ s'.i ∧ s.j ≤ s'.j ∧
      s'.out ++ sweep (a.drop s'.i) (b.drop s'.j) = s.out ++ sweep (a.drop s.i) (b.drop s.j) := by
  unfold round at h
  split_ifs at h with hlt hstop
  · cases h
    refine ⟨hlt.1, hlt.2, ?_, ?_, le_rfl, ?_⟩
    · show s.i + 1 + s.j = s.i + s.j + 1
      omega
    · show s.i ≤ s.i + 1
      omega
    · show s.out ++ overlap _ _ ++ sweep (a.drop (s.i + 1)) (b.drop s.j) = _
      rw [List.drop_eq_getElem_cons hlt.1, List.drop_eq_getElem_cons hlt.2, sweep_cons,
        List.append_assoc]
      exact congrArg _ (congrArg _ (if_pos hstop).symm)
  · cases h
    refine ⟨hlt.1, hlt.2, ?_, le_rfl, ?_, ?_⟩
    · show s.i + (s.j + 1) = s.i + s.j + 1
      omega
    · show s.j ≤ s.j + 1
      omega
    · show s.out ++ overlap _ _ ++ sweep (a.drop s.i) (b.drop (s.j + 1)) = _
      rw [List.drop_eq_getElem_cons hlt.1, List.drop_eq_getElem_cons hlt.2, sweep_cons,
        List.append_assoc]
      exact congrArg _ (congrArg _ (if_neg hstop).symm)

/-- When the loop is left, one of the lists is used up. -/
theorem sweep_of_round_eq_none {s : SweepState α} (h : s.round a b = none) :
    sweep (a.drop s.i) (b.drop s.j) = [] := by
  unfold round at h
  split_ifs at h with hlt hstop
  by_cases ha : s.i < a.length
  · have hb : b.length ≤ s.j := not_lt.mp fun hj => hlt ⟨ha, hj⟩
    rw [List.drop_eq_nil_of_le hb, sweep_nil_right]
  · rw [List.drop_eq_nil_of_le (not_lt.mp ha), sweep_nil_left]

/-- The loop ends, and what it has appended is the sweep of the rest. The induction is on the rounds. -/
theorem run_eq : ∀ (n : ℕ) (s : SweepState α), s.i ≤ a.length → s.j ≤ b.length →
    a.length + b.length ≤ s.i + s.j + n →
      ∃ s', run a b n s = some s' ∧ s'.out = s.out ++ sweep (a.drop s.i) (b.drop s.j) := by
  intro n
  induction n with
  | zero =>
    intro s hi hj hn
    unfold run
    cases h : s.round a b with
    | none => exact ⟨s, rfl, by rw [sweep_of_round_eq_none h, List.append_nil]⟩
    | some s' =>
      have := (round_eq_some h).1
      omega
  | succ n ih =>
    intro s hi hj hn
    unfold run
    cases h : s.round a b with
    | none => exact ⟨s, rfl, by rw [sweep_of_round_eq_none h, List.append_nil]⟩
    | some s' =>
      obtain ⟨hia, hjb, hsum, hi', hj', hout⟩ := round_eq_some h
      obtain ⟨s'', hrun, hs''⟩ := ih s' (by omega) (by omega) (by omega)
      exact ⟨s'', hrun, hs''.trans hout⟩

end SweepState

/-! ### Merging and intersecting -/

theorem canonical_merge {l : List (HalfOpen α)} (hl : ∀ i ∈ l, i.start < i.stop) :
    Canonical (merge l) :=
  ⟨proper_merge hl, gapped_merge l⟩

/-- **`_merge` and `_intersect` are exact.** The loop of `_intersect`, from `i = j = 0` over the merged
lists, is left, and returns the instants of both lists; what either routine returns is canonical. -/
theorem intersect_exact (a b : List (HalfOpen α)) (ha : ∀ i ∈ a, i.start < i.stop)
    (hb : ∀ i ∈ b, i.start < i.stop) :
    (∃ s, SweepState.run (merge a) (merge b) ((merge a).length + (merge b).length) ⟨0, 0, []⟩ = some s ∧
      s.out = intersect a b) ∧
    (∀ t, (∃ i ∈ intersect a b, i.start ≤ t ∧ t < i.stop) ↔
      (∃ i ∈ a, i.start ≤ t ∧ t < i.stop) ∧ ∃ i ∈ b, i.start ≤ t ∧ t < i.stop) ∧
    (∀ t, (∃ i ∈ merge a, i.start ≤ t ∧ t < i.stop) ↔ ∃ i ∈ a, i.start ≤ t ∧ t < i.stop) ∧
    Canonical (merge a) ∧ Canonical (merge b) ∧ Canonical (intersect a b) := by
  refine ⟨?_, ?_, ?_, canonical_merge ha, canonical_merge hb, canonical_intersect a b⟩
  · exact SweepState.run_eq _ _ (Nat.zero_le _) (Nat.zero_le _) (by omega)
  · intro t
    have := Set.ext_iff.mp (cover_intersect a b) t
    rwa [Set.mem_inter_iff, mem_cover, mem_cover, mem_cover] at this
  · intro t
    have := Set.ext_iff.mp (cover_merge a) t
    rwa [mem_cover, mem_cover] at this

/-- Two lists out of order, with overlapping, nested and touching intervals. -/
theorem intersect_exact_sample :
    (∃ s, SweepState.run (merge [⟨9, 14⟩, ⟨1, 3⟩, ⟨2, 4⟩, ⟨4, 6⟩] : List (HalfOpen ℕ))
        (merge [⟨10, 11⟩, ⟨2, 12⟩, ⟨13, 15⟩]) 4 ⟨0, 0, []⟩ = some s ∧
      s.out = [⟨2, 6⟩, ⟨9, 12⟩, ⟨13, 14⟩]) ∧
    Canonical (intersect [⟨9, 14⟩, ⟨1, 3⟩, ⟨2, 4⟩, ⟨4, 6⟩] [⟨10, 11⟩, ⟨2, 12⟩, ⟨13, 15⟩] :
      List (HalfOpen ℕ)) := by
  have h := intersect_exact [⟨9, 14⟩, ⟨1, 3⟩, ⟨2, 4⟩, ⟨4, 6⟩] [⟨10, 11⟩, ⟨2, 12⟩, (⟨13, 15⟩ : HalfOpen ℕ)]
    (by decide) (by decide)
  refine ⟨?_, h.2.2.2.2.2⟩
  obtain ⟨s, hs, hout⟩ := h.1
  exact ⟨s, hs, hout.trans (by decide)⟩

/-! ### Subtracting -/

/-- Sorted by start, and no instant is in two of the intervals. -/
structure Ordered (l : List (HalfOpen α)) : Prop where
  sorted : l.Pairwise startLE
  disjoint : l.Pairwise fun a b => ∀ t ∈ a.toSet, t ∉ b.toSet

/-- For non-empty intervals: each stops before the later ones start, or where they start. -/
theorem ordered_iff {l : List (HalfOpen α)} (hl : ∀ i ∈ l, i.start < i.stop) :
    Ordered l ↔ l.Pairwise fun a b => a.stop ≤ b.start := by
  constructor
  · intro h
    refine (h.sorted.and h.disjoint).imp_of_mem fun {a b} ha hb hab => ?_
    have hsorted : a.start ≤ b.start := hab.1
    by_contra hlt
    exact hab.2 b.start ⟨hsorted, not_le.mp hlt⟩ ⟨le_rfl, hl b hb⟩
  · intro h
    constructor
    · exact h.imp_of_mem fun {a b} ha _ hab => (hl a ha).le.trans hab
    · refine h.imp fun {a b} hab t ht ht' => ?_
      exact absurd (ht.2.trans_le hab) (not_lt.mpr ht'.1)

theorem proper_subtractCut {cut iv : HalfOpen α} (hiv : iv.start < iv.stop) :
    ∀ i ∈ subtractCut cut iv, i.start < i.stop := by
  intro i hi
  unfold subtractCut at hi
  split_ifs at hi with h h1 h2 h3
  · rw [List.mem_singleton.mp hi]
    exact hiv
  · rcases List.mem_append.mp hi with hi | hi
    · rw [List.mem_singleton.mp hi]
      exact h1
    · rw [List.mem_singleton.mp hi]
      exact h2
  · rw [List.append_nil, List.mem_singleton] at hi
    rw [hi]
    exact h1
  · rw [List.nil_append, List.mem_singleton] at hi
    rw [hi]
    exact h3
  · cases hi

/-- One cut keeps the order: the pieces of an interval stay inside it, on both sides of the cut. -/
theorem pairwise_flatMap_subtractCut {cut : HalfOpen α} (hc : cut.start < cut.stop)
    {l : List (HalfOpen α)} (hl : l.Pairwise fun a b => a.stop ≤ b.start) :
    (l.flatMap (subtractCut cut)).Pairwise fun a b => a.stop ≤ b.start := by
  refine List.pairwise_flatMap.mpr ⟨fun iv _ => ?_, hl.imp fun {a b} hab x hx y hy => ?_⟩
  · exact (gapped_subtractCut hc iv).imp fun {a b} hab => hab.le
  · exact (mem_subtractCut hx).2.trans (hab.trans (mem_subtractCut hy).1)

/-- What holds of the pieces after any number of cuts. -/
theorem foldl_subtractCut (cuts : List (HalfOpen α)) (hc : ∀ cut ∈ cuts, cut.start < cut.stop) :
    ∀ base : List (HalfOpen α), (∀ i ∈ base, i.start < i.stop) →
      (∀ i ∈ cuts.foldl (fun result cut => result.flatMap (subtractCut cut)) base, i.start < i.stop) ∧
      ((base.Pairwise fun a b => a.stop ≤ b.start) →
        (cuts.foldl (fun result cut => result.flatMap (subtractCut cut)) base).Pairwise
          fun a b => a.stop ≤ b.start) := by
  induction cuts with
  | nil => exact fun base hb => ⟨hb, fun h => h⟩
  | cons cut cuts ih =>
    intro base hb
    have hproper : ∀ i ∈ base.flatMap (subtractCut cut), i.start < i.stop := by
      intro i hi
      obtain ⟨iv, hiv, hi⟩ := List.mem_flatMap.mp hi
      exact proper_subtractCut (hb iv hiv) i hi
    obtain ⟨hp, ho⟩ := ih (fun c h => hc c (List.mem_cons_of_mem _ h)) _ hproper
    exact ⟨hp, fun h => ho (pairwise_flatMap_subtractCut (hc cut List.mem_cons_self) h)⟩

/-- **`_subtract` is exact**, returns no empty interval, and keeps the order of its base. -/
theorem subtract_exact (base cuts : List (HalfOpen α)) (hbase : ∀ i ∈ base, i.start < i.stop)
    (hcuts : ∀ i ∈ cuts, i.start < i.stop) :
    (∀ t, (∃ i ∈ subtract base cuts, i.start ≤ t ∧ t < i.stop) ↔
      (∃ i ∈ base, i.start ≤ t ∧ t < i.stop) ∧ ¬ ∃ i ∈ cuts, i.start ≤ t ∧ t < i.stop) ∧
    (∀ i ∈ subtract base cuts, i.start < i.stop) ∧ (Ordered base → Ordered (subtract base cuts)) := by
  obtain ⟨hproper, hordered⟩ := foldl_subtractCut (merge cuts) (proper_merge hcuts) base hbase
  refine ⟨?_, hproper, ?_⟩
  · intro t
    have := Set.ext_iff.mp (cover_subtract base cuts) t
    rwa [Set.mem_sdiff, mem_cover, mem_cover, mem_cover] at this
  · intro h
    exact (ordered_iff hproper).mpr (hordered ((ordered_iff hbase).mp h))

/-- A base of two touching intervals; the cuts split, trim and delete. -/
theorem subtract_exact_sample :
    subtract [⟨0, 10⟩, ⟨10, 20⟩, ⟨30, 32⟩] [⟨29, 40⟩, ⟨2, 4⟩, ⟨18, 21⟩, ⟨3, 5⟩] =
        ([⟨0, 2⟩, ⟨5, 10⟩, ⟨10, 18⟩] : List (HalfOpen ℕ)) ∧
    Ordered ([⟨0, 2⟩, ⟨5, 10⟩, ⟨10, 18⟩] : List (HalfOpen ℕ)) := by
  have h := subtract_exact [⟨0, 10⟩, ⟨10, 20⟩, ⟨30, 32⟩]
    [⟨29, 40⟩, ⟨2, 4⟩, ⟨18, 21⟩, (⟨3, 5⟩ : HalfOpen ℕ)] (by decide) (by decide)
  have heq : subtract [⟨0, 10⟩, ⟨10, 20⟩, ⟨30, 32⟩] [⟨29, 40⟩, ⟨2, 4⟩, ⟨18, 21⟩, ⟨3, 5⟩] =
      ([⟨0, 2⟩, ⟨5, 10⟩, ⟨10, 18⟩] : List (HalfOpen ℕ)) := by decide
  refine ⟨heq, heq ▸ h.2.2 ?_⟩
  exact (ordered_iff (by decide)).mpr (by decide)

end InterviewScheduler.Engine
