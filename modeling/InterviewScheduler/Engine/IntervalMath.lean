import Mathlib.Data.List.Sort
import Mathlib.Order.MinMax
import Mathlib.Order.Interval.Set.LinearOrder
import InterviewScheduler.Intervals.Cover

/-! # Interval math of the engine

The four routines `_merge`, `_subtract`, `_intersect`, `_clip` of `engine.py`, over any linear order
of instants. Each is exact on the sets of instants its arguments cover (`cover_merge`,
`cover_subtract`, `cover_intersect`, `cover_clip`), whatever the order, overlap or emptiness of the
intervals it is given, and leaves gaps between the intervals it returns: `gapped_merge` and
`canonical_intersect` for any input, `gapped_subtract` if the cuts are non-empty. -/

namespace InterviewScheduler.Engine

open InterviewScheduler.Intervals

variable {α : Type} [LinearOrder α]

/-- The order `_merge` sorts by: `key=lambda i: i.start`. -/
def startLE (a b : HalfOpen α) : Prop := a.start ≤ b.start

instance : DecidableRel (startLE (α := α)) := fun a b => inferInstanceAs (Decidable (a.start ≤ b.start))

instance : Std.Total (startLE (α := α)) := ⟨fun a b => le_total a.start b.start⟩

instance : IsTrans (HalfOpen α) startLE := ⟨fun _ _ _ => le_trans⟩

/-! ### Merging -/

/-- The loop of `_merge` over the sorted intervals; `last` is `merged[-1]`. -/
def mergeFrom (last : HalfOpen α) : List (HalfOpen α) → List (HalfOpen α)
  | [] => [last]
  | cur :: rest =>
    if cur.start ≤ last.stop then
      if last.stop < cur.stop then mergeFrom ⟨last.start, cur.stop⟩ rest else mergeFrom last rest
    else last :: mergeFrom cur rest

/-- Sort and coalesce overlapping or touching intervals. -/
def merge (intervals : List (HalfOpen α)) : List (HalfOpen α) :=
  match intervals.insertionSort startLE with
  | [] => []
  | first :: rest => mergeFrom first rest

/-- Moving the end of the first interval keeps a list sorted by start. -/
theorem pairwise_startLE_cons {last cur : HalfOpen α} {rest : List (HalfOpen α)} (x : α)
    (h : (last :: cur :: rest).Pairwise startLE) :
    ((⟨last.start, x⟩ : HalfOpen α) :: rest).Pairwise startLE := by
  obtain ⟨hlast, hrest⟩ := List.pairwise_cons.mp h
  exact List.pairwise_cons.mpr
    ⟨fun i hi => hlast i (List.mem_cons_of_mem _ hi), (List.pairwise_cons.mp hrest).2⟩

theorem cover_mergeFrom : ∀ (rest : List (HalfOpen α)) (last : HalfOpen α),
    (last :: rest).Pairwise startLE → cover (mergeFrom last rest) = last.toSet ∪ cover rest
  | [], last, _ => by simp [mergeFrom]
  | cur :: rest, last, h => by
    obtain ⟨hlast, hrest⟩ := List.pairwise_cons.mp h
    have hcur : last.start ≤ cur.start := hlast cur (by simp)
    unfold mergeFrom
    split_ifs with h1 h2
    · rw [cover_mergeFrom rest ⟨last.start, cur.stop⟩ (pairwise_startLE_cons _ h), cover_cons, ← Set.union_assoc]
      congr 1
      ext t
      simp only [HalfOpen.mem_toSet, Set.mem_union]
      constructor
      · rintro ⟨h3, h4⟩
        rcases lt_or_ge t last.stop with h5 | h5
        · exact Or.inl ⟨h3, h5⟩
        · exact Or.inr ⟨h1.trans h5, h4⟩
      · rintro (⟨h3, h4⟩ | ⟨h3, h4⟩)
        · exact ⟨h3, h4.trans h2⟩
        · exact ⟨hcur.trans h3, h4⟩
    · -- `cur` lies inside `last`
      rw [cover_mergeFrom rest last (pairwise_startLE_cons _ h), cover_cons, ← Set.union_assoc]
      congr 1
      refine (Set.union_eq_left.mpr fun t ht => ?_).symm
      exact ⟨hcur.trans ht.1, ht.2.trans_le (not_lt.mp h2)⟩
    · rw [cover_cons, cover_mergeFrom rest cur hrest, cover_cons]

theorem start_le_mergeFrom : ∀ (rest : List (HalfOpen α)) (last : HalfOpen α),
    (last :: rest).Pairwise startLE → ∀ i ∈ mergeFrom last rest, last.start ≤ i.start
  | [], last, _, i, hi => by simp only [mergeFrom, List.mem_singleton] at hi; rw [hi]
  | cur :: rest, last, h, i, hi => by
    obtain ⟨hlast, hrest⟩ := List.pairwise_cons.mp h
    unfold mergeFrom at hi
    split_ifs at hi with h1 h2
    · exact start_le_mergeFrom rest ⟨last.start, cur.stop⟩ (pairwise_startLE_cons _ h) i hi
    · exact start_le_mergeFrom rest last (pairwise_startLE_cons _ h) i hi
    · rcases List.mem_cons.mp hi with rfl | hi
      · exact le_rfl
      · exact (hlast cur (by simp)).trans (start_le_mergeFrom rest cur hrest i hi)

theorem gapped_mergeFrom : ∀ (rest : List (HalfOpen α)) (last : HalfOpen α),
    (last :: rest).Pairwise startLE → Gapped (mergeFrom last rest)
  | [], last, _ => List.pairwise_singleton _ _
  | cur :: rest, last, h => by
    obtain ⟨hlast, hrest⟩ := List.pairwise_cons.mp h
    unfold mergeFrom
    split_ifs with h1 h2
    · exact gapped_mergeFrom rest ⟨last.start, cur.stop⟩ (pairwise_startLE_cons _ h)
    · exact gapped_mergeFrom rest last (pairwise_startLE_cons _ h)
    · refine List.pairwise_cons.mpr ⟨fun i hi => ?_, gapped_mergeFrom rest cur hrest⟩
      exact (not_le.mp h1).trans_le (start_le_mergeFrom rest cur hrest i hi)

theorem proper_mergeFrom : ∀ (rest : List (HalfOpen α)) (last : HalfOpen α),
    (∀ i ∈ last :: rest, i.start < i.stop) → ∀ i ∈ mergeFrom last rest, i.start < i.stop
  | [], last, h, i, hi => h i hi
  | cur :: rest, last, h, i, hi => by
    have hlast := h last (by simp)
    have hpr : ∀ x : α, last.start < x → ∀ i ∈ (⟨last.start, x⟩ : HalfOpen α) :: rest,
        i.start < i.stop := by
      intro x hx i hi
      rcases List.mem_cons.mp hi with rfl | hi
      · exact hx
      · exact h i (by simp [hi])
    unfold mergeFrom at hi
    split_ifs at hi with h1 h2
    · exact proper_mergeFrom rest ⟨last.start, cur.stop⟩ (hpr _ (hlast.trans h2)) i hi
    · exact proper_mergeFrom rest last (hpr _ hlast) i hi
    · rcases List.mem_cons.mp hi with rfl | hi
      · exact hlast
      · exact proper_mergeFrom rest cur (fun j hj => h j (by simp [List.mem_cons.mp hj])) i hi

/-- **`_merge` keeps the covered instants.** -/
theorem cover_merge (l : List (HalfOpen α)) : cover (merge l) = cover l := by
  rw [← cover_perm (l.perm_insertionSort startLE)]
  have hs := l.pairwise_insertionSort startLE
  unfold merge
  cases h : l.insertionSort startLE with
  | nil => rfl
  | cons first rest => rw [h] at hs; rw [cover_cons]; exact cover_mergeFrom rest first hs

/-- **`_merge` leaves gaps**, so nothing it returns overlaps or touches. -/
theorem gapped_merge (l : List (HalfOpen α)) : Gapped (merge l) := by
  have hs := l.pairwise_insertionSort startLE
  unfold merge
  cases h : l.insertionSort startLE with
  | nil => exact List.Pairwise.nil
  | cons first rest => rw [h] at hs; exact gapped_mergeFrom rest first hs

theorem proper_merge {l : List (HalfOpen α)} (hl : ∀ i ∈ l, i.start < i.stop) :
    ∀ i ∈ merge l, i.start < i.stop := by
  have hm : ∀ i ∈ l.insertionSort startLE, i.start < i.stop := fun i hi =>
    hl i ((List.mem_insertionSort startLE).mp hi)
  unfold merge
  cases h : l.insertionSort startLE with
  | nil => simp
  | cons first rest => rw [h] at hm; exact proper_mergeFrom rest first hm

/-! ### Subtracting -/

/-- What the inner loop of `_subtract` keeps of `iv` when `cut` is taken out. -/
def subtractCut (cut iv : HalfOpen α) : List (HalfOpen α) :=
  if cut.stop ≤ iv.start ∨ iv.stop ≤ cut.start then [iv]
  else (if iv.start < cut.start then [⟨iv.start, cut.start⟩] else []) ++
    (if cut.stop < iv.stop then [⟨cut.stop, iv.stop⟩] else [])

/-- `base` minus `cuts` (both need not be pre-merged). -/
def subtract (base cuts : List (HalfOpen α)) : List (HalfOpen α) :=
  (merge cuts).foldl (fun result cut => result.flatMap (subtractCut cut)) base

theorem cover_subtractCut (cut iv : HalfOpen α) :
    cover (subtractCut cut iv) = iv.toSet \ cut.toSet := by
  ext t
  unfold subtractCut
  by_cases h : cut.stop ≤ iv.start ∨ iv.stop ≤ cut.start
  · rw [if_pos h]
    simp only [cover_cons, cover_nil, Set.union_empty, Set.mem_sdiff, HalfOpen.mem_toSet]
    grind
  · rw [if_neg h, cover_append, cover_guard, cover_guard]
    simp only [Set.mem_union, Set.mem_sdiff, HalfOpen.mem_toSet, Set.mem_Ico]
    grind

theorem mem_subtractCut {cut iv i : HalfOpen α} (hi : i ∈ subtractCut cut iv) :
    iv.start ≤ i.start ∧ i.stop ≤ iv.stop := by
  unfold subtractCut at hi
  split_ifs at hi <;> simp_all <;> grind

theorem gapped_subtractCut {cut : HalfOpen α} (hc : cut.start < cut.stop) (iv : HalfOpen α) :
    Gapped (subtractCut cut iv) := by
  unfold subtractCut Gapped
  split_ifs <;> simp [hc]

/-- Taking one cut out of a gapped list leaves it gapped: the pieces of an interval stay inside
it, and the cut itself separates the two pieces it makes. -/
theorem gapped_flatMap_subtractCut {cut : HalfOpen α} (hc : cut.start < cut.stop)
    {l : List (HalfOpen α)} (hl : Gapped l) : Gapped (l.flatMap (subtractCut cut)) := by
  refine List.pairwise_flatMap.mpr ⟨fun iv _ => gapped_subtractCut hc iv, hl.imp ?_⟩
  intro a b hab x hx y hy
  exact (mem_subtractCut hx).2.trans_lt (hab.trans_le (mem_subtractCut hy).1)

theorem cover_foldl_subtractCut (cuts : List (HalfOpen α)) : ∀ base : List (HalfOpen α),
    cover (cuts.foldl (fun result cut => result.flatMap (subtractCut cut)) base) =
      cover base \ cover cuts := by
  induction cuts with
  | nil => simp
  | cons cut cuts ih =>
    intro base
    rw [List.foldl_cons, ih, cover_cons, ← Set.sdiff_sdiff]
    congr 1
    ext t
    rw [mem_cover_flatMap]
    simp only [cover_subtractCut, Set.mem_sdiff, mem_cover]
    constructor
    · rintro ⟨i, hi, h1, h2⟩; exact ⟨⟨i, hi, h1⟩, h2⟩
    · rintro ⟨⟨i, hi, h1⟩, h2⟩; exact ⟨i, hi, h1, h2⟩

theorem gapped_foldl_subtractCut (cuts : List (HalfOpen α))
    (hc : ∀ cut ∈ cuts, cut.start < cut.stop) : ∀ base : List (HalfOpen α), Gapped base →
    Gapped (cuts.foldl (fun result cut => result.flatMap (subtractCut cut)) base) := by
  induction cuts with
  | nil => exact fun _ h => h
  | cons cut cuts ih =>
    intro base hb
    exact ih (fun c h => hc c (by simp [h])) _
      (gapped_flatMap_subtractCut (hc cut (by simp)) hb)

/-- **`_subtract` is exact.** -/
theorem cover_subtract (base cuts : List (HalfOpen α)) :
    cover (subtract base cuts) = cover base \ cover cuts := by
  rw [subtract, cover_foldl_subtractCut, cover_merge]

theorem gapped_subtract {base cuts : List (HalfOpen α)} (hb : Gapped base)
    (hc : ∀ cut ∈ cuts, cut.start < cut.stop) : Gapped (subtract base cuts) :=
  gapped_foldl_subtractCut _ (proper_merge hc) base hb

/-! ### Intersecting -/

/-- What the body of the sweep appends for `a[i]` and `b[j]`. -/
def overlap (a b : HalfOpen α) : List (HalfOpen α) :=
  let lo := max a.start b.start
  let hi := min a.stop b.stop
  if lo < hi then [⟨lo, hi⟩] else []

/-- The sweep with `a[i] = a`: it walks along `bs` until `b[j]` ends after `a`, and then goes on
from the next `a[i]` with `next`. -/
def sweepRow (a : HalfOpen α) (next : List (HalfOpen α) → List (HalfOpen α)) :
    List (HalfOpen α) → List (HalfOpen α)
  | [] => []
  | b :: bs => overlap a b ++ if a.stop < b.stop then next (b :: bs) else sweepRow a next bs

/-- The loop `while i < len(a) and j < len(b)` of `_intersect`. -/
def sweep : List (HalfOpen α) → List (HalfOpen α) → List (HalfOpen α)
  | [] => fun _ => []
  | a :: as => sweepRow a (sweep as)

def intersect (a b : List (HalfOpen α)) : List (HalfOpen α) := sweep (merge a) (merge b)

@[simp] theorem sweep_nil_left (bs : List (HalfOpen α)) : sweep [] bs = [] := rfl

@[simp] theorem sweep_nil_right : ∀ as : List (HalfOpen α), sweep as [] = []
  | [] => rfl
  | _ :: _ => rfl

/-- One round of the loop: the interval that ends first is passed. -/
theorem sweep_cons (a b : HalfOpen α) (as bs : List (HalfOpen α)) :
    sweep (a :: as) (b :: bs) = overlap a b ++
      if a.stop < b.stop then sweep as (b :: bs) else sweep (a :: as) bs := rfl

theorem cover_overlap (a b : HalfOpen α) : cover (overlap a b) = a.toSet ∩ b.toSet := by
  rw [overlap, cover_guard]
  exact Set.Ico_inter_Ico.symm

theorem cover_sweep : ∀ as bs : List (HalfOpen α), Gapped as → Gapped bs →
    cover (sweep as bs) = cover as ∩ cover bs := by
  intro as
  induction as with
  | nil => simp
  | cons a as iha =>
    intro bs hg
    induction bs with
    | nil => simp
    | cons b bs ihb =>
      intro hb
      rw [sweep_cons, cover_append, cover_overlap]
      split_ifs with h
      · -- `a` ends before every later `b[j]` starts
        rw [iha (b :: bs) hg.of_cons hb]
        have hd : a.toSet ∩ cover bs = ∅ := by
          ext t
          simp only [Set.mem_inter_iff, HalfOpen.mem_toSet, mem_cover, Set.mem_empty_iff_false,
            iff_false]
          rintro ⟨⟨-, h2⟩, j, hj, h3, -⟩
          exact lt_irrefl _ ((h2.trans (h.trans (hb.head_lt hj))).trans_le h3)
        simp only [cover_cons, Set.union_inter_distrib_right, Set.inter_union_distrib_left, hd,
          Set.empty_union, Set.union_assoc]
      · -- `b` ends before every later `a[i]` starts
        rw [ihb hb.of_cons]
        have hd : cover as ∩ b.toSet = ∅ := by
          ext t
          simp only [Set.mem_inter_iff, HalfOpen.mem_toSet, mem_cover, Set.mem_empty_iff_false,
            iff_false]
          rintro ⟨⟨j, hj, h3, -⟩, -, h2⟩
          exact lt_irrefl _ ((h2.trans_le (not_lt.mp h)).trans ((hg.head_lt hj).trans_le h3))
        simp only [cover_cons, Set.union_inter_distrib_right, Set.inter_union_distrib_left, hd,
          Set.union_empty]

/-- An interval of the sweep is non-empty and lies in one interval of each list. -/
theorem mem_sweep : ∀ {as bs : List (HalfOpen α)} {i : HalfOpen α}, i ∈ sweep as bs →
    i.start < i.stop ∧ (∃ a ∈ as, a.start ≤ i.start ∧ i.stop ≤ a.stop) ∧
      ∃ b ∈ bs, b.start ≤ i.start ∧ i.stop ≤ b.stop := by
  intro as
  induction as with
  | nil => simp
  | cons a as iha =>
    intro bs
    induction bs with
    | nil => simp
    | cons b bs ihb =>
      intro i hi
      rw [sweep_cons, List.mem_append] at hi
      rcases hi with hi | hi
      · unfold overlap at hi
        dsimp only at hi
        split_ifs at hi with h
        · rw [List.mem_singleton] at hi
          subst hi
          exact ⟨h, ⟨a, by simp, le_max_left _ _, min_le_left _ _⟩,
            b, by simp, le_max_right _ _, min_le_right _ _⟩
        · simp at hi
      · split_ifs at hi with h
        · obtain ⟨h1, ⟨x, hx, h2⟩, h3⟩ := iha hi
          exact ⟨h1, ⟨x, by simp [hx], h2⟩, h3⟩
        · obtain ⟨h1, h2, y, hy, h3⟩ := ihb hi
          exact ⟨h1, h2, y, by simp [hy], h3⟩

theorem gapped_sweep : ∀ as bs : List (HalfOpen α), Gapped as → Gapped bs →
    Gapped (sweep as bs) := by
  intro as
  induction as with
  | nil => intro bs _ _; exact List.Pairwise.nil
  | cons a as iha =>
    intro bs hg
    induction bs with
    | nil => intro _; exact List.Pairwise.nil
    | cons b bs ihb =>
      intro hb
      rw [sweep_cons]
      refine List.pairwise_append.mpr ⟨?_, ?_, ?_⟩
      · unfold overlap
        dsimp only
        split_ifs <;> simp
      · split_ifs
        · exact iha _ hg.of_cons hb
        · exact ihb hb.of_cons
      · intro x hx y hy
        have hxa : x.stop ≤ a.stop ∧ x.stop ≤ b.stop := by
          unfold overlap at hx
          dsimp only at hx
          split_ifs at hx
          · rw [List.mem_singleton] at hx
            subst hx
            exact ⟨min_le_left _ _, min_le_right _ _⟩
          · simp at hx
        split_ifs at hy with h
        · obtain ⟨-, ⟨a', ha', h1, -⟩, -⟩ := mem_sweep hy
          exact hxa.1.trans_lt ((hg.head_lt ha').trans_le h1)
        · obtain ⟨-, -, b', hb', h1, -⟩ := mem_sweep hy
          exact hxa.2.trans_lt ((hb.head_lt hb').trans_le h1)

/-- **`_intersect` is exact.** -/
theorem cover_intersect (a b : List (HalfOpen α)) : cover (intersect a b) = cover a ∩ cover b := by
  rw [intersect, cover_sweep _ _ (gapped_merge a) (gapped_merge b), cover_merge, cover_merge]

/-- **`_intersect` returns a canonical list**, whatever it is given. -/
theorem canonical_intersect (a b : List (HalfOpen α)) : Canonical (intersect a b) :=
  ⟨fun _ hi => (mem_sweep hi).1, gapped_sweep _ _ (gapped_merge a) (gapped_merge b)⟩

/-! ### Clipping -/

/-- The body of the loop of `_clip`. -/
def clipOne (lo hi : α) (iv : HalfOpen α) : Option (HalfOpen α) :=
  let s := max iv.start lo
  let e := min iv.stop hi
  if s < e then some ⟨s, e⟩ else none

def clip (intervals : List (HalfOpen α)) (lo hi : α) : List (HalfOpen α) :=
  intervals.filterMap (clipOne lo hi)

theorem clipOne_eq_some {lo hi : α} {iv i : HalfOpen α} :
    clipOne lo hi iv = some i ↔ i = ⟨max iv.start lo, min iv.stop hi⟩ ∧ i.start < i.stop := by
  unfold clipOne
  dsimp only
  split_ifs with h
  · rw [Option.some.injEq, eq_comm]
    exact ⟨fun he => ⟨he, by rw [he]; exact h⟩, fun he => he.1⟩
  · simp only [false_iff, not_and]
    rintro rfl
    exact h

theorem cover_clip (l : List (HalfOpen α)) (lo hi : α) :
    cover (clip l lo hi) = cover l ∩ Set.Ico lo hi := by
  ext t
  simp only [clip, mem_cover, List.mem_filterMap, clipOne_eq_some, Set.mem_inter_iff, Set.mem_Ico]
  constructor
  · rintro ⟨_, ⟨iv, hiv, rfl, -⟩, h1, h2⟩
    simp only [max_le_iff, lt_min_iff] at h1 h2
    exact ⟨⟨iv, hiv, h1.1, h2.1⟩, h1.2, h2.2⟩
  · rintro ⟨⟨iv, hiv, h1, h2⟩, h3, h4⟩
    have hs := max_le h1 h3
    have he := lt_min h2 h4
    exact ⟨_, ⟨iv, hiv, rfl, hs.trans_lt he⟩, hs, he⟩

theorem canonical_clip {l : List (HalfOpen α)} (hl : Gapped l) (lo hi : α) :
    Canonical (clip l lo hi) := by
  refine ⟨fun i hi' => ?_, ?_⟩
  · obtain ⟨iv, -, h⟩ := List.mem_filterMap.mp hi'
    exact (clipOne_eq_some.mp h).2
  · refine hl.filterMap _ ?_
    intro a b hab x hx y hy
    obtain ⟨rfl, -⟩ := clipOne_eq_some.mp hx
    obtain ⟨rfl, -⟩ := clipOne_eq_some.mp hy
    exact (min_le_left _ _).trans_lt (hab.trans_le (le_max_left _ _))

end InterviewScheduler.Engine
