import Mathlib.Order.Interval.Set.Basic
import Mathlib.Data.List.Pairwise

/-! # Lists of half-open intervals as sets

A list of half-open intervals over a linear order stands for the set of points it covers
(`cover`). A list is *canonical* if its intervals are non-empty and each stops strictly before the
later ones start, so that the end of an interval is never covered. Nothing can be joined in such a
list any more:

* `Canonical.exists_of_Ico_subset`: a non-empty `[x, y)` that is covered lies in one interval;
* `Canonical.isMaximal`: every interval of the list is a maximal interval of the covered set;
* `Canonical.eq_of_cover_eq`: a set of points has at most one canonical list. -/

namespace InterviewScheduler.Intervals

/-- A half-open interval `[start, stop)`; it may be empty. -/
structure HalfOpen (α : Type) where
  start : α
  stop : α
  deriving DecidableEq, Repr

variable {α : Type} [LinearOrder α]

/-- The points of an interval. -/
def HalfOpen.toSet (i : HalfOpen α) : Set α := Set.Ico i.start i.stop

@[simp] theorem HalfOpen.mem_toSet {i : HalfOpen α} {t : α} :
    t ∈ i.toSet ↔ i.start ≤ t ∧ t < i.stop := Iff.rfl

/-- The points covered by a list of intervals. -/
def cover (l : List (HalfOpen α)) : Set α := {t | ∃ i ∈ l, t ∈ i.toSet}

theorem mem_cover {l : List (HalfOpen α)} {t : α} : t ∈ cover l ↔ ∃ i ∈ l, t ∈ i.toSet := Iff.rfl

@[simp] theorem cover_nil : cover ([] : List (HalfOpen α)) = ∅ := by
  ext t; simp [mem_cover]

@[simp] theorem cover_cons (i : HalfOpen α) (l : List (HalfOpen α)) :
    cover (i :: l) = i.toSet ∪ cover l := by
  ext t; simp [mem_cover]

@[simp] theorem cover_append (l l' : List (HalfOpen α)) :
    cover (l ++ l') = cover l ∪ cover l' := by
  ext t; simp only [mem_cover, List.mem_append, or_and_right, exists_or, Set.mem_union]

theorem mem_cover_flatMap {β : Type} {l : List β} {f : β → List (HalfOpen α)} {t : α} :
    t ∈ cover (l.flatMap f) ↔ ∃ b ∈ l, t ∈ cover (f b) := by
  simp only [mem_cover, List.mem_flatMap]
  constructor
  · rintro ⟨i, ⟨b, hb, hi⟩, ht⟩; exact ⟨b, hb, i, hi, ht⟩
  · rintro ⟨b, hb, i, hi, ht⟩; exact ⟨i, ⟨b, hb, hi⟩, ht⟩

/-- The order of the list does not matter. -/
theorem cover_perm {l l' : List (HalfOpen α)} (h : l.Perm l') : cover l = cover l' := by
  ext t; simp only [mem_cover, h.mem_iff]

/-- Leaving an empty interval out of a list covers the same points. -/
@[simp] theorem cover_guard (s e : α) :
    cover (if s < e then [⟨s, e⟩] else []) = Set.Ico s e := by
  split_ifs with h
  · rw [cover_cons, cover_nil, Set.union_empty]; rfl
  · rw [cover_nil, Set.Ico_eq_empty h]

theorem toSet_subset_cover {l : List (HalfOpen α)} {i : HalfOpen α} (hi : i ∈ l) :
    i.toSet ⊆ cover l := fun _ ht => ⟨i, hi, ht⟩

/-! ### Canonical lists -/

/-- Each interval stops strictly before every later one starts. -/
def Gapped (l : List (HalfOpen α)) : Prop := l.Pairwise fun a b => a.stop < b.start

/-- Non-empty intervals with gaps between them, from left to right. -/
structure Canonical (l : List (HalfOpen α)) : Prop where
  proper : ∀ i ∈ l, i.start < i.stop
  gapped : Gapped l

/-- `i` is a maximal interval of `S`: it is non-empty, lies in `S`, and no larger half-open
interval does. -/
structure IsMaximal (S : Set α) (i : HalfOpen α) : Prop where
  nonempty : i.start < i.stop
  subset : i.toSet ⊆ S
  maximal : ∀ x y, x ≤ i.start → i.stop ≤ y → Set.Ico x y ⊆ S → x = i.start ∧ y = i.stop

section Canonical
variable {l : List (HalfOpen α)}

theorem Gapped.of_cons {i : HalfOpen α} (h : Gapped (i :: l)) : Gapped l :=
  (List.pairwise_cons.mp h).2

theorem Gapped.head_lt {i j : HalfOpen α} (h : Gapped (i :: l)) (hj : j ∈ l) : i.stop < j.start :=
  (List.pairwise_cons.mp h).1 j hj

/-- Two intervals of a gapped list are equal, or one stops before the other starts. -/
theorem Gapped.trichotomy (h : Gapped l) {i j : HalfOpen α} (hi : i ∈ l) (hj : j ∈ l) :
    i = j ∨ i.stop < j.start ∨ j.stop < i.start := by
  induction l with
  | nil => simp at hi
  | cons k l ih =>
    rcases List.mem_cons.mp hi with rfl | hi'
    · rcases List.mem_cons.mp hj with rfl | hj'
      · exact Or.inl rfl
      · exact Or.inr (Or.inl (h.head_lt hj'))
    · rcases List.mem_cons.mp hj with rfl | hj'
      · exact Or.inr (Or.inr (h.head_lt hi'))
      · exact ih h.of_cons hi' hj'

/-- The end of an interval is not covered. -/
theorem Canonical.stop_notMem (h : Canonical l) {i : HalfOpen α} (hi : i ∈ l) :
    i.stop ∉ cover l := by
  rintro ⟨j, hj, h1, h2⟩
  have hp := h.proper i hi
  rcases h.gapped.trichotomy hi hj with rfl | hlt | hlt
  · exact lt_irrefl _ h2
  · exact lt_irrefl _ (lt_of_lt_of_le hlt h1)
  · exact lt_irrefl _ (((h2.trans hlt).trans hp))

/-- **A covered interval is not split**: it lies in one interval of the list. -/
theorem Canonical.exists_of_Ico_subset (h : Canonical l) {x y : α} (hxy : x < y)
    (hs : Set.Ico x y ⊆ cover l) : ∃ i ∈ l, i.start ≤ x ∧ y ≤ i.stop := by
  obtain ⟨i, hi, h1, h2⟩ := hs ⟨le_rfl, hxy⟩
  refine ⟨i, hi, h1, ?_⟩
  by_contra hn
  exact h.stop_notMem hi (hs ⟨h2.le, not_le.mp hn⟩)

/-- **Every interval of a canonical list is maximal in the set it covers.** -/
theorem Canonical.isMaximal (h : Canonical l) {i : HalfOpen α} (hi : i ∈ l) :
    IsMaximal (cover l) i := by
  have hp := h.proper i hi
  refine ⟨hp, toSet_subset_cover hi, fun x y hx hy hs => ?_⟩
  obtain ⟨j, hj, hjx, hyj⟩ := h.exists_of_Ico_subset (hx.trans_lt (hp.trans_le hy)) hs
  rcases h.gapped.trichotomy hi hj with rfl | hlt | hlt
  · exact ⟨le_antisymm hx hjx, le_antisymm hyj hy⟩
  · exact absurd (hlt.trans_le (hjx.trans hx)) (not_lt.mpr hp.le)
  · exact absurd ((hy.trans hyj).trans_lt hlt) (not_lt.mpr hp.le)

/-- The other way round: a maximal interval of the covered set is one of the list. -/
theorem Canonical.mem_of_isMaximal (h : Canonical l) {i : HalfOpen α}
    (hi : IsMaximal (cover l) i) : i ∈ l := by
  obtain ⟨j, hj, h1, h2⟩ := h.exists_of_Ico_subset hi.nonempty hi.subset
  obtain ⟨hs, he⟩ := hi.maximal j.start j.stop h1 h2 (toSet_subset_cover hj)
  have hij : j = i := by
    cases j
    cases i
    simp_all
  exact hij ▸ hj

theorem Canonical.mem_iff (h : Canonical l) {i : HalfOpen α} : i ∈ l ↔ IsMaximal (cover l) i :=
  ⟨h.isMaximal, h.mem_of_isMaximal⟩

/-- Of two different intervals of a canonical list, only one stops before the other starts. -/
theorem Canonical.nodup (h : Canonical l) : l.Nodup := by
  refine (h.gapped.imp_of_mem (S := fun a b => a ≠ b) fun {a b} ha _ hab he => ?_)
  have hp := h.proper a ha
  rw [← he] at hab
  exact lt_asymm hp hab

/-- **The canonical list of a set of points is unique.** -/
theorem Canonical.eq_of_cover_eq {l' : List (HalfOpen α)} (h : Canonical l) (h' : Canonical l')
    (hc : cover l = cover l') : l = l' := by
  have hm : ∀ i, i ∈ l ↔ i ∈ l' := fun i => by rw [h.mem_iff, h'.mem_iff, hc]
  have hperm := (List.perm_ext_iff_of_nodup h.nodup h'.nodup).mpr hm
  refine hperm.eq_of_pairwise (fun a b ha hb hab hba => ?_) h.gapped h'.gapped
  have h1 := h.proper a ha
  have h2 := h'.proper b hb
  exact absurd (hab.trans h2) (lt_asymm (hba.trans h1))

end Canonical

end InterviewScheduler.Intervals
