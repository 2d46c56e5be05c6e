import Mathlib.Data.List.Sort
import Mathlib.Algebra.Order.BigOperators.Group.List
import Mathlib.Algebra.Order.Ring.Nat
import Mathlib.Tactic.SplitIfs

/-! # The pages of a query

`ORDER BY key DESC OFFSET p * s LIMIT s`, asked once for each page, where the database may break ties in
another way each time. A row is on exactly one page, whatever the ties, when all the rows with its key
belong on one page. -/

namespace InterviewScheduler.Paging

variable {α κ : Type*} [LinearOrder κ] {key : α → κ}

/-- The database sorts by `key`, newest first; the order of rows with equal keys is its own. -/
structure Descending (key : α → κ) where
  sort : List α → List α
  perm : ∀ l, (sort l).Perm l
  sorted : ∀ l, (sort l).Pairwise fun a b => key b ≤ key a

/-- Page `p` of the rows, for pages of size `s`. -/
def page (l : List α) (p s : ℕ) : List α := (l.drop (p * s)).take s

/-- The rows that sort before every row with the key of `a`. -/
def newer (key : α → κ) (l : List α) (a : α) : ℕ := l.countP fun b => key a < key b

/-- The rows that sort before some row with the key of `a`, or have it. -/
def notOlder (key : α → κ) (l : List α) (a : α) : ℕ := l.countP fun b => key a ≤ key b

/-! ### One page -/

theorem getElem?_page (l : List α) (p s j : ℕ) :
    (page l p s)[j]? = if j < s then l[p * s + j]? else none := by
  unfold page
  rw [List.getElem?_take, List.getElem?_drop]

theorem page_sublist (l : List α) (p s : ℕ) : (page l p s).Sublist l :=
  (List.take_sublist _ _).trans (List.drop_sublist _ _)

/-- The row at position `i` is on page `i / s`, and only there. -/
theorem mem_page {l : List α} (hl : l.Nodup) {a : α} {i s : ℕ} (hi : l[i]? = some a) (hs : 0 < s)
    (p : ℕ) : a ∈ page l p s ↔ i / s = p := by
  have hmod : s * (i / s) + i % s = i := Nat.div_add_mod i s
  constructor
  · intro h
    obtain ⟨j, hj⟩ := List.mem_iff_getElem?.mp h
    rw [getElem?_page] at hj
    split_ifs at hj with hlt
    have heq : p * s + j = i := by
      have hbound := (List.getElem?_eq_some_iff.mp hj).1
      exact (List.getElem?_inj hbound hl).mp (hj.trans hi.symm)
    rw [← heq, Nat.mul_comm, Nat.mul_add_div hs, Nat.div_eq_of_lt hlt, Nat.add_zero]
  · rintro rfl
    refine List.mem_iff_getElem?.mpr ⟨i % s, ?_⟩
    rw [getElem?_page, if_pos (Nat.mod_lt i hs), Nat.mul_comm, hmod]
    exact hi

/-! ### Where a row is -/

/-- The position of a row is bounded by the rows before its key, and by those up to it. -/
theorem position_bounds {l : List α} (hsorted : l.Pairwise fun a b => key b ≤ key a) {pre post : List α}
    {a : α} (heq : l = pre ++ a :: post) :
    newer key l a ≤ pre.length ∧ pre.length < notOlder key l a := by
  subst heq
  obtain ⟨-, hpost, hpre⟩ := List.pairwise_append.mp hsorted
  obtain ⟨hpost, -⟩ := List.pairwise_cons.mp hpost
  constructor
  · have hnone : post.countP (fun b => decide (key a < key b)) = 0 := by
      rw [List.countP_eq_zero]
      intro b hb
      simpa using hpost b hb
    have hle := List.countP_le_length (p := fun b => decide (key a < key b)) (l := pre)
    unfold newer
    rw [List.countP_append, List.countP_cons, hnone]
    simpa using hle
  · have hall : pre.countP (fun b => decide (key a ≤ key b)) = pre.length := by
      rw [List.countP_eq_length]
      intro b hb
      simpa using hpre b hb a List.mem_cons_self
    unfold notOlder
    rw [List.countP_append, List.countP_cons, hall]
    simp

theorem newer_sort (d : Descending key) (l : List α) (a : α) :
    newer key (d.sort l) a = newer key l a :=
  (d.perm l).countP_eq _

theorem notOlder_sort (d : Descending key) (l : List α) (a : α) :
    notOlder key (d.sort l) a = notOlder key l a :=
  (d.perm l).countP_eq _

theorem exists_position (d : Descending key) {l : List α} {a : α} (ha : a ∈ l) :
    ∃ i, (d.sort l)[i]? = some a ∧ i < l.length ∧ newer key l a ≤ i ∧ i < notOlder key l a := by
  obtain ⟨pre, post, heq⟩ := List.append_of_mem ((d.perm l).mem_iff.mpr ha)
  have hbounds := position_bounds (d.sorted l) heq
  rw [newer_sort, notOlder_sort] at hbounds
  have hlen := (d.perm l).length_eq
  rw [heq, List.length_append, List.length_cons] at hlen
  refine ⟨pre.length, ?_, by omega, hbounds.1, hbounds.2⟩
  rw [heq, List.getElem?_append_right (Nat.le_refl _), Nat.sub_self]
  rfl

/-! ### Ties that are broken for one row -/

/-- `a` may come before `b`: it is newer, or as new and not put behind. -/
def Before (key : α → κ) (first : α → Bool) (a b : α) : Prop :=
  key b < key a ∨ key b = key a ∧ (first b = true → first a = true)

instance (first : α → Bool) : DecidableRel (Before key first) := fun _ _ =>
  inferInstanceAs (Decidable (_ ∨ _))

theorem before_total (first : α → Bool) (a b : α) : Before key first a b ∨ Before key first b a := by
  rcases lt_trichotomy (key a) (key b) with hlt | heq | hgt
  · exact Or.inr (Or.inl hlt)
  · cases ha : first a with
    | false => exact Or.inr (Or.inr ⟨heq, fun h => by rw [ha] at h; cases h⟩)
    | true => exact Or.inl (Or.inr ⟨heq.symm, fun _ => ha⟩)
  · exact Or.inl (Or.inl hgt)

theorem Before.trans {first : α → Bool} {a b c : α} (hab : Before key first a b)
    (hbc : Before key first b c) : Before key first a c := by
  rcases hab with hab | ⟨hab, hab'⟩
  · rcases hbc with hbc | ⟨hbc, -⟩
    · exact Or.inl (hbc.trans hab)
    · exact Or.inl (hbc ▸ hab)
  · rcases hbc with hbc | ⟨hbc, hbc'⟩
    · exact Or.inl (hab ▸ hbc)
    · exact Or.inr ⟨hbc.trans hab, fun h => hab' (hbc' h)⟩

instance (first : α → Bool) : Std.Total (Before key first) := ⟨before_total first⟩

instance (first : α → Bool) : IsTrans α (Before key first) := ⟨fun _ _ _ => Before.trans⟩

/-- Among the rows with one key those with `first` come first. -/
def Descending.breaking (key : α → κ) (first : α → Bool) : Descending key where
  sort l := l.insertionSort (Before key first)
  perm l := List.perm_insertionSort _ l
  sorted l := (List.pairwise_insertionSort (Before key first) l).imp fun {a b} h => by
    rcases h with hlt | ⟨heq, -⟩
    · exact hlt.le
    · exact heq.le

/-- The row whose ties are broken for it comes right after the newer ones. -/
theorem position_first {l : List α} (hl : l.Nodup) {a : α} {first : α → Bool}
    (hfirst : ∀ b, first b = true ↔ b = a) (ha : a ∈ l) :
    ((Descending.breaking key first).sort l)[newer key l a]? = some a := by
  have hperm := (Descending.breaking key first).perm l
  obtain ⟨pre, post, heq⟩ := List.append_of_mem (hperm.mem_iff.mpr ha)
  have hsorted := List.pairwise_insertionSort (Before key first) l
  have hnodup := hperm.nodup_iff.mpr hl
  have hbounds := position_bounds ((Descending.breaking key first).sorted l) heq
  rw [show l.insertionSort (Before key first) = (Descending.breaking key first).sort l from rfl, heq]
    at hsorted
  have hall : pre.countP (fun b => decide (key a < key b)) = pre.length := by
    rw [List.countP_eq_length]
    intro b hb
    rcases (List.pairwise_append.mp hsorted).2.2 b hb a List.mem_cons_self with hlt | ⟨-, hb'⟩
    · simpa using hlt
    · have hba := (hfirst b).mp (hb' ((hfirst a).mpr rfl))
      rw [heq] at hnodup
      exact absurd hba ((List.pairwise_append.mp hnodup).2.2 b hb a List.mem_cons_self)
  have hnewer : newer key l a = pre.length := by
    have hle : pre.length ≤ newer key l a := by
      rw [← newer_sort (Descending.breaking key first), heq]
      unfold newer
      rw [List.countP_append, hall]
      omega
    rw [newer_sort] at hbounds
    omega
  rw [hnewer, heq, List.getElem?_append_right (Nat.le_refl _), Nat.sub_self]
  rfl

/-- The row whose ties are broken against it comes right before the older ones. -/
theorem position_last {l : List α} (hl : l.Nodup) {a : α} {first : α → Bool}
    (hfirst : ∀ b, first b = true ↔ b ≠ a) (ha : a ∈ l) :
    ((Descending.breaking key first).sort l)[notOlder key l a - 1]? = some a := by
  have hperm := (Descending.breaking key first).perm l
  obtain ⟨pre, post, heq⟩ := List.append_of_mem (hperm.mem_iff.mpr ha)
  have hsorted := List.pairwise_insertionSort (Before key first) l
  have hnodup := hperm.nodup_iff.mpr hl
  have hbounds := position_bounds ((Descending.breaking key first).sorted l) heq
  rw [show l.insertionSort (Before key first) = (Descending.breaking key first).sort l from rfl, heq]
    at hsorted
  have hnone : post.countP (fun b => decide (key a ≤ key b)) = 0 := by
    rw [List.countP_eq_zero]
    intro b hb
    rcases List.rel_of_pairwise_cons (List.pairwise_append.mp hsorted).2.1 hb with hlt | ⟨-, hb'⟩
    · simpa using hlt
    · rw [heq] at hnodup
      have hne := List.rel_of_pairwise_cons (List.pairwise_append.mp hnodup).2.1 hb
      exact absurd rfl ((hfirst a).mp (hb' ((hfirst b).mpr hne.symm)))
  have hnot : notOlder key l a = pre.length + 1 := by
    have hle : notOlder key l a ≤ pre.length + 1 := by
      have hpre := List.countP_le_length (p := fun b => decide (key a ≤ key b)) (l := pre)
      rw [← notOlder_sort (Descending.breaking key first), heq]
      unfold notOlder
      rw [List.countP_append, List.countP_cons, hnone]
      split_ifs
      · omega
      · omega
    rw [notOlder_sort] at hbounds
    omega
  rw [hnot, Nat.add_sub_cancel, heq, List.getElem?_append_right (Nat.le_refl _), Nat.sub_self]
  rfl

/-! ### All pages -/

variable [DecidableEq α]

theorem count_page {l : List α} (hl : l.Nodup) {a : α} {i s : ℕ} (hi : l[i]? = some a) (hs : 0 < s)
    (p : ℕ) : (page l p s).count a = if i / s = p then 1 else 0 := by
  rw [((page_sublist l p s).nodup hl).count]
  exact if_congr (mem_page hl hi hs p) rfl rfl

/-- The first `n` pages one after the other, each from its own query. -/
def pages (sorts : ℕ → Descending key) (l : List α) (s n : ℕ) : List α :=
  (List.range n).flatMap fun p => page ((sorts p).sort l) p s

theorem sum_indicator {k n : ℕ} (hk : k < n) :
    ((List.range n).map fun p => if k = p then 1 else 0).sum = 1 := by
  induction n with
  | zero => omega
  | succ n ih =>
    rw [List.range_succ, List.map_append, List.sum_append, List.map_singleton, List.sum_singleton]
    rcases Nat.lt_succ_iff_lt_or_eq.mp hk with hlt | rfl
    · rw [ih hlt, if_neg (by omega)]
    · have hzero : ((List.range k).map fun p => if k = p then 1 else 0).sum = 0 := by
        apply List.sum_eq_zero
        intro x hx
        obtain ⟨p, hp, rfl⟩ := List.mem_map.mp hx
        have hlt := List.mem_range.mp hp
        exact if_neg (by omega)
      rw [hzero, if_pos rfl]

theorem count_pages (sorts : ℕ → Descending key) (l : List α) (s n : ℕ) (a : α) :
    (pages sorts l s n).count a =
      ((List.range n).map fun p => (page ((sorts p).sort l) p s).count a).sum :=
  List.count_flatMap

theorem count_pages_of_notMem (sorts : ℕ → Descending key) {l : List α} {a : α} (ha : a ∉ l)
    (s n : ℕ) : (pages sorts l s n).count a = 0 := by
  rw [List.count_eq_zero]
  intro h
  obtain ⟨p, -, hp⟩ := List.mem_flatMap.mp h
  exact ha (((sorts p).perm l).mem_iff.mp ((page_sublist _ _ _).subset hp))

/-- A row whose ties are all on one page is there once. -/
theorem count_pages_of_onePage (sorts : ℕ → Descending key) {l : List α} (hl : l.Nodup) {a : α}
    (ha : a ∈ l) {s n : ℕ} (hs : 0 < s) (hn : l.length ≤ n * s)
    (hpage : newer key l a / s = (notOlder key l a - 1) / s) : (pages sorts l s n).count a = 1 := by
  have hlt : newer key l a / s < n := by
    obtain ⟨i, -, hi, hnewer, -⟩ := exists_position (sorts 0) ha
    exact Nat.div_lt_of_lt_mul (by rw [Nat.mul_comm]; omega)
  rw [count_pages, ← sum_indicator hlt]
  congr 1
  refine List.map_congr_left fun p _ => ?_
  obtain ⟨i, hi, -, hnewer, hnot⟩ := exists_position (sorts p) ha
  have hlow : newer key l a / s ≤ i / s := Nat.div_le_div_right hnewer
  have hhigh : i / s ≤ (notOlder key l a - 1) / s := Nat.div_le_div_right (by omega)
  rw [count_page (((sorts p).perm l).nodup_iff.mpr hl) hi hs, show i / s = newer key l a / s by omega]

/-- A row whose ties go over a page boundary is on two pages, for some order of the ties. -/
theorem exists_count_pages {l : List α} (hl : l.Nodup) {a : α} (ha : a ∈ l) {s n : ℕ} (hs : 0 < s)
    (hn : l.length ≤ n * s) (hpage : newer key l a / s ≠ (notOlder key l a - 1) / s) :
    ∃ sorts : ℕ → Descending key, 2 ≤ (pages sorts l s n).count a := by
  let early := Descending.breaking key fun b => decide (b = a)
  let late := Descending.breaking key fun b => decide (b ≠ a)
  have hfirst : (early.sort l)[newer key l a]? = some a :=
    position_first hl (fun b => by simp) ha
  have hlast : (late.sort l)[notOlder key l a - 1]? = some a :=
    position_last hl (fun b => by simp) ha
  have hlt₁ : newer key l a / s < n := by
    have hbound := (List.getElem?_eq_some_iff.mp hfirst).1
    rw [(early.perm l).length_eq] at hbound
    exact Nat.div_lt_of_lt_mul (by rw [Nat.mul_comm]; omega)
  have hlt₂ : (notOlder key l a - 1) / s < n := by
    have hbound := (List.getElem?_eq_some_iff.mp hlast).1
    rw [(late.perm l).length_eq] at hbound
    exact Nat.div_lt_of_lt_mul (by rw [Nat.mul_comm]; omega)
  let sorts : ℕ → Descending key := fun p => if p = newer key l a / s then early else late
  refine ⟨sorts, ?_⟩
  have hsum : ((List.range n).map fun p => (if newer key l a / s = p then 1 else 0) +
      (if (notOlder key l a - 1) / s = p then 1 else 0)).sum = 2 := by
    rw [List.sum_map_add, sum_indicator hlt₁, sum_indicator hlt₂]
  rw [count_pages, ← hsum]
  refine List.sum_le_sum fun p _ => ?_
  by_cases hp : p = newer key l a / s
  · have hsort : sorts p = early := if_pos hp
    have hne : (notOlder key l a - 1) / s ≠ p := fun h => hpage (hp ▸ h.symm)
    rw [hsort, count_page ((early.perm l).nodup_iff.mpr hl) hfirst hs, if_neg hne, Nat.add_zero]
  · have hsort : sorts p = late := if_neg hp
    have hne : newer key l a / s ≠ p := fun h => hp h.symm
    rw [hsort, count_page ((late.perm l).nodup_iff.mpr hl) hlast hs, if_neg hne, Nat.zero_add]

/-- **When pages are exact.** However the database breaks ties, each row is on exactly one page, if and
only if the rows with equal keys all belong on one page. -/
theorem count_pages_iff {l : List α} (hl : l.Nodup) {s n : ℕ} (hs : 0 < s) (hn : l.length ≤ n * s) :
    (∀ (sorts : ℕ → Descending key), ∀ a ∈ l, (pages sorts l s n).count a = 1) ↔
      ∀ a ∈ l, newer key l a / s = (notOlder key l a - 1) / s := by
  constructor
  · intro h a ha
    by_contra hpage
    obtain ⟨sorts, hsorts⟩ := exists_count_pages hl ha hs hn hpage
    rw [h sorts a ha] at hsorts
    omega
  · intro h sorts a ha
    exact count_pages_of_onePage sorts hl ha hs hn (h a ha)

end InterviewScheduler.Paging
