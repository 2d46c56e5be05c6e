import Mathlib.Data.List.Range
import Mathlib.Data.List.Perm.Subperm
import InterviewScheduler.Redis.RateLimit

/-! # How many requests are let through

The requests of one identity to one bucket, at any instants one after the other. A counter window lasts
from the request that finds no key to the expiry of the key: `windows_counted` says what is let through
in it, `windows_apart` where the windows lie, and `rate_limit_bound` puts the two together. -/

namespace InterviewScheduler.Redis

/-- A request that was served: the verdict, the count, the number of its counter window, and the key
after its script. -/
structure Served where
  arrival : Arrival
  verdict : Verdict
  count : ℤ
  window : ℕ
  key : Cell ℤ

/-- When the window of the request ends; at once, if the key is gone. -/
def Served.expiry (s : Served) : ℤ := (s.key.bind (·.expiresAt)).getD s.arrival.time

section Serving

variable (decodeToken : String → Option String) (cfg : RateSettings)

/-- The requests one after the other. A window is opened by the request that finds no key. -/
def serveAll (key : String) : (String → Cell ℤ) → ℕ → List Arrival → List Served
  | _, _, [] => []
  | store, n, a :: as =>
    let r := serve decodeToken cfg store a
    let n' := if ((store key).live a.time).isNone then n + 1 else n
    ⟨a, r.1, (fixedWindowLua (store key) a.time cfg.windowSeconds).1.1, n', r.2 key⟩ ::
      serveAll key r.2 n' as

/-- The middleware counts the request for the identity, in the bucket. -/
structure Arrival.CountedIn (identity : String) (b : Bucket) (a : Arrival) : Prop where
  answered : a.answered = true
  counted : a.scope.exempt cfg = false
  same_identity : (identityOf decodeToken cfg a.scope).1 = identity
  same_bucket : (a.scope.bucket decodeToken cfg).1 = b

/-- The same, with nothing but the key. -/
def countAll (limit window : ℤ) : Cell ℤ → ℕ → List Arrival → List Served
  | _, _, [] => []
  | c, n, a :: as =>
    let r := fixedWindowLua c a.time window
    let n' := if (c.live a.time).isNone then n + 1 else n
    ⟨a, verdict limit window a.clock a.traceId (some r.1), r.1.1, n', r.2⟩ ::
      countAll limit window r.2 n' as

variable {decodeToken cfg} {identity : String} {b : Bucket}

theorem serve_of_counted {store : String → Cell ℤ} {a : Arrival}
    (ha : a.CountedIn decodeToken cfg identity b) :
    serve decodeToken cfg store a =
      (verdict (b.limit cfg) cfg.windowSeconds a.clock a.traceId
          (some (fixedWindowLua (store (rateKey identity b)) a.time cfg.windowSeconds).1),
        Function.update store (rateKey identity b)
          (fixedWindowLua (store (rateKey identity b)) a.time cfg.windowSeconds).2) := by
  have hlimit : (a.scope.bucket decodeToken cfg).2 = b.limit cfg := by
    rw [← ha.same_bucket]
    exact ruleFor_limit cfg _ _ _
  unfold serve
  rw [if_neg (by rw [ha.counted]; simp)]
  dsimp only
  rw [if_pos ha.answered, ha.same_identity, ha.same_bucket, hlimit]

/-- What happens to the key does not depend on the other keys. -/
theorem serveAll_eq : ∀ (as : List Arrival) (store : String → Cell ℤ) (n : ℕ),
    (∀ a ∈ as, a.CountedIn decodeToken cfg identity b) →
      serveAll decodeToken cfg (rateKey identity b) store n as =
        countAll (b.limit cfg) cfg.windowSeconds (store (rateKey identity b)) n as
  | [], _, _, _ => rfl
  | a :: as, store, n, hcounted => by
    unfold serveAll countAll
    dsimp only
    rw [serve_of_counted (hcounted a List.mem_cons_self),
      serveAll_eq as _ _ fun a ha => hcounted a (List.mem_cons_of_mem _ ha)]
    dsimp only
    rw [Function.update_self]

end Serving

/-! ### One script -/

section Script

variable {c : Cell ℤ} {now window limit clock : ℤ} {e : Entry ℤ} {traceId : String}

/-- A key that is there is counted up, and keeps its time to live. -/
theorem fixedWindowLua_live (hlive : c.live now = some e) (hpos : 1 ≤ e.value) :
    (fixedWindowLua c now window).1.1 = e.value + 1 ∧
      (fixedWindowLua c now window).2 = some ⟨e.value + 1, e.expiresAt⟩ := by
  have hincr : c.incr now = ⟨e.value + 1, e.expiresAt⟩ := by
    unfold Cell.incr
    rw [hlive]
  unfold fixedWindowLua
  dsimp only
  rw [hincr]
  exact ⟨rfl, if_neg (by show ¬ e.value + 1 = 1; omega)⟩

/-- The first request of a window sets the time to live. -/
theorem fixedWindowLua_gone (hgone : c.live now = none) :
    (fixedWindowLua c now window).1.1 = 1 ∧
      (fixedWindowLua c now window).2 =
        if window ≤ 0 then none else some ⟨1, some (now + 1000 * window)⟩ := by
  have hincr : c.incr now = ⟨1, none⟩ := by
    unfold Cell.incr
    rw [hgone]
  unfold fixedWindowLua
  dsimp only
  rw [hincr]
  exact ⟨rfl, if_pos rfl⟩

theorem letThrough_verdict (reply : ℤ × ℤ) :
    (verdict limit window clock traceId (some reply)).letThrough = decide (reply.1 ≤ limit) := by
  unfold verdict rejected
  dsimp only
  by_cases h : limit < reply.1
  · rw [if_pos h]
    exact (decide_eq_false (not_le.mpr h)).symm
  · rw [if_neg h]
    exact (decide_eq_true (not_lt.mp h)).symm

end Script

/-! ### The counts of a window -/

section Counts

variable {limit window : ℤ}

variable (limit window) in
/-- A step of the sequence: within the window, or the first of the next one. -/
theorem countAll_cons (c : Cell ℤ) (n : ℕ) (a : Arrival) (as : List Arrival) :
    ∃ s c' n', countAll limit window c n (a :: as) = s :: countAll limit window c' n' as ∧
      s.arrival = a ∧ s.window = n' ∧ s.key = c' ∧ s.verdict.letThrough = decide (s.count ≤ limit) ∧
      ((∃ e, c.live a.time = some e ∧ n' = n ∧
          (1 ≤ e.value → s.count = e.value + 1 ∧ c' = some ⟨e.value + 1, e.expiresAt⟩)) ∨
        (c.live a.time = none ∧ n' = n + 1 ∧ s.count = 1 ∧
          c' = if window ≤ 0 then none else some ⟨1, some (a.time + 1000 * window)⟩)) := by
  refine ⟨_, _, _, rfl, rfl, rfl, rfl, letThrough_verdict _, ?_⟩
  cases hlive : c.live a.time with
  | none => exact Or.inr ⟨rfl, rfl, fixedWindowLua_gone hlive⟩
  | some e => exact Or.inl ⟨e, rfl, rfl, fun hpos => fixedWindowLua_live hlive hpos⟩

theorem le_window : ∀ (as : List Arrival) (c : Cell ℤ) (n : ℕ),
    ∀ s ∈ countAll limit window c n as, n ≤ s.window ∧ (c = none → n < s.window)
  | [], _, _, s, hs => by cases hs
  | a :: as, c, n, s, hs => by
    obtain ⟨s₀, c', n', heq, -, hwindow, -, -, hstep⟩ := countAll_cons limit window c n a as
    have hn : n ≤ n' ∧ (c = none → n < n') := by
      rcases hstep with ⟨e, hlive, rfl, -⟩ | ⟨-, rfl, -⟩
      · refine ⟨le_rfl, fun hc => ?_⟩
        rw [hc, Cell.live_none] at hlive
        cases hlive
      · exact ⟨by omega, fun _ => by omega⟩
    rw [heq] at hs
    rcases List.mem_cons.mp hs with rfl | hs
    · rw [hwindow]
      exact hn
    · have := (le_window as c' n' s hs).1
      exact ⟨by omega, fun hc => by have := hn.2 hc; omega⟩

/-- The requests of a window. -/
def ofWindow (served : List Served) (m : ℕ) : List Served := served.filter fun s => decide (s.window = m)

theorem ofWindow_cons (s : Served) (served : List Served) (m : ℕ) :
    ofWindow (s :: served) m = if s.window = m then s :: ofWindow served m else ofWindow served m := by
  unfold ofWindow
  rw [List.filter_cons]
  by_cases h : s.window = m
  · rw [if_pos (decide_eq_true h), if_pos h]
  · rw [if_neg (by rw [decide_eq_false h]; exact Bool.false_ne_true), if_neg h]

/-- Only the current window and the later ones get requests, and the current one none without a key. -/
theorem ofWindow_eq_nil {as : List Arrival} {c : Cell ℤ} {n m : ℕ} (h : m < n ∨ c = none ∧ m = n) :
    ofWindow (countAll limit window c n as) m = [] := by
  refine List.filter_eq_nil_iff.mpr fun s hs heq => ?_
  have hwindow : s.window = m := of_decide_eq_true heq
  obtain ⟨hle, hlt⟩ := le_window as c n s hs
  rcases h with h | ⟨hc, h⟩
  · omega
  · have := hlt hc
    omega

/-- The requests `s` of a window and their counts, from the count `v` on. -/
def CountsFrom (limit v : ℤ) : List Served → Prop
  | [] => True
  | s :: ss => s.count = v + 1 ∧ s.verdict.letThrough = decide (v + 1 ≤ limit) ∧ CountsFrom limit (v + 1) ss

/-- The counts of the current window go on from the key, those of a later one start at `1`. -/
theorem counts_ofWindow : ∀ (as : List Arrival) (c : Cell ℤ) (n : ℕ),
    (∀ e, c = some e → 1 ≤ e.value →
      CountsFrom limit e.value (ofWindow (countAll limit window c n as) n)) ∧
    ∀ m, n < m → (c = none ∨ ∃ e, c = some e ∧ 1 ≤ e.value) →
      CountsFrom limit 0 (ofWindow (countAll limit window c n as) m)
  | [], _, _ => ⟨fun _ _ _ => trivial, fun _ _ _ => trivial⟩
  | a :: as, c, n => by
    obtain ⟨s, c', n', heq, -, hwindow, -, hthrough, hstep⟩ := countAll_cons limit window c n a as
    obtain ⟨ihcurrent, ihlater⟩ := counts_ofWindow as c' n'
    rw [heq]
    constructor
    · intro e hc hpos
      rcases hstep with ⟨e', hlive, rfl, hcount⟩ | ⟨-, rfl, -⟩
      · obtain rfl : e = e' := by
          rw [(Cell.live_eq_some.mp hlive).1] at hc
          exact (Option.some.inj hc).symm
        obtain ⟨hcount, hc'⟩ := hcount hpos
        rw [ofWindow_cons, if_pos hwindow]
        refine ⟨hcount, hcount ▸ hthrough, ?_⟩
        exact ihcurrent _ hc' (by show 1 ≤ e.value + 1; omega)
      · rw [ofWindow_cons, if_neg (by omega), ofWindow_eq_nil (Or.inl (by omega))]
        trivial
    · intro m hm hc
      rcases hstep with ⟨e', hlive, rfl, hcount⟩ | ⟨-, rfl, hcount, hc'⟩
      · have hsome := (Cell.live_eq_some.mp hlive).1
        have hpos : 1 ≤ e'.value := by
          rcases hc with hc | ⟨e, hc, hpos⟩
          · rw [hc] at hsome
            cases hsome
          · rw [hsome] at hc
            rw [Option.some.inj hc]
            exact hpos
        rw [ofWindow_cons, if_neg (by omega)]
        exact ihlater m hm (Or.inr ⟨_, (hcount hpos).2, by show 1 ≤ e'.value + 1; omega⟩)
      · by_cases hfirst : m = n + 1
        · subst hfirst
          rw [ofWindow_cons, if_pos hwindow]
          refine ⟨hcount.trans (by omega), ?_, ?_⟩
          · rw [hthrough, hcount]
            rfl
          · split_ifs at hc'
            · rw [ofWindow_eq_nil (Or.inr ⟨hc', rfl⟩)]
              trivial
            · exact ihcurrent _ hc' le_rfl
        · rw [ofWindow_cons, if_neg (by omega)]
          refine ihlater m (by omega) ?_
          split_ifs at hc'
          · exact Or.inl hc'
          · exact Or.inr ⟨_, hc', le_rfl⟩

theorem letThrough_of_countsFrom : ∀ (ss : List Served) (v : ℤ), CountsFrom limit v ss →
    ss.map (·.verdict.letThrough) = (List.range ss.length).map fun k : ℕ => decide (v + (k : ℤ) + 1 ≤ limit)
  | [], _, _ => rfl
  | s :: ss, v, ⟨_, hthrough, hrest⟩ => by
    rw [List.map_cons, List.length_cons, List.range_succ_eq_map, List.map_cons, List.map_map,
      letThrough_of_countsFrom ss (v + 1) hrest, hthrough]
    congr 1
    · rw [Nat.cast_zero, add_zero]
    · refine List.map_congr_left fun k _ => ?_
      show decide _ = decide (v + ((k + 1 : ℕ) : ℤ) + 1 ≤ limit)
      rw [Nat.cast_succ, show v + 1 + (k : ℤ) + 1 = v + ((k : ℤ) + 1) + 1 from by omega]

variable (limit window) in
/-- **The first requests of a window are let through**, as many as the limit says, and no others. -/
theorem windows_counted (as : List Arrival) (m : ℕ) :
    (ofWindow (countAll limit window none 0 as) m).map (·.verdict.letThrough) =
      (List.range (ofWindow (countAll limit window none 0 as) m).length).map
        fun k : ℕ => decide ((k : ℤ) < limit) := by
  have hcounts : CountsFrom limit 0 (ofWindow (countAll limit window none 0 as) m) := by
    by_cases hm : m = 0
    · rw [ofWindow_eq_nil (Or.inr ⟨rfl, hm⟩)]
      trivial
    · exact (counts_ofWindow as none 0).2 m (by omega) (Or.inl rfl)
  rw [letThrough_of_countsFrom _ _ hcounts]
  refine List.map_congr_left fun k _ => ?_
  exact decide_eq_decide.mpr (by omega)

end Counts

/-! ### Where the windows lie -/

section Spans

variable {limit window : ℤ}

/-- The key is in a window that ends at `e`. Without a positive length every window is over at once. -/
def KeyOpen (window : ℤ) (c : Cell ℤ) (e : ℤ) : Prop :=
  0 < window ∧ (∃ v, 1 ≤ v ∧ c = some ⟨v, some e⟩) ∨ window ≤ 0 ∧ c = none

/-- The later request `y` is in the same window as `x`, in the next one, or it comes a window later. -/
def Follows (window : ℤ) (n : ℕ) (e : ℤ) (y : Served) : Prop :=
  y.window = n ∧ y.expiry = e ∧ y.arrival.time < e ∨
    y.window = n + 1 ∧ e ≤ y.arrival.time ∨
    n + 2 ≤ y.window ∧ e + 1000 * max window 0 ≤ y.arrival.time

/-- When a window ends: no later than its length after any of its requests. -/
structure Ends (window : ℤ) (s : Served) : Prop where
  le_expiry : s.arrival.time ≤ s.expiry
  lt_expiry : 0 < window → s.arrival.time < s.expiry
  expiry_le : s.expiry ≤ s.arrival.time + 1000 * max window 0

variable (limit) in
/-- A step again, by the end of the window. -/
theorem countAll_step {c : Cell ℤ} (n : ℕ) (a : Arrival) (as : List Arrival)
    (hc : c = none ∨ ∃ e, KeyOpen window c e) :
    ∃ s c' n', countAll limit window c n (a :: as) = s :: countAll limit window c' n' as ∧
      s.arrival = a ∧ s.window = n' ∧ KeyOpen window c' s.expiry ∧
      (n' = n ∧ 0 < window ∧ KeyOpen window c s.expiry ∧ a.time < s.expiry ∨
        n' = n + 1 ∧ s.expiry = a.time + 1000 * max window 0 ∧
          ∀ e, KeyOpen window c e → 0 < window → e ≤ a.time) := by
  obtain ⟨s, c', n', heq, harrival, hwindow, hkey, -, hstep⟩ := countAll_cons limit window c n a as
  refine ⟨s, c', n', heq, harrival, hwindow, ?_⟩
  have hexpiry : ∀ {v e : ℤ}, c' = some ⟨v, some e⟩ → s.expiry = e := by
    intro v e hc'
    unfold Served.expiry
    rw [hkey, hc']
    rfl
  rcases hstep with ⟨e₀, hlive, hn, hcount⟩ | ⟨hgone, hn, -, hc'⟩
  · obtain ⟨hsome, hlt⟩ := Cell.live_eq_some.mp hlive
    rcases hc with hc | ⟨e, ⟨hpos, v, hv, hc⟩ | ⟨-, hc⟩⟩
    · rw [hc] at hsome
      cases hsome
    · obtain rfl : (⟨v, some e⟩ : Entry ℤ) = e₀ := by
        rw [hc] at hsome
        exact Option.some.inj hsome
      obtain ⟨-, hc'⟩ := hcount hv
      rw [hexpiry hc']
      refine ⟨Or.inl ⟨hpos, v + 1, by omega, hc'⟩, Or.inl ⟨hn, hpos, Or.inl ⟨hpos, v, hv, hc⟩, ?_⟩⟩
      exact hlt e rfl
    · rw [hc] at hsome
      cases hsome
  · have hover : ∀ e, KeyOpen window c e → 0 < window → e ≤ a.time := by
      rintro e (⟨-, v, -, hopen⟩ | ⟨hle, -⟩) hpos
      · rw [hopen] at hgone
        exact Cell.live_eq_none hgone
      · omega
    by_cases hle : window ≤ 0
    · rw [if_pos hle] at hc'
      have hnow : s.expiry = a.time := by
        unfold Served.expiry
        rw [hkey, hc', ← harrival]
        rfl
      refine ⟨Or.inr ⟨hle, hc'⟩, Or.inr ⟨hn, ?_, hover⟩⟩
      rw [hnow, max_eq_right hle]
      omega
    · rw [if_neg hle] at hc'
      rw [hexpiry hc']
      refine ⟨Or.inl ⟨not_le.mp hle, 1, le_rfl, hc'⟩, Or.inr ⟨hn, ?_, hover⟩⟩
      rw [max_eq_left (not_le.mp hle).le]

theorem KeyOpen.unique {c : Cell ℤ} {e e' : ℤ} (h : KeyOpen window c e) (h' : KeyOpen window c e')
    (hpos : 0 < window) : e = e' := by
  rcases h with ⟨-, v, -, hc⟩ | ⟨hle, -⟩
  · rcases h' with ⟨-, v', -, hc'⟩ | ⟨hle, -⟩
    · rw [hc] at hc'
      have := congrArg Entry.expiresAt (Option.some.inj hc')
      exact Option.some.inj this
    · omega
  · omega

/-- What follows a window that ends at `e`. The induction goes along the requests, with the window that is
open at each. -/
theorem follows_of_keyOpen : ∀ (as : List Arrival) (c : Cell ℤ) (n : ℕ) (e : ℤ), KeyOpen window c e →
    as.Pairwise (fun a a' => a.time ≤ a'.time) → (∀ a ∈ as, e ≤ a.time + 1000 * max window 0) →
      ∀ y ∈ countAll limit window c n as, Follows window n e y ∧ Ends window y
  | [], _, _, _, _, _, _, y, hy => by cases hy
  | a :: as, c, n, e, hopen, hsorted, hle, y, hy => by
    obtain ⟨hfirst, hsorted⟩ := List.pairwise_cons.mp hsorted
    obtain ⟨s, c', n', heq, harrival, hwindow, hopen', hstep⟩ :=
      countAll_step limit n a as (Or.inr ⟨e, hopen⟩)
    have hea := hle a List.mem_cons_self
    have hs : Follows window n e s ∧ Ends window s := by
      rcases hstep with ⟨rfl, hpos, hsame, hlt⟩ | ⟨rfl, hexpiry, hover⟩
      · obtain rfl := hopen.unique hsame hpos
        rw [← harrival] at hlt hea
        exact ⟨Or.inl ⟨hwindow, rfl, hlt⟩, hlt.le, fun _ => hlt, hea⟩
      · refine ⟨Or.inr (Or.inl ⟨hwindow, ?_⟩), ?_, ?_, ?_⟩
        · rw [harrival]
          by_cases hpos : 0 < window
          · exact hover e hopen hpos
          · omega
        · rw [hexpiry, harrival]
          omega
        · intro hpos
          rw [hexpiry, harrival]
          omega
        · rw [hexpiry, harrival]
    rw [heq] at hy
    rcases List.mem_cons.mp hy with rfl | hy
    · exact hs
    · have hle' : ∀ a' ∈ as, s.expiry ≤ a'.time + 1000 * max window 0 := by
        intro a' ha'
        have h1 := hs.2.expiry_le
        have h2 := hfirst a' ha'
        rw [harrival] at h1
        omega
      obtain ⟨hfollows, hends⟩ := follows_of_keyOpen as c' n' s.expiry hopen' hsorted hle' y hy
      refine ⟨?_, hends⟩
      rcases hstep with ⟨rfl, hpos, hsame, -⟩ | ⟨rfl, hexpiry, hover⟩
      · obtain rfl := hopen.unique hsame hpos
        exact hfollows
      · -- `y` comes at or after `a`, which has opened the next window
        have hae : e ≤ a.time := by
          by_cases hpos : 0 < window
          · exact hover e hopen hpos
          · omega
        have hay : a.time ≤ y.arrival.time := by
          rcases hfollows with ⟨-, heq', -⟩ | ⟨-, hlater⟩ | ⟨-, hlater⟩
          · have := hends.expiry_le
            omega
          · omega
          · omega
        rcases hfollows with ⟨hsame, -, -⟩ | ⟨hnext, hlater⟩ | ⟨hlater, hlater'⟩
        · exact Or.inr (Or.inl ⟨hsame, by omega⟩)
        · exact Or.inr (Or.inr ⟨by omega, by omega⟩)
        · exact Or.inr (Or.inr ⟨by omega, by omega⟩)

variable (limit window) in
/-- **Two windows are apart**: of any two requests, the later one follows the earlier one. -/
theorem windows_apart : ∀ (as : List Arrival) (c : Cell ℤ) (n : ℕ),
    as.Pairwise (fun a a' => a.time ≤ a'.time) →
    (c = none ∨ ∃ e, KeyOpen window c e ∧ ∀ a ∈ as, e ≤ a.time + 1000 * max window 0) →
      (countAll limit window c n as).Pairwise (fun x y => Follows window x.window x.expiry y) ∧
        ∀ x ∈ countAll limit window c n as, Ends window x
  | [], _, _, _, _ => ⟨List.Pairwise.nil, fun x hx => by cases hx⟩
  | a :: as, c, n, hsorted, hc => by
    obtain ⟨hfirst, hsorted⟩ := List.pairwise_cons.mp hsorted
    have hopen : c = none ∨ ∃ e, KeyOpen window c e := hc.imp id fun ⟨e, he, _⟩ => ⟨e, he⟩
    obtain ⟨s, c', n', heq, harrival, hwindow, hopen', hstep⟩ := countAll_step limit n a as hopen
    have hends : Ends window s := by
      rcases hstep with ⟨-, hpos, hsame, hlt⟩ | ⟨-, hexpiry, -⟩
      · rcases hc with hc | ⟨e, hopen, hle⟩
        · rcases hsame with ⟨-, v, -, hsome⟩ | ⟨hneg, -⟩
          · rw [hc] at hsome
            cases hsome
          · omega
        · have := hle a List.mem_cons_self
          rw [hopen.unique hsame hpos] at this
          rw [← harrival] at hlt this
          exact ⟨hlt.le, fun _ => hlt, this⟩
      · rw [← harrival] at hexpiry
        exact ⟨by omega, fun hpos => by omega, by omega⟩
    have hle' : ∀ a' ∈ as, s.expiry ≤ a'.time + 1000 * max window 0 := by
      intro a' ha'
      have h1 := hends.expiry_le
      have h2 := hfirst a' ha'
      rw [harrival] at h1
      omega
    obtain ⟨hpairwise, hall⟩ := windows_apart as c' n' hsorted (Or.inr ⟨s.expiry, hopen', hle'⟩)
    rw [heq]
    constructor
    · refine List.pairwise_cons.mpr ⟨fun y hy => ?_, hpairwise⟩
      rw [hwindow]
      exact (follows_of_keyOpen as c' n' s.expiry hopen' hsorted hle' y hy).1
    · intro x hx
      rcases List.mem_cons.mp hx with rfl | hx
      · exact hends
      · exact hall x hx

end Spans

/-! ### The bound -/

section Bound

variable {limit window : ℤ}

/-- At most `limit` numbers are below the limit. -/
theorem countP_range_lt_le (n : ℕ) :
    (List.range n).countP (fun k : ℕ => decide ((k : ℤ) < limit)) ≤ limit.toNat := by
  rw [List.countP_eq_length_filter]
  have hsub : (List.range n).filter (fun k : ℕ => decide ((k : ℤ) < limit)) ⊆ List.range limit.toNat := by
    intro k hk
    have := of_decide_eq_true (List.mem_filter.mp hk).2
    exact List.mem_range.mpr (by omega)
  have := (List.subperm_of_subset (List.nodup_range.filter _) hsub).length_le
  rwa [List.length_range] at this

/-- At most `limit` requests of a window are let through. -/
theorem window_bound (as : List Arrival) (m : ℕ) :
    (countAll limit window none 0 as).countP (fun s => s.verdict.letThrough && decide (s.window = m)) ≤
      limit.toNat := by
  have hmap := congrArg (List.countP id) (windows_counted limit window as m)
  rw [List.countP_map, List.countP_map] at hmap
  rw [← List.countP_filter]
  refine le_trans (le_of_eq hmap) ?_
  exact countP_range_lt_le _

theorem length_le_countP_add {l : List Served} {p q : Served → Bool} (h : ∀ s ∈ l, p s || q s) :
    l.length ≤ l.countP p + l.countP q := by
  induction l with
  | nil => exact Nat.zero_le _
  | cons s l ih =>
    have hrest := ih fun s hs => h s (List.mem_cons_of_mem _ hs)
    have hs := h s List.mem_cons_self
    rw [List.length_cons, List.countP_cons, List.countP_cons]
    cases hp : p s with
    | true =>
      rw [if_pos rfl]
      omega
    | false =>
      rw [hp, Bool.false_or] at hs
      rw [if_pos hs]
      omega

/-- In any time as long as a window at most two windows let requests through. -/
theorem interval_bound {as : List Arrival} (hpos : 0 < window)
    (hsorted : as.Pairwise fun a a' => a.time ≤ a'.time) (t : ℤ) :
    (countAll limit window none 0 as).countP (fun s => s.verdict.letThrough &&
      decide (t ≤ s.arrival.time ∧ s.arrival.time ≤ t + 1000 * window)) ≤ 2 * limit.toNat := by
  obtain ⟨hpairwise, hends⟩ := windows_apart limit window as none 0 hsorted (Or.inl rfl)
  rw [List.countP_eq_length_filter]
  generalize hin : (fun s : Served => s.verdict.letThrough &&
    decide (t ≤ s.arrival.time ∧ s.arrival.time ≤ t + 1000 * window)) = inside
  generalize hserved : countAll limit window none 0 as = served at hpairwise hends ⊢
  have hinside : ∀ s, inside s = true → s.verdict.letThrough = true ∧ t ≤ s.arrival.time ∧
      s.arrival.time ≤ t + 1000 * window := by
    intro s hs
    rw [← hin, Bool.and_eq_true] at hs
    exact ⟨hs.1, of_decide_eq_true hs.2⟩
  have hthrough : ∀ m, (served.filter inside).countP (fun s => decide (s.window = m)) ≤ limit.toNat := by
    intro m
    refine le_trans ?_ (hserved ▸ window_bound as m)
    rw [List.countP_filter]
    refine List.countP_mono_left fun s _ hs => ?_
    rw [Bool.and_eq_true] at hs ⊢
    exact ⟨(hinside s hs.2).1, hs.1⟩
  cases hlist : served.filter inside with
  | nil => exact Nat.zero_le _
  | cons x rest =>
    rw [hlist] at hthrough
    have hall : ∀ y ∈ x :: rest,
        decide (y.window = x.window) || decide (y.window = x.window + 1) := by
      intro y hy
      rw [Bool.or_eq_true]
      have hfollows := (hpairwise.sublist (List.filter_sublist (p := inside)))
      rw [hlist] at hfollows
      rcases List.mem_cons.mp hy with rfl | hrest
      · exact Or.inl (decide_eq_true rfl)
      · have hmem : ∀ z ∈ x :: rest, z ∈ served ∧ inside z = true := fun z hz =>
          List.mem_filter.mp (hlist ▸ hz)
        obtain ⟨-, hx, -⟩ := hinside x (hmem x List.mem_cons_self).2
        obtain ⟨-, -, hy'⟩ := hinside y (hmem y hy).2
        have hlt := (hends x (hmem x List.mem_cons_self).1).lt_expiry hpos
        rcases (List.pairwise_cons.mp hfollows).1 y hrest with ⟨h, -, -⟩ | ⟨h, -⟩ | ⟨-, h⟩
        · exact Or.inl (decide_eq_true h)
        · exact Or.inr (decide_eq_true h)
        · rw [max_eq_left hpos.le] at h
          omega
    have h1 := length_le_countP_add hall
    have h2 := hthrough x.window
    have h3 := hthrough (x.window + 1)
    omega

/-- The first request at or after the end of a window is the first of its own. -/
theorem retry_through {as : List Arrival} (hsorted : as.Pairwise fun a a' => a.time ≤ a'.time)
    {before mid after : List Served} {x y : Served}
    (hserved : countAll limit window none 0 as = before ++ x :: (mid ++ y :: after))
    (hmid : ∀ z ∈ mid, z.arrival.time < x.expiry) (hy : x.expiry ≤ y.arrival.time) :
    y.verdict.letThrough = true ↔ 1 ≤ limit := by
  obtain ⟨hpairwise, -⟩ := windows_apart limit window as none 0 hsorted (Or.inl rfl)
  have hcounted := windows_counted limit window as y.window
  rw [hserved] at hpairwise hcounted
  obtain ⟨-, hrest, hbefore⟩ := List.pairwise_append.mp hpairwise
  obtain ⟨hx, -⟩ := List.pairwise_cons.mp hrest
  have hlater : x.window < y.window := by
    rcases hx y (by simp) with ⟨-, -, hlt⟩ | ⟨h, -⟩ | ⟨h, -⟩
    · omega
    · omega
    · omega
  have hnone : ∀ z ∈ before ++ x :: mid, ¬ z.window = y.window := by
    intro z hz
    have hle : z.window ≤ x.window := by
      rcases List.mem_append.mp hz with hz | hz
      · rcases hbefore z hz x List.mem_cons_self with ⟨h, -, -⟩ | ⟨h, -⟩ | ⟨h, -⟩
        · omega
        · omega
        · omega
      · rcases List.mem_cons.mp hz with rfl | hz
        · exact le_rfl
        · have hlt := hmid z hz
          rcases hx z (List.mem_append_left _ hz) with ⟨h, -, -⟩ | ⟨-, h⟩ | ⟨-, h⟩
          · omega
          · omega
          · have := le_max_right window 0
            omega
    omega
  have hfirst : ofWindow (before ++ x :: (mid ++ y :: after)) y.window =
      y :: ofWindow after y.window := by
    have hsplit : before ++ x :: (mid ++ y :: after) = (before ++ x :: mid) ++ y :: after := by simp
    have hnil : (before ++ x :: mid).filter (fun s => decide (s.window = y.window)) = [] :=
      List.filter_eq_nil_iff.mpr fun z hz heq => hnone z hz (of_decide_eq_true heq)
    unfold ofWindow
    rw [hsplit, List.filter_append, hnil, List.nil_append, List.filter_cons_of_pos (by simp)]
  rw [hfirst, List.map_cons, List.length_cons, List.range_succ_eq_map, List.map_cons] at hcounted
  have hhead : y.verdict.letThrough = decide (((0 : ℕ) : ℤ) < limit) := (List.cons.inj hcounted).1
  rw [hhead, decide_eq_true_iff]
  omega

end Bound

/-- The requests of one identity to one bucket, from the first one on. -/
def history (decodeToken : String → Option String) (cfg : RateSettings) (identity : String) (b : Bucket)
    (arrivals : List Arrival) : List Served :=
  serveAll decodeToken cfg (rateKey identity b) (fun _ => none) 0 arrivals

/-- **What the rate limiter lets through.** Of each counter window the first requests, as many as the
limit says, and no others; of any time as long as a window at most twice as many. No request moves the end
of its window, which is at most a window away; and the first request from that end on is let through,
unless nothing ever is. -/
theorem rate_limit_bound {decodeToken : String → Option String} {cfg : RateSettings} {identity : String}
    {b : Bucket} {arrivals : List Arrival} (hsorted : arrivals.Pairwise fun a a' => a.time ≤ a'.time)
    (hcounted : ∀ a ∈ arrivals, a.CountedIn decodeToken cfg identity b) :
    (∀ m, (ofWindow (history decodeToken cfg identity b arrivals) m).map (·.verdict.letThrough) =
      (List.range (ofWindow (history decodeToken cfg identity b arrivals) m).length).map
        fun k : ℕ => decide ((k : ℤ) < b.limit cfg)) ∧
    (∀ t, 0 < cfg.windowSeconds →
      (history decodeToken cfg identity b arrivals).countP (fun s => s.verdict.letThrough &&
        decide (t ≤ s.arrival.time ∧ s.arrival.time ≤ t + 1000 * cfg.windowSeconds)) ≤
          2 * (b.limit cfg).toNat) ∧
    ((history decodeToken cfg identity b arrivals).Pairwise fun x y =>
      y.window = x.window → y.expiry = x.expiry) ∧
    (∀ x ∈ history decodeToken cfg identity b arrivals,
      x.expiry ≤ x.arrival.time + 1000 * max cfg.windowSeconds 0) ∧
    ∀ before x mid y after,
      history decodeToken cfg identity b arrivals = before ++ x :: (mid ++ y :: after) →
        (∀ z ∈ mid, z.arrival.time < x.expiry) → x.expiry ≤ y.arrival.time →
          (y.verdict.letThrough = true ↔ 1 ≤ b.limit cfg) := by
  have heq : history decodeToken cfg identity b arrivals =
      countAll (b.limit cfg) cfg.windowSeconds none 0 arrivals :=
    serveAll_eq arrivals _ 0 hcounted
  obtain ⟨hpairwise, hends⟩ := windows_apart (b.limit cfg) cfg.windowSeconds arrivals none 0 hsorted (Or.inl rfl)
  rw [heq]
  refine ⟨windows_counted _ _ arrivals, fun t hpos => interval_bound hpos hsorted t, ?_,
    fun x hx => (hends x hx).expiry_le, fun before x mid y after hserved hmid hy => ?_⟩
  · refine hpairwise.imp fun {x y} hxy hsame => ?_
    rcases hxy with ⟨-, h, -⟩ | ⟨h, -⟩ | ⟨h, -⟩
    · exact h
    · omega
    · omega
  · exact retry_through hsorted hserved hmid hy

/-! ### One request a minute -/

instance {decodeToken : String → Option String} {cfg : RateSettings} {identity : String} {b : Bucket}
    (a : Arrival) : Decidable (a.CountedIn decodeToken cfg identity b) :=
  decidable_of_iff (a.answered = true ∧ a.scope.exempt cfg = false ∧
      (identityOf decodeToken cfg a.scope).1 = identity ∧ (a.scope.bucket decodeToken cfg).1 = b)
    ⟨fun ⟨h1, h2, h3, h4⟩ => ⟨h1, h2, h3, h4⟩, fun ⟨h1, h2, h3, h4⟩ => ⟨h1, h2, h3, h4⟩⟩

def sampleSettings : RateSettings := { RateSettings.default with strictPerMinute := 1 }

/-- A login from behind a proxy. -/
def sampleLogin (time : ℤ) : Arrival :=
  ⟨time, true, time / 1000, "0a1b2c3d",
    ⟨"http", "POST", "/api/v1/auth/login", "", some " 192.0.2.7, 10.0.0.1", some "10.0.0.1"⟩⟩

def sampleLogins : List Arrival := [sampleLogin 0, sampleLogin 1000, sampleLogin 60000]

/-- The second login is rejected, and the one at the end of the minute is let through. -/
theorem rate_limit_bound_sample :
    (history (fun _ => none) sampleSettings "ip:192.0.2.7" .strict sampleLogins).map
        (·.verdict.letThrough) = [true, false, true] ∧
      (history (fun _ => none) sampleSettings "ip:192.0.2.7" .strict sampleLogins).countP
        (fun s => s.verdict.letThrough && decide (0 ≤ s.arrival.time ∧
          s.arrival.time ≤ 0 + 1000 * sampleSettings.windowSeconds)) ≤ 2 := by
  have hsorted : sampleLogins.Pairwise fun a a' => a.time ≤ a'.time := by decide
  have hcounted : ∀ a ∈ sampleLogins, a.CountedIn (fun _ => none) sampleSettings "ip:192.0.2.7" .strict := by
    decide +kernel
  exact ⟨by decide +kernel, (rate_limit_bound hsorted hcounted).2.1 0 (by decide)⟩

end InterviewScheduler.Redis
