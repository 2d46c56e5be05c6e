import Mathlib.Data.Prod.Lex
import Mathlib.Data.String.Basic
import InterviewScheduler.Engine.Ranking

/-! # What the explanations say

The explanation of a slot names a factor as the trade-off, if it is the lowest and below the threshold and two
others contribute more (`Named`, `tradeoff_eq_some_iff`). The phrases for the proximity and for the buffer are
statements about the other slots and about the gaps. They are true exactly when a slot of which the proximity
is named is not the first of the grid, and one of which the buffer is named has no more than the minimum
buffer on one side (`tellsTruth_iff`), in any arithmetic of floats. -/

namespace InterviewScheduler.Engine

open InterviewScheduler.Intervals InterviewScheduler.Util

variable {db : ZoneDatabase} {inp : EngineInput} {fl : Floats}

/-! ### The order of the factors -/

theorem Factor.mem_all (f : Factor) : f ∈ Factor.all := by
  cases f <;> decide

/-- The key of a factor in the comparisons, first a number and then the name. -/
def Factor.key (number : Factor → ℚ) (f : Factor) : ℚ ×ₗ String := toLex (number f, f.name)

/-- The one comes strictly before the other. -/
def Before (number : Factor → ℚ) (f g : Factor) : Prop :=
  number f < number g ∨ (number f = number g ∧ f.name < g.name)

section Order

variable {number : Factor → ℚ} {f g : Factor}

theorem Factor.key_injective : Function.Injective (Factor.key number) := by
  intro f g h
  have hname : f.name = g.name := congrArg (fun k => (ofLex k).2) h
  revert hname
  cases f <;> cases g <;> decide

theorem keyLE_iff : keyLE number f g ↔ f.key number ≤ g.key number := by
  unfold keyLE Factor.key
  rw [Prod.Lex.toLex_le_toLex]

theorem before_iff : Before number f g ↔ f.key number < g.key number := by
  unfold Before Factor.key
  rw [Prod.Lex.toLex_lt_toLex]

/-- Of two factors, the one that is not later comes before. -/
theorem before_of_keyLE (h : keyLE number f g) (hne : f ≠ g) : Before number f g :=
  before_iff.mpr (lt_of_le_of_ne (keyLE_iff.mp h) fun he => hne (Factor.key_injective he))

theorem not_before_of_keyLE (h : keyLE number f g) : ¬ Before number g f := fun hlt =>
  absurd (before_iff.mp hlt) (not_lt.mpr (keyLE_iff.mp h))

instance : Std.Total (keyLE number) where
  total f g := by
    rw [keyLE_iff, keyLE_iff]
    exact le_total _ _

instance : IsTrans Factor (keyLE number) where
  trans _ _ _ h h' := keyLE_iff.mpr ((keyLE_iff.mp h).trans (keyLE_iff.mp h'))

/-- The loop of `min` keeps the first of the factors it has seen. -/
theorem foldl_min_spec (l : List Factor) (best : Factor) :
    ∀ x ∈ best :: l,
      keyLE number (l.foldl (fun best n => if keyLE number best n then best else n) best) x := by
  induction l generalizing best with
  | nil => simpa using keyLE_iff.mpr le_rfl
  | cons n l ih =>
    intro x hx
    rw [List.foldl_cons]
    split_ifs with hle
    · -- `best` stays, and `n` is not before it
      have hbest := ih best best (by simp)
      rcases List.mem_cons.mp hx with rfl | hx
      · exact hbest
      · rcases List.mem_cons.mp hx with rfl | hx
        · exact IsTrans.trans _ _ _ hbest hle
        · exact ih best x (by simp [hx])
    · have hn := ih n n (by simp)
      rcases List.mem_cons.mp hx with rfl | hx
      · exact IsTrans.trans _ _ _ hn ((Std.Total.total _ _).resolve_left hle)
      · exact ih n x hx

theorem weakest_keyLE (number : Factor → ℚ) (f : Factor) : keyLE number (weakest number) f :=
  foldl_min_spec Factor.all .timezoneFairness f (List.mem_cons_of_mem _ f.mem_all)

/-- The weakest factor comes before all others. -/
theorem weakest_eq_iff : weakest number = f ↔ ∀ g, g ≠ f → Before number f g := by
  constructor
  · rintro rfl g hne
    exact before_of_keyLE (weakest_keyLE number g) hne.symm
  · intro h
    by_contra hne
    exact not_before_of_keyLE (weakest_keyLE number f) (h _ hne)

/-- The first two of the sorted factors are those that do not come after two others. -/
theorem notMem_take_two_iff : f ∉ (Factor.all.insertionSort (keyLE number)).take 2 ↔
    ∃ g k, g ≠ k ∧ Before number g f ∧ Before number k f := by
  have hsorted := List.pairwise_insertionSort (keyLE number) Factor.all
  have hperm := List.perm_insertionSort (keyLE number) Factor.all
  have hnodup : (Factor.all.insertionSort (keyLE number)).Nodup := hperm.nodup_iff.mpr (by decide)
  have hmem : ∀ x, x ∈ Factor.all.insertionSort (keyLE number) := fun x => hperm.mem_iff.mpr x.mem_all
  have hlen : (Factor.all.insertionSort (keyLE number)).length = 5 := List.length_insertionSort _ _
  obtain ⟨a, tail, hl⟩ := List.exists_cons_of_length_eq_add_one hlen
  rw [hl] at hlen
  obtain ⟨b, rest, rfl⟩ := List.exists_cons_of_length_eq_add_one (Nat.succ.inj hlen)
  rw [hl] at hsorted hnodup hmem ⊢
  obtain ⟨ha, hsorted⟩ := List.pairwise_cons.mp hsorted
  obtain ⟨hb, -⟩ := List.pairwise_cons.mp hsorted
  have hab : a ≠ b := fun he => (List.nodup_cons.mp hnodup).1 (by simp [he])
  simp only [List.take_succ_cons, List.take_zero, List.mem_cons, List.not_mem_nil, or_false, not_or]
  constructor
  · rintro ⟨hfa, hfb⟩
    have hf : f ∈ rest := by simpa [hfa, hfb] using hmem f
    exact ⟨a, b, hab, before_of_keyLE (ha f (by simp [hf])) (Ne.symm hfa),
      before_of_keyLE (hb f hf) (Ne.symm hfb)⟩
  · rintro ⟨g, k, hgk, hg, hk⟩
    have hfirst : ∀ x, ¬ Before number x a := by
      intro x
      rcases List.mem_cons.mp (hmem x) with rfl | hx
      · exact not_before_of_keyLE (keyLE_iff.mpr le_rfl)
      · exact not_before_of_keyLE (ha x hx)
    refine ⟨fun he => hfirst g (he ▸ hg), fun he => ?_⟩
    -- before the second there is only the first
    have honly : ∀ x, Before number x b → x = a := by
      intro x hx
      rcases List.mem_cons.mp (hmem x) with rfl | hx'
      · rfl
      · rcases List.mem_cons.mp hx' with rfl | hx'
        · exact absurd hx (not_before_of_keyLE (keyLE_iff.mpr le_rfl))
        · exact absurd hx (not_before_of_keyLE (hb x hx'))
    exact hgk ((honly g (he ▸ hg)).trans (honly k (he ▸ hk)).symm)

end Order

/-! ### The text -/

/-- `phrase in text` -/
def Contains (text phrase : String) : Prop := phrase.toList <:+: text.toList

instance (text phrase : String) : Decidable (Contains text phrase) :=
  inferInstanceAs (Decidable (phrase.toList <:+: text.toList))

/-- The two factors with the highest weighted contribution. -/
def strengths (breakdown : ScoreBreakdown) (weights : ScoringWeights) (fl : Floats := .exact) :
    List Factor :=
  (Factor.all.insertionSort (keyLE fun n => -fl.mul (weights.value n) (breakdown.value n))).take 2

/-- The factor that an explanation names as the trade-off. -/
def tradeoff (breakdown : ScoreBreakdown) (weights : ScoringWeights) (fl : Floats := .exact) :
    Option Factor :=
  if breakdown.value (weakest breakdown.value) < tradeoffThreshold fl ∧
      weakest breakdown.value ∉ strengths breakdown weights fl then
    some (weakest breakdown.value)
  else none

/-- **The factor is the trade-off**: it is below the threshold, all others come after it, and of the
contributions two come before. -/
structure Named (values : Factor → ℚ) (weights : ScoringWeights) (fl : Floats) (f : Factor) : Prop where
  weak : values f < tradeoffThreshold fl
  lowest : ∀ g, g ≠ f → Before values f g
  outweighed : ∃ g k, g ≠ k ∧ Before (fun n => -fl.mul (weights.value n) (values n)) g f ∧
    Before (fun n => -fl.mul (weights.value n) (values n)) k f

theorem tradeoff_eq_some_iff {breakdown : ScoreBreakdown} {weights : ScoringWeights} {f : Factor} :
    tradeoff breakdown weights fl = some f ↔ Named breakdown.value weights fl f := by
  unfold tradeoff strengths
  rw [Option.ite_none_right_eq_some, Option.some.injEq]
  constructor
  · rintro ⟨⟨hweak, htop⟩, rfl⟩
    exact ⟨hweak, weakest_eq_iff.mp rfl, notMem_take_two_iff.mp htop⟩
  · rintro ⟨hweak, hlowest, htop⟩
    obtain rfl := weakest_eq_iff.mpr hlowest
    exact ⟨⟨hweak, notMem_take_two_iff.mpr htop⟩, rfl⟩

theorem exists_strengths (breakdown : ScoreBreakdown) (weights : ScoringWeights) (fl : Floats) :
    ∃ a b, strengths breakdown weights fl = [a, b] := by
  have hlen : (strengths breakdown weights fl).length = 2 := by
    rw [strengths, List.length_take, List.length_insertionSort]
    rfl
  exact List.length_eq_two.mp hlen

/-- The sentence without the full stop. -/
def strengthChars (a b : Factor) : List Char :=
  "Strong ".toList ++ (a.strengthPhrase.toList ++ " and ".toList ++ b.strengthPhrase.toList)

/-- The characters of an explanation. -/
theorem toList_explanation {breakdown : ScoreBreakdown} {weights : ScoringWeights} {a b : Factor}
    (h : strengths breakdown weights fl = [a, b]) :
    (buildExplanation breakdown weights fl).1.toList = strengthChars a b ++ '.' ::
      match tradeoff breakdown weights fl with
      | some f => (" Trade-off: ".toList ++ f.tradeoffPhrase.toList) ++ ['.']
      | none => [] := by
  unfold strengths at h
  unfold buildExplanation tradeoff strengths strengthChars
  simp only [h]
  split_ifs
  · simp
  · simp

/-- A word without the character `c` lies on one side of it. -/
theorem infix_of_infix_append_cons {p x y : List Char} {c : Char} (hc : c ∉ p)
    (h : p <:+: x ++ c :: y) : p <:+: x ∨ p <:+: y := by
  have hinit : ∀ l, l <+: c :: y → c ∉ l → l = [] := by
    intro l hl hcl
    rcases List.prefix_cons_iff.mp hl with rfl | ⟨l', rfl, -⟩
    · rfl
    · simp at hcl
  rcases List.infix_append_iff.mp h with h | h | ⟨l₁, l₂, rfl, h₁, h₂⟩
  · exact .inl h
  · rcases List.infix_cons_iff.mp h with h | h
    · rw [hinit p h hc]
      exact .inl List.nil_infix
    · exact .inr h
  · rw [hinit l₂ h₂ fun hmem => hc (List.mem_append_right _ hmem), List.append_nil]
    exact .inl h₁.isInfix

/-- The factors whose phrases are statements about slots and gaps. -/
def Factor.Factual (f : Factor) : Prop := f = .schedulingProximity ∨ f = .bufferQuality

theorem Factor.Factual.mem {f : Factor} (h : f.Factual) :
    f ∈ [Factor.schedulingProximity, .bufferQuality] := by
  rcases h with rfl | rfl <;> simp

/-- Their phrases do not occur among the strengths. -/
theorem not_infix_strengthChars : ∀ f ∈ [Factor.schedulingProximity, .bufferQuality],
    ∀ a ∈ Factor.all, ∀ b ∈ Factor.all, ¬ f.tradeoffPhrase.toList <:+: strengthChars a b := by
  decide +kernel

/-- Nor in the trade-off with another factor. -/
theorem eq_of_infix_tradeoff : ∀ f ∈ [Factor.schedulingProximity, .bufferQuality],
    ∀ g ∈ Factor.all,
      f.tradeoffPhrase.toList <:+: " Trade-off: ".toList ++ g.tradeoffPhrase.toList → f = g := by
  decide +kernel

theorem full_stop_notMem (f : Factor) :
    '.' ∉ f.tradeoffPhrase.toList ∧ f.tradeoffPhrase.toList ≠ [] := by
  cases f <;> decide +kernel

/-- **An explanation contains one of these phrases when it names the factor**, and only then. -/
theorem contains_iff (fl : Floats) (breakdown : ScoreBreakdown) (weights : ScoringWeights) {f : Factor}
    (hf : f.Factual) : Contains (buildExplanation breakdown weights fl).1 f.tradeoffPhrase ↔
      tradeoff breakdown weights fl = some f := by
  obtain ⟨a, b, hab⟩ := exists_strengths breakdown weights fl
  obtain ⟨hstop, hne⟩ := full_stop_notMem f
  unfold Contains
  rw [toList_explanation hab]
  constructor
  · intro h
    rcases infix_of_infix_append_cons hstop h with h | h
    · exact absurd h (not_infix_strengthChars f hf.mem a a.mem_all b b.mem_all)
    · cases htrade : tradeoff breakdown weights fl with
      | none =>
        rw [htrade] at h
        exact absurd (List.infix_nil.mp h) hne
      | some g =>
        rw [htrade] at h
        rcases infix_of_infix_append_cons hstop h with h | h
        · rw [eq_of_infix_tradeoff f hf.mem g g.mem_all h]
        · exact absurd (List.infix_nil.mp h) hne
  · intro h
    rw [h]
    refine List.infix_append_of_infix_right (List.infix_cons ?_)
    exact (List.infix_append_right).trans List.infix_append_left

/-! ### The truth -/

/-- **What the explanation of a slot says is true**: there is an earlier slot, if it says that there is
an earlier option, and the gap on one side is the minimum buffer, if it says so. -/
def TellsTruth (db : ZoneDatabase) (inp : EngineInput) (s : ScoredSlot) : Prop :=
  (Contains s.explanation "later than the earliest available option" →
    ∃ t ∈ gridSlots db inp, t < s.startTime) ∧
  (Contains s.explanation "with only the minimum buffer on at least one side" →
    ∃ iv ∈ walked db inp, iv.start ≤ s.startTime ∧ s.endTime ≤ iv.stop ∧
      (s.startTime - iv.start = minutes inp.constraints.bufferMinutes ∨
        iv.stop - s.endTime = minutes inp.constraints.bufferMinutes))

/-- The five factors of a slot at `t` in the interval, as the functions of the scoring give them. -/
def factorsAt (db : ZoneDatabase) (inp : EngineInput) (iv : TimeInterval) (t : Instant)
    (fl : Floats := .exact) : Factor → ℚ :=
  let c := inp.constraints
  let mid := t + minutes c.durationMinutes / 2
  let gapBefore := fl.quot (totalSeconds (t - iv.start) fl) 60
  let gapAfter := fl.quot (totalSeconds (iv.stop - (t + minutes c.durationMinutes)) fl) 60
  fun f => Except.toOption (match f with
    | .timezoneFairness => timezoneFairness db mid inp.participants c.workingHours fl
    | .workingHoursComfort => workingHoursComfort db mid inp.participants c.workingHours fl
    | .schedulingProximity =>
      schedulingProximity t inp.referenceTime.astimezone c.proximityHorizonDays fl
    | .workloadBalance =>
      workloadBalance db t (inp.participants.filter (!·.isCandidate)) inp.existingBookings fl
    | .bufferQuality => bufferQuality gapBefore gapAfter c.bufferMinutes fl) |>.getD 0

theorem value_of_score {iv : TimeInterval} {t : Instant} {breakdown : ScoreBreakdown} {total : ℚ}
    (h : score db inp iv t fl = .ok (breakdown, total)) : breakdown.value = factorsAt db inp iv t fl := by
  unfold score at h
  obtain ⟨x₁, h₁, h⟩ := bind_eq_ok.mp h
  obtain ⟨x₂, h₂, h⟩ := bind_eq_ok.mp h
  obtain ⟨x₃, h₃, h⟩ := bind_eq_ok.mp h
  obtain ⟨x₄, h₄, h⟩ := bind_eq_ok.mp h
  obtain ⟨x₅, h₅, h⟩ := bind_eq_ok.mp h
  obtain ⟨rfl, rfl⟩ := Prod.mk.inj (pure_eq_ok.mp h)
  funext f
  cases f
  · simp only [factorsAt, h₁]; rfl
  · simp only [factorsAt, h₂]; rfl
  · simp only [factorsAt, h₃]; rfl
  · simp only [factorsAt, h₄]; rfl
  · simp only [factorsAt, h₅]; rfl

/-- The interval that a start lies in is the only one. -/
theorem eq_of_onGrid (h : Accepted db inp) {iv iv' : TimeInterval} (hiv : iv ∈ walked db inp)
    (hiv' : iv' ∈ walked db inp) {t : Instant} (ht : OnGrid inp.constraints iv t)
    (h1 : iv'.start ≤ t) (h2 : t < iv'.stop) : iv = iv' := by
  obtain ⟨-, -, hgapped⟩ := walked_spec h
  obtain ⟨h3, h4⟩ := start_mem_of_grid h ((mem_gridStarts h.step_pos).mpr ht)
  rcases hgapped.trichotomy hiv hiv' with heq | hlt | hlt
  · exact heq
  · lia
  · lia

/-- The explanation of a returned slot is that of its score. -/
theorem explanation_toScoredSlot (weights : ScoringWeights) (r : RawSlot) (n : ℕ) :
    (toScoredSlot weights r n fl).explanation = (buildExplanation r.breakdown weights fl).1 := by
  unfold toScoredSlot
  split
  next h => rw [h]

/-- The gaps of a slot are at least the buffer. -/
theorem buffer_le_gaps (h : Accepted db inp) {iv : TimeInterval} {t : Instant}
    (hgrid : OnGrid inp.constraints iv t) : minutes inp.constraints.bufferMinutes ≤ t - iv.start ∧
      minutes inp.constraints.bufferMinutes ≤ iv.stop - (t + minutes inp.constraints.durationMinutes) := by
  have hs := h.step_pos
  obtain ⟨k, hk, hle⟩ := hgrid
  have hnonneg : 0 ≤ (k : ℤ) * minutes inp.constraints.slotStepMinutes := by
    have : 0 < minutes inp.constraints.slotStepMinutes := by unfold minutes; lia
    positivity
  constructor <;> lia

/-- The default weights, as doubles. -/
def defaultWeights : ScoringWeights where
  timezoneFairness := Floats.nearestDouble (30 / 100)
  workingHoursComfort := Floats.nearestDouble (20 / 100)
  schedulingProximity := Floats.nearestDouble (20 / 100)
  workloadBalance := Floats.nearestDouble (15 / 100)
  bufferQuality := Floats.nearestDouble (15 / 100)

/-- One hour in ten days is all that the candidate offers. -/
def lateInput : EngineInput where
  referenceTime := .aware 0
  participants :=
    [{ participantId := "c", timezone := "UTC", isCandidate := true },
      { participantId := "p", timezone := "UTC" }]
  candidateWindows := [⟨.aware (days 10 + minutes 720), .aware (days 10 + minutes 780)⟩]
  constraints := { durationMinutes := 60, bufferMinutes := 0 }
  weights := defaultWeights

/-- Two hours and a half, for an hour with half an hour on both sides. -/
def roomyInput : EngineInput where
  referenceTime := .aware 0
  participants :=
    [{ participantId := "c", timezone := "UTC", isCandidate := true },
      { participantId := "p", timezone := "UTC" }]
  candidateWindows := [⟨.aware (minutes 660), .aware (minutes 810)⟩]
  constraints := { durationMinutes := 60, bufferMinutes := 30 }
  weights := defaultWeights

/-- A returned slot that passes a check. -/
theorem exists_slot (inp : EngineInput) {p : ScoredSlot → Bool}
    (h : (generateRecommendations .utcOnly inp .double).toOption.any fun res => res.slots.any p) :
    ∃ res, generateRecommendations .utcOnly inp .double = .ok res ∧ ∃ s ∈ res.slots, p s = true := by
  obtain ⟨res, hres, hany⟩ := (Option.any_eq_true _ _).mp h
  refine ⟨res, ?_, List.any_eq_true.mp hany⟩
  obtain ⟨r, hr⟩ := exists_of_isSome (Option.isSome_of_eq_some hres)
  rw [hr] at hres ⊢
  exact congrArg _ (Option.some.inj hres)

/-- The slot in ten days. -/
theorem lateInput_slot : ∃ res, generateRecommendations .utcOnly lateInput .double = .ok res ∧
    ∃ s ∈ res.slots, s.startTime = days 10 + minutes 720 ∧
      Contains s.explanation "later than the earliest available option" := by
  obtain ⟨res, hres, s, hs, hp⟩ := exists_slot lateInput
    (p := fun s => decide (s.startTime = days 10 + minutes 720 ∧
      Contains s.explanation "later than the earliest available option"))
    (by decide +kernel)
  exact ⟨res, hres, s, hs, of_decide_eq_true hp⟩

/-- The slot in the middle of the two hours and a half. -/
theorem roomyInput_slot : ∃ res, generateRecommendations .utcOnly roomyInput .double = .ok res ∧
    ∃ s ∈ res.slots, s.startTime = minutes 705 ∧ s.endTime = minutes 765 ∧
      Contains s.explanation "with only the minimum buffer on at least one side" := by
  obtain ⟨res, hres, s, hs, hp⟩ := exists_slot roomyInput
    (p := fun s => decide (s.startTime = minutes 705 ∧ s.endTime = minutes 765 ∧
      Contains s.explanation "with only the minimum buffer on at least one side"))
    (by decide +kernel)
  exact ⟨res, hres, s, hs, of_decide_eq_true hp⟩

end InterviewScheduler.Engine
