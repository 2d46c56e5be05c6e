import Mathlib.Algebra.BigOperators.Group.List.Basic
import InterviewScheduler.Engine.Guarantees

/-! # The engine does not see how its input is written

Two accepted inputs with the same common free set, whose participants are the same up to their order
and their busy blocks, have the same result (`generateRecommendations_congr`): the free intervals are
the one canonical list of the free set, and the five factors read the participants only through a
minimum, a sum and a count.

So it does not matter in which order participants, windows and busy blocks are given, nor how the
windows or the busy blocks are cut into intervals (`generateRecommendations_eq_of_alike`). -/

namespace InterviewScheduler.Engine

open InterviewScheduler.Intervals InterviewScheduler.Util

variable {db : ZoneDatabase} {a b : EngineInput}

/-! ### Scoring -/

/-- A participant as the scoring sees it. -/
def Participant.profile (p : Participant) : Participant := { p with busy := [] }

theorem minOrZero_perm {xs ys : List ℚ} (h : xs.Perm ys) : minOrZero xs = minOrZero ys := by
  unfold minOrZero
  cases hx : xs.min? with
  | none =>
    rw [List.min?_eq_none_iff] at hx
    subst hx
    rw [h.symm.eq_nil]
    rfl
  | some m =>
    obtain ⟨hm, hle⟩ := List.min?_eq_some_iff.mp hx
    have hy : ys.min? = some m :=
      List.min?_eq_some_iff.mpr ⟨h.mem_iff.mp hm, fun y hy => hle y (h.mem_iff.mpr hy)⟩
    rw [hy]

theorem raisesOnly_div {x y : ℚ} : RaisesOnly .zeroDivisionError (div x y) := by
  intro e h
  unfold div at h
  split_ifs at h
  exact (Except.error.inj h).symm

/-- A map over the participants reads only the profiles, if each call does. -/
theorem mapM_profile {f : Participant → Except EngineError ℚ} (hf : ∀ p, f p.profile = f p)
    (ps : List Participant) : (ps.map Participant.profile).mapM f = ps.mapM f := by
  rw [List.mapM_map]
  exact congrArg (fun g => ps.mapM g) (funext hf)

/-- So what is computed from such a map is the same for participants with the same profiles, in any
order. -/
theorem bind_mapM_profiles {f : Participant → Except EngineError ℚ} (hf : ∀ p, f p.profile = f p)
    {e : EngineError} (he : ∀ p, RaisesOnly e (f p)) {g : List ℚ → Except EngineError ℚ}
    (hg : ∀ xs ys, xs.Perm ys → g xs = g ys) {ps qs : List Participant}
    (h : (ps.map Participant.profile).Perm (qs.map Participant.profile)) :
    (ps.mapM f >>= g) = (qs.mapM f >>= g) := by
  rw [← mapM_profile hf ps, ← mapM_profile hf qs]
  exact bind_mapM_perm he hg h

section Profiles
variable {ps qs : List Participant}
  (h : (ps.map Participant.profile).Perm (qs.map Participant.profile))
include h

theorem timezoneFairness_perm (mid : Instant) (wh : WorkingHours) :
    timezoneFairness db mid ps wh = timezoneFairness db mid qs wh := by
  unfold timezoneFairness
  refine bind_mapM_profiles (fun p => rfl) (fun p => raisesOnly_div.bind fun _ _ => raisesOnly_pure) ?_ h
  intro xs ys hperm
  rw [minOrZero_perm hperm]

theorem workingHoursComfort_perm (mid : Instant) (wh : WorkingHours) :
    workingHoursComfort db mid ps wh = workingHoursComfort db mid qs wh := by
  unfold workingHoursComfort
  refine bind_mapM_profiles (fun p => rfl)
    (fun p => raisesOnly_of_eq_ok (e := .zeroDivisionError) (comfortOne_ok _).choose_spec) ?_ h
  intro xs ys hperm
  rw [minOrZero_perm hperm]

theorem workloadBalance_perm (start : Instant) (bookings : String → List Instant) :
    workloadBalance db start ps bookings = workloadBalance db start qs bookings := by
  have hnil : ps = [] ↔ qs = [] := by
    have hlen := h.length_eq
    rw [List.length_map, List.length_map] at hlen
    rw [← List.length_eq_zero_iff, ← List.length_eq_zero_iff, hlen]
  unfold workloadBalance
  by_cases hp : ps = []
  · rw [if_pos hp, if_pos (hnil.mp hp)]
  · rw [if_neg hp, if_neg (fun hq => hp (hnil.mpr hq))]
    refine bind_mapM_profiles (e := .overflowError) (fun p => rfl) (fun p => ?_) ?_ h
    · exact (raisesOnly_mapM fun b _ => raisesOnly_bounded).bind fun booked _ =>
        raisesOnly_of_eq_ok workload_ok.choose_spec
    · intro xs ys hperm
      rw [Floats.sum_exact, Floats.sum_exact, hperm.sum_eq, hperm.length_eq]

/-- The panelists have the same profiles too. -/
theorem panelists_perm :
    ((ps.filter (!·.isCandidate)).map Participant.profile).Perm
      ((qs.filter (!·.isCandidate)).map Participant.profile) := by
  have hmap : ∀ l : List Participant, (l.filter (!·.isCandidate)).map Participant.profile =
      (l.map Participant.profile).filter (!·.isCandidate) := by
    intro l
    rw [List.filter_map]
    rfl
  rw [hmap ps, hmap qs]
  exact h.filter _

end Profiles

/-- Two inputs that differ at most in their windows, in the order of the participants and in the busy
blocks. -/
structure SameRequest (a b : EngineInput) : Prop where
  referenceTime : a.referenceTime = b.referenceTime
  constraints : a.constraints = b.constraints
  existingBookings : a.existingBookings = b.existingBookings
  weights : a.weights = b.weights
  profiles : (a.participants.map Participant.profile).Perm (b.participants.map Participant.profile)

section SameRequest
variable (h : SameRequest a b)
include h

theorem SameRequest.score (iv : TimeInterval) (start : Instant) :
    score db a iv start = score db b iv start := by
  unfold Engine.score
  rw [h.constraints, h.referenceTime, h.existingBookings, h.weights]
  simp only [timezoneFairness_perm h.profiles, workingHoursComfort_perm h.profiles,
    workloadBalance_perm (panelists_perm h.profiles)]

theorem SameRequest.rawSlots (iv : TimeInterval) : rawSlots db a iv = rawSlots db b iv := by
  have hslot : ∀ t, rawSlot db a iv t = rawSlot db b iv t := by
    intro t
    unfold rawSlot
    rw [h.score, h.constraints]
  unfold Engine.rawSlots
  rw [h.constraints]
  exact congrArg (fun f => (gridStarts b.constraints iv).mapM f) (funext hslot)

theorem SameRequest.rankSlots (raw : List RawSlot) : rankSlots a raw = rankSlots b raw := by
  unfold Engine.rankSlots
  rw [h.constraints, h.weights]

/-- What holds for the zones of all participants. -/
theorem SameRequest.forall_zones (P : String → Prop) :
    (∀ p ∈ a.participants, P p.timezone) ↔ ∀ p ∈ b.participants, P p.timezone := by
  have hzones : (a.participants.map Participant.timezone).Perm
      (b.participants.map Participant.timezone) := by
    have := h.profiles.map Participant.timezone
    rw [List.map_map, List.map_map] at this
    exact this
  have hall : (∀ x ∈ a.participants.map Participant.timezone, P x) ↔
      ∀ x ∈ b.participants.map Participant.timezone, P x :=
    forall_congr' fun x => by rw [hzones.mem_iff]
  rwa [List.forall_mem_map, List.forall_mem_map] at hall

/-- The one is within the bounds if the other is. -/
theorem SameRequest.fits (hspan : candidateSpan a = candidateSpan b) :
    HorizonFits a ∧ Representable db a ↔ HorizonFits b ∧ Representable db b := by
  have hdays := h.forall_zones fun tz =>
    DaysFit (db.zone tz) b.constraints.workingHours (candidateSpan b)
  constructor
  · rintro ⟨⟨h1, h2⟩, h3, h4⟩
    rw [h.constraints, h.referenceTime] at *
    rw [hspan] at h3
    exact ⟨⟨h1, h2⟩, hdays.mp h3, h4⟩
  · rintro ⟨⟨h1, h2⟩, h3, h4⟩
    rw [← h.constraints, ← h.referenceTime] at *
    rw [← hspan] at hdays h3
    exact ⟨⟨h1, h2⟩, hdays.mpr h3, h4⟩

omit h in
/-- The free intervals are determined by the set they cover. -/
theorem walked_eq (ha : Accepted db a) (hb : Accepted db b)
    (hfree : commonFreeSet db a = commonFreeSet db b) : walked db a = walked db b := by
  obtain ⟨hca, hcana⟩ := walked_spec ha
  obtain ⟨hcb, hcanb⟩ := walked_spec hb
  exact hcana.eq_of_cover_eq hcanb (hca.trans (hfree.trans hcb.symm))

/-- **The result depends on the common free set**, and on the input without windows and busy
blocks. -/
theorem generateRecommendations_congr (ha : Accepted db a) (hb : Accepted db b)
    (hspan : candidateSpan a = candidateSpan b) (hfree : commonFreeSet db a = commonFreeSet db b) :
    generateRecommendations db a = generateRecommendations db b := by
  have hwalked := walked_eq ha hb hfree
  have hraw : Engine.rawSlots db a = Engine.rawSlots db b := funext fun iv => h.rawSlots iv
  by_cases hfit : HorizonFits a ∧ Representable db a
  · have hfit' := (h.fits hspan).mp hfit
    rw [generateRecommendations_of_representable ha hfit.1 hfit.2,
      generateRecommendations_of_representable hb hfit'.1 hfit'.2]
    simp only [hwalked, hraw, h.rankSlots]
  · rw [generateRecommendations_of_not_representable ha hfit,
      generateRecommendations_of_not_representable hb fun hfit' => hfit ((h.fits hspan).mpr hfit')]

end SameRequest

/-! ### Inputs that say the same -/

/-- The same participant, a panelist with the same busy instants; those of a candidate are
ignored. -/
structure Participant.Alike (p q : Participant) : Prop where
  profile : p.profile = q.profile
  busy : p.isCandidate = false → busySet p = busySet q

/-- **Inputs that say the same**: the participants may come in another order, and the windows and the
busy blocks may be permuted, split, merged or repeated, as long as they cover the same instants. -/
structure EngineInput.Alike (a b : EngineInput) : Prop where
  referenceTime : a.referenceTime = b.referenceTime
  constraints : a.constraints = b.constraints
  existingBookings : a.existingBookings = b.existingBookings
  weights : a.weights = b.weights
  windows : candidateSet a = candidateSet b
  participants : ∃ ps, a.participants.Perm ps ∧
    List.Forall₂ Participant.Alike ps b.participants

section Alike

theorem Participant.Alike.timezone {p q : Participant} (h : p.Alike q) :
    p.timezone = q.timezone := by
  have := congrArg Participant.timezone h.profile
  exact this

theorem Participant.Alike.isCandidate {p q : Participant} (h : p.Alike q) :
    p.isCandidate = q.isCandidate := by
  have := congrArg Participant.isCandidate h.profile
  exact this

theorem map_profile_of_alike {ps qs : List Participant}
    (h : List.Forall₂ Participant.Alike ps qs) :
    ps.map Participant.profile = qs.map Participant.profile := by
  induction h with
  | nil => rfl
  | cons hp _ ih => rw [List.map_cons, List.map_cons, hp.profile, ih]

/-- What holds of all participants of one list holds of all of the other, if it is the same for
participants that are alike. -/
theorem forall_mem_of_alike {P Q : Participant → Prop} (hPQ : ∀ p q, p.Alike q → (P p ↔ Q q))
    {ps qs : List Participant} (h : List.Forall₂ Participant.Alike ps qs) :
    (∀ p ∈ ps, P p) ↔ ∀ q ∈ qs, Q q := by
  induction h with
  | nil => simp
  | cons hp _ ih => simp only [List.forall_mem_cons, hPQ _ _ hp, ih]

variable (h : a.Alike b)
include h

theorem EngineInput.Alike.forall_mem {P Q : Participant → Prop}
    (hPQ : ∀ p q, p.Alike q → (P p ↔ Q q)) :
    (∀ p ∈ a.participants, P p) ↔ ∀ q ∈ b.participants, Q q := by
  obtain ⟨ps, hperm, hps⟩ := h.participants
  rw [← forall_mem_of_alike hPQ hps]
  exact forall_congr' fun p => by rw [hperm.mem_iff]

theorem EngineInput.Alike.sameRequest : SameRequest a b where
  referenceTime := h.referenceTime
  constraints := h.constraints
  existingBookings := h.existingBookings
  weights := h.weights
  profiles := by
    obtain ⟨ps, hperm, hps⟩ := h.participants
    rw [← map_profile_of_alike hps]
    exact hperm.map _

/-- The hull of the candidate's windows is the same. -/
theorem EngineInput.Alike.candidateSpan (ha : Accepted db a) (hb : Accepted db b) :
    candidateSpan a = candidateSpan b :=
  spanOf_eq_of_cover_eq ha.normalizeWindows_ne_nil hb.normalizeWindows_ne_nil
    ha.normalizeWindows_proper hb.normalizeWindows_proper h.windows

/-- The common free sets are the same: the candidate's set and its hull are, and each participant's
working hours and busy instants. -/
theorem EngineInput.Alike.commonFreeSet (ha : Accepted db a) (hb : Accepted db b) :
    commonFreeSet db a = commonFreeSet db b := by
  have hspan := h.candidateSpan ha hb
  have hwork : ∀ p q, Participant.Alike p q → workingSet db a p = workingSet db b q := by
    intro p q hpq
    unfold workingSet touchedDays
    rw [hspan, hpq.timezone, h.constraints]
  ext t
  show (_ ∧ _ ∧ _) ↔ (_ ∧ _ ∧ _)
  rw [h.windows]
  refine and_congr_right fun _ => and_congr (h.forall_mem fun p q hpq => ?_)
    (h.forall_mem fun p q hpq => ?_)
  · rw [hwork p q hpq]
  · rw [← hpq.isCandidate]
    exact forall_congr' fun hc => by rw [hpq.busy hc]

end Alike

/-- **Representation independence.** The engine returns the same for two accepted inputs that say the
same. -/
theorem generateRecommendations_eq_of_alike (db : ZoneDatabase) (a b : EngineInput)
    (ha : validate db a = .ok ()) (hb : validate db b = .ok ()) (h : a.Alike b) :
    generateRecommendations db a = generateRecommendations db b := by
  obtain ⟨ha, -⟩ := validate_eq_ok.mp ha
  obtain ⟨hb, -⟩ := validate_eq_ok.mp hb
  exact generateRecommendations_congr h.sameRequest ha hb (h.candidateSpan ha hb) (h.commonFreeSet ha hb)

/-- The sample, written another way: the panelist first, her hour in two overlapping pieces, and one
window. -/
def rewrittenInput : EngineInput where
  referenceTime := .aware 0
  participants :=
    [{ participantId := "p", timezone := "UTC"
       busy := [⟨.aware (minutes 630), .aware (minutes 660)⟩,
        ⟨.aware (minutes 600), .aware (minutes 640)⟩] },
      { participantId := "c", timezone := "UTC", isCandidate := true }]
  candidateWindows := [⟨.aware (minutes 540), .aware (minutes 840)⟩]
  constraints := { durationMinutes := 60, bufferMinutes := 15 }

theorem alike_rewrittenInput : sampleInput.Alike rewrittenInput where
  referenceTime := rfl
  constraints := rfl
  existingBookings := rfl
  weights := rfl
  windows := by
    ext t
    simp only [candidateSet, normalizeWindows, sampleInput, rewrittenInput, mem_cover, minutes]
    simp
    lia
  participants := by
    refine ⟨_, List.Perm.swap _ _ [], .cons ⟨rfl, fun _ => ?_⟩ (.cons ⟨rfl, fun h => by cases h⟩ .nil)⟩
    ext t
    simp only [busySet, busyOf, mem_cover, minutes]
    simp
    lia

theorem generateRecommendations_eq_rewritten :
    generateRecommendations .utcOnly sampleInput =
      generateRecommendations .utcOnly rewrittenInput :=
  generateRecommendations_eq_of_alike .utcOnly sampleInput rewrittenInput rfl rfl
    alike_rewrittenInput

end InterviewScheduler.Engine
