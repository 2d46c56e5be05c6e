import InterviewScheduler.Engine.Pipeline

/-! # What `_validate` accepts

`Accepted db inp` lists the checks of `_validate` as facts about the input, and `validate_eq_ok`
says that the function accepts exactly these inputs, if the end of the horizon is within the bounds of a
datetime; if it is not, an `OverflowError` is raised (`validate_of_not_fit`). Past this point every datetime
of the input is aware, so that `astimezone` is the identity on them. -/

namespace InterviewScheduler.Engine

open InterviewScheduler.Intervals InterviewScheduler.Util

theorem raiseIf_eq_ok {c : Prop} [Decidable c] {m : String} {u : Unit} :
    raiseIf c m = .ok u ↔ ¬ c := by
  unfold raiseIf; split_ifs with h <;> simp [h]

theorem asUtc_eq_ok {dt : DateTime} {label : String} {t : Instant} :
    asUtc dt label = .ok t ↔ dt = .aware t := by
  cases dt <;> simp [asUtc]

@[simp] theorem astimezone_aware (t : Instant) : (DateTime.aware t).astimezone = t := rfl

/-- The busy block is aware and ends after it starts. -/
def BusyOk (b : HalfOpen DateTime) : Prop :=
  ∃ s e, b.start = .aware s ∧ b.stop = .aware e ∧ s < e

/-- The window is aware, not empty, not in the past and within the horizon. -/
def WindowOk (ref horizonEnd : Instant) (w : CandidateWindow) : Prop :=
  ∃ s e, w.start = .aware s ∧ w.stop = .aware e ∧ s < e ∧ ref ≤ s ∧ e ≤ horizonEnd

/-- **The inputs `_validate` accepts.** -/
structure Accepted (db : ZoneDatabase) (inp : EngineInput) : Prop where
  duration_pos : 0 < inp.constraints.durationMinutes
  buffer_nonneg : 0 ≤ inp.constraints.bufferMinutes
  step_pos : 0 < inp.constraints.slotStepMinutes
  topN_pos : 0 < inp.constraints.topN
  proximity_pos : 0 < inp.constraints.proximityHorizonDays
  one_candidate : (inp.participants.filter (·.isCandidate)).length = 1
  some_panelist : inp.participants.filter (!·.isCandidate) ≠ []
  zones : ∀ p ∈ inp.participants, db.known p.timezone = true
  busy : ∀ p ∈ inp.participants, ∀ b ∈ p.busy, BusyOk b
  some_window : inp.candidateWindows ≠ []
  windows : ∃ ref, inp.referenceTime = .aware ref ∧
    ∀ w ∈ inp.candidateWindows, WindowOk ref (ref + days inp.constraints.horizonDays) w

/-- The end of the horizon is within the bounds. -/
structure HorizonFits (inp : EngineInput) : Prop where
  delta : IsTimedelta (days inp.constraints.horizonDays)
  stop : IsDatetime (inp.referenceTime.astimezone + days inp.constraints.horizonDays)

theorem validateConstraints_eq_ok {c : SchedulingConstraints} {u : Unit} :
    validateConstraints c = .ok u ↔ 0 < c.durationMinutes ∧ 0 ≤ c.bufferMinutes ∧
      0 < c.slotStepMinutes ∧ 0 < c.topN ∧ 0 < c.proximityHorizonDays := by
  simp only [validateConstraints, bind_eq_ok, raiseIf_eq_ok, not_le, not_lt]
  exact ⟨fun ⟨_, h1, _, h2, _, h3, _, h4, h5⟩ => ⟨h1, h2, h3, h4, h5⟩,
    fun ⟨h1, h2, h3, h4, h5⟩ => ⟨(), h1, (), h2, (), h3, (), h4, h5⟩⟩

theorem validateBusy_eq_ok {b : HalfOpen DateTime} {u : Unit} :
    validateBusy b = .ok u ↔ BusyOk b := by
  simp only [validateBusy, bind_eq_ok, raiseIf_eq_ok, asUtc_eq_ok, not_le, BusyOk]
  exact ⟨fun ⟨e, he, s, hs, h⟩ => ⟨s, e, hs, he, h⟩, fun ⟨s, e, hs, he, h⟩ => ⟨e, he, s, hs, h⟩⟩

theorem validateParticipant_eq_ok {db : ZoneDatabase} {p : Participant} {u : Unit} :
    validateParticipant db p = .ok u ↔ db.known p.timezone = true ∧ ∀ b ∈ p.busy, BusyOk b := by
  simp only [validateParticipant, bind_eq_ok, raiseIf_eq_ok, forM_eq_ok, validateBusy_eq_ok,
    Bool.not_eq_false]
  exact ⟨fun ⟨_, h⟩ => h, fun h => ⟨(), h⟩⟩

theorem validateWindow_eq_ok {ref horizonEnd : Instant} {n : ℤ} {w : CandidateWindow}
    {u : Unit} :
    validateWindow ref horizonEnd n w = .ok u ↔ WindowOk ref horizonEnd w := by
  simp only [validateWindow, bind_eq_ok, raiseIf_eq_ok, asUtc_eq_ok, not_le, not_lt, WindowOk]
  exact ⟨fun ⟨s, hs, e, he, _, h1, _, h2, h3⟩ => ⟨s, e, hs, he, h1, h2, h3⟩,
    fun ⟨s, e, hs, he, h1, h2, h3⟩ => ⟨s, hs, e, he, (), h1, (), h2, h3⟩⟩

/-- **`_validate` accepts exactly the accepted inputs** of which the end of the horizon is within the
bounds. -/
theorem validate_eq_ok {db : ZoneDatabase} {inp : EngineInput} {u : Unit} :
    validate db inp = .ok u ↔ Accepted db inp ∧ HorizonFits inp := by
  simp only [validate, bind_eq_ok, raiseIf_eq_ok, asUtc_eq_ok, forM_eq_ok, timedelta, datetime,
    bounded_eq_ok, validateConstraints_eq_ok, validateParticipant_eq_ok, validateWindow_eq_ok, not_not]
  constructor
  · rintro ⟨-, ⟨h1, h2, h3, h4, h5⟩, ref, href, _, ⟨hδ, rfl⟩, _, ⟨hend, rfl⟩, -, h6, -, h7, -, h8, -, h9,
      h10⟩
    refine ⟨⟨h1, h2, h3, h4, h5, h6, h7, fun p hp => (h8 p hp).1, fun p hp => (h8 p hp).2, h9, ref, href,
      h10⟩, hδ, ?_⟩
    rw [href]
    exact hend
  · rintro ⟨⟨h1, h2, h3, h4, h5, h6, h7, h8, h8', h9, ref, href, h10⟩, hδ, hend⟩
    rw [href] at hend
    exact ⟨(), ⟨h1, h2, h3, h4, h5⟩, ref, href, _, ⟨hδ, rfl⟩, _, ⟨hend, rfl⟩, (), h6, (), h7, (),
      fun p hp => ⟨h8 p hp, h8' p hp⟩, (), h9, h10⟩

/-- On an accepted input `_validate` raises nothing but the `OverflowError` of the horizon. -/
theorem validate_of_not_fit {db : ZoneDatabase} {inp : EngineInput} (h : Accepted db inp)
    (hfit : ¬ HorizonFits inp) : validate db inp = .error .overflowError := by
  have hc : validateConstraints inp.constraints = .ok () :=
    validateConstraints_eq_ok.mpr ⟨h.duration_pos, h.buffer_nonneg, h.step_pos, h.topN_pos, h.proximity_pos⟩
  obtain ⟨ref, href, -⟩ := h.windows
  have hutc : inp.referenceTime.astimezone = ref := by rw [href]; rfl
  unfold validate
  simp only [hc, href, asUtc]
  by_cases hδ : IsTimedelta (days inp.constraints.horizonDays)
  · have hend : ¬ IsDatetime (ref + days inp.constraints.horizonDays) := fun hend =>
      hfit ⟨hδ, by rw [hutc]; exact hend⟩
    simp [timedelta, datetime, bounded, hδ, hend, bind, Except.bind]
  · simp [timedelta, bounded, hδ, bind, Except.bind]

section Accepted
variable {db : ZoneDatabase} {inp : EngineInput} (h : Accepted db inp)
include h

theorem Accepted.participants_ne_nil : inp.participants ≠ [] := by
  intro he
  have := h.some_panelist
  simp [he] at this

/-- There is a candidate. -/
theorem Accepted.exists_candidate : ∃ p ∈ inp.participants, p.isCandidate = true := by
  obtain ⟨p, hp⟩ := List.exists_mem_of_length_pos (h.one_candidate ▸ Nat.one_pos)
  exact ⟨p, (List.mem_filter.mp hp).1, (List.mem_filter.mp hp).2⟩

theorem Accepted.busyOf_proper {p : Participant} (hp : p ∈ inp.participants) :
    ∀ i ∈ busyOf p, i.start < i.stop := by
  intro i hi
  obtain ⟨b, hb, rfl⟩ := List.mem_map.mp hi
  obtain ⟨s, e, hs, he, hlt⟩ := h.busy p hp b hb
  simpa [hs, he] using hlt

theorem Accepted.normalizeWindows_proper :
    ∀ i ∈ normalizeWindows inp.candidateWindows, i.start < i.stop := by
  intro i hi
  obtain ⟨w, hw, rfl⟩ := List.mem_map.mp hi
  obtain ⟨ref, -, hwin⟩ := h.windows
  obtain ⟨s, e, hs, he, hlt, -, -⟩ := hwin w hw
  simpa [hs, he] using hlt

theorem Accepted.normalizeWindows_ne_nil : normalizeWindows inp.candidateWindows ≠ [] := by
  simpa [normalizeWindows] using h.some_window

end Accepted

end InterviewScheduler.Engine
