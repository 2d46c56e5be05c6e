import InterviewScheduler.Interviews.Footprint
import InterviewScheduler.Lifecycle.Runs
import InterviewScheduler.Scheduling.Alone

/-! # What the engine relies on

The engine rejects an input that is malformed, and four services have a part in it at different times:
the requests and their edits, the availability of the candidates, the users, and the clipping of the
windows when a request is evaluated. `Furnished` is what the tables owe to the engine at a given time, and
`Supplies` what a write must bring so that it stays so. Then the input is accepted (`accepted_input`). -/

namespace InterviewScheduler.Interviews

open InterviewScheduler.Engine InterviewScheduler.Core InterviewScheduler.Effects
open InterviewScheduler.Lifecycle (EventsProper)
open InterviewScheduler.Booking (Part Parts)
open InterviewScheduler.Scheduling (RowOf Produced engineRejected)

variable {zones : ZoneDatabase} {B : BusyInterval → Prop} {t t' : Instant} {T : Interviews}

/-! ### The tables -/

/-- The zone of a user: `valid_iana_timezone` has accepted it, or it was left out. -/
def Registrable (zones : ZoneDatabase) (timezone : String) : Prop :=
  zones.known timezone = true ∨ timezone = "UTC"

/-- What a candidate has offered by the time `t`. -/
structure Offered (zones : ZoneDatabase) (t : Instant) (row : CandidateAvailability) : Prop where
  zone : zones.known row.timezone = true
  windows : ∀ w ∈ row.windows,
    w.startTime < w.endTime ∧ w.endTime ≤ t + days Availability.availabilityHorizonDays

/-- The interview can be put on a grid. -/
def Lasting (row : InterviewRequest) : Prop := 0 < row.durationMinutes ∧ 0 ≤ row.bufferMinutes

/-- **The tables are fit for the engine.** -/
structure Furnished (zones : ZoneDatabase) (t : Instant) (T : Interviews) : Prop where
  users : ∀ u user, T.users u = some user → Registrable zones user.timezone
  rows : ∀ r row, T.requests r = some row → Lasting row
  availability : ∀ row ∈ T.availability, Offered zones t row
  slots : ∀ run ∈ T.runs, ∀ slot ∈ run.slots, slot.startTime < slot.endTime
  events : EventsProper T

/-- The write keeps the tables fit. -/
def Supplies (zones : ZoneDatabase) (t : Instant) : Write → Prop
  | .insertRequest row _ => Lasting row
  | .setDetails _ _ d b => (∀ n, d = .value n → 0 < n) ∧ ∀ n, b = .value n → 0 ≤ n
  | .insertAvailability row => Offered zones t row
  | .insertRun run => ∀ slot ∈ run.slots, slot.startTime < slot.endTime
  | .insertEvent e => e.startTime < e.endTime
  | _ => True

theorem Offered.later {row : CandidateAvailability} (h : Offered zones t row) (ht : t ≤ t') :
    Offered zones t' row := by
  refine ⟨h.zone, fun w hw => ?_⟩
  obtain ⟨hlt, hle⟩ := h.windows w hw
  exact ⟨hlt, by lia⟩

theorem Furnished.later (h : Furnished zones t T) (ht : t ≤ t') : Furnished zones t' T :=
  ⟨h.users, h.rows, fun row hrow => (h.availability row hrow).later ht, h.slots, h.events⟩

theorem Supplies.later {y : Write} (h : Supplies zones t y) (ht : t ≤ t') : Supplies zones t' y := by
  cases y with
  | insertAvailability row => exact Offered.later h ht
  | _ => exact h

/-- One request changes, and stays as it must. -/
theorem Furnished.modifyRequest (h : Furnished zones t T) {r : Id}
    {f : InterviewRequest → InterviewRequest} (hf : ∀ row, Lasting row → Lasting (f row)) :
    Furnished zones t (T.modifyRequest r f) := by
  refine ⟨h.users, fun x row hrow => ?_, h.availability, h.slots, h.events⟩
  rw [Interviews.modifyRequest_requests] at hrow
  split_ifs at hrow with hx
  · obtain ⟨row₀, hrow₀, rfl⟩ := Option.map_eq_some_iff.mp hrow
    exact hf row₀ (h.rows r row₀ hrow₀)
  · exact h.rows x row hrow

/-- **A write that supplies what is needed keeps the tables fit.** -/
theorem Furnished.apply (h : Furnished zones t T) {y : Write} (hy : Supplies zones t y) :
    Furnished zones t (y.apply T) := by
  cases y with
  | insertRequest row ps =>
    refine ⟨h.users, fun x row' hrow' => ?_, h.availability, h.slots, h.events⟩
    simp only [Write.apply, Function.update_apply] at hrow'
    split_ifs at hrow' with hx
    · obtain rfl := Option.some.inj hrow'
      exact hy
    · exact h.rows x row' hrow'
  | setStatus r st => exact h.modifyRequest fun row hrow => hrow
  | setOutcome r o notes => exact h.modifyRequest fun row hrow => hrow
  | setDetails r rt d b =>
    refine h.modifyRequest fun row hrow => ⟨?_, ?_⟩
    · cases d with
      | value n => exact hy.1 n rfl
      | _ => exact hrow.1
    · cases b with
      | value n => exact hy.2 n rfl
      | _ => exact hrow.2
  | replacePanelists r ids => exact ⟨h.users, h.rows, h.availability, h.slots, h.events⟩
  | insertAvailability row =>
    refine ⟨h.users, h.rows, fun row' hrow' => ?_, h.slots, h.events⟩
    rcases List.mem_append.mp hrow' with hrow' | hrow'
    · exact h.availability row' hrow'
    · obtain rfl := List.mem_singleton.mp hrow'
      exact hy
  | insertRun run =>
    refine ⟨h.users, h.rows, h.availability, fun run' hrun' => ?_, h.events⟩
    rcases List.mem_append.mp hrun' with hrun' | hrun'
    · exact h.slots run' hrun'
    · obtain rfl := List.mem_singleton.mp hrun'
      exact hy
  | selectSlot slotId =>
    refine ⟨h.users, h.rows, h.availability, fun run' hrun' slot hslot => ?_, h.events⟩
    obtain ⟨run, hrun, rfl⟩ := List.mem_map.mp hrun'
    obtain ⟨slot', hslot', -, hstart, hend, -⟩ := Lifecycle.mem_select_slots hslot
    rw [hstart, hend]
    exact h.slots run hrun slot' hslot'
  | insertEvent e =>
    refine ⟨h.users, h.rows, h.availability, h.slots, fun e' he' => ?_⟩
    rcases List.mem_append.mp he' with he' | he'
    · exact h.events e' he'
    · obtain rfl := List.mem_singleton.mp he'
      exact hy
  | cancelEvent i =>
    refine ⟨h.users, h.rows, h.availability, h.slots, fun e' he' => ?_⟩
    obtain ⟨e, he, rfl⟩ := List.mem_map.mp he'
    rw [(Lifecycle.cancel_times e i).1, (Lifecycle.cancel_times e i).2]
    exact h.events e he

/-- The slots of a run that the engine has filled end after they start. -/
theorem supplies_of_computed {inp : EngineInput} {result : EngineResult} {run : RecommendationRun}
    (h : generateRecommendations zones inp = .ok result)
    (hslots : List.Forall₂ RowOf result.slots run.slots) : Supplies zones t (.insertRun run) := by
  intro slot hslot
  obtain ⟨s, hs, hrow⟩ := Util.forall₂_exists_left hslots hslot
  rw [hrow.startTime, hrow.endTime]
  exact Scheduling.slot_proper h hs

/-- What most calls write is fit at any time. -/
theorem supplies_of_writes {pf : Platform} {call : Call} {y : Write} (h : call.Writes pf y)
    (hsubmit : ∀ u r data, call ≠ .submit u r data) (hbook : ∀ u r slotId, call ≠ .book u r slotId) :
    Supplies pf.zones t y := by
  cases y with
  | insertRequest row ps =>
    have hfounded : Founded row ps := h
    exact ⟨hfounded.duration_pos, hfounded.buffer_nonneg⟩
  | setDetails r rt d b => exact h
  | insertAvailability row =>
    obtain ⟨u, r, data, rfl⟩ := h
    exact absurd rfl (hsubmit u r data)
  | insertRun run =>
    have hproduced : Produced pf run := h
    obtain ⟨_, _, _, _, _, _, result, -, hresult, hslots⟩ := hproduced.computed
    exact supplies_of_computed hresult hslots
  | insertEvent e =>
    obtain ⟨u, r, slotId, rfl⟩ := h
    exact absurd rfl (hbook u r slotId)
  | _ => trivial

/-! ### The input -/

section Input

variable {request : InterviewRequest} {avail : CandidateAvailability} {panelists : Parts} {ref : Instant}
  {busyByUser : List (Id × List BusyInterval)} {internal : List (Id × Instant × Instant)}

/-- A window that is left is not empty, has not begun, and is as near as it was offered. -/
theorem windowOk_of_clip (havail : Offered zones t avail) (ht : t ≤ ref) {w : AvailabilityWindow}
    (hw : w ∈ Scheduling.clipWindows ref avail.windows) :
    WindowOk ref (ref + days Availability.availabilityHorizonDays)
      ⟨.aware w.startTime, .aware w.endTime⟩ := by
  obtain ⟨v, hv, rfl⟩ := List.mem_map.mp hw
  obtain ⟨hv, hleft⟩ := List.mem_filter.mp hv
  have hleft : ref < v.endTime := of_decide_eq_true hleft
  obtain ⟨hlt, hle⟩ := havail.windows v hv
  exact ⟨_, _, rfl, rfl, max_lt hlt hleft, le_max_right _ _, by lia⟩

/-- The busy blocks of a panelist are those of the calendar and those of the other interviews. -/
theorem busyOk_withInternal (hbusy : ∀ x ∈ busyByUser, ∀ b ∈ x.2, BusyOk b)
    (hinternal : ∀ x ∈ internal, x.2.1 < x.2.2) {u : Id} {b : BusyInterval}
    (hb : b ∈ Scheduling.withInternal busyByUser internal u) : BusyOk b := by
  rcases List.mem_append.mp hb with hb | hb
  · cases hfound : busyByUser.find? fun x => x.1 = u with
    | none => simp [hfound] at hb
    | some x =>
      simp only [hfound, Option.map_some, Option.getD_some] at hb
      exact hbusy x (List.mem_of_find?_eq_some hfound) b hb
  · obtain ⟨x, hx, rfl⟩ := List.mem_map.mp hb
    exact ⟨_, _, rfl, rfl, hinternal x (List.mem_filter.mp hx).1⟩

/-- **The input is accepted** when its pieces are fit. -/
theorem accepted_input (hutc : zones.known "UTC" = true) (hrequest : Lasting request)
    (havail : Offered zones t avail) (ht : t ≤ ref)
    (hzones : ∀ p ∈ panelists, Registrable zones p.2.timezone) (hne : panelists ≠ [])
    (hwindows : Scheduling.clipWindows ref avail.windows ≠ [])
    (hbusy : ∀ x ∈ busyByUser, ∀ b ∈ x.2, BusyOk b) (hinternal : ∀ x ∈ internal, x.2.1 < x.2.2) :
    Accepted zones (Scheduling.engineInput request avail panelists ref
      (Scheduling.clipWindows ref avail.windows) (Scheduling.withInternal busyByUser internal)) where
  duration_pos := hrequest.1
  buffer_nonneg := hrequest.2
  step_pos := by
    change (0 : ℤ) < 15
    omega
  topN_pos := by
    change (0 : ℤ) < 3
    omega
  proximity_pos := by
    change (0 : ℤ) < 14
    omega
  one_candidate := by
    simp only [Scheduling.engineInput, List.filter_cons_of_pos, List.filter_map, List.length_cons]
    simp
  some_panelist := by
    obtain ⟨p, hp⟩ := List.exists_mem_of_ne_nil panelists hne
    refine List.ne_nil_of_mem (List.mem_filter.mpr ⟨List.mem_cons_of_mem _
      (List.mem_map.mpr ⟨p, hp, rfl⟩), rfl⟩)
  zones p hp := by
    rcases List.mem_cons.mp hp with rfl | hp
    · exact havail.zone
    · obtain ⟨q, hq, rfl⟩ := List.mem_map.mp hp
      dsimp only
      split_ifs with hempty
      · exact hutc
      · rcases hzones q hq with hknown | hdefault
        · exact hknown
        · rw [hdefault]
          exact hutc
  busy p hp b hb := by
    rcases List.mem_cons.mp hp with rfl | hp
    · simp at hb
    · obtain ⟨q, hq, rfl⟩ := List.mem_map.mp hp
      exact busyOk_withInternal hbusy hinternal hb
  some_window := by
    simpa [Scheduling.engineInput] using hwindows
  windows := by
    refine ⟨ref, rfl, fun w hw => ?_⟩
    obtain ⟨v, hv, rfl⟩ := List.mem_map.mp hw
    exact windowOk_of_clip havail ht hv

end Input

/-- The interviews of the panel are busy blocks in order. -/
theorem Furnished.confirmedFor (h : Furnished zones t T) {users : List Id} {r : Id} {a b : Instant}
    {x : Id × Instant × Instant} (hx : x ∈ Booking.confirmedFor T users r a b) : x.2.1 < x.2.2 := by
  obtain ⟨e, he, hx⟩ := List.mem_flatMap.mp hx
  split_ifs at hx with hc
  · obtain ⟨p, -, rfl⟩ := List.mem_map.mp hx
    exact h.events e he
  · simp at hx

/-- The users of a panel are registered. -/
theorem Furnished.partsOf (h : Furnished zones t T) {r : Id} {p : Part} (hp : p ∈ Booking.partsOf T r) :
    Registrable zones p.2.timezone := by
  obtain ⟨q, hq, hjoin⟩ := List.mem_filterMap.mp hp
  obtain ⟨user, huser, rfl⟩ := Option.map_eq_some_iff.mp hjoin
  exact h.users q.userId user huser

end InterviewScheduler.Interviews
