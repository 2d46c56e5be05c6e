import InterviewScheduler.Python.Json
import InterviewScheduler.Scheduling.Spec

/-! # The snapshot as a document

`input_snapshot` is a JSON document, with the instants as ISO strings. It leaves out the working hours,
the horizon and the bookings, which are the same for every run. Decoded, with these filled in, it is the
input that the engine was run on (`decode_document`). -/

namespace InterviewScheduler.Scheduling

open InterviewScheduler.Engine InterviewScheduler.Core InterviewScheduler.Python
open InterviewScheduler.Booking (Part Parts)

/-! ### The document -/

section Document

variable (isoformat : DateTime → String)

def participantDocument (p : Participant) : Json :=
  .object
    [("participant_id", .str p.participantId), ("timezone", .str p.timezone),
      ("is_candidate", .bool p.isCandidate),
      ("busy", .array (p.busy.map fun b =>
        .object [("start", .str (isoformat b.start)), ("end", .str (isoformat b.stop))]))]

/-- What `_snapshot` returns, with the key `simulated_calendar`. -/
def document (snap : InputSnapshot) : Json :=
  .object
    [("reference_time", .str (isoformat snap.referenceTime)),
      ("constraints", .object
        [("duration_minutes", .int snap.durationMinutes), ("buffer_minutes", .int snap.bufferMinutes),
          ("proximity_horizon_days", .int snap.proximityHorizonDays),
          ("slot_step_minutes", .int snap.slotStepMinutes), ("top_n", .int snap.topN)]),
      ("weights", .object
        [("timezone_fairness", .float (.finite snap.weights.timezoneFairness)),
          ("working_hours_comfort", .float (.finite snap.weights.workingHoursComfort)),
          ("scheduling_proximity", .float (.finite snap.weights.schedulingProximity)),
          ("workload_balance", .float (.finite snap.weights.workloadBalance)),
          ("buffer_quality", .float (.finite snap.weights.bufferQuality))]),
      ("participants", .array (snap.participants.map (participantDocument isoformat))),
      ("candidate_windows", .array (snap.candidateWindows.map fun w =>
        .object [("start", .str (isoformat w.start)), ("end", .str (isoformat w.stop))])),
      ("simulated_calendar", .bool snap.simulatedCalendar)]

end Document

/-! ### Decoding -/

section Decode

variable (fromisoformat : String → Option DateTime)

/-- A string at a key. -/
def stringAt (x : Json) (key : String) : Py String := do
  match ← x.item key with
  | .str s => .ok s
  | _ => .error .typeError

def intAt (x : Json) (key : String) : Py ℤ := do
  match ← x.item key with
  | .int n => .ok n
  | _ => .error .typeError

def boolAt (x : Json) (key : String) : Py Bool := do
  match ← x.item key with
  | .bool b => .ok b
  | _ => .error .typeError

/-- A number at a key; a whole one may have been stored as an integer. -/
def numberAt (x : Json) (key : String) : Py ℚ := do
  match ← x.item key with
  | .int n => .ok n
  | .float (.finite q) => .ok q
  | _ => .error .typeError

/-- The items of the array at a key, each decoded. -/
def arrayAt {α : Type} (decode : Json → Py α) (x : Json) (key : String) : Py (List α) := do
  match ← x.item key with
  | .array items => items.mapM decode
  | _ => .error .typeError

def timeAt (x : Json) (key : String) : Py DateTime := do
  let s ← stringAt x key
  match fromisoformat s with
  | some t => .ok t
  | none => .error .valueError

def decodeBusy (x : Json) : Py BusyInterval := do
  let start ← timeAt fromisoformat x "start"
  let stop ← timeAt fromisoformat x "end"
  pure ⟨start, stop⟩

def decodeParticipant (x : Json) : Py Participant := do
  let participantId ← stringAt x "participant_id"
  let timezone ← stringAt x "timezone"
  let isCandidate ← boolAt x "is_candidate"
  let busy ← arrayAt (decodeBusy fromisoformat) x "busy"
  pure { participantId, timezone, isCandidate, busy }

def decodeWindow (x : Json) : Py CandidateWindow := do
  let start ← timeAt fromisoformat x "start"
  let stop ← timeAt fromisoformat x "end"
  pure ⟨start, stop⟩

def decodeWeights (x : Json) : Py ScoringWeights := do
  let timezoneFairness ← numberAt x "timezone_fairness"
  let workingHoursComfort ← numberAt x "working_hours_comfort"
  let schedulingProximity ← numberAt x "scheduling_proximity"
  let workloadBalance ← numberAt x "workload_balance"
  let bufferQuality ← numberAt x "buffer_quality"
  pure { timezoneFairness, workingHoursComfort, schedulingProximity, workloadBalance, bufferQuality }

/-- The constraints, with the availability window of the module and the default horizon. -/
def decodeConstraints (x : Json) : Py SchedulingConstraints := do
  let durationMinutes ← intAt x "duration_minutes"
  let bufferMinutes ← intAt x "buffer_minutes"
  let proximityHorizonDays ← intAt x "proximity_horizon_days"
  let slotStepMinutes ← intAt x "slot_step_minutes"
  let topN ← intAt x "top_n"
  pure { durationMinutes, bufferMinutes, proximityHorizonDays, slotStepMinutes, topN
         workingHours := availabilityWindow }

/-- The input of a snapshot, without bookings. -/
def decode (x : Json) : Py EngineInput := do
  let referenceTime ← timeAt fromisoformat x "reference_time"
  let participants ← arrayAt (decodeParticipant fromisoformat) x "participants"
  let candidateWindows ← arrayAt (decodeWindow fromisoformat) x "candidate_windows"
  let constraints ← decodeConstraints (← x.item "constraints")
  let weights ← decodeWeights (← x.item "weights")
  pure { referenceTime, participants, candidateWindows, constraints, weights }

end Decode

/-! ### Back and forth -/

section RoundTrip

variable {isoformat : DateTime → String} {fromisoformat : String → Option DateTime}
  (hiso : ∀ t, fromisoformat (isoformat (.aware t)) = some (.aware t))

theorem mapM_map_ok {α : Type} {encode : α → Json} {decode : Json → Py α} {l : List α}
    (h : ∀ a ∈ l, decode (encode a) = .ok a) : (l.map encode).mapM decode = .ok l := by
  induction l with
  | nil => rfl
  | cons a l ih =>
    have hrest := ih fun b hb => h b (List.mem_cons_of_mem _ hb)
    rw [List.map_cons, List.mapM_cons, h a List.mem_cons_self, hrest]
    rfl

theorem arrayAt_ok {α : Type} {encode : α → Json} {decode : Json → Py α} {l : List α} {x : Json}
    {key : String} (hx : x.item key = .ok (.array (l.map encode)))
    (h : ∀ a ∈ l, decode (encode a) = .ok a) : arrayAt decode x key = .ok l := by
  unfold arrayAt
  rw [hx]
  exact mapM_map_ok h

include hiso

/-- An aware datetime at a key is read back. -/
theorem timeAt_ok {x : Json} {key : String} {d : DateTime} {t : Instant}
    (hx : x.item key = .ok (.str (isoformat d))) (hd : d = .aware t) :
    timeAt fromisoformat x key = .ok d := by
  unfold timeAt stringAt
  rw [hx]
  show (match fromisoformat (isoformat d) with | some t => _ | none => _) = _
  rw [hd, hiso]

theorem decodeBusy_document {b : BusyInterval} (hb : BusyOk b) :
    decodeBusy fromisoformat
      (.object [("start", .str (isoformat b.start)), ("end", .str (isoformat b.stop))]) = .ok b := by
  obtain ⟨s, e, hs, he, -⟩ := hb
  unfold decodeBusy
  rw [timeAt_ok hiso (d := b.start) rfl hs, timeAt_ok hiso (d := b.stop) rfl he]
  rfl

theorem decodeWindow_document {w : CandidateWindow} {ref horizonEnd : Instant}
    (hw : WindowOk ref horizonEnd w) :
    decodeWindow fromisoformat
      (.object [("start", .str (isoformat w.start)), ("end", .str (isoformat w.stop))]) = .ok w := by
  obtain ⟨s, e, hs, he, -⟩ := hw
  unfold decodeWindow
  rw [timeAt_ok hiso (d := w.start) rfl hs, timeAt_ok hiso (d := w.stop) rfl he]
  rfl

theorem decodeParticipant_document {p : Participant} (hp : ∀ b ∈ p.busy, BusyOk b) :
    decodeParticipant fromisoformat (participantDocument isoformat p) = .ok p := by
  have hbusy : arrayAt (decodeBusy fromisoformat) (participantDocument isoformat p) "busy" =
      .ok p.busy := arrayAt_ok rfl fun b hb => decodeBusy_document hiso (hp b hb)
  unfold decodeParticipant
  rw [hbusy]
  rfl

/-- **Nothing that the engine reads is lost.** A snapshot of an input that the engine accepts, and that
has the working hours, the horizon and the bookings of the service, is decoded to that input. -/
theorem decode_document {zones : ZoneDatabase} {inp : EngineInput} {simulated : Bool}
    (h : Accepted zones inp) (hhours : inp.constraints.workingHours = availabilityWindow)
    (hhorizon : inp.constraints.horizonDays = 21) (hbookings : inp.existingBookings = fun _ => []) :
    decode fromisoformat (document isoformat (snapshot inp simulated)) = .ok inp := by
  obtain ⟨ref, href, hwindows⟩ := h.windows
  have htime : timeAt fromisoformat (document isoformat (snapshot inp simulated)) "reference_time" =
      .ok inp.referenceTime := timeAt_ok hiso (d := inp.referenceTime) rfl href
  have hparticipants : arrayAt (decodeParticipant fromisoformat)
      (document isoformat (snapshot inp simulated)) "participants" = .ok inp.participants :=
    arrayAt_ok rfl fun p hp => decodeParticipant_document hiso (h.busy p hp)
  have hcandidate : arrayAt (decodeWindow fromisoformat)
      (document isoformat (snapshot inp simulated)) "candidate_windows" = .ok inp.candidateWindows :=
    arrayAt_ok rfl fun w hw => decodeWindow_document hiso (hwindows w hw)
  have hconstraints : inp.constraints =
      { durationMinutes := inp.constraints.durationMinutes
        bufferMinutes := inp.constraints.bufferMinutes
        proximityHorizonDays := inp.constraints.proximityHorizonDays
        slotStepMinutes := inp.constraints.slotStepMinutes
        topN := inp.constraints.topN
        workingHours := availabilityWindow } := by
    rw [← hhours, ← hhorizon]
  unfold decode
  rw [htime, hparticipants, hcandidate]
  show Except.ok (EngineInput.mk inp.referenceTime inp.participants inp.candidateWindows _
    (fun _ => []) inp.weights) = _
  rw [← hbookings]
  exact congrArg (fun c => Except.ok (EngineInput.mk inp.referenceTime inp.participants
    inp.candidateWindows c inp.existingBookings inp.weights)) hconstraints.symm

end RoundTrip

/-! ### Running the engine again -/

/-- The persisted slots are those that the engine returns for the decoded snapshot. -/
def Reproduces (pf : Platform) (isoformat : DateTime → String)
    (fromisoformat : String → Option DateTime) (run : RecommendationRun) : Prop :=
  ∃ inp result, decode fromisoformat (document isoformat run.inputSnapshot) = .ok inp ∧
    generateRecommendations pf.zones inp = .ok result ∧ List.Forall₂ RowOf result.slots run.slots

/-- What the engine has computed can be computed again from the snapshot. -/
theorem Computed.reproduces {pf : Platform} {run : RecommendationRun} {isoformat : DateTime → String}
    {fromisoformat : String → Option DateTime}
    (hiso : ∀ t, fromisoformat (isoformat (.aware t)) = some (.aware t)) (h : Computed pf run) :
    Reproduces pf isoformat fromisoformat run := by
  obtain ⟨request, avail, panelists, ref, windows, busyOf, result, hsnap, hresult, hslots⟩ := h
  refine ⟨_, result, ?_, hresult, hslots⟩
  rw [hsnap]
  exact decode_document hiso (generateRecommendations_eq_ok.mp hresult).1 rfl rfl rfl

/-- A slot that is selected is still the one of the engine. -/
theorem Computed.select {pf : Platform} {run : RecommendationRun} (h : Computed pf run) (id : Id) :
    Computed pf (run.select id) := by
  obtain ⟨request, avail, panelists, ref, windows, busyOf, result, hsnap, hresult, hslots⟩ := h
  refine ⟨request, avail, panelists, ref, windows, busyOf, result, hsnap, hresult, ?_⟩
  have hrow : ∀ slot row, RowOf slot row →
      RowOf slot (if row.id = id then { row with isSelected := true } else row) := by
    intro slot row hrow
    split_ifs
    · exact ⟨hrow.startTime, hrow.endTime, hrow.totalScore, hrow.scoreBreakdown, hrow.explanation,
        hrow.rank⟩
    · exact hrow
  exact List.forall₂_map_right_iff.mpr (hslots.imp fun slot row h => hrow slot row h)

end InterviewScheduler.Scheduling
