import InterviewScheduler.Interviews.Footprint
import InterviewScheduler.Interviews.Routes
import InterviewScheduler.Lifecycle.Selected
import InterviewScheduler.System.Lifecycle
import InterviewScheduler.System.Timeline

/-! # What is booked

After every sequence of operations a request that is BOOKED or COMPLETED has a CONFIRMED event, at the
time of the one slot that is selected in its latest run. So a no-show is recorded against the start of
an event, and not before the grace period has passed. -/

namespace InterviewScheduler.System

open InterviewScheduler.Engine InterviewScheduler.Core InterviewScheduler.Effects
open InterviewScheduler.Lifecycle InterviewScheduler.Interviews
open InterviewScheduler.Booking (latestRun_eq_some)
open Prog

variable {pf : Platform} {C : Condition Effect Choice Session World} {admits : Call → World → Prop}
  {P : Interviews → Id → Prop} {s s' : Session} {w₀ w w' : World}

/-! ### The selected slot -/

/-- The requests are settled, and the runs that are pending have no selected slot. -/
structure Settling (s : Session) (w : World) : Prop extends Clocked s w where
  wellFormed : WellFormed w.db.toInterviews
  settled : Settled w.db.toInterviews
  unselected : ∀ run, .insertRun run ∈ s.pending → run.Unselected

theorem settled_empty {users : Id → Option User} : Settled { users } where
  distinct _ hrun := by simp at hrun
  fresh _ _ hrow := by simp at hrow
  held _ _ hrow := by simp at hrow

theorem Initial.settling (h : Initial w) : Settling {} w where
  toClocked := h.clocked
  wellFormed := h.wellFormed
  settled := by rw [h.tables]; exact settled_empty
  unselected _ hrun := by simp at hrun

/-- **Every step keeps the requests settled.** -/
theorem Settling.step {creates : Prop} {D : Session → Interviews → Prop} {β : Type} {o : Effect β}
    {c : Choice} {x : Except Exc β} (h : Settling s w) (hduty : Duty creates D o s w.db.toInterviews)
    (hfresh : StoresFresh β o) (hD : D s w.db.toInterviews → Legal P w.db.toInterviews s.pending)
    (hex : machine.exec o c s w = some (x, s', w')) : Settling s' w' := by
  have hclocked := h.toClocked.step hduty hD hex
  have hunselected : ∀ run, .insertRun run ∈ s'.pending → run.Unselected := by
    intro run hrun
    rcases pending_of_exec hex _ hrun with hrun | hrun
    · exact h.unselected run hrun
    · exact hfresh.of_staged hrun
  rcases respond_cases hex with ⟨hc, -, T, happ, rfl, rfl⟩ | ⟨-, hdb, -⟩
  · have htables := (w.elapse c).commit_toInterviews s T
    have hlegal : Legal P w.db.toInterviews s.pending := by
      cases o with
      | commit => exact hD hduty
      | _ => exact hc.elim
    have htimely := hclocked.timely
    refine ⟨hclocked, ?_, ?_, hunselected⟩
    · rw [htables]
      exact h.wellFormed.applyAll happ
    · rw [htables] at htimely ⊢
      exact hlegal.settled h.wellFormed happ h.unselected htimely h.settled
  · refine ⟨hclocked, ?_, ?_, hunselected⟩
    · rw [hdb]
      exact h.wellFormed
    · rw [hdb]
      exact h.settled

theorem Settling.call (h : Settling {} w) {call : Call} {x : Except Exc Response}
    (hr : Runs machine C (handle pf call) {} w x s' w') : Settling {} w' := by
  have hp : wp (lifecycle True (fun _ _ => True) fun _ _ => True) (handle pf call) Closes
      ({}, w.db.toInterviews) :=
    closes_handle (fun _ _ _ => trivial) (fun h => absurd trivial h) fun _ _ _ _ _ _ => trivial
  obtain ⟨-, hI⟩ := Runs.sound
    (faithful_alone _ _ fun β o c s w => C β o c s w ∧ StoresFresh β o) (I := Settling)
    (fun o c s w x s' w' v hI hv hduty hC hex => by
      subst hv
      exact hI.step hduty hC.2 (fun hD => hD.legal trivial hI.wellFormed) hex)
    (hr.of_uses (storesFresh_handle call)) rfl hp h
  exact ⟨hI.toClocked.rest, hI.wellFormed, hI.settled, by simp⟩

theorem settling_of_reaches (h₀ : Initial w₀) (h : Reaches pf C admits w₀ w) : Settling {} w := by
  induction h with
  | init => exact h₀.settling
  | call _ _ hr ih => exact ih.call hr

/-- **A booked interview has its slot.** In the latest run of a request that is BOOKED or COMPLETED
exactly one slot is selected, and the CONFIRMED event of the request takes its time. -/
theorem selected_of_reaches (h₀ : Initial w₀) (h : Reaches pf C admits w₀ w) {r : Id}
    {row : InterviewRequest} (hrow : w.db.requests r = some row)
    (hst : row.status = .booked ∨ row.status = .completed) :
    ∃ run slot, (∀ pick, latestRun pick w.db.toInterviews r = some run) ∧
      run.slots.filter (·.isSelected) = [slot] ∧ (∃ e ∈ w.db.events, e.ConfirmedFor r) ∧
      ∀ e ∈ w.db.events, e.ConfirmedFor r → slot.startTime = e.startTime ∧ slot.endTime = e.endTime := by
  have hsettling := settling_of_reaches h₀ h
  obtain ⟨run, slot, e, hsel⟩ := hsettling.settled.held r row hrow hst
  refine ⟨run, slot, fun pick => latestRun_eq_some hsettling.timely hsel.latest hsel.request pick,
    hsel.selected, ⟨e, hsel.event, hsel.confirmed⟩, fun e' he' hc' => ?_⟩
  obtain rfl := hsettling.wellFormed.one_confirmed r e' he' e hsel.event hc' hsel.confirmed
  exact ⟨hsel.start, hsel.stop⟩

/-- An interview that took place. -/
theorem selected_of_reaches_sample : ∃ (w : World) (run : RecommendationRun) (slot : RecommendedSlot),
    w.status 10 = some .completed ∧
      (∀ pick, latestRun pick w.db.toInterviews 10 = some run) ∧
      run.slots.filter (·.isSelected) = [slot] ∧ (∃ e ∈ w.db.events, e.ConfirmedFor 10) ∧
      ∀ e ∈ w.db.events, e.ConfirmedFor 10 → slot.startTime = e.startTime ∧ slot.endTime = e.endTime := by
  obtain ⟨w, hw, hp⟩ := reaches_sample (sampleBooked 10 540 ++ [sampleOutcome 10])
    (p := fun w => w.status 10 = some .completed) (by decide +kernel)
  have hst := of_decide_eq_true hp
  obtain ⟨row, hrow, hcompleted⟩ := status_eq_some.mp hst
  obtain ⟨run, slot, hall⟩ := selected_of_reaches initial_sampleWorld hw hrow (.inr hcompleted)
  exact ⟨w, run, slot, hst, hall⟩

/-! ### No-shows -/

/-- What is demanded of the effects that record a no-show: the lookup finds the event, and the grace
period has passed at the commit. -/
def GraceKept (pf : Platform) (r : Id) : Demand Effect Session World := fun _ o _ w =>
  match o with
  | .confirmedEvent _ => Confirmed w.db.toInterviews r
  | .commit => ∃ e ∈ w.db.events, e.ConfirmedFor r ∧
      e.startTime + minutes pf.interviewNoShowGraceMinutes ≤ w.now
  | _ => True

theorem lenient_graceKept {r : Id} : Lenient (GraceKept pf r) := by
  intro β o s w ho
  cases o <;> trivial

/-- **A no-show waits for the grace period**, when a request that is BOOKED or COMPLETED has an event. -/
theorem graceKept_recordOutcome {T : Interviews} {t : Instant} {actor : User} {r : Id}
    {notes : Option (Text 2000)} (h : Looks T t s w) (hH : Held T) :
    wp (demanding C (GraceKept pf r)) (recordOutcome pf actor r .noShow notes) (fun _ _ => True)
      (s, w) := by
  have hD : Lenient (GraceKept pf r) := lenient_graceKept
  refine wp_bind_looking (looking_load hD h) (fun _ _ _ _ => trivial) fun row s₁ w₁ h₁ hrow => ?_
  refine wp_bind_looking (looking_raiseIf h₁) (fun _ _ _ _ => trivial) fun _ s₂ w₂ h₂ hst => ?_
  have hbooked : row.status = .booked ∨ row.status = .completed := by
    by_contra hnot
    exact hst (not_or.mp hnot)
  have hconf : Confirmed T r := hH r row hrow hbooked
  have hgrace : wp (demanding C (GraceKept pf r)) (checkGrace pf r .noShow)
      (fun x v => ∀ u, x = .ok u → ∃ e ∈ T.events, e.ConfirmedFor r ∧
        Looks T (e.startTime + minutes pf.interviewNoShowGraceMinutes) v.1 v.2) (s₂, w₂) := by
    have hconf₂ : Confirmed w₂.db.toInterviews r := by
      rw [h₂.tables]
      exact hconf
    unfold checkGrace
    rw [if_pos rfl]
    refine wp_bind_looking (looking_effect h₂ rfl hconf₂) (fun _ _ _ _ u hu => ?_)
      fun event s₃ w₃ h₃ hevent => ?_
    · simp at hu
    · obtain rfl : event = T.events.find? fun e => e.ConfirmedFor r := hevent
      cases hfind : T.events.find? fun e => e.ConfirmedFor r with
      | none =>
        -- the lookup finds the event
        obtain ⟨e, he, hc⟩ := hconf
        exact absurd hc (by simpa using List.find?_eq_none.mp hfind e he)
      | some e =>
        refine wp_bind (wp_looks_now h₃ trivial fun t' s₄ w₄ h₄ => ?_)
        refine wp_raiseIf (fun _ u hu => by simp at hu) fun hlt u _ => ?_
        exact ⟨e, List.mem_of_find?_eq_some hfind, by simpa using List.find?_some hfind,
          h₄.later ((not_lt.mp hlt).trans h₄.now)⟩
  refine wp_bind (wp_mono hgrace ?_)
  rintro (e | u) ⟨s₃, w₃⟩ h₃
  · trivial
  obtain ⟨e, he, hc, h₃⟩ := h₃ u rfl
  refine wp_bind_lasts h₃.lasts trivial (fun _ _ _ _ => trivial) fun _ s₄ w₄ h₄ => ?_
  refine wp_bind_lasts h₄ trivial (fun _ _ _ _ => trivial) fun _ s₅ w₅ h₅ => ?_
  refine wp_bind (wp_bind_lasts h₅ trivial (fun _ _ _ _ => trivial) fun _ s₆ w₆ h₆ =>
    wp_lasts h₆ trivial fun x s₇ w₇ h₇ => ?_)
  cases x with
  | error e => trivial
  | ok u =>
    have hcommit : ∃ e ∈ w₇.db.events, e.ConfirmedFor r ∧
        e.startTime + minutes pf.interviewNoShowGraceMinutes ≤ w₇.now := by
      refine ⟨e, ?_, hc, h₇.now⟩
      have hevents : w₇.db.events = T.events := by rw [← h₇.tables]
      rw [hevents]
      exact he
    refine wp_bind (wp_follow hcommit fun _ x s₈ w₈ _ _ => ?_)
    cases x with
    | error e => trivial
    | ok u =>
      -- what follows the commit reads only
      have hrest : (getWithParticipants r >>= fun stored =>
          Prog.orRaise stored (.builtin "AttributeError") : M InterviewRequestOut).Uses
            (fun _ o => o.plain = true) := by
        refine uses_bind (uses_bind (uses_perform rfl) fun request => ?_) fun _ => uses_orRaise
        cases request with
        | none => exact uses_pure
        | some row => exact uses_bind (uses_perform rfl) fun _ => uses_pure
      exact wp_follow_free hrest fun o s w ho => hD o s w ho

/-- A request that is BOOKED or COMPLETED holds a CONFIRMED event. -/
theorem held_of_reaches (h₀ : Initial w₀) (h : Reaches pf C admits w₀ w) : Held w.db.toInterviews := by
  intro x row hrow hst
  obtain ⟨run, slot, e, hsel⟩ := (settling_of_reaches h₀ h).settled.held x row hrow hst
  exact ⟨e, hsel.event, hsel.confirmed⟩

theorem graceKept_handle {userId r : Id} {notes : Option (Text 2000)} (hH : Held w.db.toInterviews) :
    wp (demanding C (GraceKept pf r)) (handle pf (.recordOutcome userId r .noShow notes))
      (fun _ _ => True) ({}, w) :=
  wp_roleRoute lenient_graceKept (looks_empty w) (fun _ _ _ _ => trivial)
    fun _ _ _ h₁ _ _ => wp_map (graceKept_recordOutcome h₁ hH)

/-- **No no-show is recorded early.** When the outcome NO_SHOW of a request is recorded, the lookup of
its CONFIRMED event finds one, and the commit comes no earlier than the grace period after its start. -/
theorem noShow_of_reaches (h₀ : Initial w₀) (h : Reaches pf C admits w₀ w) {userId r : Id}
    {notes : Option (Text 2000)} :
    (∀ k s w', Goes machine C (handle pf (.recordOutcome userId r .noShow notes)) {} w
      (.op (.confirmedEvent r) k) s w' → ∃ e ∈ w'.db.events, e.ConfirmedFor r) ∧
    ∀ k s w' c s'' w'', Goes machine C (handle pf (.recordOutcome userId r .noShow notes)) {} w
      (.op .commit k) s w' → machine.exec .commit c s w' = some (.ok (), s'', w'') →
        ∃ e ∈ w'.db.events, e.ConfirmedFor r ∧
          e.startTime + minutes pf.interviewNoShowGraceMinutes ≤ w''.now := by
  have hwp : wp (demanding C (GraceKept pf r)) (handle pf (.recordOutcome userId r .noShow notes))
      (fun _ _ => True) ({}, w) := graceKept_handle (held_of_reaches h₀ h)
  refine ⟨fun k s w' hgo => hgo.meets hwp, fun k s w' c s'' w'' hgo hex => ?_⟩
  obtain ⟨e, he, hc, hgrace⟩ := hgo.meets hwp
  exact ⟨e, he, hc, hgrace.trans (now_of_exec hex).le⟩

/-- What is left of the call begins with a commit, which succeeds. -/
def commitsNow (x : M Response × Session × World) : Bool :=
  match x.1 with
  | .op .commit _ => (machine.exec .commit {} x.2.1 x.2.2).any fun y => y.1.isOk
  | _ => false

theorem of_commitsNow {p : M Response} (h : commitsNow (p, s, w)) :
    ∃ k s' w', p = .op .commit k ∧ machine.exec .commit {} s w = some (.ok (), s', w') := by
  unfold commitsNow at h
  split at h
  · next k hk =>
    obtain ⟨⟨x, s', w'⟩, hex, hok⟩ := (Option.any_eq_true _ _).mp h
    cases x with
    | error e => simp [Except.isOk, Except.toBool] at hok
    | ok u => exact ⟨k, s', w', hk, hex⟩
  · simp at h

/-- A no-show, a day after the interview. -/
theorem noShow_of_reaches_sample : ∃ (w w' w'' : World) (k : Except Exc Unit → M Response)
    (s s'' : Session), w.status 10 = some .booked ∧
      Goes machine Any (handle samplePlatform (.recordOutcome 1 10 .noShow none)) {} w
        (.op .commit k) s w' ∧
      machine.exec .commit {} s w' = some (.ok (), s'', w'') ∧
      ∃ e ∈ w'.db.events, e.ConfirmedFor 10 ∧ e.startTime + minutes 15 ≤ w''.now := by
  obtain ⟨w, hw, hp⟩ := reaches_sample (sampleBooked 10 540)
    (p := fun w => w.status 10 = some .booked ∧ (machine.go (fun _ _ _ _ _ => true)
      (handle samplePlatform (.recordOutcome 1 10 .noShow none))
      ([{ elapsed := 100000000000 }] ++ answered 7) {} w).any commitsNow) (by decide +kernel)
  obtain ⟨hst, hgo⟩ := of_decide_eq_true hp
  obtain ⟨⟨p, s, w'⟩, hgo, hnext⟩ := (Option.any_eq_true _ _).mp hgo
  obtain ⟨k, s'', w'', rfl, hex⟩ := of_commitsNow hnext
  have hgoes : Goes machine Any _ {} w _ s w' := (goes_of_go hgo).mono fun _ _ _ _ _ => trivial
  exact ⟨w, w', w'', k, s, s'', hst, hgoes, hex,
    (noShow_of_reaches initial_sampleWorld hw).2 k s w' {} s'' w'' hgoes hex⟩

end InterviewScheduler.System
