import InterviewScheduler.Interviews.Routes
import InterviewScheduler.Interviews.Warranting
import InterviewScheduler.System.Atomicity

/-! # Dead ends

No operation of an administrator or of a candidate accepts a request that is FAILED or RESCHEDULING,
but for the cancellation: the recommendations want READY_FOR_SCHEDULING, an edit and a submission
AWAITING_CANDIDATE_AVAILABILITY. So such a request is never RECOMMENDED again. -/

namespace InterviewScheduler.System

open InterviewScheduler.Engine InterviewScheduler.Core InterviewScheduler.Effects
open InterviewScheduler.Lifecycle InterviewScheduler.Interviews

variable {pf : Platform} {C C' : Condition Effect Choice Session World}
  {admits : Call → World → Prop} {T T' : Interviews} {s s' : Session} {w₀ w w' : World} {r : Id}

/-! ### The states -/

/-- The states that can be reached when the process may stop in the middle of any call. -/
inductive Halts (pf : Platform) (C : Condition Effect Choice Session World) (w₀ : World) : World → Prop
  | init : Halts pf C w₀ w₀
  | call {w w' : World} {call : Call} {p : M Response} {s' : Session} (h : Halts pf C w₀ w)
      (hgo : Goes machine C (handle pf call) {} w p s' w') : Halts pf C w₀ w'

theorem Reaches.halts (h : Reaches pf C admits w₀ w) : Halts pf C w₀ w := by
  induction h with
  | init => exact .init
  | call _ _ hr ih =>
    obtain ⟨p, hgo⟩ := hr.goes
    exact .call ih hgo

/-- Every step keeps the tables well formed. -/
theorem wellFormed_step {β : Type} {o : Effect β} {c : Choice} {x : Except Exc β}
    (hT : WellFormed w.db.toInterviews) (hex : machine.exec o c s w = some (x, s', w')) :
    WellFormed w'.db.toInterviews := by
  rcases respond_cases (w := w.elapse c) hex with ⟨-, -, T, happ, -, rfl⟩ | ⟨-, hdb, -⟩
  · rw [World.commit_toInterviews]
    exact hT.applyAll happ
  · rw [hdb]
    exact hT

theorem wellFormed_of_halts (h₀ : Initial w₀) (h : Halts pf C w₀ w) : WellFormed w.db.toInterviews := by
  induction h with
  | init => exact h₀.wellFormed
  | call _ hgo ih =>
    exact hgo.keeps (I := fun _ w => WellFormed w.db.toInterviews)
      (fun _ _ _ _ _ _ _ hT hex => wellFormed_step hT hex) ih

/-- The caller is an administrator or a candidate, if anyone. -/
def ByAdminOrCandidate (call : Call) (w : World) : Prop :=
  ∀ user ∈ w.db.users call.caller, user.role ≠ .panelist

instance (call : Call) (w : World) : Decidable (ByAdminOrCandidate call w) :=
  inferInstanceAs (Decidable (∀ user ∈ w.db.users call.caller, user.role ≠ .panelist))

/-- The request is FAILED, RESCHEDULING or CANCELLED. -/
def DeadEnd (T : Interviews) (r : Id) : Prop :=
  ∃ row, T.requests r = some row ∧
    (row.status = .failed ∨ row.status = .rescheduling ∨ row.status = .cancelled)

/-! ### Transactions -/

/-- **A dead end stays one**, in a transaction that makes nothing READY_FOR_SCHEDULING. -/
theorem DeadEnd.step {ws : List Write} (h : DeadEnd T r) (hT : WellFormed T)
    (hlegal : Legal (fun _ _ => False) T ws) (happ : Write.applyAll ws T = some T')
    (hready : .setStatus r .readyForScheduling ∉ ws) : DeadEnd T' r := by
  obtain ⟨row, hrow, hst⟩ := h
  obtain ⟨row', hrow', hset⟩ := Write.status_applyAll happ hrow
  refine ⟨row', hrow', ?_⟩
  rcases Step.transition hT ⟨ws, hlegal, happ⟩ hrow' with ⟨hnone, -⟩ | ⟨row₀, hrow₀, htr⟩
  · rw [hrow] at hnone
    simp at hnone
  rw [hrow, Option.some.injEq] at hrow₀
  subst hrow₀
  cases htr with
  | kept hs => rwa [hs]
  | submitted hs => simp [hs] at hst
  | scheduled hs => simp [hs] at hst
  | resumed hs hs' =>
    rw [hs, hs'] at hset
    exact absurd (hset.resolve_left (by simp)) hready
  | reopened _ hP => exact hP.elim
  | booked hs => simp [hs] at hst
  | released hs =>
    rcases hs with ⟨hs, -⟩ | ⟨-, -, hs⟩
    · simp [hs] at hst
    · exact .inr (.inr hs)
  | completed hs => rcases hs with hs | hs <;> simp [hs] at hst

/-! ### Calls -/

/-- The call makes the request READY_FOR_SCHEDULING in no case. -/
def NeverReady (r : Id) (β : Type) : Effect β → Prop
  | .stage y => y ≠ .setStatus r .readyForScheduling
  | _ => True

theorem uses_neverReady {call : Call} (hcall : ¬ call.Sets r .readyForScheduling) :
    (handle pf call).Uses (NeverReady r) := by
  refine uses_handle ⟨⟨fun o ho => ?_, fun _ _ _ => trivial, fun _ _ => trivial⟩, fun _ _ => trivial,
    fun _ _ => trivial, fun _ _ _ => trivial, fun y hy => ?_⟩
  · cases o with
    | stage => simp [Effect.ordinary] at ho
    | _ => trivial
  · rintro rfl
    exact hcall hy

/-- A call that cannot make the request READY_FOR_SCHEDULING leaves it where it is. -/
theorem DeadEnd.call_of_sets (h : DeadEnd w.db.toInterviews r) (hT : WellFormed w.db.toInterviews)
    {call : Call} (hcall : ¬ call.Sets r .readyForScheduling)
    (hdecline : ∀ userId r reason, call ≠ .decline userId r reason) {x : Except Exc Response}
    (hr : Runs machine C (handle pf call) {} w x s' w') : DeadEnd w'.db.toInterviews r := by
  have hp : wp (lifecycle True (fun _ _ => True) fun _ _ => False) (handle pf call) Closes
      ({}, w.db.toInterviews) :=
    closes_handle (fun _ _ _ => trivial) (fun h => absurd trivial h)
      fun userId r reason hd => absurd hd (hdecline userId r reason)
  refine (Runs.sound (faithful_alone _ _ fun β o c s w => C β o c s w ∧ NeverReady r β o)
    (I := fun s w => WellFormed w.db.toInterviews ∧ DeadEnd w.db.toInterviews r ∧
      .setStatus r .readyForScheduling ∉ s.pending)
    (fun o c s w x s' w' v hI hv hduty hC hex => ?_) (hr.of_uses (uses_neverReady hcall)) rfl hp
    ⟨hT, h, by simp⟩).2.2.1
  obtain ⟨hT, hdead, hpending⟩ := hI
  subst hv
  have hpending' : .setStatus r .readyForScheduling ∉ s'.pending := by
    intro hmem
    rcases pending_of_exec hex _ hmem with hmem | hstaged
    · exact hpending hmem
    · cases o with
      | stage y => exact hC.2 (Option.some.inj hstaged)
      | _ => simp [Effect.staged] at hstaged
  refine ⟨wellFormed_step hT hex, ?_, hpending'⟩
  rcases respond_cases (w := w.elapse c) hex with ⟨hc, -, T', happ, rfl, rfl⟩ | ⟨-, hdb, -⟩
  · have hlegal : Legal (fun _ _ => False) w.db.toInterviews s.pending := by
      cases o with
      | commit => exact hduty.legal trivial hT
      | _ => exact hc.elim
    rw [World.commit_toInterviews]
    exact hdead.step hT hlegal happ hpending
  · rw [hdb]
    exact hdead

/-- Nothing is demanded. -/
def Nothing : Demand Effect Session World := fun _ _ _ _ => True

theorem lenient_nothing : Lenient Nothing := fun _ _ _ _ => trivial

/-- A call that is refused before its first write. -/
theorem DeadEnd.of_refused (h : DeadEnd w.db.toInterviews r) {call : Call} {x : Except Exc Response}
    (hp : wp (demanding C Nothing) (handle pf call)
      (fun _ v => Looks w.db.toInterviews w.now v.1 v.2) ({}, w))
    (hr : Runs machine C (handle pf call) {} w x s' w') : DeadEnd w'.db.toInterviews r := by
  have hlooks := hr.meets hp
  rw [hlooks.tables]
  exact h

/-- A submission is refused. -/
theorem refused_submit (h : DeadEnd w.db.toInterviews r) {userId : Id}
    {data : Availability.SubmitAvailabilityRequest} :
    wp (demanding C Nothing) (handle pf (.submit userId r data))
      (fun _ v => Looks w.db.toInterviews w.now v.1 v.2) ({}, w) := by
  obtain ⟨row, hrow, hst⟩ := h
  refine wp_roleRoute lenient_nothing (looks_empty w) (fun _ _ _ h => h) fun user s₁ w₁ h₁ _ _ => ?_
  have hvalidate : (Availability.validate pf data).Uses fun _ o => o.plain = true := by
    refine Prog.uses_bind Prog.uses_raiseIf fun _ => ?_
    refine Prog.uses_bind (Prog.uses_forEach fun window => ?_) fun _ => Prog.uses_pure
    refine Prog.uses_bind (Prog.uses_perform rfl) fun t => ?_
    split
    · exact Prog.uses_pure
    · exact Prog.uses_throw
  refine wp_bind (wp_mono (wp_looks_uses lenient_nothing hvalidate h₁) ?_)
  rintro (e | _) ⟨s₂, w₂⟩ h₂
  · exact h₂
  refine wp_map (wp_bind_looking (looking_plain lenient_nothing h₂ rfl) (fun _ _ _ h => h)
    fun found s₃ w₃ h₃ hfound => ?_)
  obtain rfl : found = w.db.requests r := hfound
  refine wp_bind_looking (looking_orRaise h₃) (fun _ _ _ h => h) fun row' s₄ w₄ h₄ hrow' => ?_
  refine wp_bind_looking (looking_raiseIf h₄) (fun _ _ _ h => h) fun _ s₅ w₅ h₅ _ => ?_
  refine wp_bind_looking (looking_raiseIf h₅) (fun _ _ _ h => h) fun _ s₆ w₆ h₆ hawaiting => ?_
  rw [hrow, Option.some.injEq] at hrow'
  subst hrow'
  simp [not_not.mp hawaiting] at hst

/-- A reschedule is refused. -/
theorem refused_reschedule (h : DeadEnd w.db.toInterviews r) {userId : Id}
    {reason : Option (Text 1000)} :
    wp (demanding C Nothing) (handle pf (.reschedule userId r reason))
      (fun _ v => Looks w.db.toInterviews w.now v.1 v.2) ({}, w) := by
  obtain ⟨row, hrow, hst⟩ := h
  refine wp_ownerRoute lenient_nothing (looks_empty w) (fun _ _ _ h => h) fun user s₁ w₁ h₁ _ _ => ?_
  refine wp_map (wp_bind_looking (looking_load lenient_nothing h₁) (fun _ _ _ h => h)
    fun row' s₂ w₂ h₂ hrow' => ?_)
  refine wp_bind_looking (looking_raiseIf h₂) (fun _ _ _ h => h) fun _ s₃ w₃ h₃ hbooked => ?_
  rw [hrow, Option.some.injEq] at hrow'
  subst hrow'
  have hbooked : row.status = .booked := by simpa [reschedulable] using hbooked
  simp [hbooked] at hst

/-- A decline is refused to who is not a panelist. -/
theorem refused_decline {userId : Id} {reason : Option (Text 1000)}
    (hu : ∀ user, w.db.users userId = some user → user.role ≠ .panelist) :
    wp (demanding C Nothing) (handle pf (.decline userId r reason))
      (fun _ v => Looks w.db.toInterviews w.now v.1 v.2) ({}, w) :=
  wp_roleRoute lenient_nothing (looks_empty w) (fun _ _ _ h => h)
    fun user _ _ _ huser hrole => absurd hrole (hu user huser)

/-- **No call of an administrator or a candidate leads out of a dead end.** -/
theorem DeadEnd.call (h : DeadEnd w.db.toInterviews r) (hT : WellFormed w.db.toInterviews) {call : Call}
    (hby : ByAdminOrCandidate call w) {x : Except Exc Response}
    (hr : Runs machine C (handle pf call) {} w x s' w') : DeadEnd w'.db.toInterviews r := by
  cases call with
  | submit userId r' data =>
    by_cases hr' : r = r'
    · subst hr'
      exact h.of_refused (refused_submit h) hr
    · exact h.call_of_sets hT (by simp [Call.Sets, hr']) (by simp) hr
  | reschedule userId r' reason =>
    by_cases hr' : r = r'
    · subst hr'
      exact h.of_refused (refused_reschedule h) hr
    · exact h.call_of_sets hT (by simp [Call.Sets, hr']) (by simp) hr
  | decline userId r' reason => exact h.of_refused (refused_decline hby) hr
  | _ => exact h.call_of_sets hT (by simp [Call.Sets]) (by simp) hr

/-- The request stays there. -/
theorem DeadEnd.reaches (h : DeadEnd w₀.db.toInterviews r) (hT : WellFormed w₀.db.toInterviews)
    (h' : Reaches pf C ByAdminOrCandidate w₀ w) :
    DeadEnd w.db.toInterviews r ∧ WellFormed w.db.toInterviews := by
  induction h' with
  | init => exact ⟨h, hT⟩
  | call _ hby hr ih =>
    refine ⟨ih.1.call ih.2 hby hr, ?_⟩
    exact hr.keeps (I := fun _ w => WellFormed w.db.toInterviews)
      (fun _ _ _ _ _ _ _ hT hex => wellFormed_step hT hex) ih.2

theorem DeadEnd.of_status (h : w.status r = some .failed ∨ w.status r = some .rescheduling) :
    DeadEnd w.db.toInterviews r := by
  rcases h with h | h
  · obtain ⟨row, hrow, hst⟩ := status_eq_some.mp h
    exact ⟨row, hrow, .inl hst⟩
  · obtain ⟨row, hrow, hst⟩ := status_eq_some.mp h
    exact ⟨row, hrow, .inr (.inl hst)⟩

theorem DeadEnd.not_recommended (h : DeadEnd w.db.toInterviews r) :
    w.status r ≠ some .recommended := by
  intro hrec
  obtain ⟨row, hrow, hst⟩ := h
  obtain ⟨row', hrow', hrec⟩ := status_eq_some.mp hrec
  rw [hrow, Option.some.injEq] at hrow'
  subst hrow'
  simp [hrec] at hst

/-- **A request that is FAILED or RESCHEDULING is never RECOMMENDED again**, whatever an administrator
and the candidates do, in whatever state the process has stopped. -/
theorem deadEnd_of_reaches (h₀ : Initial w₀) (h : Halts pf C w₀ w)
    (hst : w.status r = some .failed ∨ w.status r = some .rescheduling)
    (h' : Reaches pf C' ByAdminOrCandidate w w') : w'.status r ≠ some .recommended := by
  have hdead : DeadEnd w.db.toInterviews r := .of_status hst
  exact (hdead.reaches (wellFormed_of_halts h₀ h) h').1.not_recommended

/-- A reschedule that stops between its two commits, and a cancellation. -/
theorem deadEnd_of_reaches_sample : ∃ w w' : World, w.status 10 = some .rescheduling ∧
    w'.status 10 = some .cancelled ∧ w'.status 10 ≠ some .recommended := by
  obtain ⟨w₁, h₁, hp⟩ := reaches_hosted (t := none) (hostedBooked 10 540)
    (p := fun w₁ => stops googlePlatform (fun _ _ _ _ _ => true) (.reschedule 2 10 none)
      (answered 5 ++ [pick 17] ++ answered 11) (fun w => w.status 10 = some .rescheduling ∧
        (runCalls googlePlatform (fun _ _ _ _ _ => true) (fun call w => decide (ByAdminOrCandidate call w))
          [(.cancel 1 10 none, { expired := [.booking 10] } :: answered 2 ++ [pick 18] ++ answered 20)]
          w).any fun w' => w'.status 10 = some .cancelled) w₁)
    (by decide +kernel)
  obtain ⟨q, s, w, hgo, hend⟩ := goes_of_stops (C := Any) (fun _ _ _ _ _ => trivial) hp
  obtain ⟨hst, hrun⟩ := of_decide_eq_true hend
  obtain ⟨w', h', hcancelled⟩ : ∃ w', Reaches googlePlatform Any ByAdminOrCandidate w w' ∧
      decide (w'.status 10 = some .cancelled) :=
    reaches_of_runCalls (fun _ _ _ _ _ => trivial) (fun _ _ => of_decide_eq_true) hrun
  exact ⟨w, w', hst, of_decide_eq_true hcancelled,
    deadEnd_of_reaches (initial_connectedWorld none) (.call h₁.halts hgo) (.inr hst) h'⟩

/-- **A request is stuck.** The windows of the candidate have passed when the recommendations are asked
for, and the request is FAILED. The panelist's calendar is connected and free, but nothing that an
administrator or a candidate may do makes the request RECOMMENDED. -/
theorem failed_is_stuck : ∃ w, Initial (connectedWorld none) ∧
    Reaches googlePlatform Any (fun _ _ => True) (connectedWorld none) w ∧
    w.status 10 = some .failed ∧ (w.db.connections 3).map (·.status) = some .connected ∧
    ¬ ∃ w', Reaches googlePlatform Any ByAdminOrCandidate w w' ∧ w'.status 10 = some .recommended := by
  obtain ⟨w, hw, hp⟩ := reaches_hosted (t := none) [sampleCreate 10, sampleSubmit 10 540,
      (.generate 1 10, { elapsed := 60000000000 } :: answered 1 ++ [pick 12] ++ answered 20)]
    (p := fun w => w.status 10 = some .failed ∧
      (w.db.connections 3).map (·.status) = some .connected) (by decide +kernel)
  obtain ⟨hst, hconn⟩ := of_decide_eq_true hp
  refine ⟨w, initial_connectedWorld none, hw, hst, hconn, ?_⟩
  rintro ⟨w', h', hrec⟩
  have hT : WellFormed w.db.toInterviews := wellFormed_of_halts (initial_connectedWorld none) hw.halts
  exact ((DeadEnd.of_status (.inl hst)).reaches hT h').1.not_recommended hrec

end InterviewScheduler.System
