import InterviewScheduler.Booking.Organiser
import InterviewScheduler.Interviews.Footprint
import InterviewScheduler.Interviews.Routes
import InterviewScheduler.Lifecycle.Runs
import InterviewScheduler.System.Bookable
import InterviewScheduler.System.Phantoms

/-! # Who deletes the event

The organiser is computed once more when the calendar event is deleted. A request that can be booked can
no longer be edited, so that it is the user who has created the event. -/

namespace InterviewScheduler.Interviews

open InterviewScheduler.Engine InterviewScheduler.Core InterviewScheduler.Effects
open InterviewScheduler.Calendar InterviewScheduler.Booking

variable {pf : Platform} {C : Condition Effect Choice Session World} {T : Interviews} {t : Instant}
  {s : Session} {w : World} {r : Id}

/-! ### Creating -/

/-- **`book` creates the event on the organiser's calendar**, when the request is RECOMMENDED. -/
theorem createsAsOrganiser_book
    (hC : ∀ {β : Type} (o : Effect β) c s w, C β o c s w → Keyed w) (h : Looks T t s w) {actor : User}
    {slotId : Id} :
    wp (demanding C (CreatesAsOrganiser pf T r)) (book pf actor r slotId) (fun _ _ => True) (s, w) := by
  have hD : Unhindered (CreatesAsOrganiser pf T r) := unhindered_createsAsOrganiser
  have hE : Interviews.Serves (Anytime (CreatesAsOrganiser pf T r)) :=
    ⟨ordinary_createsAsOrganiser, fun _ _ _ _ _ => trivial, fun _ _ _ _ => trivial⟩
  refine wp_bind_looking (looking_plain hD.plain h rfl) (fun _ _ _ _ => trivial)
    fun found s₁ w₁ h₁ _ => ?_
  refine wp_bind_looking (looking_orRaise h₁) (fun _ _ _ _ => trivial) fun found s₂ w₂ h₂ _ => ?_
  refine wp_bind_looking (looking_raiseIf h₂) (fun _ _ _ _ => trivial) fun _ s₃ w₃ h₃ _ => ?_
  refine wp_bind_looking (looking_plain hD.plain h₃ rfl) (fun _ _ _ _ => trivial)
    fun request s₄ w₄ h₄ _ => ?_
  refine wp_bind_looking (looking_orRaise h₄) (fun _ _ _ _ => trivial) fun row s₅ w₅ h₅ _ => ?_
  refine wp_bind (wp_bind_looking (looking_plain hD.plain h₅ rfl) (fun _ _ _ _ => trivial)
    fun latest s₆ w₆ h₆ _ => ?_)
  refine wp_bind_looking (looking_raiseIf h₆) (fun _ _ _ _ => trivial) fun _ s₇ w₇ h₇ _ => ?_
  refine wp_bind_looking (looking_raiseIf h₇) (fun _ _ _ _ => trivial) fun _ s₈ w₈ h₈ _ => ?_
  refine wp_bind_any (wp_tryCatch_any (wp_locked hD.plain h₈ fun s' w' h' =>
    createsAsOrganiser_bookLocked hC h') fun e v => ?_) fun booked v => ?_
  · cases e <;> exact True.intro
  · exact wp_anytime (Prog.uses_bind (Interviews.uses_notice hE.attends) fun _ => Prog.uses_pure)

/-! ### Deleting -/

/-- What is demanded of the effects of a release: the calendar event of a CONFIRMED row is deleted as
the organiser. -/
def DeletesAsOrganiser (pf : Platform) (T : Interviews) (r : Id) : Demand Effect Session World :=
  fun _ o _ w => match o with
  | .deleteEvent token g => OrganiserToken pf T r token w.db ∧
      ∃ e ∈ T.events, e.ConfirmedFor r ∧ e.provider = .google ∧ e.calendarEventId = g
  | _ => True

theorem serves_deletesAsOrganiser : Serves (Anytime (DeletesAsOrganiser pf T r)) where
  ordinary o ho s w := by
    cases o with
    | deleteEvent => simp [Effect.ordinary] at ho
    | _ => trivial
  setNx _ _ _ _ _ := trivial
  release _ _ _ _ := trivial

theorem unhindered_deletesAsOrganiser : Unhindered (DeletesAsOrganiser pf T r) where
  plain o s w ho := by
    cases o with
    | deleteEvent => simp [Effect.plain] at ho
    | _ => trivial
  commit _ _ := trivial
  refreshToken _ _ _ := trivial

section Deletes

variable (hC : ∀ {β : Type} (o : Effect β) c s w, C β o c s w → Keyed w)

include hC

/-- The CONFIRMED event of the request is deleted on the organiser's calendar. -/
theorem deletesAsOrganiser_cancelConfirmed (h : Looks T t s w) {parts : Parts}
    (hparts : parts.Perm (partsOf T r)) {trigger : String} :
    wp (demanding C (DeletesAsOrganiser pf T r)) (cancelConfirmed pf parts r trigger) (fun _ _ => True)
      (s, w) := by
  have hE : Serves (Anytime (DeletesAsOrganiser pf T r)) := serves_deletesAsOrganiser
  refine wp_bind_looking (looking_effect h rfl trivial) (fun _ _ _ _ => trivial)
    fun event s₁ w₁ h₁ hevent => ?_
  obtain rfl : event = T.events.find? fun e => e.ConfirmedFor r := hevent
  split
  · next e hfind =>
    have hmem : e ∈ T.events := List.mem_of_find?_eq_some hfind
    have hconf : e.ConfirmedFor r := by simpa using List.find?_some hfind
    refine wp_bind_any ?_ fun _ _ => trivial
    unfold cancelActiveEvent
    split
    · exact wp_anytime (Prog.uses_perform fun _ _ => trivial)
    · next hprovider =>
      have hgoogle : e.provider = .google := by cases hp : e.provider <;> simp_all
      refine wp_bind_any (wp_tryCatch_any ?_ fun e v => ?_) fun deleted v => ?_
      · refine wp_organiserToken hC unhindered_deletesAsOrganiser h₁ hparts (fun _ _ _ _ => trivial)
          fun token s₂ w₂ h₂ htoken => ?_
        have hdelete : DeletesAsOrganiser pf T r _ (.deleteEvent token e.calendarEventId) s₂ w₂ :=
          ⟨htoken, e, hmem, hconf, hgoogle, rfl⟩
        refine wp_tryCatch_any (wp_bind_any (wp_follow hdelete fun _ _ _ _ _ _ => trivial)
          fun _ _ => trivial) fun e v => ?_
        cases e <;> exact True.intro
      · split
        · exact wp_pure trivial
        · exact wp_throw trivial
      · refine wp_bind_any (wp_anytime (Prog.uses_perform fun _ _ => trivial)) fun _ v => ?_
        split
        · exact wp_pure trivial
        · exact wp_anytime (uses_createReconciliationTask hE.attends.internal)
  · exact wp_pure trivial

/-- The critical sections of `reschedule` and `cancel`. -/
theorem deletesAsOrganiser_transitionLocked (h : Looks T t s w) {parts : Parts}
    (hparts : parts.Perm (partsOf T r)) {actor : User} {reason : Option (Text 1000)}
    {allowed : RequestStatus → Bool} {refused : Exc} {trigger action : String} {st : RequestStatus} :
    wp (demanding C (DeletesAsOrganiser pf T r))
      (transitionLocked pf actor r parts reason allowed refused trigger st action) (fun _ _ => True)
      (s, w) := by
  have hE : Serves (Anytime (DeletesAsOrganiser pf T r)) := serves_deletesAsOrganiser
  refine wp_bind_looking (looking_load unhindered_deletesAsOrganiser.plain h) (fun _ _ _ _ => trivial)
    fun request s₁ w₁ h₁ _ => ?_
  refine wp_bind_looking (looking_raiseIf h₁) (fun _ _ _ _ => trivial) fun _ s₂ w₂ h₂ _ => ?_
  refine wp_bind_any (deletesAsOrganiser_cancelConfirmed hC h₂ hparts) fun event v => ?_
  refine wp_anytime (Prog.uses_bind (Prog.uses_perform fun _ _ => trivial) fun _ => ?_)
  exact Prog.uses_bind (uses_recordAudit hE.attends.internal) fun _ =>
    Prog.uses_bind (Prog.uses_perform fun _ _ => trivial) fun _ => Prog.uses_pure

theorem deletesAsOrganiser_declineLocked (h : Looks T t s w) {parts : Parts}
    (hparts : parts.Perm (partsOf T r)) {actor : User} {reason : Option (Text 1000)} :
    wp (demanding C (DeletesAsOrganiser pf T r)) (declineLocked pf actor r parts reason)
      (fun _ _ => True) (s, w) := by
  have hD : Unhindered (DeletesAsOrganiser pf T r) := unhindered_deletesAsOrganiser
  have hE : Serves (Anytime (DeletesAsOrganiser pf T r)) := serves_deletesAsOrganiser
  refine wp_bind_looking (looking_load hD.plain h) (fun _ _ _ _ => trivial) fun request s₁ w₁ h₁ _ => ?_
  refine wp_bind_looking (looking_plain hD.plain h₁ rfl) (fun _ _ _ _ => trivial)
    fun _ s₂ w₂ h₂ _ => ?_
  split
  · refine wp_bind_any (deletesAsOrganiser_cancelConfirmed hC h₂ hparts) fun event v => ?_
    refine wp_anytime (Prog.uses_bind (Prog.uses_perform fun _ _ => trivial) fun _ => ?_)
    exact Prog.uses_bind (uses_recordAudit hE.attends.internal) fun _ =>
      Prog.uses_bind (Prog.uses_perform fun _ _ => trivial) fun _ => Prog.uses_pure
  · refine wp_anytime (Prog.uses_bind (Prog.uses_perform fun _ _ => trivial) fun _ => ?_)
    exact Prog.uses_bind (uses_recordAudit hE.attends.internal) fun _ =>
      Prog.uses_bind (Prog.uses_perform fun _ _ => trivial) fun _ => Prog.uses_pure

omit hC in
/-- The panel is read before the lock is taken. -/
theorem deletes_of_parts (h : Looks T t s w) {α : Type} {f : Parts → M α}
    (hf : ∀ parts s' w', Looks T t s' w' → parts.Perm (partsOf T r) →
      wp (demanding C (DeletesAsOrganiser pf T r)) (f parts) (fun _ _ => True) (s', w')) :
    wp (demanding C (DeletesAsOrganiser pf T r)) (participantsWithUsers r >>= f) (fun _ _ => True)
      (s, w) := by
  refine wp_bind_looking (looking_plain unhindered_deletesAsOrganiser.plain h rfl)
    (fun _ _ _ _ => trivial) fun parts s₁ w₁ h₁ hparts => ?_
  obtain ⟨n, db, rfl, rfl⟩ := hparts
  exact hf _ s₁ w₁ h₁ (inSomeOrder_perm _ _)

theorem deletesAsOrganiser_decline (h : Looks T t s w) {actor : User} {reason : Option (Text 1000)} :
    wp (demanding C (DeletesAsOrganiser pf T r)) (decline pf actor r reason) (fun _ _ => True) (s, w) := by
  have hD : Unhindered (DeletesAsOrganiser pf T r) := unhindered_deletesAsOrganiser
  have hE : Serves (Anytime (DeletesAsOrganiser pf T r)) := serves_deletesAsOrganiser
  refine wp_bind_looking (looking_load hD.plain h) (fun _ _ _ _ => trivial) fun request s₁ w₁ h₁ _ => ?_
  refine wp_bind_looking (looking_plain hD.plain h₁ rfl) (fun _ _ _ _ => trivial)
    fun _ s₂ w₂ h₂ _ => ?_
  refine deletes_of_parts h₂ fun parts s₃ w₃ h₃ hparts => ?_
  refine wp_bind_looking (looking_raiseIf h₃) (fun _ _ _ _ => trivial) fun _ s₄ w₄ h₄ _ => ?_
  refine wp_bind_any (wp_locked hD.plain h₄ fun s' w' h' =>
    deletesAsOrganiser_declineLocked hC h' hparts) fun resp v => ?_
  refine wp_anytime (Prog.uses_bind (uses_notify hE.attends) fun _ => ?_)
  split
  · exact Prog.uses_bind (uses_retriggerRecommendations hE (fun _ _ _ _ => trivial)
      (fun _ _ _ _ => trivial) fun _ _ _ _ => trivial) fun _ => Prog.uses_pure
  · exact Prog.uses_pure

theorem deletesAsOrganiser_reschedule (h : Looks T t s w) {actor : User}
    {reason : Option (Text 1000)} :
    wp (demanding C (DeletesAsOrganiser pf T r)) (reschedule pf actor r reason) (fun _ _ => True)
      (s, w) := by
  have hD : Unhindered (DeletesAsOrganiser pf T r) := unhindered_deletesAsOrganiser
  have hE : Serves (Anytime (DeletesAsOrganiser pf T r)) := serves_deletesAsOrganiser
  refine wp_bind_looking (looking_load hD.plain h) (fun _ _ _ _ => trivial) fun request s₁ w₁ h₁ _ => ?_
  refine wp_bind_looking (looking_raiseIf h₁) (fun _ _ _ _ => trivial) fun _ s₂ w₂ h₂ _ => ?_
  refine deletes_of_parts h₂ fun parts s₃ w₃ h₃ hparts => ?_
  refine wp_bind_any (wp_locked hD.plain h₃ fun s' w' h' =>
    deletesAsOrganiser_transitionLocked hC h' hparts) fun event v => ?_
  refine wp_anytime (Prog.uses_bind (uses_notify hE.attends) fun _ => ?_)
  exact Prog.uses_bind (uses_retriggerRecommendations hE (fun _ _ _ _ => trivial)
    (fun _ _ _ _ => trivial) fun _ _ _ _ => trivial) fun _ => Prog.uses_pure

theorem deletesAsOrganiser_cancel (h : Looks T t s w) {actor : User} {reason : Option (Text 1000)} :
    wp (demanding C (DeletesAsOrganiser pf T r)) (cancel pf actor r reason) (fun _ _ => True) (s, w) := by
  have hD : Unhindered (DeletesAsOrganiser pf T r) := unhindered_deletesAsOrganiser
  have hE : Serves (Anytime (DeletesAsOrganiser pf T r)) := serves_deletesAsOrganiser
  refine wp_bind_looking (looking_load hD.plain h) (fun _ _ _ _ => trivial) fun request s₁ w₁ h₁ _ => ?_
  refine wp_bind_looking (looking_raiseIf h₁) (fun _ _ _ _ => trivial) fun _ s₂ w₂ h₂ _ => ?_
  refine deletes_of_parts h₂ fun parts s₃ w₃ h₃ hparts => ?_
  refine wp_bind_any (wp_locked hD.plain h₃ fun s' w' h' =>
    deletesAsOrganiser_transitionLocked hC h' hparts) fun event v => ?_
  exact wp_anytime (Prog.uses_bind (uses_notify hE.attends) fun _ => Prog.uses_pure)

end Deletes

end InterviewScheduler.Interviews

namespace InterviewScheduler.System

open InterviewScheduler.Engine InterviewScheduler.Core InterviewScheduler.Effects
open InterviewScheduler.Lifecycle InterviewScheduler.Interviews
open InterviewScheduler.Booking
open InterviewScheduler.Calendar (Keyed Unhindered)

variable {pf : Platform} {C : Condition Effect Choice Session World} {admits : Call → World → Prop}
  {T : Interviews} {t : Instant} {s s' : Session} {w₀ w w' : World} {r : Id}

/-! ### The operations -/

/-- The operations that give up a booking. -/
inductive GivesUp : Call → Id → Prop
  | decline (userId r : Id) (reason : Option (Text 1000)) : GivesUp (.decline userId r reason) r
  | reschedule (userId r : Id) (reason : Option (Text 1000)) : GivesUp (.reschedule userId r reason) r
  | cancel (userId r : Id) (reason : Option (Text 1000)) : GivesUp (.cancel userId r reason) r

theorem createsAsOrganiser_handle (hC : ∀ {β : Type} (o : Effect β) c s w, C β o c s w → Keyed w)
    {userId slotId : Id} :
    wp (demanding C (CreatesAsOrganiser pf w.db.toInterviews r)) (handle pf (.book userId r slotId))
      (fun _ _ => True) ({}, w) :=
  wp_ownerRoute unhindered_createsAsOrganiser.plain (looks_empty w) (fun _ _ _ _ => trivial)
    fun _ _ _ h _ _ => wp_map (createsAsOrganiser_book hC h)

theorem deletesAsOrganiser_handle (hC : ∀ {β : Type} (o : Effect β) c s w, C β o c s w → Keyed w)
    {call : Call} (hcall : GivesUp call r) :
    wp (demanding C (DeletesAsOrganiser pf w.db.toInterviews r)) (handle pf call)
      (fun _ _ => True) ({}, w) := by
  have hD : Unhindered (DeletesAsOrganiser pf w.db.toInterviews r) := unhindered_deletesAsOrganiser
  cases hcall with
  | decline userId _ reason =>
    exact wp_roleRoute hD.plain (looks_empty w) (fun _ _ _ _ => trivial)
      fun _ _ _ h _ _ => wp_map (deletesAsOrganiser_decline hC h)
  | reschedule userId _ reason =>
    exact wp_ownerRoute hD.plain (looks_empty w) (fun _ _ _ _ => trivial)
      fun _ _ _ h _ _ => wp_map (deletesAsOrganiser_reschedule hC h)
  | cancel userId _ reason =>
    exact wp_roleRoute hD.plain (looks_empty w) (fun _ _ _ _ => trivial)
      fun _ _ _ h _ _ => wp_map (deletesAsOrganiser_cancel hC h)

/-! ### Sequences -/

theorem keyed_of_reaches (h₀ : Keyed w₀) (h : Reaches pf C admits w₀ w) : Keyed w := by
  induction h with
  | init => exact h₀
  | call _ _ hr ih => exact hr.keeps (fun _ _ _ _ _ _ _ => Keyed.step) ih

/-- A request that cannot be edited, with the given panel. -/
structure Closed (r : Id) (parts : Parts) (T : Interviews) : Prop where
  closed : ∃ row, T.requests r = some row ∧ row.status ∉ editableStatuses
  parts : partsOf T r = parts

theorem Closed.step {P : Interviews → Id → Prop} {T' : Interviews} {parts : Parts}
    (h : Closed r parts T) (hT : WellFormed T) (hstep : Step P T T') : Closed r parts T' := by
  obtain ⟨row, hrow, hst⟩ := h.closed
  refine ⟨hstep.not_editable hT hrow hst, ?_⟩
  obtain ⟨ws, -, happ⟩ := id hstep
  rw [partsOf, hstep.participants hrow hst, Write.users_applyAll happ]
  exact h.parts

/-- **The panel of a request stays**, once the request cannot be edited. -/
theorem closed_of_reaches {parts : Parts} (hT : WellFormed w₀.db.toInterviews)
    (h₀ : Closed r parts w₀.db.toInterviews) (h : Reaches pf C admits w₀ w) :
    Closed r parts w.db.toInterviews := by
  have hall : Reaches pf C (OnDecline fun _ _ => True) w₀ w :=
    h.mono (fun _ _ _ _ => id) fun call w _ => by cases call <;> simp [OnDecline]
  exact (hall.keeps (J := fun T _ => Closed r parts T)
    (fun _ _ _ _ hT hJ hstep _ => hJ.step hT hstep) hT h₀).2

/-- **The organiser is the same user twice.** A booking of the request creates a calendar event with the
token of a user's connection; whatever happens then, a decline, a reschedule or a cancellation of the
request deletes the calendar event of its CONFIRMED row with the token of the same user's connection. -/
theorem organiser_of_reaches (h₀ : Initial w₀) (hk : Keyed w₀) {w₁ w₂ w₃ w₄ : World}
    {userId slotId : Id} {token : String} {draft : EventDraft} {k : Except Exc CalendarEvent → M Response}
    {s₂ s₄ : Session} {call : Call} {token' g : String} {k' : Except Exc Unit → M Response}
    (h₁ : Reaches pf C admits w₀ w₁)
    (hcreate : Goes machine C (handle pf (.book userId r slotId)) {} w₁
      (.op (.createEvent token draft) k) s₂ w₂)
    (h₃ : Reaches pf C admits w₁ w₃) (hcall : GivesUp call r)
    (hdelete : Goes machine C (handle pf call) {} w₃ (.op (.deleteEvent token' g) k') s₄ w₄) :
    ∃ u, (organiser w₁.db.toInterviews r = some u ∧ TokenOf pf u token w₂.db) ∧
      (organiser w₃.db.toInterviews r = some u ∧ TokenOf pf u token' w₄.db) ∧
      ∃ e ∈ w₃.db.events, e.ConfirmedFor r ∧ e.provider = .google ∧ e.calendarEventId = g := by
  have hall : Reaches pf C (OnDecline fun _ _ => True) w₀ w₁ :=
    h₁.mono (fun _ _ _ _ => id) fun call w _ => by cases call <;> simp [OnDecline]
  have hT : WellFormed w₁.db.toInterviews :=
    (hall.keeps (J := fun _ _ => True) (fun _ _ _ _ _ _ _ _ => trivial) h₀.wellFormed trivial).1
  have hk₁ : Keyed w₁ := keyed_of_reaches hk h₁
  have hk₃ : Keyed w₃ := keyed_of_reaches hk₁ h₃
  have hkeyed : ∀ {β : Type} (o : Effect β) (c : Choice) (s : Session) (w : World),
      C β o c s w ∧ Keyed w → Keyed w := fun _ _ _ _ h => h.2
  obtain ⟨⟨row, hrow, hst⟩, u, hu, htoken⟩ :=
    (hcreate.invariant (fun _ _ _ _ _ _ _ => Keyed.step) hk₁).meets
      (createsAsOrganiser_handle hkeyed)
  obtain ⟨⟨u', hu', htoken'⟩, hevent⟩ :=
    (hdelete.invariant (fun _ _ _ _ _ _ _ => Keyed.step) hk₃).meets
      (deletesAsOrganiser_handle hkeyed hcall)
  have hclosed : Closed r (partsOf w₁.db.toInterviews r) w₃.db.toInterviews :=
    closed_of_reaches hT ⟨⟨row, hrow, by simp [hst, editableStatuses]⟩, rfl⟩ h₃
  -- the panel is the same, so is the organiser
  have hsame : organiser w₃.db.toInterviews r = organiser w₁.db.toInterviews r := by
    rw [organiser, hclosed.parts, organiser]
  rw [hsame, hu, Option.some.injEq] at hu'
  subst hu'
  exact ⟨u, ⟨hu, htoken⟩, ⟨hsame.trans hu, htoken'⟩, hevent⟩

/-- What is left of the call begins with the creation of a calendar event. -/
def createsNow (x : M Response × Session × World) : Bool :=
  match x.1 with
  | .op (.createEvent _ _) _ => true
  | _ => false

theorem of_createsNow {p : M Response} (h : createsNow (p, s, w)) :
    ∃ token draft k, p = .op (.createEvent token draft) k := by
  unfold createsNow at h
  split at h
  · next token draft k hp => exact ⟨token, draft, k, hp⟩
  · simp at h

/-- What is left of the call begins with the deletion of a calendar event. -/
def deletesNow (x : M Response × Session × World) : Bool :=
  match x.1 with
  | .op (.deleteEvent _ _) _ => true
  | _ => false

theorem of_deletesNow {p : M Response} (h : deletesNow (p, s, w)) :
    ∃ token g k, p = .op (.deleteEvent token g) k := by
  unfold deletesNow at h
  split at h
  · next token g k hp => exact ⟨token, g, k, hp⟩
  · simp at h

/-- No interview yet; both panelists are connected to Google Calendar. -/
def pairedWorld : World where
  db :=
    { users := moreUsers
      connections := fun u => if u = 3 ∨ u = 4 then some
        { userId := u, status := .connected
          accessTokenEncrypted := some (if u = 3 then "first" else "second")
          refreshTokenEncrypted := none, tokenExpiresAt := none } else none }

theorem initial_pairedWorld : Initial pairedWorld where
  user_id := initial_largerWorld.user_id
  tables := rfl
  log := rfl

theorem keyed_pairedWorld : Keyed pairedWorld := by
  intro u conn hconn
  by_cases hu : u = 3 ∨ u = 4
  · simp only [pairedWorld, if_pos hu, Option.some.injEq] at hconn
    rw [← hconn]
  · simp [pairedWorld, hu] at hconn

/-- The sequences with both calendars. -/
theorem reaches_paired (calls : List (Call × List Choice)) {p : World → Bool}
    (h : (runCalls googlePlatform (fun _ _ _ _ _ => true) (fun _ _ => true) calls pairedWorld).any p) :
    ∃ w, Reaches googlePlatform Any (fun _ _ => True) pairedWorld w ∧ p w :=
  reaches_of_runCalls (fun _ _ _ _ _ => trivial) (fun _ _ _ => trivial) h

/-- An administrator creates the request 10 with both panelists. -/
def pairedCreate : Call × List Choice :=
  (.createRequest 1
    { candidateId := 2, roundType := .technical, durationMinutes := 50, bufferMinutes := 5
      panelistIds := [4, 3]
      duration_pos := by decide, buffer_nonneg := by decide, panelistIds_nodup := by decide
      candidate_not_panelist := by decide },
    answered 2 ++ [pick 10] ++ answered 5)

/-- The recommendations, when neither calendar has an appointment. -/
def pairedGenerate : Call × List Choice :=
  (.generate 1 10, answered 2 ++ [pick 12] ++ answered 11 ++ [{ answer := .busy [] }] ++ answered 2 ++
    [{ answer := .busy [] }] ++ answered 2 ++ [pick 20, pick 21, pick 22, pick 23] ++ answered 10)

/-- A booking that is cancelled, on the calendar of the panelist 3, though 4 is the first row. -/
theorem organiser_of_reaches_sample : ∃ (w₁ w₂ w₃ w₄ : World) (token token' g : String),
    w₁.status 10 = some .recommended ∧ w₃.status 10 = some .booked ∧
    w₁.db.participants 10 = [⟨2, .candidate⟩, ⟨4, .panelist⟩, ⟨3, .panelist⟩] ∧
      (organiser w₁.db.toInterviews 10 = some 3 ∧ TokenOf googlePlatform 3 token w₂.db) ∧
      (organiser w₃.db.toInterviews 10 = some 3 ∧ TokenOf googlePlatform 3 token' w₄.db) ∧
      ∃ e ∈ w₃.db.events, e.ConfirmedFor 10 ∧ e.provider = .google ∧ e.calendarEventId = g := by
  obtain ⟨w₁, h₁, hp⟩ := reaches_paired [pairedCreate, sampleSubmit 10 540, pairedGenerate]
    (p := fun w₁ => w₁.status 10 = some .recommended ∧
      w₁.db.participants 10 = [⟨2, .candidate⟩, ⟨4, .panelist⟩, ⟨3, .panelist⟩] ∧
      organiser w₁.db.toInterviews 10 = some 3 ∧
      ((machine.go (fun _ _ _ _ _ => true) (handle googlePlatform (.book 1 10 21))
        (answered 4 ++ [pick 13] ++ answered 7) {} w₁).any createsNow) ∧
      (runCalls googlePlatform (fun _ _ _ _ _ => true) (fun _ _ => true) [hostedBook 10 0] w₁).any
        fun w₃ => w₃.status 10 = some .booked ∧
          ((machine.go (fun _ _ _ _ _ => true) (handle googlePlatform (.cancel 1 10 none))
            (answered 3 ++ [pick 17] ++ answered 5) {} w₃).any deletesNow))
    (by decide +kernel)
  obtain ⟨hst₁, hpanel, horganiser, hgo₁, hrun⟩ := of_decide_eq_true hp
  obtain ⟨⟨p₂, s₂, w₂⟩, hgo₂, hnext₂⟩ := (Option.any_eq_true _ _).mp hgo₁
  obtain ⟨w₃, h₃, hp₃⟩ := (reaches_of_runCalls (fun _ _ _ _ _ => trivial) (fun _ _ _ => trivial) hrun :
    ∃ w₃, Reaches googlePlatform Any (fun _ _ => True) w₁ w₃ ∧ _)
  obtain ⟨hst₃, hgo₃⟩ := of_decide_eq_true hp₃
  obtain ⟨⟨p₄, s₄, w₄⟩, hgo₄, hnext₄⟩ := (Option.any_eq_true _ _).mp hgo₃
  obtain ⟨token, draft, k, rfl⟩ := of_createsNow hnext₂
  obtain ⟨token', g, k', rfl⟩ := of_deletesNow hnext₄
  obtain ⟨u, ⟨hu, htoken⟩, hlater⟩ := organiser_of_reaches initial_pairedWorld keyed_pairedWorld h₁
    ((goes_of_go hgo₂).mono fun _ _ _ _ _ => trivial) h₃ (.cancel 1 10 none)
    ((goes_of_go hgo₄).mono fun _ _ _ _ _ => trivial)
  obtain rfl : 3 = u := Option.some.inj (horganiser.symm.trans hu)
  exact ⟨w₁, w₂, w₃, w₄, token, token', g, hst₁, hst₃, hpanel, ⟨hu, htoken⟩, hlater⟩

end InterviewScheduler.System
