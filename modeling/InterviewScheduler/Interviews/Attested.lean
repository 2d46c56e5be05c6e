import InterviewScheduler.Interviews.Signing

/-! # Every handler writes in the name of its caller

The entries that a handler adds to the audit log have the id and the role of its caller, whom the route
admits, and a response is set by its panelist or put back by an edit (`attested_handle`). -/

namespace InterviewScheduler.Interviews

open InterviewScheduler.Engine InterviewScheduler.Core InterviewScheduler.Effects
open InterviewScheduler.Lifecycle (WellFormed)
open Prog

variable {pf : Platform} {T T' : Interviews} {J : Interviews → Prop} {call : Call} {user : User} {r : Id}

/-! ### What a call may write -/

/-- The actions of an evaluation. -/
def evaluationActions : List String := ["RECOMMENDATION_GENERATED", "RECOMMENDATION_FAILED"]

/-- What a call logs, and about which request. -/
def Call.Logs : Call → String → Id → Prop
  | .createRequest _ _, action, _ => action = "INTERVIEW_REQUEST_CREATED"
  | .updateRequest _ r _, action, x => action = "INTERVIEW_REQUEST_UPDATED" ∧ x = r
  | .submit _ r _, action, x => action = "CANDIDATE_AVAILABILITY_SUBMITTED" ∧ x = r
  | .generate _ r, action, x => action ∈ evaluationActions ∧ x = r
  | .book _ r _, action, x => action = "INTERVIEW_BOOKED" ∧ x = r
  | .decline _ r _, action, x => action ∈ "INTERVIEW_DECLINED" :: evaluationActions ∧ x = r
  | .reschedule _ r _, action, x => action ∈ "INTERVIEW_RESCHEDULE_REQUESTED" :: evaluationActions ∧ x = r
  | .cancel _ r _, action, x => action = "INTERVIEW_CANCELLED" ∧ x = r
  | .recordOutcome _ r _ _, action, x => action = "INTERVIEW_OUTCOME_RECORDED" ∧ x = r
  | .createNextRound _ _ _, action, _ => action = "NEXT_ROUND_CREATED"

/-- The roles that the route admits. -/
def Call.Admits : Call → Role → Prop
  | .submit _ _ _, role => role = .candidate
  | .decline _ _ _, role => role = .panelist
  | .generate _ _, role => role ≠ .panelist
  | .book _ _ _, role => role ≠ .panelist
  | .reschedule _ _ _, role => role ≠ .panelist
  | _, role => role = .admin

/-- The response that a call sets. -/
def Call.Answers : Call → Id → Id → ResponseStatus → Prop
  | .decline userId r _, x, u, st => x = r ∧ u = userId ∧ st = .declined
  | .updateRequest _ r data, x, u, st => x = r ∧ (∃ ids, data.panelistIds = .value ids ∧ u ∈ ids) ∧ st = .pending
  | _, _, _, _ => False

/-- The change is in the name of the user. -/
def Signs (call : Call) (user : User) : SideWrite → Prop
  | .insertAudit a => (a.actorId = user.id ∧ a.actorRole = user.role) ∧ call.Logs a.action a.entityId
  | .setResponse x u st => call.Answers x u st
  | _ => True

/-- **The change is in the name of the caller, whom the route admits.** -/
def Attested (T : Interviews) (call : Call) (y : SideWrite) : Prop :=
  ∃ user, T.users call.caller = some user ∧ user.id = call.caller ∧ call.Admits user.role ∧ Signs call user y

theorem Attested.grows {y : SideWrite} (h : Attested T call y) (hT : Grows T T') : Attested T' call y := by
  obtain ⟨user, huser, hrest⟩ := h
  exact ⟨user, hT.users _ _ huser, hrest⟩

/-! ### The logic -/

/-- What is known of the tables, where a change of the other tables must be attested. -/
def attesting (J : Interviews → Prop) (call : Call) : Logic Effect Exc Interviews where
  pre o T := ∀ y, o.sideWrite = some y → Attested T call y
  step o T x T' := Grows T T' ∧ J T' ∧ ∀ y, x = .ok y → Reports T' o y

/-- The effects that are attested from `T` on. -/
def Testifies (T : Interviews) (call : Call) (β : Type) (o : Effect β) : Prop :=
  ∀ y, o.sideWrite = some y → Attested T call y

/-- What is in the name of the user is attested. -/
def Vouches (T : Interviews) (call : Call) (user : User) : Prop :=
  ∀ y, Signs call user y → Attested T call y

theorem Vouches.scribes (h : Vouches T call user) : Scribes (Testifies T call) user call.Logs where
  muted := by
    intro β o ho y hy
    refine h y ?_
    cases o with
    | stageSide x =>
      obtain rfl : x = y := Option.some.inj hy
      cases x with
      | insertAudit a => cases ho
      | setResponse x u st => cases ho
      | _ => trivial
    | _ => cases hy
  stage := fun _ _ hy => by cases hy
  audit := by
    intro action r metadata hL y hy
    obtain rfl := Option.some.inj hy
    exact h _ ⟨⟨rfl, rfl⟩, hL⟩

theorem Vouches.response (h : Vouches T call user) {x u : Id} {st : ResponseStatus}
    (hanswers : call.Answers x u st) : Testifies T call Unit (.stageSide (.setResponse x u st)) := by
  intro y hy
  obtain rfl := Option.some.inj hy
  exact h _ hanswers

theorem wp_testifies {α : Type} {p : M α} (hp : p.Uses (Testifies T call)) :
    wp (attesting J call) p Anyway T := by
  refine wp_mono (wp_uses (L := attesting J call) (I := fun T' => Grows T T') hp
    (fun o T' ho hT y hy => (ho y hy).grows hT) (fun o _ T' x T'' hT hstep => hT.trans hstep.1) (.refl T)) ?_
  exact fun _ _ _ => trivial

/-- The caller is looked up first. -/
theorem wp_bind_caller {α : Type} (hJ : ∀ T, J T → WellFormed T) {f : User → M α}
    (hf : ∀ user T', T'.users call.caller = some user → user.id = call.caller →
      wp (attesting J call) (f user) Anyway T') :
    wp (attesting J call) (getCurrentUser call.caller >>= f) Anyway T := by
  refine wp_bind (wp_bind (wp_perform ?_ ?_))
  · rintro y hy
    cases hy
  · rintro (e | x) T' ⟨hT, hJ', htells⟩
    · trivial
    · obtain ⟨n, db, rfl, rfl⟩ := htells x rfl
      refine wp_orRaise (fun _ => trivial) fun user huser => ?_
      exact hf user _ huser ((hJ _ hJ').user_id _ _ huser)

/-- A route that admits one role. -/
theorem attested_roleRoute {α : Type} (call : Call) (hJ : ∀ T, J T → WellFormed T) {role : Role}
    (hrole : call.Admits role) {f : User → M α}
    (hf : ∀ user T', Vouches T' call user → user.id = call.caller → (f user).Uses (Testifies T' call)) :
    wp (attesting J call) (getCurrentUser call.caller >>= fun user => requireRole user role >>= fun _ => f user)
      Anyway T := by
  refine wp_bind_caller hJ fun user T' huser hid => ?_
  refine wp_bind (wp_raiseIf (fun _ => trivial) fun h => ?_)
  have heq : user.role = role := not_not.mp h
  have hadmits : call.Admits user.role := heq ▸ hrole
  exact wp_testifies (hf user T' (fun y hy => ⟨user, huser, hid, hadmits, hy⟩) hid)

/-- A route for an administrator and the candidate of the request. -/
theorem attested_ownerRoute {α : Type} (call : Call) (hJ : ∀ T, J T → WellFormed T)
    (hrole : ∀ role, role ≠ .panelist → call.Admits role) {f : User → M α}
    (hf : ∀ user T', Vouches T' call user → (f user).Uses (Testifies T' call)) :
    wp (attesting J call)
      (getCurrentUser call.caller >>= fun user => adminOrOwningCandidate user r >>= fun _ => f user)
      Anyway T := by
  refine wp_bind_caller hJ fun user T' huser hid => ?_
  by_cases hpanelist : user.role = .panelist
  · have hthrow : adminOrOwningCandidate user r = throw (.ofClass .forbiddenError) := by
      unfold adminOrOwningCandidate
      rw [hpanelist]
    rw [hthrow]
    trivial
  · have hvouches : Vouches T' call user := fun y hy => ⟨user, huser, hid, hrole _ hpanelist, hy⟩
    refine wp_testifies (uses_bind ?_ fun _ => hf user T' hvouches)
    exact muted_adminOrOwningCandidate hvouches.scribes.muted

/-! ### Every handler -/

/-- **Every handler writes in the name of its caller.** -/
theorem attested_handle (hJ : ∀ T, J T → WellFormed T) (call : Call) :
    wp (attesting J call) (handle pf call) Anyway T := by
  cases call with
  | createRequest u data =>
    refine attested_roleRoute (.createRequest u data) hJ rfl fun user T' hv _ => uses_map ?_
    exact scribes_createRequest hv.scribes fun _ => rfl
  | updateRequest u r data =>
    refine attested_roleRoute (.updateRequest u r data) hJ rfl fun user T' hv _ => uses_map ?_
    exact scribes_updateRequest hv.scribes (fun ids hids u hu => hv.response ⟨rfl, ⟨ids, hids, hu⟩, rfl⟩)
      ⟨rfl, rfl⟩
  | submit u r data =>
    refine attested_roleRoute (.submit u r data) hJ rfl fun user T' hv _ => ?_
    exact uses_bind (muted_validate hv.scribes.muted) fun _ => uses_map (scribes_submit hv.scribes ⟨rfl, rfl⟩)
  | generate u r =>
    refine attested_ownerRoute (.generate u r) hJ (fun _ h => h) fun user T' hv => uses_map ?_
    exact scribes_generate hv.scribes ⟨by decide, rfl⟩ ⟨by decide, rfl⟩
  | book u r slotId =>
    refine attested_ownerRoute (.book u r slotId) hJ (fun _ h => h) fun user T' hv => uses_map ?_
    exact scribes_book hv.scribes ⟨rfl, rfl⟩
  | decline u r reason =>
    refine attested_roleRoute (.decline u r reason) hJ rfl fun user T' hv hid => uses_map ?_
    exact scribes_decline hv.scribes (hv.response ⟨rfl, hid, rfl⟩) ⟨by decide, rfl⟩ ⟨by decide, rfl⟩
      ⟨by decide, rfl⟩
  | reschedule u r reason =>
    refine attested_ownerRoute (.reschedule u r reason) hJ (fun _ h => h) fun user T' hv => uses_map ?_
    exact scribes_reschedule hv.scribes ⟨by decide, rfl⟩ ⟨by decide, rfl⟩ ⟨by decide, rfl⟩
  | cancel u r reason =>
    refine attested_roleRoute (.cancel u r reason) hJ rfl fun user T' hv _ => uses_map ?_
    exact scribes_cancel hv.scribes ⟨rfl, rfl⟩
  | recordOutcome u r outcome notes =>
    refine attested_roleRoute (.recordOutcome u r outcome notes) hJ rfl fun user T' hv _ => uses_map ?_
    exact scribes_recordOutcome hv.scribes ⟨rfl, rfl⟩
  | createNextRound u r data =>
    refine attested_roleRoute (.createNextRound u r data) hJ rfl fun user T' hv _ => uses_map ?_
    exact scribes_createNextRound hv.scribes fun _ => rfl

end InterviewScheduler.Interviews
