import InterviewScheduler.Interviews.Footprint
import InterviewScheduler.Interviews.Warrants

/-! # Every handler has a warrant for what it writes

A write is warranted when the caller may ask for it, when it is about the request of the call, and when
what is stored supports it. Each handler is followed to its writes, with what it has read on the way; the
parts that stage nothing are passed over. -/

namespace InterviewScheduler.Interviews

open InterviewScheduler.Engine InterviewScheduler.Core InterviewScheduler.Effects
open InterviewScheduler.Lifecycle (WellFormed)
open InterviewScheduler.Booking (Part Parts)

variable {pf : Platform} {T T' : Interviews} {J : Interviews → Prop}

/-! ### Who may call -/

/-- The user of the access token. -/
def Call.caller : Call → Id
  | .createRequest userId _ => userId
  | .updateRequest userId _ _ => userId
  | .submit userId _ _ => userId
  | .generate userId _ => userId
  | .book userId _ _ => userId
  | .decline userId _ _ => userId
  | .reschedule userId _ _ => userId
  | .cancel userId _ _ => userId
  | .recordOutcome userId _ _ _ => userId
  | .createNextRound userId _ _ => userId

/-- The request of the path. -/
def Call.about : Call → Option Id
  | .createRequest _ _ => none
  | .updateRequest _ requestId _ => some requestId
  | .submit _ requestId _ => some requestId
  | .generate _ requestId => some requestId
  | .book _ requestId _ => some requestId
  | .decline _ requestId _ => some requestId
  | .reschedule _ requestId _ => some requestId
  | .cancel _ requestId _ => some requestId
  | .recordOutcome _ requestId _ _ => some requestId
  | .createNextRound _ requestId _ => some requestId

/-- The user is the candidate of the request. -/
def Owns (T : Interviews) (user : User) (r : Id) : Prop :=
  ∃ row, T.requests r = some row ∧ row.candidateId = user.id

/-- The user is an administrator, or the candidate of the request. -/
def Manages (T : Interviews) (user : User) (r : Id) : Prop :=
  user.role = .admin ∨ (user.role = .candidate ∧ Owns T user r)

/-- What is asked of the user of a call. -/
def Call.Allows (T : Interviews) (user : User) : Call → Prop
  | .submit _ r _ => user.role = .candidate ∧ Owns T user r
  | .generate _ r => Manages T user r
  | .book _ r _ => Manages T user r
  | .reschedule _ r _ => Manages T user r
  | .decline _ _ _ => user.role = .panelist
  | _ => user.role = .admin

/-- **The caller may ask for it.** -/
def Entitled (T : Interviews) (call : Call) : Prop :=
  ∃ user, T.users call.caller = some user ∧ call.Allows T user

theorem Owns.grows {user : User} {r : Id} (h : Owns T user r) (hT : Grows T T') : Owns T' user r := by
  obtain ⟨row, hrow, hc⟩ := h
  obtain ⟨row', hrow', heq⟩ := hT.requests r row hrow
  exact ⟨row', hrow', (InterviewRequest.of_origin heq).2.1.trans hc⟩

theorem Manages.grows {user : User} {r : Id} (h : Manages T user r) (hT : Grows T T') :
    Manages T' user r :=
  h.imp_right fun h => ⟨h.1, h.2.grows hT⟩

theorem Entitled.grows {call : Call} (h : Entitled T call) (hT : Grows T T') : Entitled T' call := by
  obtain ⟨user, huser, hallows⟩ := h
  refine ⟨user, hT.users _ _ huser, ?_⟩
  cases call with
  | submit u r data => exact ⟨hallows.1, hallows.2.grows hT⟩
  | generate u r => exact Manages.grows hallows hT
  | book u r slotId => exact Manages.grows hallows hT
  | reschedule u r reason => exact Manages.grows hallows hT
  | _ => exact hallows

/-! ### What a write is about -/

/-- The write is about the request `r`. -/
def Concerns (T : Interviews) (r : Id) : Write → Prop
  | .insertRequest _ _ => False
  | .setStatus x _ => x = r
  | .setOutcome x _ _ => x = r
  | .setDetails x _ _ _ => x = r
  | .replacePanelists x _ => x = r
  | .insertAvailability a => a.interviewRequestId = r
  | .insertRun run => run.interviewRequestId = r
  | .selectSlot s => ∃ run ∈ T.runs, run.interviewRequestId = r ∧ ∃ slot ∈ run.slots, slot.id = s
  | .insertEvent e => e.interviewRequestId = r
  | .cancelEvent i => ∃ e ∈ T.events, e.interviewRequestId = r ∧ e.id = i

theorem Concerns.grows {r : Id} {y : Write} (h : Concerns T r y) (hT : Grows T T') : Concerns T' r y := by
  cases y with
  | selectSlot s =>
    obtain ⟨run, hrun, hr, slot, hslot, hs⟩ := h
    obtain ⟨run', hrun', heq⟩ := hT.runs run hrun
    obtain ⟨slot', hslot', hoffer⟩ := RecommendationRun.exists_offer heq hslot
    exact ⟨run', hrun', (RecommendationRun.of_proposal heq).2.1.trans hr, slot', hslot',
      (RecommendedSlot.of_offer hoffer).1.trans hs⟩
  | cancelEvent i =>
    obtain ⟨e, he, hr, hi⟩ := h
    obtain ⟨e', he', heq, -⟩ := hT.events e he
    obtain ⟨hid, hreq, -⟩ := InterviewEvent.of_booking heq
    exact ⟨e', he', hreq.trans hr, hid.trans hi⟩
  | _ => exact h

/-- The request of the call exists whenever the call looks. -/
def Call.Named (J : Interviews → Prop) (call : Call) : Prop :=
  ∀ T r, J T → call.about = some r → T.requests r ≠ none

/-- **What a call has a warrant for.** -/
structure Warranted (pf : Platform) (J : Interviews → Prop) (call : Call) (T : Interviews)
    (y : Write) : Prop where
  entitled : call.Named J → Entitled T call
  concerns : (∃ row ps, y = .insertRequest row ps) ∨ ∃ r, call.about = some r ∧ Concerns T r y
  supported : Supported pf T y

theorem Warranted.grows {call : Call} {y : Write} (h : Warranted pf J call T y) (hT : Grows T T') :
    Warranted pf J call T' y where
  entitled hn := (h.entitled hn).grows hT
  concerns := h.concerns.imp_right fun ⟨r, hr, hy⟩ => ⟨r, hr, hy.grows hT⟩
  supported := h.supported.grows hT

/-- The caller is known to be entitled, and to what request the call is. -/
structure Licence (J : Interviews → Prop) (call : Call) (r : Id) (T : Interviews) : Prop where
  about : call.about = some r
  entitled : call.Named J → Entitled T call

theorem Licence.grows {call : Call} {r : Id} (h : Licence J call r T) (hT : Grows T T') :
    Licence J call r T' :=
  ⟨h.about, fun hn => (h.entitled hn).grows hT⟩

/-- A warranted write may be staged at any later time. -/
theorem justified_warranted {call : Call} {y : Write} (h : Warranted pf J call T y) :
    Justified (Warranted pf J call) T Unit (.stage y) :=
  justified_stage fun _ hT => h.grows hT

theorem Licence.justified {call : Call} {r : Id} (h : Licence J call r T) {y : Write}
    (hy : Concerns T r y) (hs : Supported pf T y) : Justified (Warranted pf J call) T Unit (.stage y) :=
  justified_warranted ⟨h.entitled, .inr ⟨r, h.about, hy⟩, hs⟩

/-! ### How the handlers begin -/

section Begin

variable {S : Interviews → Write → Prop} {β : Type} {user : User} {u r : Id}

theorem attends_justified : Attends (Justified S T) where
  internal := justified_ordinary.internal
  setNx _ _ _ := justified_of_staged rfl
  release _ _ := justified_of_staged rfl

theorem wp_bind_user {f : User → M β}
    (hf : ∀ user T', Grows T T' → J T' → T'.users u = some user →
      wp (knowing J S) (f user) Anyway T') :
    wp (knowing J S) (getCurrentUser u >>= f) Anyway T := by
  refine wp_bind (wp_bind (wp_knows (justified_of_staged rfl) (fun _ _ _ _ => trivial)
    fun x T' hT hJ hx => ?_))
  obtain ⟨n, db, rfl, rfl⟩ := hx
  exact wp_orRaise (fun _ => trivial) fun user huser => hf user _ hT hJ huser

theorem wp_bind_load {f : InterviewRequest → M β}
    (hf : ∀ row T', Grows T T' → J T' → Recalls T' r row → wp (knowing J S) (f row) Anyway T') :
    wp (knowing J S) (load r >>= f) Anyway T := by
  refine wp_bind (wp_bind (wp_knows (justified_of_staged rfl) (fun _ _ _ _ => trivial)
    fun x T' hT hJ hx => ?_))
  refine wp_orRaise (fun _ => trivial) fun row hrow => ?_
  subst hrow
  exact hf row T' hT hJ hx

/-- An administrator passes, and the candidate of the request. A request that is not there passes as
well: the service will not find it. -/
theorem wp_bind_owner {f : Unit → M β}
    (hf : ∀ T', Grows T T' → ((∀ T₁, J T₁ → T₁.requests r ≠ none) → Manages T' user r) →
      wp (knowing J S) (f ()) Anyway T') :
    wp (knowing J S) (adminOrOwningCandidate user r >>= f) Anyway T := by
  unfold adminOrOwningCandidate
  split
  · next hrole => exact wp_bind (wp_pure (hf T (.refl T) fun _ => .inl hrole))
  · next hrole =>
    refine wp_bind (wp_bind (wp_knows (justified_of_staged rfl) (fun _ _ _ _ => trivial)
      fun x T₁ h₁ hJ₁ hx => ?_))
    refine wp_bind (wp_knows (justified_of_staged rfl) (fun _ _ _ _ => trivial) fun _ T₂ h₂ _ _ => ?_)
    refine wp_raiseIf (fun _ => trivial) fun hown => hf T₂ (h₁.trans h₂) fun hnamed => ?_
    refine .inr ⟨hrole, Owns.grows ?_ h₂⟩
    cases x with
    | none => exact absurd hx (hnamed T₁ hJ₁)
    | some row =>
      obtain ⟨row', hrow', heq⟩ := hx
      exact ⟨row', hrow', (InterviewRequest.of_origin heq).2.1.trans (by simpa using hown)⟩
  · exact wp_bind (wp_throw trivial)

end Begin

/-! ### Users -/

section Users

variable {β : Type} {S : Interviews → Write → Prop} {ids : List Id}

/-- An id that is not missing is that of a user. -/
theorem exists_of_missingIds {wanted : List Id} (hT : WellFormed T)
    (h : missingIds wanted (wanted.filterMap T.users) = []) {u : Id} (hu : u ∈ wanted) :
    ∃ user, T.users u = some user := by
  have hperm := List.mergeSort_perm (wanted.dedup.filter fun u =>
    (wanted.filterMap T.users).all fun row => row.id ≠ u) (· ≤ ·)
  unfold missingIds at h
  rw [h] at hperm
  by_contra hnone
  have hmem : u ∈ wanted.dedup.filter fun u =>
      (wanted.filterMap T.users).all fun row => row.id ≠ u := by
    refine List.mem_filter.mpr ⟨List.mem_dedup.mpr hu, List.all_eq_true.mpr fun row hrow => ?_⟩
    obtain ⟨v, -, hv⟩ := List.mem_filterMap.mp hrow
    have hid := hT.user_id v row hv
    rw [decide_eq_true_eq]
    rintro rfl
    exact hnone ⟨row, hid ▸ hv⟩
  simpa using hperm.mem_iff.mpr hmem

/-- The found users with an id have the role, unless one of them has another one. -/
theorem hasRole_of_found {wanted : List Id} (hT : WellFormed T)
    (h : missingIds wanted (wanted.filterMap T.users) = []) {u : Id} (hu : u ∈ wanted) {role : Role}
    (hrole : ¬ (wanted.filterMap T.users).any fun row => row.id = u ∧ row.role ≠ role) :
    HasRole T u role := by
  obtain ⟨user, huser⟩ := exists_of_missingIds hT h hu
  refine ⟨user, huser, ?_⟩
  by_contra hne
  refine hrole (List.any_eq_true.mpr ⟨user, List.mem_filterMap.mpr ⟨u, hu, huser⟩, ?_⟩)
  simpa [hT.user_id u user huser] using hne

theorem hasRole_of_wrongRole {wanted : List Id} (hT : WellFormed T)
    (h : missingIds wanted (wanted.filterMap T.users) = []) (hsub : ∀ u ∈ ids, u ∈ wanted)
    (hwrong : wrongRole ids (wanted.filterMap T.users) = []) : ∀ u ∈ ids, HasRole T u .panelist := by
  intro u hu
  refine hasRole_of_found hT h (hsub u hu) fun hany => ?_
  have hmem : u ∈ wrongRole ids (wanted.filterMap T.users) := List.mem_filter.mpr ⟨hu, hany⟩
  rw [hwrong] at hmem
  simp at hmem

variable (hJ : ∀ T, J T → WellFormed T)

include hJ

theorem wp_bind_getUsers {f : List User → M β}
    (hf : ∀ T', Grows T T' → (ids ≠ [] → WellFormed T') →
      wp (knowing J S) (f (ids.filterMap T'.users)) Anyway T') :
    wp (knowing J S) (getUsers ids >>= f) Anyway T := by
  unfold getUsers
  by_cases hids : ids = []
  · rw [if_pos hids]
    have hnil := hf T (.refl T) (absurd hids)
    rw [hids] at hnil
    exact wp_bind (wp_pure hnil)
  · rw [if_neg hids]
    refine wp_bind_knows (justified_of_staged rfl) fun x T' hT hJ' hx => ?_
    obtain ⟨n, db, rfl, rfl⟩ := hx
    exact hf _ hT fun _ => hJ _ hJ'

theorem wp_bind_resolveRoles {candidateId : Option Id} {f : Unit → M β}
    (hf : ∀ T', Grows T T' → (∀ c, candidateId = some c → HasRole T' c .candidate) →
      (∀ u ∈ ids, HasRole T' u .panelist) → wp (knowing J S) (f ()) Anyway T') :
    wp (knowing J S) (resolveRoles candidateId ids >>= f) Anyway T := by
  refine wp_bind ?_
  change wp (knowing J S) (getUsers (candidateId.toList ++ ids) >>= _) _ T
  have hsub : ∀ u ∈ ids, u ∈ candidateId.toList ++ ids := fun u hu => List.mem_append_right _ hu
  refine wp_mono (Q := Then (knowing J S) f Anyway) ?_ fun _ _ h => h
  unfold getUsers
  by_cases hids : candidateId.toList ++ ids = []
  · rw [if_pos hids]
    obtain ⟨hc, rfl⟩ := List.append_eq_nil_iff.mp hids
    refine wp_bind (wp_pure ?_)
    refine wp_bind (wp_raiseIf (fun _ => trivial) fun _ => ?_)
    refine wp_bind (wp_raiseIf (fun _ => trivial) fun _ => ?_)
    refine wp_raiseIf (fun _ => trivial) fun _ => hf T (.refl T) (fun c hc' => ?_) (by simp)
    simp [hc'] at hc
  · rw [if_neg hids]
    refine wp_bind (wp_knows (justified_of_staged rfl) (fun _ _ _ _ => trivial) fun x T' hT hJ' hx => ?_)
    obtain ⟨n, db, rfl, rfl⟩ := hx
    have hwf := hJ _ hJ'
    refine wp_bind (wp_raiseIf (fun _ => trivial) fun hmissing => ?_)
    refine wp_bind (wp_raiseIf (fun _ => trivial) fun hcand => ?_)
    refine wp_raiseIf (fun _ => trivial) fun hwrong => ?_
    have hmissing := not_not.mp hmissing
    refine hf _ hT (fun c hc => ?_) (hasRole_of_wrongRole hwf hmissing hsub (not_not.mp hwrong))
    subst hc
    exact hasRole_of_found hwf hmissing (by simp) fun hany => hcand (by simpa using hany)

end Users

end InterviewScheduler.Interviews
