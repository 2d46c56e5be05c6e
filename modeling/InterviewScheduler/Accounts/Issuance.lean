import InterviewScheduler.Accounts.Rows
import InterviewScheduler.Accounts.Spec

/-! # What one issuance does

`issue_for_request` alone, from its empty session: every round rotates the invitation of one participant,
or leaves one that was answered; the commit makes what all rounds did, and nothing is made otherwise. -/

namespace InterviewScheduler.Accounts

open InterviewScheduler.Intervals InterviewScheduler.Engine InterviewScheduler.Effects
open InterviewScheduler.Core (Id RoleInInterview NotificationStatus InterviewRequest
  InterviewParticipant inSomeOrder inSomeOrder_perm)

/-! ### The rows that are there -/

/-- The constraints hold, and the rows were made from ids and tokens that were drawn. -/
structure Covered (pf : Platform) (T : Tables) (w : World) : Prop where
  proper : T.Proper
  drawn : ∀ x ∈ T.invitations, x.id ∈ w.drawn
  minted : ∀ x ∈ T.invitations, ∃ raw ∈ w.minted, x.tokenHash = pf.sha256Hex raw

section Covered

variable {pf : Platform} {T T' : Tables} {w w' : World} {r u : Id} {sent : ParticipantInvitation}

theorem Covered.made (h : Covered pf T w) (hm : Made w T' w') : Covered pf T w' := by
  refine ⟨h.proper, fun x hx => hm.drawn _ (h.drawn x hx), fun x hx => ?_⟩
  obtain ⟨raw, hraw, heq⟩ := h.minted x hx
  exact ⟨raw, hm.minted raw hraw, heq⟩

/-- The hash of a fresh token is not in the table. -/
theorem Covered.fresh (h : Covered pf T w) (hinj : Function.Injective pf.sha256Hex) {raw : String}
    (hraw : raw ∉ w.minted) : ∀ x ∈ T.invitations, x.tokenHash ≠ pf.sha256Hex raw := by
  intro x hx heq
  obtain ⟨raw', hraw', heq'⟩ := h.minted x hx
  rw [hinj (heq.symm.trans heq')] at hraw
  exact hraw hraw'

theorem Covered.rotated (h : Covered pf T w) (hrot : Rotated T T' r u sent) (hT' : T'.Proper)
    (hdrawn : sent.id ∈ w.drawn) (hminted : ∃ raw ∈ w.minted, sent.tokenHash = pf.sha256Hex raw) :
    Covered pf T' w := by
  refine ⟨hT', fun x hx => ?_, fun x hx => ?_⟩
  · rcases (hrot.mem x).mp hx with rfl | ⟨hx, -⟩
    · exact hdrawn
    · exact h.drawn x hx
  · rcases (hrot.mem x).mp hx with rfl | ⟨hx, -⟩
    · exact hminted
    · exact h.minted x hx

end Covered

/-- The session works, and a commit would make `T`. -/
structure Ready (s : Session) (w : World) (T : Tables) : Prop where
  invalid : s.invalid = false
  virtual : s.virtual w = some T

theorem Ready.later {s : Session} {w w' : World} {T : Tables} (h : Ready s w T) (hdb : w'.db = w.db) :
    Ready s w' T := by
  refine ⟨h.invalid, ?_⟩
  unfold Session.virtual
  rw [hdb]
  exact h.virtual

theorem Ready.flushed {s : Session} {w : World} {T : Tables} (h : Ready s w T) :
    Ready s.flushed w T :=
  ⟨h.invalid, h.virtual⟩

theorem Ready.stage {s : Session} {w : World} {T : Tables} (h : Ready s w T) {y : Write}
    (hy : y.violates T = false) : Ready (s.stage y) w (y.apply T) :=
  ⟨h.invalid, virtual_stage_of h.virtual hy⟩

theorem Tables.SameSetup.refl (T : Tables) : T.SameSetup T := ⟨rfl, rfl, rfl⟩

theorem Tables.SameSetup.trans {T T' T'' : Tables} (h : T.SameSetup T') (h' : T'.SameSetup T'') :
    T.SameSetup T'' :=
  ⟨h'.users.trans h.users, h'.requests.trans h.requests, h'.participants.trans h.participants⟩

theorem Tables.SameSetup.user {T T' : Tables} (h : T.SameSetup T') (u : Id) : T'.user u = T.user u := by
  unfold Tables.user
  rw [h.users]

variable (pf : Platform)

/-! ### The flush of a row -/

theorem violates_insertInvitation {T : Tables} {row : ParticipantInvitation}
    (hrequest : (T.requests row.interviewRequestId).isSome) (huser : (T.user row.userId).isSome)
    (h : ∀ x ∈ T.invitations,
      x.id ≠ row.id ∧ x.tokenHash ≠ row.tokenHash ∧ ¬ x.For row.interviewRequestId row.userId) :
    (Write.insertInvitation row).violates T = false := by
  unfold Write.violates
  simp only [Bool.or_eq_false_iff, List.any_eq_false]
  refine ⟨⟨?_, ?_⟩, fun x hx => ?_⟩
  · simpa using hrequest
  · simpa using huser
  · simpa using h x hx

theorem violates_updateInvitation {T : Tables} {loaded row : ParticipantInvitation}
    (h : row.tokenHash ≠ loaded.tokenHash → ∀ x ∈ T.invitations, x.tokenHash ≠ row.tokenHash) :
    (Write.updateInvitation loaded row).violates T = false := by
  unfold Write.violates
  rw [List.any_eq_false]
  intro x hx
  simp only [decide_eq_true_eq, not_and]
  intro _ hne
  exact h hne x hx

/-- The invitation of a participant has a new token and is open. -/
structure Renewed (T T' : Tables) (r u : Id) (tokenHash : String) (row : ParticipantInvitation) :
    Prop where
  rotated : Rotated T T' r u row
  proper : T'.Proper
  tokenHash : row.tokenHash = tokenHash
  status : row.status = .pending
  sendCount : row.sendCount = ((T.invitationFor r u).map fun x => x.sendCount).getD 0
  setup : T.SameSetup T'

/-- The write that `repository.apply` leads to. -/
def rowWrite : Option ParticipantInvitation → ParticipantInvitation → Write
  | none, row => .insertInvitation row
  | some loaded, row => .updateInvitation loaded row

theorem renewed_of_write {existing : Option ParticipantInvitation} {id requestId userId : Id}
    {role : RoleInInterview} {tokenHash : String} {setup : Bool} {expiresAt : Instant} {T : Tables}
    (hT : T.Proper) (hexisting : T.invitationFor requestId userId = existing)
    (hy : (rowWrite existing (apply existing id requestId userId role tokenHash setup
      expiresAt)).violates T = false) :
    Renewed T ((rowWrite existing (apply existing id requestId userId role tokenHash setup
      expiresAt)).apply T) requestId userId tokenHash
        (apply existing id requestId userId role tokenHash setup expiresAt) := by
  cases existing with
  | none =>
    refine ⟨rotated_insert hy ⟨rfl, rfl⟩, proper_insertInvitation hT hy, rfl, rfl, ?_, ⟨rfl, rfl, rfl⟩⟩
    rw [hexisting]
    rfl
  | some loaded =>
    obtain ⟨hmem, hfor⟩ := Tables.mem_of_invitationFor hexisting
    refine ⟨rotated_update hT hmem hfor ⟨rfl, rfl, rfl, rfl⟩, proper_updateInvitation hT hy, rfl, rfl, ?_,
      ⟨rfl, rfl, rfl⟩⟩
    rw [hexisting]
    rfl

/-- A new row has an id that is drawn for it. -/
theorem wp_flushRow_of {C : Condition Effect Choice Session World}
    {existing : Option ParticipantInvitation} {requestId : Id} {participant : InterviewParticipant}
    {user : User} {tokenHash : String} {expiresAt : Instant} {s : Session} {w : World}
    {Q : Except Exc ParticipantInvitation → Session × World → Prop}
    (h : ∀ id w', Kept w w' → w'.outbox = w.outbox →
      (∀ loaded, existing = some loaded → id = loaded.id) →
      (existing = none → id ∉ w.drawn ∧ id ∈ w'.drawn) →
      ∀ row, row = apply existing id requestId user.id participant.roleInInterview tokenHash
        user.passwordHash.isNone expiresAt →
      wp (follow C) (do
        dbAdd (rowWrite existing row)
        dbFlush
        pure row) Q (s, w')) :
    wp (follow C) (flushRow existing requestId participant user tokenHash expiresAt) Q (s, w) := by
  unfold flushRow
  cases existing with
  | none =>
    apply wp_bind
    apply wp_newId
    intro id w₁ hid hw₁
    refine h id _ ((Kept.refl w).draw hw₁ id) hw₁.outbox ?_ ?_ _ rfl
    · intro loaded heq
      cases heq
    · intro _
      exact ⟨hid, List.mem_cons_self⟩
  | some loaded =>
    refine h loaded.id w (Kept.refl w) rfl ?_ ?_ _ rfl
    · intro _ heq
      cases heq
      rfl
    · intro heq
      cases heq

theorem wp_flushRow {existing : Option ParticipantInvitation} {requestId : Id}
    {participant : InterviewParticipant} {user : User} {tokenHash : String} {expiresAt : Instant}
    {s : Session} {w : World} {T : Tables} (hs : Ready s w T) (hT : T.Proper)
    (hdrawn : ∀ x ∈ T.invitations, x.id ∈ w.drawn)
    (hfresh : ∀ x ∈ T.invitations, x.tokenHash ≠ tokenHash)
    (hrequest : (T.requests requestId).isSome) (huser : (T.user user.id).isSome)
    (hexisting : T.invitationFor requestId user.id = existing)
    {Q : Except Exc ParticipantInvitation → Session × World → Prop}
    (hok : ∀ row s' w' T', Renewed T T' requestId user.id tokenHash row → Ready s' w' T' →
      Kept w w' → row.id ∈ w'.drawn → Q (.ok row) (s', w'))
    (herr : ∀ s' w', Kept w w' → Q (.error .databaseError) (s', w')) :
    wp (follow Alone) (flushRow existing requestId participant user tokenHash expiresAt) Q (s, w) := by
  apply wp_flushRow_of
  intro id w₁ hk₁ _ hsome hnone row hrow
  have hy : (rowWrite existing row).violates T = false := by
    subst hrow
    cases existing with
    | none =>
      refine violates_insertInvitation hrequest huser fun x hx => ⟨fun h => ?_, hfresh x hx, ?_⟩
      · rw [← show x.id = id from h] at hnone
        exact (hnone rfl).1 (hdrawn x hx)
      · exact Tables.invitationFor_eq_none.mp hexisting x hx
    | some loaded => exact violates_updateInvitation fun _ => hfresh
  have hid : row.id ∈ w₁.drawn := by
    subst hrow
    cases existing with
    | none => exact (hnone rfl).2
    | some loaded => exact hk₁.drawn _ (hdrawn loaded (Tables.mem_of_invitationFor hexisting).1)
  have hrenewed : Renewed T ((rowWrite existing row).apply T) requestId user.id tokenHash row := by
    subst hrow
    exact renewed_of_write hT hexisting hy
  apply wp_bind
  apply wp_stage
  intro w₂ hw₂
  have hk₂ := hk₁.later hw₂
  have hready := (hs.later hk₂.db).stage hy
  apply wp_bind
  apply wp_calmFlush hready.invalid
  · intro T' w₃ _ hw₃
    exact hok row _ w₃ _ hrenewed (hready.later hw₃.db).flushed (hk₂.later hw₃)
      (hw₃.kept.drawn _ (hw₂.kept.drawn _ hid))
  · intro w₃ hw₃
    exact herr _ _ (hk₂.later hw₃)
  · intro w₃ hnone _
    rw [hready.virtual] at hnone
    cases hnone

/-! ### The e-mail -/

/-- Whether the e-mail leaves or not, the issuance goes on. -/
theorem wp_sendInviteEmail {C : Condition Effect Choice Session World} {user : User}
    {request : InterviewRequest} {rawToken : String} {s : Session} {w : World}
    {Q : Except Exc NotificationStatus → Session × World → Prop}
    (h : ∀ st w' new, Kept w w' → w'.outbox = w.outbox ++ new →
      (∀ msg ∈ new, msg.recipient = user.email ∧ msg.url.rawToken = rawToken) → Q (.ok st) (s, w')) :
    wp (follow C) (sendInviteEmail pf user request rawToken) Q (s, w) := by
  unfold sendInviteEmail
  apply wp_ite
  · intro _
    apply wp_tryCatch
    apply wp_bind
    apply wp_sendMail
    · intro w' hw
      refine h _ _ _ ⟨hw.db, hw.now, hw.kept.minted, hw.kept.drawn⟩ rfl fun msg hmsg => ?_
      obtain rfl := List.mem_singleton.mp hmsg
      exact ⟨rfl, rfl⟩
    · intro w' hw
      refine h _ _ [] hw.kept ?_ fun msg hmsg => absurd hmsg List.not_mem_nil
      rw [hw.outbox, List.append_nil]
  · intro _
    refine h _ _ [] (Kept.refl w) ?_ fun msg hmsg => absurd hmsg List.not_mem_nil
    rw [List.append_nil]

/-! ### One round -/

/-- The row after the e-mail. -/
def ParticipantInvitation.marked (row : ParticipantInvitation) (deliveryStatus : NotificationStatus)
    (t : Instant) : ParticipantInvitation :=
  { row with deliveryStatus := some deliveryStatus, sentAt := some t, sendCount := row.sendCount + 1 }

theorem samePlace_marked (row : ParticipantInvitation) (st : NotificationStatus) (t : Instant) :
    row.SamePlace (row.marked st t) :=
  ⟨rfl, rfl, rfl, rfl⟩

theorem violates_marked (T : Tables) (row : ParticipantInvitation) (st : NotificationStatus)
    (t : Instant) : (Write.updateInvitation row (row.marked st t)).violates T = false :=
  violates_updateInvitation fun hne => absurd rfl hne

/-- The issuance to a participant whose invitation was not answered. -/
structure Issued (r : Id) (T : Tables) (summary : InvitationSummary) (T' : Tables) : Prop where
  live : ∀ row, T.invitationFor r summary.userId = some row → ¬ row.status.Terminal
  rotated : ∃ sent, Rotated T T' r summary.userId sent ∧
    sent.tokenHash = pf.sha256Hex summary.inviteUrl.rawToken ∧ sent.status = .pending ∧
      sent.sendCount = ((T.invitationFor r summary.userId).map fun x => x.sendCount).getD 0 + 1
  proper : T'.Proper
  setup : T.SameSetup T'

theorem wp_issueForParticipant (hinj : Function.Injective pf.sha256Hex) {actor : User} {requestId : Id}
    {request : InterviewRequest} {expiresAt : Instant} {part : InterviewParticipant × User} {s : Session}
    {w : World} {T : Tables} (hs : Ready s w T) (hc : Covered pf T w)
    (hrequest : (T.requests requestId).isSome) (huser : (T.user part.2.id).isSome)
    (hseen : w.db.invitationFor requestId part.2.id = T.invitationFor requestId part.2.id)
    {Q : Except Exc (Option InvitationSummary) → Session × World → Prop}
    (hskip : ∀ row s' w', T.invitationFor requestId part.2.id = some row → row.status.Terminal →
      Ready s' w' T → Kept w w' → Covered pf T w' → Q (.ok none) (s', w'))
    (hissued : ∀ summary s' w' T', summary.userId = part.2.id → Issued pf requestId T summary T' →
      Ready s' w' T' → Kept w w' → Covered pf T' w' → Q (.ok (some summary)) (s', w'))
    (herr : ∀ e s' w', Kept w w' → Q (.error e) (s', w')) :
    wp (follow Alone) (issueForParticipant pf actor requestId request expiresAt part) Q (s, w) := by
  unfold issueForParticipant
  apply wp_bind
  apply wp_invitationFor hs.invalid
  case herr =>
    intro c _ _
    exact herr _ _ _ (later_elapse w c).kept
  intro c w₁ _ hw₁
  rw [hseen]
  apply wp_ite
  · intro hany
    obtain ⟨row, hrow, hterminal⟩ := (Option.any_eq_true _ _).mp hany
    exact hskip row _ w₁ hrow (of_decide_eq_true hterminal) (hs.later hw₁.db) hw₁.kept (hc.made hw₁.kept)
  · intro hlive
    apply wp_bind
    apply wp_tokenUrlsafe
    intro raw w₂ hraw hw₂
    rw [hw₁.minted] at hraw
    have hk₂ : Kept w { w₂ with minted := raw :: w₁.minted } := by
      have hk := hw₁.kept.later hw₂
      refine ⟨hk.db, hk.now, fun x hx => ?_, hk.drawn⟩
      exact List.mem_cons_of_mem raw (hw₁.kept.minted x hx)
    generalize hw₂' : ({ w₂ with minted := raw :: w₁.minted } : World) = w₂' at hk₂
    have hminted : raw ∈ w₂'.minted := by
      rw [← hw₂']
      exact List.mem_cons_self
    have hc₂ := hc.made hk₂
    apply wp_bind
    apply wp_tryCatch
    apply wp_bind
    refine wp_flushRow (hs.later hk₂.db) hc.proper hc₂.drawn (hc.fresh hinj hraw) hrequest huser rfl ?_
      fun s' w' h => herr _ s' w' (hk₂.trans h)
    intro row s₃ w₃ T₁ hrenewed hs₃ hk₃ hdrawn
    apply wp_bind
    apply wp_sendInviteEmail
    intro st w₄ _ hk₄ _ _
    apply wp_bind
    apply wp_now
    intro w₅ hw₅
    apply wp_bind
    apply wp_stage
    intro w₆ hw₆
    have hk₆ : Kept w w₆ := (((hk₂.trans hk₃).trans hk₄).later hw₅).later hw₆
    have hmem : row ∈ T₁.invitations := (hrenewed.rotated.mem row).mpr (Or.inl rfl)
    have hplace := samePlace_marked row st w₅.now
    have hy := violates_marked T₁ row st w₅.now
    have hrot := hrenewed.rotated.trans
      (rotated_update hrenewed.proper hmem hrenewed.rotated.place hplace)
    have hs₆ := (hs₃.later (((hk₄.later hw₅).later hw₆).db)).stage hy
    apply wp_bind
    refine wp_recordAudit hs₆.invalid hs₆.virtual (Kept.refl w₆) ?_
      fun e s' w' h => herr e s' w' (hk₆.trans h)
    intro s₇ w₇ hs₇ hT₇ hk₇
    have hk₇' : Kept w₃ w₇ := ((hk₄.later hw₅).later hw₆).trans hk₇
    have hk₇ := hk₆.trans hk₇
    have hcount : (row.marked st w₅.now).sendCount =
        ((T.invitationFor requestId part.2.id).map fun x => x.sendCount).getD 0 + 1 := by
      rw [← hrenewed.sendCount]
      rfl
    have hlive' : ∀ row, T.invitationFor requestId part.2.id = some row → ¬ row.status.Terminal := by
      intro row hrow hterminal
      rw [hrow] at hlive
      exact hlive (decide_eq_true hterminal)
    have hproper := proper_updateInvitation hrenewed.proper hy
    refine hissued _ s₇ w₇ _ rfl ?_ ⟨hs₇, hT₇⟩ hk₇ ?_
    · refine ⟨hlive', ⟨_, hrot.congr rfl, hrenewed.tokenHash, hrenewed.status, hcount⟩,
        hproper.congr rfl, ?_⟩
      exact ⟨hrenewed.setup.users, hrenewed.setup.requests, hrenewed.setup.participants⟩
    · refine (hc.made hk₇).rotated (hrot.congr rfl) (hproper.congr rfl) ?_ ⟨raw, ?_, hrenewed.tokenHash⟩
      · exact hk₇'.drawn _ hdrawn
      · exact hk₇'.minted _ (hk₃.minted _ hminted)

/-! ### The whole issuance -/

/-- What the rounds for a list of participants return, and what they make of the tables. -/
inductive Rounds (r : Id) : Tables → List (InterviewParticipant × User) →
    List (Option InvitationSummary) → Tables → Prop
  | nil {T} : Rounds r T [] [] T
  | skip {T part parts out T' row} (hrow : T.invitationFor r part.2.id = some row)
      (hterminal : row.status.Terminal) (hrest : Rounds r T parts out T') :
      Rounds r T (part :: parts) (none :: out) T'
  | issued {T T₁ part parts summary out T'} (hid : summary.userId = part.2.id)
      (h : Issued pf r T summary T₁) (hrest : Rounds r T₁ parts out T') :
      Rounds r T (part :: parts) (some summary :: out) T'

theorem wp_rounds (hinj : Function.Injective pf.sha256Hex) {actor : User} {requestId : Id}
    {request : InterviewRequest} {expiresAt : Instant} {parts : List (InterviewParticipant × User)}
    {s : Session} {w : World} {T : Tables} (hs : Ready s w T) (hc : Covered pf T w)
    (hrequest : (T.requests requestId).isSome) (huser : ∀ part ∈ parts, (T.user part.2.id).isSome)
    (hnodup : (parts.map (·.2.id)).Nodup)
    (hseen : ∀ part ∈ parts,
      w.db.invitationFor requestId part.2.id = T.invitationFor requestId part.2.id)
    {Q : Except Exc (List (Option InvitationSummary)) → Session × World → Prop}
    (hok : ∀ out s' w' T', Rounds pf requestId T parts out T' → T.SameSetup T' → Ready s' w' T' →
      Kept w w' → Covered pf T' w' → Q (.ok out) (s', w'))
    (herr : ∀ e s' w', Kept w w' → Q (.error e) (s', w')) :
    wp (follow Alone) (.forEach (issueForParticipant pf actor requestId request expiresAt) parts) Q
      (s, w) := by
  induction parts generalizing s w T Q with
  | nil => exact hok [] s w T .nil (.refl T) hs (Kept.refl w) hc
  | cons part parts ih =>
    have hother : ∀ p ∈ parts, p.2.id ≠ part.2.id := by
      intro p hp heq
      rw [List.map_cons, List.nodup_cons, ← heq] at hnodup
      exact hnodup.1 (List.mem_map_of_mem hp)
    have hnodup' : (parts.map (·.2.id)).Nodup := (List.nodup_cons.mp hnodup).2
    apply wp_bind
    refine wp_issueForParticipant pf hinj hs hc hrequest (huser part List.mem_cons_self)
      (hseen part List.mem_cons_self) ?_ ?_ fun e s' w' h => herr e s' w' h
    · intro row s₁ w₁ hrow hterminal hs₁ hk₁ hc₁
      apply wp_bind
      refine ih hs₁ hc₁ hrequest (fun p hp => huser p (List.mem_cons_of_mem _ hp)) hnodup' ?_ ?_
        fun e s' w' h => herr e s' w' (hk₁.trans h)
      · intro p hp
        rw [hk₁.db]
        exact hseen p (List.mem_cons_of_mem _ hp)
      · intro out s₂ w₂ T' hrounds hsetup hs₂ hk₂ hc₂
        exact hok _ s₂ w₂ T' (.skip hrow hterminal hrounds) hsetup hs₂ (hk₁.trans hk₂) hc₂
    · intro summary s₁ w₁ T₁ hid hissued hs₁ hk₁ hc₁
      obtain ⟨sent, hrot, -⟩ := hissued.rotated
      rw [hid] at hrot
      apply wp_bind
      refine ih hs₁ hc₁ ?_ ?_ hnodup' ?_ ?_ fun e s' w' h => herr e s' w' (hk₁.trans h)
      · rw [hissued.setup.requests]
        exact hrequest
      · intro p hp
        rw [hissued.setup.user]
        exact huser p (List.mem_cons_of_mem _ hp)
      · intro p hp
        rw [hk₁.db, hseen p (List.mem_cons_of_mem _ hp)]
        exact (hrot.invitationFor hc₁.proper fun h => hother p hp h.2).symm
      · intro out s₂ w₂ T' hrounds hsetup hs₂ hk₂ hc₂
        exact hok _ s₂ w₂ T' (.issued hid hissued hrounds) (hissued.setup.trans hsetup) hs₂
          (hk₁.trans hk₂) hc₂

/-- `uq_interview_participants_request_user` -/
def Tables.Rostered (T : Tables) : Prop := ∀ r, ((T.participants r).map (·.userId)).Nodup

theorem mem_participantsWithUsers {r : Id} {n : ℕ} {T : Tables} {part : InterviewParticipant × User}
    (h : part ∈ participantsWithUsers r n T) :
    part.1 ∈ T.participants r ∧ T.user part.1.userId = some part.2 := by
  obtain ⟨p, hp, hpart⟩ := List.mem_filterMap.mp ((inSomeOrder_perm n _).mem_iff.mp h)
  obtain ⟨u, hu, rfl⟩ := Option.map_eq_some_iff.mp hpart
  exact ⟨hp, hu⟩

theorem id_of_user {T : Tables} {u : Id} {user : User} (h : T.user u = some user) : user.id = u := by
  have := List.find?_some h
  simpa using this

theorem nodup_participantsWithUsers {T : Tables} (h : T.Rostered) (r : Id) (n : ℕ) :
    ((participantsWithUsers r n T).map (·.2.id)).Nodup := by
  unfold participantsWithUsers
  rw [((inSomeOrder_perm n _).map _).nodup_iff]
  have hsub : ∀ ps : List InterviewParticipant,
      ((ps.filterMap fun p => (T.user p.userId).map fun u => (p, u)).map (·.2.id)).Sublist
        (ps.map (·.userId)) := by
    intro ps
    induction ps with
    | nil => exact List.Sublist.refl _
    | cons p ps ih =>
      rw [List.filterMap_cons]
      cases huser : T.user p.userId with
      | none => exact ih.cons _
      | some user =>
        simp only [Option.map_some, List.map_cons, id_of_user huser]
        exact ih.cons_cons _
  exact (h r).sublist (hsub _)

theorem wp_issueForRequest (hinj : Function.Injective pf.sha256Hex) {actor : User} {requestId : Id}
    {s : Session} {w : World} (hs : Idle s) (hc : Covered pf w.db w) (hroster : w.db.Rostered)
    {Q : Except Exc (List InvitationSummary) → Session × World → Prop}
    (hok : ∀ parts out s' w' T', Rounds pf requestId w.db parts out T' → w.db.SameSetup T' →
      Made w T' w' → Covered pf T' w' → Q (.ok out.reduceOption) (s', w'))
    (herr : ∀ e s' w', Kept w w' → Q (.error e) (s', w')) :
    wp (follow Alone) (issueForRequest pf actor requestId) Q (s, w) := by
  unfold issueForRequest
  apply wp_bind
  refine wp_look hs.invalid (Kept.refl w) ?_ fun s' w' h => herr _ s' w' h
  intro n w₁ hk₁
  apply wp_bind
  apply wp_orRaise
  · intro _
    exact herr _ _ _ hk₁
  intro request hrequest
  apply wp_bind
  refine wp_look hs.invalid hk₁ ?_ fun s' w' h => herr _ s' w' h
  intro n' w₂ hk₂
  apply wp_bind
  apply wp_now
  intro w₃ hw₃
  have hk₃ := hk₂.later hw₃
  apply wp_bind
  refine wp_rounds pf hinj (T := w.db) ⟨hs.invalid, ?_⟩ (hc.made hk₃) ?_ ?_
    (nodup_participantsWithUsers hroster requestId n') ?_ ?_ fun e s' w' h => herr e s' w' (hk₃.trans h)
  · rw [hs.virtual, hk₃.db]
  · rw [hrequest]
    rfl
  · intro part hpart
    obtain ⟨-, huser⟩ := mem_participantsWithUsers hpart
    rw [id_of_user huser, huser]
    rfl
  · intro part _
    rw [hk₃.db]
  · intro out s₄ w₄ T' hrounds hsetup hs₄ hk₄ hc₄
    apply wp_bind
    refine wp_lastCommit hs₄.invalid hs₄.virtual (Kept.refl w₄) ?_
      fun e s' w' h => herr e s' w' ((hk₃.trans hk₄).trans h)
    intro s₅ w₅ _ hm
    have hk := hk₃.trans hk₄
    refine hok _ out s₅ w₅ T' hrounds hsetup ?_ (hc₄.made hm)
    exact ⟨hm.db, hk.now.trans hm.now, fun x hx => hm.minted x (hk.minted x hx),
      fun x hx => hm.drawn x (hk.drawn x hx)⟩

end InterviewScheduler.Accounts
