import Mathlib.Data.List.ReduceOption
import InterviewScheduler.Accounts.Calls

/-! # The tokens that an issuance hands out

The invitations leave one by one, by e-mail and in the response; what they open is committed once, at the
end. A failure after the first e-mail leaves dead links behind, and so does the rollback after a conflict:
it discards the rows of the participants before. -/

namespace InterviewScheduler.Accounts

open InterviewScheduler.Intervals InterviewScheduler.Engine InterviewScheduler.Effects
open InterviewScheduler.Core (Id RoleInInterview NotificationStatus InterviewRequest
  InterviewParticipant)

/-! ### Live tokens -/

variable (pf : Platform)

/-- The token opens a pending invitation of the participant. -/
def Live (T : Tables) (r u : Id) (rawToken : String) : Prop :=
  ∃ row ∈ T.invitations, row.For r u ∧ row.tokenHash = pf.sha256Hex rawToken ∧ row.status = .pending

/-- Every token that was returned or e-mailed is live. -/
structure AllLive (r : Id) (w₀ : World) (x : Except Exc (List InvitationSummary)) (w : World) :
    Prop where
  returned : ∀ out, x = .ok out → ∀ summary ∈ out,
    Live pf w.db r summary.userId summary.inviteUrl.rawToken
  sent : ∃ new, w.outbox = w₀.outbox ++ new ∧ ∀ msg ∈ new,
    ∃ user ∈ w.db.users, user.email = msg.recipient ∧ Live pf w.db r user.id msg.url.rawToken

/-! ### Failures -/

/-- The step raises, and is no e-mail. -/
def Fails {β : Type} (o : Effect β) (c : Choice) (s : Session) (w : World) : Prop :=
  match o with
  | .flush => c.answer = .fail ∨ (∃ row, c.answer = .conflict row) ∨ s.virtual w = none
  | .commit => c.answer = .fail ∨ s.virtual w = none
  | .sendMail _ => False
  | _ => c.answer = .fail

def Effect.IsCommit {β : Type} : Effect β → Prop
  | .commit => True
  | _ => False

/-- The audit entry with which the round of a participant ends. -/
def Write.IsIssue : Write → Prop
  | insertAudit row => row.action = "INVITATION_ISSUED"
  | _ => False

/-- No round is complete in these writes. -/
def NoIssue (ys : List Write) : Prop := ∀ y ∈ ys, ¬ y.IsIssue

theorem NoIssue.of_append {xs ys : List Write} (h : NoIssue (xs ++ ys)) : NoIssue xs ∧ NoIssue ys :=
  ⟨fun y hy => h y (List.mem_append_left _ hy), fun y hy => h y (List.mem_append_right _ hy)⟩

/-- A step fails only before the first e-mail, and what is committed in the end has no round missing. -/
def Orderly (w₀ : World) : Condition Effect Choice Session World := fun _ o c s w =>
  (Fails o c s w → w.outbox = w₀.outbox) ∧ (o.IsCommit → ¬ Fails o c s w → NoIssue s.discarded)

/-! ### The state between two rounds -/

/-- The participants `done` had their round, and `handed` were handed out. -/
structure Going (r : Id) (w₀ : World) (done : List Id) (handed : List (Id × String)) (s : Session)
    (w : World) (T : Tables) : Prop where
  ready : Ready s w T
  schema : w.db.Schema
  proper : T.Proper
  users : w.db.users = w₀.db.users ∧ T.users = w₀.db.users
  seen : ∀ u, u ∉ done → w.db.invitationFor r u = T.invitationFor r u
  none : NoIssue s.pending → NoIssue s.discarded → handed = []
  live : NoIssue s.discarded → ∀ i ∈ handed, i.1 ∈ done ∧ Live pf T r i.1 i.2
  mail : ∃ new, w.outbox = w₀.outbox ++ new ∧ ∀ msg ∈ new,
    ∃ user ∈ w₀.db.users, user.email = msg.recipient ∧ (user.id, msg.url.rawToken) ∈ handed

section Going

variable {pf : Platform} {r : Id} {w₀ w w' : World} {done : List Id} {handed : List (Id × String)}
  {s : Session} {T : Tables}

/-- Nothing that counts has changed. -/
theorem Going.later (h : Going pf r w₀ done handed s w T) (hdb : w'.db = w.db)
    (houtbox : w'.outbox = w.outbox) : Going pf r w₀ done handed s w' T := by
  refine ⟨h.ready.later hdb, hdb ▸ h.schema, h.proper, hdb ▸ h.users, ?_, h.none, h.live, ?_⟩
  · rw [hdb]
    exact h.seen
  · rw [houtbox]
    exact h.mail

theorem Live.rotated {T' : Tables} {u u' : Id} {raw : String} {sent : ParticipantInvitation}
    (h : Live pf T r u raw) (hrot : Rotated T T' r u' sent) (hne : u ≠ u') : Live pf T' r u raw := by
  obtain ⟨row, hrow, hfor, hrest⟩ := h
  refine ⟨row, (hrot.mem row).mpr (Or.inr ⟨hrow, fun hfor' => hne ?_⟩), hfor, hrest⟩
  exact hfor.2.symm.trans hfor'.2

end Going

/-! ### A failure before the first e-mail -/

/-- A transaction has failed, and nothing was e-mailed. -/
structure Broken (w₀ : World) (handed : List (Id × String)) (s : Session) (w : World) : Prop where
  schema : w.db.Schema
  users : w.db.users = w₀.db.users
  outbox : w.outbox = w₀.outbox
  none : NoIssue s.discarded → NoIssue s.pending → handed = []

section Broken

variable {pf : Platform} {r : Id} {w₀ w w' : World} {done : List Id} {handed : List (Id × String)}
  {s : Session} {T : Tables}

theorem Broken.later (h : Broken w₀ handed s w) (hw : Later w w') : Broken w₀ handed s w' :=
  ⟨hw.db ▸ h.schema, hw.db ▸ h.users, hw.outbox.trans h.outbox, h.none⟩

/-- A failed transaction, with the database as another session may have left it. -/
theorem Going.broken (h : Going pf r w₀ done handed s w T) {y : Write} (hschema : w'.db.Schema)
    (husers : w'.db.users = w.db.users) (houtbox : w'.outbox = w₀.outbox) :
    Broken w₀ handed (s.stage y).fail w' := by
  refine ⟨hschema, husers.trans h.users.1, houtbox, fun hnone _ => ?_⟩
  obtain ⟨hdiscarded, hpending⟩ := hnone.of_append
  exact h.none hpending.of_append.1 hdiscarded

/-- A rollback starts the transaction again; what was handed out by then does not count. -/
theorem Broken.rollback (h : Broken w₀ handed s w) :
    Going pf r w₀ done handed s.rollback w w.db := by
  have hnone : NoIssue s.rollback.discarded → handed = [] := fun hnone =>
    h.none hnone.of_append.1 hnone.of_append.2
  refine ⟨⟨rfl, rfl⟩, h.schema, h.schema.proper, ⟨h.users, h.users⟩, fun _ _ => rfl, fun _ => hnone,
    fun hdiscarded i hi => ?_, ⟨[], ?_, ?_⟩⟩
  · rw [hnone hdiscarded] at hi
    cases hi
  · rw [h.outbox, List.append_nil]
  · intro msg hmsg
    cases hmsg

end Broken

/-! ### The flush of a row -/

/-- From `s` and `w`, a row was renewed and flushed. -/
structure Flushed (r u : Id) (tokenHash : String) (s : Session) (w : World) (T : Tables)
    (row : ParticipantInvitation) (s' : Session) (w' : World) (T' : Tables) : Prop where
  renewed : Renewed T T' r u tokenHash row
  ready : Ready s' w' T'
  pending : NoIssue s'.pending → NoIssue s.pending
  discarded : s'.discarded = s.discarded
  db : w'.db = w.db
  outbox : w'.outbox = w.outbox

section Flush

variable {r : Id} {w₀ w : World} {done : List Id} {handed : List (Id × String)} {s : Session}
  {T : Tables} {participant : InterviewParticipant} {user : User} {tokenHash : String}
  {expiresAt : Instant}

theorem wp_flushRow_orderly {existing : Option ParticipantInvitation}
    (hg : Going pf r w₀ done handed s w T) (hu : user.id ∉ done)
    (hexisting : w.db.invitationFor r user.id = existing)
    {Q : Except Exc ParticipantInvitation → Session × World → Prop}
    (hok : ∀ row s' w' T', Flushed r user.id tokenHash s w T row s' w' T' → Q (.ok row) (s', w'))
    (herr : ∀ e s' w', Broken w₀ handed s' w' → Q (.error e) (s', w')) :
    wp (follow (Orderly w₀)) (flushRow existing r participant user tokenHash expiresAt) Q (s, w) := by
  rw [hg.seen user.id hu] at hexisting
  apply wp_flushRow_of
  intro id w₁ hk₁ hout₁ hsome _ row hrow
  have hg₁ := hg.later hk₁.db hout₁
  apply wp_bind
  apply wp_stage
  intro w₂ hw₂
  have hg₂ := hg₁.later hw₂.db hw₂.outbox
  have hvirtual := virtual_stage hg₂.ready.virtual (rowWrite existing row)
  apply wp_bind
  apply wp_flush (show (s.stage (rowWrite existing row)).invalid = false from hg.ready.invalid)
  · intro c T' _ hT'
    rw [hvirtual] at hT'
    split_ifs at hT' with hy
    obtain rfl := Option.some.inj hT'
    refine hok row _ _ ((rowWrite existing row).apply T)
      ⟨?_, ⟨hg.ready.invalid, ?_⟩, fun hnone => hnone.of_append.1, rfl, ?_, ?_⟩
    · rw [hrow] at hy ⊢
      exact renewed_of_write hg.proper hexisting (Bool.not_eq_true _ ▸ hy)
    · exact hvirtual.trans (if_neg hy)
    · exact hw₂.db.trans hk₁.db
    · exact hw₂.outbox.trans hout₁
  · intro c hc ha
    exact herr _ _ _ (hg₂.broken hg₂.schema rfl (hc.1 (Or.inl ha)))
  · intro c hc hnone
    exact herr _ _ _ (hg₂.broken hg₂.schema rfl (hc.1 (Or.inr (Or.inr hnone))))
  · intro c other hc ha hy _
    exact herr _ _ _ (hg₂.broken (schema_apply hg₂.schema hy) rfl
      (hc.1 (Or.inr (Or.inl ⟨other, ha⟩))))

/-- The row of a participant is renewed, perhaps after a rollback; or the call raises before the first
e-mail. -/
theorem wp_renewRow {existing : Option ParticipantInvitation}
    (hg : Going pf r w₀ done handed s w T) (hu : user.id ∉ done)
    (hexisting : w.db.invitationFor r user.id = existing)
    {Q : Except Exc (ParticipantInvitation × Bool) → Session × World → Prop}
    (hok : ∀ row isResend s₁ w₁ T₁ s' w' T', Going pf r w₀ done handed s₁ w₁ T₁ →
      Flushed r user.id tokenHash s₁ w₁ T₁ row s' w' T' → Q (.ok (row, isResend)) (s', w'))
    (herr : ∀ e s' w', w'.outbox = w₀.outbox → Q (.error e) (s', w')) :
    wp (follow (Orderly w₀)) (tryCatch (do
      let row ← flushRow existing r participant user tokenHash expiresAt
      pure (row, existing.isSome)) (conflicted r participant user tokenHash expiresAt)) Q (s, w) := by
  apply wp_tryCatch
  apply wp_bind
  refine wp_flushRow_orderly pf hg hu hexisting ?_ ?_
  · intro row s' w' T' hflushed
    exact hok row _ s w T s' w' T' hg hflushed
  · intro e s₁ w₁ hbroken
    change wp _ (conflicted r participant user tokenHash expiresAt e) Q (s₁, w₁)
    by_cases he : e = .integrityError
    · subst he
      apply wp_bind
      apply wp_bind
      apply wp_rollback
      intro w₂ hw₂
      have hbroken₂ := hbroken.later hw₂
      apply wp_bind
      apply wp_loadExpired
      case herr =>
        intro c hc ha
        exact herr _ _ _ (hc.1 ha)
      intro w₃ hw₃
      have hbroken₃ := hbroken₂.later hw₃
      apply wp_bind
      apply wp_invitationFor rfl
      case herr =>
        intro c hc ha
        exact herr _ _ _ (hc.1 ha)
      intro c w₄ _ hw₄
      have hbroken₄ := hbroken₃.later hw₄
      apply wp_bind
      apply wp_orRaise
      · intro _
        exact herr _ _ _ hbroken₄.outbox
      intro found hfound
      rw [← hw₄.db] at hfound
      refine wp_flushRow_orderly pf hbroken₄.rollback hu hfound ?_ ?_
      · intro row s' w' T' hflushed
        exact hok row true _ _ _ s' w' T' hbroken₄.rollback hflushed
      · intro e s' w' hbroken'
        exact herr _ _ _ hbroken'.outbox
    · have hthrow : conflicted r participant user tokenHash expiresAt e = throw e := by
        cases e <;> first | rfl | exact absurd rfl he
      rw [hthrow]
      exact herr _ _ _ hbroken.outbox

end Flush

/-! ### The rounds -/

section Rounds

variable {r : Id} {w₀ w : World} {done : List Id} {handed : List (Id × String)} {s : Session}
  {T : Tables}

/-- A round is complete: its row is marked, and its audit entry is pending. -/
theorem Going.issue {s₁ : Session} {w₁ w₂ : World} {T₁ : Tables} {row : ParticipantInvitation}
    {user : User} {raw : String} {st : NotificationStatus} {t : Instant} {audit : AuditLog}
    {new : List InviteEmail} (hg : Going pf r w₀ done handed s w T) (hu : user.id ∉ done)
    (huser : user ∈ w₀.db.users)
    (hf : Flushed r user.id (pf.sha256Hex raw) s w T row s₁ w₁ T₁)
    (haction : audit.action = "INVITATION_ISSUED")
    (hdb : w₂.db = w₁.db)
    (houtbox : w₂.outbox = w₁.outbox ++ new)
    (hnew : ∀ msg ∈ new, msg.recipient = user.email ∧ msg.url.rawToken = raw) :
    ∃ T₂, Going pf r w₀ (user.id :: done) (handed ++ [(user.id, raw)])
      ((s₁.stage (.updateInvitation row (row.marked st t))).stage (.insertAudit audit)).flushed w₂ T₂ := by
  have hy := violates_marked T₁ row st t
  have hmem : row ∈ T₁.invitations := (hf.renewed.rotated.mem row).mpr (Or.inl rfl)
  have hrot := hf.renewed.rotated.trans
    (rotated_update hf.renewed.proper hmem hf.renewed.rotated.place (samePlace_marked row st t))
  have hproper := proper_updateInvitation hf.renewed.proper hy
  refine ⟨(Write.insertAudit audit).apply
    ((Write.updateInvitation row (row.marked st t)).apply T₁), ?_⟩
  replace hrot := hrot.congr (rfl : ((Write.insertAudit audit).apply
    ((Write.updateInvitation row (row.marked st t)).apply T₁)).invitations = _)
  have hproper' : ((Write.insertAudit audit).apply
      ((Write.updateInvitation row (row.marked st t)).apply T₁)).Proper := hproper.congr rfl
  have hdb₂ : w₂.db = w.db := hdb.trans hf.db
  refine ⟨⟨hf.ready.invalid, ?_⟩, hdb₂ ▸ hg.schema, hproper', ⟨hdb₂ ▸ hg.users.1, ?_⟩, ?_, ?_, ?_, ?_⟩
  · unfold Session.virtual
    change Write.applyAll (s₁.pending ++ [_] ++ [_]) w₂.db = _
    rw [Write.applyAll_append, Write.applyAll_append, hdb]
    rw [show Write.applyAll s₁.pending w₁.db = some T₁ from hf.ready.virtual]
    simp only [Option.bind_some, Write.applyAll, hy]
    rfl
  · exact hf.renewed.setup.users.trans hg.users.2
  · intro u' hu'
    rw [List.mem_cons, not_or] at hu'
    rw [hdb₂, hg.seen u' hu'.2]
    exact (hrot.invitationFor hproper' fun h => hu'.1 h.2).symm
  · intro hnone
    exact absurd haction (hnone (.insertAudit audit) (List.mem_append_right _ List.mem_cons_self))
  · intro hnone i hi
    change NoIssue s₁.discarded at hnone
    rw [hf.discarded] at hnone
    rcases List.mem_append.mp hi with hi | hi
    · obtain ⟨hdone, hlive⟩ := hg.live hnone i hi
      refine ⟨List.mem_cons_of_mem _ hdone, hlive.rotated hrot fun heq => hu ?_⟩
      rw [← heq]
      exact hdone
    · obtain rfl := List.mem_singleton.mp hi
      refine ⟨List.mem_cons_self, row.marked st t, (hrot.mem _).mpr (Or.inl rfl), hrot.place, ?_, ?_⟩
      · exact hf.renewed.tokenHash
      · exact hf.renewed.status
  · obtain ⟨old, hold, hmail⟩ := hg.mail
    refine ⟨old ++ new, ?_, fun msg hmsg => ?_⟩
    · rw [houtbox, hf.outbox, hold, List.append_assoc]
    · rcases List.mem_append.mp hmsg with hmsg | hmsg
      · obtain ⟨user', huser', hemail, hmem⟩ := hmail msg hmsg
        exact ⟨user', huser', hemail, List.mem_append_left _ hmem⟩
      · obtain ⟨hrecipient, hraw⟩ := hnew msg hmsg
        refine ⟨user, huser, hrecipient.symm, List.mem_append_right _ ?_⟩
        rw [hraw]
        exact List.mem_singleton.mpr rfl

theorem wp_round_orderly {actor : User} {request : InterviewRequest} {expiresAt : Instant}
    {part : InterviewParticipant × User} (hg : Going pf r w₀ done handed s w T)
    (hu : part.2.id ∉ done) (huser : part.2 ∈ w₀.db.users)
    {Q : Except Exc (Option InvitationSummary) → Session × World → Prop}
    (hskip : ∀ s' w', Going pf r w₀ done handed s' w' T → Q (.ok none) (s', w'))
    (hissued : ∀ summary s' w', summary.userId = part.2.id →
      (∃ T', Going pf r w₀ (part.2.id :: done) (handed ++ [(part.2.id, summary.inviteUrl.rawToken)])
        s' w' T') → Q (.ok (some summary)) (s', w'))
    (herr : ∀ e s' w', w'.outbox = w₀.outbox → Q (.error e) (s', w')) :
    wp (follow (Orderly w₀)) (issueForParticipant pf actor r request expiresAt part) Q (s, w) := by
  unfold issueForParticipant
  apply wp_bind
  apply wp_invitationFor hg.ready.invalid
  case herr =>
    intro c hc ha
    exact herr _ _ _ (hc.1 ha)
  intro c w₁ _ hw₁
  have hg₁ := hg.later hw₁.db hw₁.outbox
  apply wp_ite
  · intro _
    exact hskip s w₁ hg₁
  · intro _
    apply wp_bind
    apply wp_tokenUrlsafe
    intro raw w₂ _ hw₂
    have hg₂ : Going pf r w₀ done handed s { w₂ with minted := raw :: w₁.minted } T :=
      hg₁.later hw₂.db hw₂.outbox
    apply wp_bind
    refine wp_renewRow pf hg₂ hu ?_ ?_ fun e s' w' h => herr e s' w' h
    · change w₂.db.invitationFor r part.2.id = _
      rw [hw₂.db, hw₁.db]
    intro row isResend s₃ w₃ T₃ s₄ w₄ T₄ hg₃ hf
    apply wp_bind
    apply wp_sendInviteEmail
    intro st w₅ new hk₅ hout₅ hnew
    apply wp_bind
    apply wp_now
    intro w₆ hw₆
    apply wp_bind
    apply wp_stage
    intro w₇ hw₇
    apply wp_bind
    apply wp_bind
    apply wp_stage
    intro w₈ hw₈
    apply wp_flush (show ((s₄.stage _).stage _).invalid = false from hf.ready.invalid)
    · intro c _ _ _
      have hdb : (w₈.elapse c).db = w₄.db :=
        (hw₈.db.trans hw₇.db).trans (hw₆.db.trans hk₅.db)
      have hout : (w₈.elapse c).outbox = w₄.outbox ++ new :=
        (hw₈.outbox.trans hw₇.outbox).trans (hw₆.outbox.trans hout₅)
      exact hissued _ _ _ rfl (hg₃.issue pf hu huser hf rfl hdb hout hnew)
    · intro c hc ha
      exact herr _ _ _ (hc.1 (Or.inl ha))
    · intro c hc hnone
      exact herr _ _ _ (hc.1 (Or.inr (Or.inr hnone)))
    · intro c other hc ha _ _
      exact herr _ _ _ (hc.1 (Or.inr (Or.inl ⟨other, ha⟩)))

theorem wp_rounds_orderly {actor : User} {request : InterviewRequest} {expiresAt : Instant}
    {parts : List (InterviewParticipant × User)} (hg : Going pf r w₀ done handed s w T)
    (hnodup : (parts.map (·.2.id)).Nodup) (hdone : ∀ part ∈ parts, part.2.id ∉ done)
    (husers : ∀ part ∈ parts, part.2 ∈ w₀.db.users)
    {Q : Except Exc (List (Option InvitationSummary)) → Session × World → Prop}
    (hok : ∀ out done' handed' s' w' T', Going pf r w₀ done' handed' s' w' T' →
      (∀ i ∈ handed, i ∈ handed') →
      (∀ summary ∈ out.reduceOption, (summary.userId, summary.inviteUrl.rawToken) ∈ handed') →
        Q (.ok out) (s', w'))
    (herr : ∀ e s' w', w'.outbox = w₀.outbox → Q (.error e) (s', w')) :
    wp (follow (Orderly w₀)) (.forEach (issueForParticipant pf actor r request expiresAt) parts) Q
      (s, w) := by
  induction parts generalizing done handed s w T Q with
  | nil => exact hok [] done handed s w T hg (fun _ h => h) fun _ h => absurd h List.not_mem_nil
  | cons part parts ih =>
    have hrest := (List.nodup_cons.mp hnodup).2
    have husers' : ∀ p ∈ parts, p.2 ∈ w₀.db.users := fun p hp => husers p (List.mem_cons_of_mem _ hp)
    have hdone' : ∀ p ∈ parts, p.2.id ∉ done := fun p hp => hdone p (List.mem_cons_of_mem _ hp)
    apply wp_bind
    refine wp_round_orderly pf hg (hdone part List.mem_cons_self) (husers part List.mem_cons_self) ?_ ?_
      fun e s' w' h => herr e s' w' h
    · intro s₁ w₁ hg₁
      apply wp_bind
      refine ih hg₁ hrest hdone' husers' ?_ fun e s' w' h => herr e s' w' h
      intro out done₂ handed₂ s₂ w₂ T₂ hg₂ hsub hout
      exact hok _ done₂ handed₂ s₂ w₂ T₂ hg₂ hsub hout
    · rintro summary s₁ w₁ hid ⟨T₁, hg₁⟩
      apply wp_bind
      refine ih hg₁ hrest ?_ husers' ?_ fun e s' w' h => herr e s' w' h
      · intro p hp hmem
        rcases List.mem_cons.mp hmem with heq | hmem
        · rw [List.map_cons, List.nodup_cons, ← heq] at hnodup
          exact hnodup.1 (List.mem_map_of_mem hp)
        · exact hdone' p hp hmem
      · intro out done₂ handed₂ s₂ w₂ T₂ hg₂ hsub hout
        refine hok _ done₂ handed₂ s₂ w₂ T₂ hg₂ (fun i hi => hsub i (List.mem_append_left _ hi)) ?_
        intro x hx
        rw [List.reduceOption_cons_of_some, List.mem_cons] at hx
        rcases hx with rfl | hx
        · rw [hid]
          exact hsub _ (List.mem_append_right _ (List.mem_singleton.mpr rfl))
        · exact hout x hx

end Rounds

/-! ### The whole call -/

theorem going_init {r : Id} {w₀ w : World} (hschema : w₀.db.Schema) (hw : Later w₀ w) :
    Going pf r w₀ [] [] {} w w.db := by
  have hdb := hw.db
  refine ⟨⟨rfl, rfl⟩, hdb ▸ hschema, (hdb ▸ hschema : w.db.Schema).proper, ⟨?_, ?_⟩, fun _ _ => rfl,
    fun _ _ => rfl, fun _ i hi => absurd hi List.not_mem_nil, ⟨[], ?_, ?_⟩⟩
  · rw [hdb]
  · rw [hdb]
  · rw [hw.outbox, List.append_nil]
  · intro msg hmsg
    cases hmsg

/-- **Every token handed out is live** after an issuance in which nothing fails after the first e-mail,
and no round that was complete is missing from the commit. -/
theorem tokens_live {actor : User} {r : Id} {w₀ w : World} {s : Session}
    {x : Except Exc (List InvitationSummary)} (hschema : w₀.db.Schema)
    (hrun : Runs machine (Orderly w₀) (issueForRequest pf actor r) {} w₀ x s w) :
    AllLive pf r w₀ x w := by
  have hnone : ∀ e (w : World), w.outbox = w₀.outbox → AllLive pf r w₀ (.error e) w := by
    intro e w hw
    refine ⟨?_, [], ?_, fun msg hmsg => absurd hmsg List.not_mem_nil⟩
    · intro out hout
      cases hout
    · rw [hw, List.append_nil]
  suffices hwp : wp (follow (Orderly w₀)) (issueForRequest pf actor r)
      (fun x v => AllLive pf r w₀ x v.2) ({}, w₀) from hrun.meets hwp
  unfold issueForRequest
  apply wp_bind
  apply wp_select rfl
  case herr =>
    intro c hc ha
    exact hnone _ _ (hc.1 ha)
  intro _ w₁ hw₁
  apply wp_bind
  apply wp_orRaise
  · intro _
    exact hnone _ _ hw₁.outbox
  intro request _
  apply wp_bind
  apply wp_select rfl
  case herr =>
    intro c hc ha
    exact hnone _ _ (hc.1 ha)
  intro n w₂ hw₂
  apply wp_bind
  apply wp_now
  intro w₃ hw₃
  have hroster : w₁.db.Rostered := hw₁.db ▸ hschema.rostered
  apply wp_bind
  refine wp_rounds_orderly pf (going_init pf hschema ((hw₁.trans hw₂).trans hw₃))
    (nodup_participantsWithUsers hroster r n) (fun _ _ => List.not_mem_nil) ?_ ?_
    fun e s' w' h => hnone e w' h
  · intro part hpart
    rw [← hw₁.db]
    exact List.mem_of_find?_eq_some (mem_participantsWithUsers hpart).2
  · intro out done handed s₄ w₄ T₄ hg _ hout
    apply wp_bind
    apply wp_commit hg.ready.invalid
    · intro c T w₅ hc ha hT hw₅
      obtain rfl : T = T₄ := Option.some.inj (hT.symm.trans hg.ready.virtual)
      have hfails : ¬ Fails .commit c s₄ w₄ := by
        rintro (hfail | hnone)
        · exact ha hfail
        · rw [hT] at hnone
          cases hnone
      have hlive := hg.live (hc.2 trivial hfails)
      refine ⟨fun out' hout' summary hsummary => ?_, ?_⟩
      · rw [← Except.ok.inj hout'] at hsummary
        exact (hlive _ (hout summary hsummary)).2
      · obtain ⟨new, hnew, hmail⟩ := hg.mail
        refine ⟨new, hw₅.outbox.trans hnew, fun msg hmsg => ?_⟩
        obtain ⟨user, huser, hemail, hmem⟩ := hmail msg hmsg
        rw [← hg.users.2] at huser
        exact ⟨user, huser, hemail, (hlive _ hmem).2⟩
    · intro c hc ha
      exact hnone _ _ (hc.1 (Or.inl ha))
    · intro c hc hbroken
      exact hnone _ _ (hc.1 (Or.inr hbroken))

instance : DecidablePred Write.IsIssue := fun y =>
  match y with
  | .insertAudit row => inferInstanceAs (Decidable (row.action = "INVITATION_ISSUED"))
  | .insertUser _ => .isFalse id
  | .setPasswordHash _ _ _ => .isFalse id
  | .setArchivedAt _ _ => .isFalse id
  | .insertInvitation _ => .isFalse id
  | .updateInvitation _ _ => .isFalse id
  | .setResponse _ _ _ => .isFalse id

/-- Something fails before the first e-mail at most, and no complete round was discarded. -/
def early (w₀ : World) (β : Type) (o : Effect β) (c : Choice) (s : Session) (w : World) : Bool :=
  (decide (w.outbox = w₀.outbox) || alone β o c s w && decide (c.answer ≠ .fail) && (s.virtual w).isSome) &&
    s.discarded.all fun y => decide (¬ y.IsIssue)

theorem orderly_of_early (w₀ : World) {β : Type} (o : Effect β) (c : Choice) (s : Session) (w : World)
    (h : early w₀ β o c s w) : Orderly w₀ β o c s w := by
  obtain ⟨hsent, hdiscarded⟩ := Bool.and_eq_true_iff.mp h
  refine ⟨fun hfails => ?_, fun _ _ y hy => of_decide_eq_true (List.all_eq_true.mp hdiscarded y hy)⟩
  rcases Bool.or_eq_true_iff.mp hsent with hsent | hsent
  · exact of_decide_eq_true hsent
  · obtain ⟨hsent, hvirtual⟩ := Bool.and_eq_true_iff.mp hsent
    obtain ⟨halone, hanswer⟩ := Bool.and_eq_true_iff.mp hsent
    have hfail : c.answer ≠ .fail := of_decide_eq_true hanswer
    have hnone : s.virtual w ≠ none := Option.isSome_iff_ne_none.mp hvirtual
    have hconflict : ¬ ∃ row, c.answer = .conflict row := by
      rintro ⟨row, hrow⟩
      exact alone_of_check o c s w halone row hrow
    cases o with
    | flush => exact absurd hfails (by unfold Fails; simp [hfail, hconflict, hnone])
    | commit => exact absurd hfails (by unfold Fails; simp [hfail, hnone])
    | sendMail msg => exact hfails.elim
    | _ => exact absurd hfails hfail

/-- The token is among those that the call returns. -/
def returnsToken (u : Id) (raw : String) : Except Exc (List InvitationSummary) → Bool
  | .ok out => out.any fun summary => summary.userId = u ∧ summary.inviteUrl.rawToken = raw
  | .error _ => false

theorem AllLive.of_returnsToken {r u : Id} {w₀ w : World} {raw : String}
    {x : Except Exc (List InvitationSummary)} (h : AllLive pf r w₀ x w) (hx : returnsToken u raw x) :
    Live pf w.db r u raw := by
  cases x with
  | error e => cases hx
  | ok out =>
    obtain ⟨summary, hsummary, heq⟩ := List.any_eq_true.mp hx
    obtain ⟨rfl, rfl⟩ := of_decide_eq_true heq
    exact h.returned out rfl summary hsummary

/-- A panelist beside the candidate. -/
def bob : User :=
  { id := 3, email := "bob@example.com", name := "Bob", role := .panelist, authProvider := .password }

def panelWorld : World where
  db := { sampleTables with
    users := [admin, ada, bob]
    participants := fun r => if r = 1 then [{ userId := 2, roleInInterview := .candidate },
      { userId := 3, roleInInterview := .panelist }] else [] }

theorem schema_panelWorld : panelWorld.db.Schema := by
  refine ⟨⟨?_, ?_, ?_⟩, ⟨?_, ?_⟩, fun r => ?_⟩
  · exact fun x hx => absurd hx List.not_mem_nil
  · exact fun x hx => absurd hx List.not_mem_nil
  · exact fun x hx => absurd hx List.not_mem_nil
  · decide
  · decide
  · change ((if r = 1 then _ else _ : List _).map _).Nodup
    split_ifs
    · decide
    · exact List.nodup_nil

/-- The panelist's invitation of another session. -/
def otherInvitation : ParticipantInvitation :=
  { id := 8, interviewRequestId := 1, userId := 3, role := .panelist,
    tokenHash := "c6a2f0d9b7e84f3153a9f0c2de61b8a7450e9d3c1f7b26a8e4d05b93cf186a72", status := .pending,
    requiresAccountSetup := true, expiresAt := 604800000000, sendCount := 1 }

/-- The candidate's round, in which the flush comes too late and is retried, and the panelist's. -/
def retriedChoices : List Choice :=
  [{}, {}, {}, {}, { answer := .text sampleToken }, { answer := .pick 8 }, {},
    { answer := .conflict { otherInvitation with id := 7, userId := 2, role := .candidate } }, {}, {}, {}, {},
    {}, {}, {}, {}, {}, {}, {}, { answer := .text otherToken }, { answer := .pick 9 }, {}, {}, {}, {}, {}, {},
    {}, {}]

/-- Both links are live, though the candidate's row was not the first. -/
theorem tokens_live_sample : ∃ x s w, Runs machine (Orderly panelWorld)
    (issueForRequest samplePlatform admin 1) {} panelWorld x s w ∧
      Live samplePlatform w.db 1 2 sampleToken ∧ Live samplePlatform w.db 1 3 otherToken := by
  have hrun : (machine.run (early panelWorld) (issueForRequest samplePlatform admin 1) retriedChoices {}
      panelWorld).any fun x => returnsToken 2 sampleToken x.1 && returnsToken 3 otherToken x.1 := by
    decide +kernel
  obtain ⟨⟨x, s, w⟩, hx, hreturns⟩ := (Option.any_eq_true _ _).mp hrun
  obtain ⟨hcandidate, hpanelist⟩ := Bool.and_eq_true_iff.mp hreturns
  have h := (runs_of_run hx).mono (orderly_of_early panelWorld)
  have hlive := tokens_live samplePlatform schema_panelWorld h
  exact ⟨x, s, w, h, hlive.of_returnsToken samplePlatform hcandidate,
    hlive.of_returnsToken samplePlatform hpanelist⟩

/-! ### Dead links -/

/-- The e-mail has left, and the commit fails. -/
theorem failure_kills_token : ∃ x s w, Runs machine (fun _ _ _ _ _ => True)
    (issueForRequest samplePlatform admin 1) {} sampleLedger.world x s w ∧
      ¬ AllLive samplePlatform 1 sampleLedger.world x w := by
  have hrun : (machine.run (fun _ _ _ _ _ => true) (issueForRequest samplePlatform admin 1)
      (issuingChoices.set 13 { answer := .fail }) {} sampleLedger.world).any fun x =>
        x.2.2.outbox.length = 1 ∧ x.2.2.db.invitations.length = 0 := by
    decide +kernel
  obtain ⟨⟨x, s, w⟩, hx, hend⟩ := (Option.any_eq_true _ _).mp hrun
  obtain ⟨hsent, hrows⟩ := of_decide_eq_true hend
  refine ⟨x, s, w, (runs_of_run hx).mono fun _ _ _ _ _ => trivial, fun hlive => ?_⟩
  obtain ⟨new, hnew, hmail⟩ := hlive.sent
  change w.outbox = new at hnew
  obtain ⟨msg, hmsg⟩ := List.exists_mem_of_length_pos (l := new) (by rw [← hnew, hsent]; decide)
  obtain ⟨user, -, -, row, hrow, -⟩ := hmail msg hmsg
  rw [List.length_eq_zero_iff.mp hrows] at hrow
  cases hrow

/-- The candidate's round, and the panelist's, in which the flush comes too late. -/
def conflictChoices : List Choice :=
  [{}, {}, {}, {}, { answer := .text sampleToken }, { answer := .pick 7 }, {}, {}, {}, {}, {}, {}, {},
    {}, { answer := .text otherToken }, { answer := .pick 9 }, {}, { answer := .conflict otherInvitation },
    {}, {}, {}, {}, {}, {}, {}, {}, {}, {}, {}]

/-- The call ends normally, and the candidate's link is dead. -/
theorem conflict_kills_token : ∃ x s w, Runs machine (fun _ _ _ _ _ => True)
    (issueForRequest samplePlatform admin 1) {} panelWorld x s w ∧ (∃ out, x = .ok out) ∧
      ¬ AllLive samplePlatform 1 panelWorld x w := by
  have hrun : (machine.run (fun _ _ _ _ _ => true) (issueForRequest samplePlatform admin 1)
      conflictChoices {} panelWorld).any fun x =>
        returnsToken 2 sampleToken x.1 && x.2.2.db.invitations.all fun row => row.userId ≠ 2 := by
    decide +kernel
  obtain ⟨⟨x, s, w⟩, hx, hend⟩ := (Option.any_eq_true _ _).mp hrun
  obtain ⟨hreturns, hrows⟩ := (Bool.and_eq_true _ _).mp hend
  refine ⟨x, s, w, (runs_of_run hx).mono fun _ _ _ _ _ => trivial, ?_, fun hlive => ?_⟩
  · cases x with
    | error e => cases hreturns
    | ok out => exact ⟨out, rfl⟩
  · obtain ⟨row, hrow, hfor, -⟩ := hlive.of_returnsToken samplePlatform hreturns
    exact of_decide_eq_true (List.all_eq_true.mp hrows row hrow) hfor.2

/-- Tokens that are handed out in vain: the commit fails after the e-mail, or a conflict in a later round
discards the row. -/
theorem dead_links :
    (∃ x s w, Runs machine (fun _ _ _ _ _ => True) (issueForRequest samplePlatform admin 1) {}
      sampleLedger.world x s w ∧ ¬ AllLive samplePlatform 1 sampleLedger.world x w) ∧
    ∃ x s w, Runs machine (fun _ _ _ _ _ => True) (issueForRequest samplePlatform admin 1) {}
      panelWorld x s w ∧ (∃ out, x = .ok out) ∧ ¬ AllLive samplePlatform 1 panelWorld x w :=
  ⟨failure_kills_token, conflict_kills_token⟩

end InterviewScheduler.Accounts
