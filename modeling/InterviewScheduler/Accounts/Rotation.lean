import Mathlib.Data.List.ReduceOption
import InterviewScheduler.Accounts.Calls

/-! # Token rotation

Whatever calls have completed: a participant has one invitation, the one token that opens it is the last
one that was issued to him, and an invitation that was answered stays as it was answered. -/

namespace InterviewScheduler.Accounts

open InterviewScheduler.Intervals InterviewScheduler.Engine InterviewScheduler.Effects
open InterviewScheduler.Core (Id RoleInInterview NotificationStatus InterviewRequest
  InterviewParticipant)

/-! ### The tokens of a participant -/

/-- The tokens that were issued to a participant of a request, in order. -/
def tokensOf (issued : List Issue) (r u : Id) : List String :=
  (issued.filter fun i => i.requestId = r ∧ i.userId = u).map (·.rawToken)

/-- The last of them. -/
def lastToken (issued : List Issue) (r u : Id) : Option String := (tokensOf issued r u).getLast?

section Tokens

variable {issued : List Issue} {i : Issue} {r u : Id}

theorem tokensOf_append_self (h : i.requestId = r ∧ i.userId = u) :
    tokensOf (issued ++ [i]) r u = tokensOf issued r u ++ [i.rawToken] := by
  unfold tokensOf
  simp [h]

theorem tokensOf_append_other (h : ¬ (i.requestId = r ∧ i.userId = u)) :
    tokensOf (issued ++ [i]) r u = tokensOf issued r u := by
  unfold tokensOf
  rw [List.filter_append, List.filter_cons_of_neg (by simpa using h)]
  simp

theorem tokensOf_eq_nil (h : ∀ i ∈ issued, ¬ (i.requestId = r ∧ i.userId = u)) :
    tokensOf issued r u = [] := by
  unfold tokensOf
  rw [List.filter_eq_nil_iff.mpr (by simpa using h)]
  rfl

end Tokens

/-! ### The balance of the rows and the issuances -/

variable (pf : Platform)

/-- Every row has the token that was issued last for it, and counts its issuances. -/
structure Balanced (T : Tables) (issued : List Issue) : Prop where
  last : ∀ x ∈ T.invitations, ∃ raw,
    lastToken issued x.interviewRequestId x.userId = some raw ∧ x.tokenHash = pf.sha256Hex raw
  count : ∀ x ∈ T.invitations,
    x.sendCount = (tokensOf issued x.interviewRequestId x.userId).length
  listed : ∀ i ∈ issued, ∃ x ∈ T.invitations, x.For i.requestId i.userId

section Balanced

variable {pf : Platform} {T T' : Tables} {issued : List Issue} {r : Id}

theorem Balanced.congr (h : Balanced pf T issued) (heq : T'.invitations = T.invitations) :
    Balanced pf T' issued := by
  constructor
  · rw [heq]
    exact h.last
  · rw [heq]
    exact h.count
  · rw [heq]
    exact h.listed

/-- A row changes in something else than its token and its count. -/
theorem Balanced.update {loaded row : ParticipantInvitation} (h : Balanced pf T issued)
    (hT : T.Proper) (hloaded : loaded ∈ T.invitations) (hplace : loaded.SamePlace row)
    (htoken : row.tokenHash = loaded.tokenHash) (hcount : row.sendCount = loaded.sendCount)
    (heq : T'.invitations = ((Write.updateInvitation loaded row).apply T).invitations) :
    Balanced pf T' issued := by
  have hmem : ∀ x, x ∈ T'.invitations ↔ x = row ∨ x ∈ T.invitations ∧ x.id ≠ loaded.id := by
    intro x
    rw [heq]
    exact mem_update_loaded hT hloaded hplace
  refine ⟨fun x hx => ?_, fun x hx => ?_, fun i hi => ?_⟩
  · rcases (hmem x).mp hx with rfl | ⟨hx, -⟩
    · rw [hplace.requestId, hplace.userId, htoken]
      exact h.last loaded hloaded
    · exact h.last x hx
  · rcases (hmem x).mp hx with rfl | ⟨hx, -⟩
    · rw [hplace.requestId, hplace.userId, hcount]
      exact h.count loaded hloaded
    · exact h.count x hx
  · obtain ⟨x, hx, hfor⟩ := h.listed i hi
    by_cases hid : x.id = loaded.id
    · rw [hT.ids x hx loaded hloaded hid] at hfor
      exact ⟨row, (hmem row).mpr (Or.inl rfl), hplace.for hfor⟩
    · exact ⟨x, (hmem x).mpr (Or.inr ⟨hx, hid⟩), hfor⟩

/-- One issuance. -/
theorem Balanced.issue {summary : InvitationSummary} (h : Balanced pf T issued)
    (hissued : Issued pf r T summary T') :
    Balanced pf T' (issued ++ [⟨r, summary.userId, summary.inviteUrl.rawToken⟩]) := by
  obtain ⟨sent, hrot, hhash, -, hcount⟩ := hissued.rotated
  have hself : tokensOf (issued ++ [⟨r, summary.userId, summary.inviteUrl.rawToken⟩])
      sent.interviewRequestId sent.userId =
        tokensOf issued sent.interviewRequestId sent.userId ++ [summary.inviteUrl.rawToken] :=
    tokensOf_append_self ⟨hrot.place.1.symm, hrot.place.2.symm⟩
  have hother : ∀ x : ParticipantInvitation, ¬ x.For r summary.userId →
      tokensOf (issued ++ [⟨r, summary.userId, summary.inviteUrl.rawToken⟩]) x.interviewRequestId
        x.userId = tokensOf issued x.interviewRequestId x.userId := by
    intro x hx
    exact tokensOf_append_other fun heq => hx ⟨heq.1.symm, heq.2.symm⟩
  refine ⟨fun x hx => ?_, fun x hx => ?_, fun i hi => ?_⟩
  · rcases (hrot.mem x).mp hx with rfl | ⟨hx, hnotfor⟩
    · refine ⟨summary.inviteUrl.rawToken, ?_, hhash⟩
      unfold lastToken
      rw [hself, List.getLast?_concat]
    · unfold lastToken
      rw [hother x hnotfor]
      exact h.last x hx
  · rcases (hrot.mem x).mp hx with rfl | ⟨hx, hnotfor⟩
    · rw [hself, List.length_append, hcount]
      -- the row that was there has counted the issuances so far; without a row there were none
      cases hfound : T.invitationFor r summary.userId with
      | some row =>
        obtain ⟨hrow, hfor⟩ := Tables.mem_of_invitationFor hfound
        have := h.count row hrow
        rw [hfor.1, hfor.2] at this
        rw [hrot.place.1, hrot.place.2, ← this]
        rfl
      | none =>
        rw [Tables.invitationFor_eq_none] at hfound
        rw [tokensOf_eq_nil]
        · rfl
        · intro i hi hpair
          obtain ⟨y, hy, hfor⟩ := h.listed i hi
          refine hfound y hy ⟨hfor.1.trans (hpair.1.trans hrot.place.1), ?_⟩
          exact hfor.2.trans (hpair.2.trans hrot.place.2)
    · rw [hother x hnotfor]
      exact h.count x hx
  · rcases List.mem_append.mp hi with hi | hi
    · obtain ⟨x, hx, hfor⟩ := h.listed i hi
      by_cases hpair : x.For r summary.userId
      · refine ⟨sent, (hrot.mem sent).mpr (Or.inl rfl), ?_⟩
        exact ⟨hrot.place.1.trans (hpair.1.symm.trans hfor.1),
          hrot.place.2.trans (hpair.2.symm.trans hfor.2)⟩
      · exact ⟨x, (hrot.mem x).mpr (Or.inr ⟨hx, hpair⟩), hfor⟩
    · obtain rfl := List.mem_singleton.mp hi
      exact ⟨sent, (hrot.mem sent).mpr (Or.inl rfl), hrot.place⟩

theorem Rounds.balanced {parts : List (InterviewParticipant × User)}
    {out : List (Option InvitationSummary)} (h : Rounds pf r T parts out T')
    (hb : Balanced pf T issued) : Balanced pf T' (issued ++ issuesOf r out.reduceOption) := by
  induction h generalizing issued with
  | nil =>
    rw [List.reduceOption_nil, issuesOf, List.map_nil, List.append_nil]
    exact hb
  | skip _ _ _ ih =>
    rw [List.reduceOption_cons_of_none]
    exact ih hb
  | @issued T T₁ part parts summary out T' hid h _ ih =>
    have := ih (hb.issue h)
    rw [List.append_assoc] at this
    rw [List.reduceOption_cons_of_some]
    exact this

/-- An answered invitation is passed over. -/
theorem Rounds.answered {parts : List (InterviewParticipant × User)}
    {out : List (Option InvitationSummary)} (h : Rounds pf r T parts out T') (hT : T.Proper)
    {x : ParticipantInvitation} (hx : x ∈ T.invitations) (hterminal : x.status.Terminal) :
    x ∈ T'.invitations := by
  induction h with
  | nil => exact hx
  | skip _ _ _ ih => exact ih hT hx
  | issued _ h _ ih =>
    obtain ⟨sent, hrot, -⟩ := h.rotated
    refine ih h.proper ((hrot.mem x).mpr (Or.inr ⟨hx, fun hfor => ?_⟩))
    exact h.live x (hT.invitationFor_eq hx hfor) hterminal

end Balanced

/-! ### The other calls -/

/-- No more than an open invitation was changed, and not in its token. -/
inductive Touched (T T' : Tables) : Prop
  | kept (heq : T'.invitations = T.invitations)
  | updated {loaded row : ParticipantInvitation} (hloaded : loaded ∈ T.invitations)
      (hpending : loaded.status = .pending) (hplace : loaded.SamePlace row)
      (htoken : row.tokenHash = loaded.tokenHash) (hcount : row.sendCount = loaded.sendCount)
      (heq : T'.invitations = ((Write.updateInvitation loaded row).apply T).invitations)

section Touched

variable {pf : Platform} {T T' : Tables} {issued : List Issue} {w w' : World}

theorem Touched.covered (h : Touched w.db T') (hc : Covered pf w.db w) (hm : Made w T' w')
    (hT' : T'.Proper) : Covered pf T' w' := by
  cases h with
  | kept heq =>
    have hc' := hc.made hm
    refine ⟨hT', ?_, ?_⟩
    · rw [heq]
      exact hc'.drawn
    · rw [heq]
      exact hc'.minted
  | updated hloaded _ hplace htoken _ heq =>
    have hc' := hc.made hm
    have hrot := (rotated_update hc.proper hloaded ⟨rfl, rfl⟩ hplace).congr heq
    refine hc'.rotated hrot hT' ?_ ?_
    · rw [hplace.id]
      exact hc'.drawn _ hloaded
    · rw [htoken]
      exact hc'.minted _ hloaded

theorem Touched.balanced (h : Touched T T') (hT : T.Proper) (hb : Balanced pf T issued) :
    Balanced pf T' issued := by
  cases h with
  | kept heq => exact hb.congr heq
  | updated hloaded _ hplace htoken hcount heq => exact hb.update hT hloaded hplace htoken hcount heq

theorem Touched.answered (h : Touched T T') (hT : T.Proper) {x : ParticipantInvitation}
    (hx : x ∈ T.invitations) (hterminal : x.status.Terminal) : x ∈ T'.invitations := by
  cases h with
  | kept heq =>
    rw [heq]
    exact hx
  | @updated loaded row hloaded hpending hplace _ _ heq =>
    rw [heq]
    refine (mem_update_loaded hT hloaded hplace).mpr (Or.inr ⟨hx, fun hid => ?_⟩)
    rw [hT.ids x hx loaded hloaded hid, hpending] at hterminal
    exact absurd hterminal (by decide)

theorem touched_expire {rawToken : String} {row : ParticipantInvitation}
    (hrow : T.invitationByTokenHash (pf.sha256Hex rawToken) = some row)
    (hpending : row.status = .pending) : Touched T (T.expire row) := by
  have hplace : row.SamePlace { row with status := .expired } := ⟨rfl, rfl, rfl, rfl⟩
  exact .updated (Tables.mem_of_invitationByTokenHash hrow).1 hpending hplace rfl rfl rfl

theorem Answered.touched {rawToken : String} {response : ResponseValue} {reason : Option String}
    (h : Answered pf rawToken response reason w w') : Touched w.db w'.db := by
  obtain @⟨row, t₁, t, T, _, hrow, hpending, -, -, hm, -, hinvitations⟩ := h
  have hplace : row.SamePlace (row.answer response reason t) := ⟨rfl, rfl, rfl, rfl⟩
  rw [hm.db]
  exact .updated (Tables.mem_of_invitationByTokenHash hrow).1 hpending hplace rfl rfl hinvitations

end Touched

/-- A call has left the invitations, or has changed an open one. -/
structure Light (w w' : World) : Prop where
  touched : Touched w.db w'.db
  made : Made w w'.db w'

section Light

variable {w w' : World} {T : Tables}

theorem Made.self (h : Made w T w') : Made w w'.db w' := ⟨rfl, h.now, h.minted, h.drawn⟩

/-- The call has made `T`, where the invitations are those of before. -/
theorem Made.light (h : Made w T w') (heq : T.invitations = w.db.invitations) : Light w w' :=
  ⟨.kept (by rw [h.db, heq]), h.self⟩

theorem Kept.light (h : Kept w w') : Light w w' := Made.light h rfl

theorem light_expire {pf : Platform} {rawToken : String} {row : ParticipantInvitation}
    (hrow : w.db.invitationByTokenHash (pf.sha256Hex rawToken) = some row)
    (hpending : row.status = .pending) (hm : Made w (w.db.expire row) w') : Light w w' :=
  ⟨hm.db ▸ touched_expire hrow hpending, hm.self⟩

theorem Answered.light {pf : Platform} {rawToken : String} {response : ResponseValue}
    {reason : Option String} (h : Answered pf rawToken response reason w w') : Light w w' := by
  refine ⟨h.touched, ?_⟩
  cases h with
  | of _ _ _ _ hm _ _ => exact hm.self

theorem Claimed.light {pf : Platform} {rawToken password : String} {pair : TokenPair}
    (h : Claimed pf rawToken password pair w w') : Light w w' := by
  cases h with
  | of _ _ _ _ _ _ _ _ _ hm _ hinvitations _ _ => exact hm.light hinvitations

/-- A call that is no issuance. -/
theorem light_handle {call : Call} {r : Except Exc Response} {s : Session}
    (h : Runs machine Alone (handle pf call) {} w r s w')
    (hcall : ∀ actor requestId, call ≠ .issueForRequest actor requestId) : Light w w' := by
  suffices hwp : wp (follow Alone) (handle pf call) (fun _ v => Light w v.2) ({}, w) from h.meets hwp
  cases call with
  | register data =>
    exact wp_map (wp_register pf data idle_empty (fun _ _ _ hk => hk.light)
      fun _ _ _ _ hm => hm.light rfl)
  | login data =>
    exact wp_map (wp_login pf data idle_empty (fun _ _ _ hk => hk.light) fun _ _ _ _ _ hk => hk.light)
  | googleLogin idToken =>
    exact wp_map (wp_googleLogin pf idToken idle_empty (fun _ _ _ hk => hk.light)
      (fun _ _ _ _ hk => hk.light) fun _ _ _ _ _ hm => hm.light rfl)
  | setArchived actorId userId archived =>
    exact wp_map (wp_setArchived actorId userId archived idle_empty (fun _ _ _ hk => hk.light)
      fun _ _ _ _ _ hm _ hinvitations _ _ => hm.light hinvitations)
  | issueForRequest actor requestId => exact absurd rfl (hcall actor requestId)
  | getByToken rawToken =>
    exact wp_map (wp_getByToken pf rawToken idle_empty (fun _ _ _ hk => hk.light)
      fun _ _ _ _ hrow hpending _ hm => light_expire hrow hpending hm)
  | respond rawToken response reason =>
    exact wp_map (wp_respondToInvitation pf rawToken response reason idle_empty
      (fun _ _ _ hk => hk.light) (fun _ _ _ _ hrow hpending _ hm => light_expire hrow hpending hm)
      fun _ _ _ h => h.light)
  | claimAccount rawToken password =>
    exact wp_map (wp_claimAccount pf rawToken password idle_empty (fun _ _ _ hk => hk.light)
      (fun _ _ _ _ hrow hpending _ hm => light_expire hrow hpending hm) fun _ _ _ h => h.light)

end Light

/-! ### Issuances -/

/-- What a complete issuance has done, with what it has reported. -/
inductive Reissued (r : Id) (w : World) : List Issue → World → Prop
  | rounds {parts out T' w'} (hrounds : Rounds pf r w.db parts out T') (hm : Made w T' w')
      (hc : Covered pf T' w') : Reissued r w (issuesOf r out.reduceOption) w'
  | failed {w'} (hk : Kept w w') : Reissued r w [] w'

theorem reissued_issueForRequest (hinj : Function.Injective pf.sha256Hex) {actor : User}
    {requestId : Id} {w w' : World} {r : Except Exc Response} {s : Session}
    (h : Runs machine Alone (handle pf (.issueForRequest actor requestId)) {} w r s w')
    (hc : Covered pf w.db w) (hT : w.db.Schema) :
    Reissued pf requestId w (issuedBy (.issueForRequest actor requestId) r) w' := by
  suffices hwp : wp (follow Alone) (handle pf (.issueForRequest actor requestId))
      (fun r v => Reissued pf requestId w (issuedBy (.issueForRequest actor requestId) r) v.2) ({}, w)
    from h.meets hwp
  refine wp_map (wp_issueForRequest pf hinj idle_empty hc hT.rostered ?_ ?_)
  · intro parts out s' w' T' hrounds _ hm hc'
    exact .rounds hrounds hm hc'
  · intro e s' w' hk
    exact .failed hk

/-! ### Whole sequences -/

/-- What holds after every sequence of complete calls. -/
structure Ledger.Sound (L : Ledger) : Prop where
  schema : L.world.db.Schema
  covered : Covered pf L.world.db L.world
  balanced : Balanced pf L.world.db L.issued

theorem Ledger.Initial.sound {L : Ledger} (h : L.Initial) : L.Sound pf := by
  refine ⟨h.schema, ⟨h.schema.proper, ?_, ?_⟩, ⟨?_, ?_, ?_⟩⟩
  · simp [h.invitations]
  · simp [h.invitations]
  · simp [h.invitations]
  · simp [h.invitations]
  · simp [h.issued]

/-- The invitations that were answered are still there. -/
def StillAnswered (T T' : Tables) : Prop :=
  ∀ x ∈ T.invitations, x.status.Terminal → x ∈ T'.invitations

/-- **One call** keeps the balance, and the answered invitations. -/
theorem Ledger.Sound.call (hinj : Function.Injective pf.sha256Hex) {L : Ledger} (hL : L.Sound pf)
    {call : Call} {r : Except Exc Response} {s : Session} {w : World}
    (hrun : Runs machine Alone (handle pf call) {} L.world r s w) :
    Ledger.Sound pf ⟨w, L.issued ++ issuedBy call r⟩ ∧ StillAnswered L.world.db w.db := by
  have hschema := schema_runs hrun hL.schema
  by_cases hissue : ∃ actor requestId, call = .issueForRequest actor requestId
  · obtain ⟨actor, requestId, rfl⟩ := hissue
    have hreissued := reissued_issueForRequest pf hinj hrun hL.covered hL.schema
    generalize issuedBy (.issueForRequest actor requestId) r = issues at hreissued
    cases hreissued with
    | rounds hrounds hm hc =>
      rw [← hm.db] at hrounds hc
      refine ⟨⟨hschema, hc, hrounds.balanced hL.balanced⟩, fun x hx hterminal => ?_⟩
      exact hrounds.answered hL.schema.proper hx hterminal
    | failed hk =>
      rw [List.append_nil]
      rw [StillAnswered, hk.db]
      exact ⟨⟨hschema, hk.db ▸ hL.covered.made hk, hk.db ▸ hL.balanced⟩, fun x hx _ => hx⟩
  · have hlight := light_handle pf hrun fun actor requestId heq => hissue ⟨actor, requestId, heq⟩
    have hnone : issuedBy call r = [] := by
      cases call with
      | issueForRequest actor requestId => exact absurd ⟨actor, requestId, rfl⟩ hissue
      | _ => rfl
    rw [hnone, List.append_nil]
    refine ⟨⟨hschema, ?_, ?_⟩, fun x hx hterminal => ?_⟩
    · exact hlight.touched.covered hL.covered hlight.made hschema.proper
    · exact hlight.touched.balanced hL.schema.proper hL.balanced
    · exact hlight.touched.answered hL.schema.proper hx hterminal

/-- **All sequences** do. -/
theorem Reaches.sound (hinj : Function.Injective pf.sha256Hex) {L₀ L : Ledger}
    (h : Reaches pf L₀ L) (h₀ : L₀.Sound pf) :
    L.Sound pf ∧ StillAnswered L₀.world.db L.world.db := by
  induction h with
  | init => exact ⟨h₀, fun x hx _ => hx⟩
  | call _ hrun ih =>
    obtain ⟨hsound, hanswered⟩ := ih.1.call pf hinj hrun
    exact ⟨hsound, fun x hx hterminal => hanswered x (ih.2 x hx hterminal) hterminal⟩
  | @elsewhere L t T _ ht hinvitations hschema ih =>
    refine ⟨⟨hschema, ⟨hschema.proper, ?_, ?_⟩, ih.1.balanced.congr hinvitations⟩, ?_⟩
    · rw [hinvitations]
      exact ih.1.covered.drawn
    · rw [hinvitations]
      exact ih.1.covered.minted
    · intro x hx hterminal
      change x ∈ T.invitations
      rw [hinvitations]
      exact ih.2 x hx hterminal

/-- A token opens the invitation for which it was issued last, and no other. -/
theorem Ledger.Sound.resolves (hinj : Function.Injective pf.sha256Hex) {L : Ledger}
    (h : L.Sound pf) (raw : String) (row : ParticipantInvitation) :
    L.world.db.invitationByTokenHash (pf.sha256Hex raw) = some row ↔
      row ∈ L.world.db.invitations ∧
        lastToken L.issued row.interviewRequestId row.userId = some raw := by
  constructor
  · intro hrow
    obtain ⟨hmem, hhash⟩ := Tables.mem_of_invitationByTokenHash hrow
    obtain ⟨raw', hlast, hhash'⟩ := h.balanced.last row hmem
    rw [hinj (hhash.symm.trans hhash')]
    exact ⟨hmem, hlast⟩
  · rintro ⟨hmem, hlast⟩
    obtain ⟨raw', hlast', hhash⟩ := h.balanced.last row hmem
    obtain rfl : raw' = raw := Option.some.inj (hlast'.symm.trans hlast)
    rw [← hhash]
    exact h.schema.proper.invitationByTokenHash_eq hmem

/-- **Token rotation.** -/
theorem token_rotation (hinj : Function.Injective pf.sha256Hex) {L₀ L L' : Ledger} (h₀ : L₀.Initial)
    (h : Reaches pf L₀ L) (h' : Reaches pf L L') :
    (∀ x ∈ L.world.db.invitations, ∀ y ∈ L.world.db.invitations,
      x.interviewRequestId = y.interviewRequestId → x.userId = y.userId → x = y) ∧
    (∀ raw row, L.world.db.invitationByTokenHash (pf.sha256Hex raw) = some row ↔
      row ∈ L.world.db.invitations ∧
        lastToken L.issued row.interviewRequestId row.userId = some raw) ∧
    (∀ i ∈ L.issued, ∃ row ∈ L.world.db.invitations, row.For i.requestId i.userId) ∧
    (∀ row ∈ L.world.db.invitations,
      row.sendCount = (tokensOf L.issued row.interviewRequestId row.userId).length) ∧
    ∀ row ∈ L.world.db.invitations, row.status.Terminal → row ∈ L'.world.db.invitations := by
  have hL := (h.sound pf hinj (h₀.sound pf)).1
  refine ⟨?_, hL.resolves pf hinj, hL.balanced.listed, hL.balanced.count, (h'.sound pf hinj hL).2⟩
  intro x hx y hy hrequest huser
  exact hL.schema.proper.pairs x hx y hy ⟨hrequest, huser⟩

/-- The invitation is sent, sent again with another token, and accepted with it. -/
def rotatedCalls : List (Call × List Choice) :=
  [(.issueForRequest admin 1, issuingChoices),
    (.issueForRequest admin 1, [{}, {}, {}, {}, { answer := .text otherToken }, {}, {}, {}, {}, {}, {}, {}, {}]),
    (.respond otherToken .accepted none, [{}, {}, {}, {}, {}, {}, {}, {}, {}, {}, {}])]

/-- The second token has replaced the first, and a third issuance leaves the answered row alone. -/
theorem token_rotation_sample : ∃ L L' row, Reaches samplePlatform sampleLedger L ∧
    Reaches samplePlatform L L' ∧ L.issued = [⟨1, 2, sampleToken⟩, ⟨1, 2, otherToken⟩] ∧
    L.world.db.invitationByTokenHash (sampleSha256 sampleToken) = none ∧
    L.world.db.invitationByTokenHash (sampleSha256 otherToken) = some row ∧ row.sendCount = 2 ∧
    row ∈ L'.world.db.invitations := by
  have hrun : (runCalls samplePlatform rotatedCalls sampleLedger).any fun L =>
      (decide (L.issued = [⟨1, 2, sampleToken⟩, ⟨1, 2, otherToken⟩]) &&
        L.world.db.invitations.all fun row => row.status = .accepted) &&
          (runCalls samplePlatform [(.issueForRequest admin 1, [{}, {}, {}, {}, {}])] L).any fun _ => true := by
    decide +kernel
  obtain ⟨L, h, hend⟩ := reaches_of_runCalls hrun
  obtain ⟨hend, hagain⟩ := Bool.and_eq_true_iff.mp hend
  obtain ⟨hissued, haccepted⟩ := Bool.and_eq_true_iff.mp hend
  replace hissued : L.issued = [⟨1, 2, sampleToken⟩, ⟨1, 2, otherToken⟩] := of_decide_eq_true hissued
  obtain ⟨L', h', -⟩ := reaches_of_runCalls hagain
  obtain ⟨-, hresolves, hlisted, hcount, hanswered⟩ :=
    token_rotation samplePlatform sampleSha256_injective initial_sampleLedger h h'
  rw [hissued] at hlisted hresolves hcount
  obtain ⟨row, hrow, hfor⟩ := hlisted ⟨1, 2, otherToken⟩ (by simp)
  have hlast : lastToken [⟨1, 2, sampleToken⟩, ⟨1, 2, otherToken⟩] row.interviewRequestId row.userId =
      some otherToken := by
    rw [hfor.1, hfor.2]
    rfl
  refine ⟨L, L', row, h, h', hissued, ?_, (hresolves otherToken row).mpr ⟨hrow, hlast⟩, ?_, ?_⟩
  · refine Option.eq_none_iff_forall_ne_some.mpr fun old hold => ?_
    obtain ⟨-, hlast'⟩ := (hresolves sampleToken old).mp hold
    by_cases hpair : old.interviewRequestId = 1 ∧ old.userId = 2
    · rw [hpair.1, hpair.2] at hlast'
      exact absurd hlast' (by decide)
    · have hnone : tokensOf [⟨1, 2, sampleToken⟩, ⟨1, 2, otherToken⟩] old.interviewRequestId old.userId = [] := by
        simp only [tokensOf, List.map_eq_nil_iff, List.filter_eq_nil_iff, decide_eq_true_eq]
        rintro i hi ⟨hrequest, huser⟩
        have hi' : i.requestId = 1 ∧ i.userId = 2 := by
          simp only [List.mem_cons, List.not_mem_nil, or_false] at hi
          rcases hi with rfl | rfl <;> exact ⟨rfl, rfl⟩
        exact hpair ⟨hrequest.symm.trans hi'.1, huser.symm.trans hi'.2⟩
      rw [lastToken, hnone] at hlast'
      cases hlast'
  · rw [hcount row hrow, hfor.1, hfor.2]
    rfl
  · refine hanswered row hrow ?_
    rw [of_decide_eq_true (List.all_eq_true.mp haccepted row hrow)]
    trivial

end InterviewScheduler.Accounts
