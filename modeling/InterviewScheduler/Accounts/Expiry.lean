import InterviewScheduler.Accounts.Calls

/-! # Invitations that have expired

A response to an invitation whose time is over raises. The claim of an account looks at the time only as
long as the invitation is open: once it was answered, its token still opens an account that has no
password. -/

namespace InterviewScheduler.Accounts

open InterviewScheduler.Intervals InterviewScheduler.Engine InterviewScheduler.Effects
open InterviewScheduler.Core (Id)

/-- The call is a response or a claim with this token. -/
def Call.Presents (rawToken : String) : Call → Prop
  | .respond raw _ _ => raw = rawToken
  | .claimAccount raw _ => raw = rawToken
  | _ => False

/-- The call has raised, and has changed nothing but that an open invitation may be marked EXPIRED. -/
structure GrantsNothing (row : ParticipantInvitation) (w : World) (r : Except Exc Response) (w' : World) :
    Prop where
  raises : ∃ e, r = .error e
  db : w'.db = w.db ∨ row.status = .pending ∧ w'.db = w.db.expire row

variable (pf : Platform)

/-- The call claims the account of an answered invitation, which has no password yet. -/
structure Reopens (row : ParticipantInvitation) (w : World) (rawToken password : String) : Prop where
  answered : row.status.Terminal
  setup : row.requiresAccountSetup = true
  unclaimed : ∃ user, w.db.user row.userId = some user ∧ user.passwordHash = none
  hashes : ∃ salt, (pf.hashpw password salt).isSome

/-- The calls that an expired invitation still serves. -/
def Call.Reopens (row : ParticipantInvitation) (w : World) : Call → Prop
  | .claimAccount rawToken password => Accounts.Reopens pf row w rawToken password
  | _ => False

section Expired

variable {pf : Platform} {row : ParticipantInvitation} {w w' : World} {rawToken : String}

theorem Kept.grantsNothing (h : Kept w w') {r : Except Exc Response} {e : Exc} (hr : r = .error e) :
    GrantsNothing row w r w' :=
  ⟨⟨e, hr⟩, Or.inl h.db⟩

theorem answered_of_closed {st : InvitationStatus} (hpending : st ≠ .pending) (hexpired : st ≠ .expired) :
    st.Terminal := by
  cases st with
  | pending => exact absurd rfl hpending
  | expired => exact absurd rfl hexpired
  | accepted => decide
  | declined => decide
  | unavailable => decide

/-- The claim of an answered invitation goes through, whenever it is made. -/
theorem runs_claimAccount {password : String}
    (hrow : w.db.invitationByTokenHash (pf.sha256Hex rawToken) = some row)
    (h : Reopens pf row w rawToken password) : ∃ pair s w',
    Runs machine Alone (handle pf (.claimAccount rawToken password)) {} w (.ok (.tokens pair)) s w' := by
  obtain ⟨user, huser, hnone⟩ := h.unclaimed
  obtain ⟨salt, hsome⟩ := h.hashes
  obtain ⟨passwordHash, hhash⟩ := Option.isSome_iff_exists.mp hsome
  have hpending : row.status ≠ .pending := fun heq => absurd (heq ▸ h.answered) (by decide)
  have hopen : row.status ≠ .expired := fun heq => absurd (heq ▸ h.answered) (by decide)
  have hcalm : ∀ (β : Type) (o : Effect β) (s : Session) (w : World), Alone β o {} s w :=
    fun _ _ _ _ x hx => by cases hx
  have hresolve : Runs machine Alone (resolveActive pf rawToken) {} w (.ok row) {} (w.elapse {}) := by
    refine .bind (.perform (hcalm _ _ _ _) rfl) (.bind (.orRaise hrow) ?_)
    rw [if_neg hpending]
    exact .ret
  have hgetUser : ∀ w' : World, w'.db = w.db →
      Runs machine Alone (getUser row.userId) {} w' (.ok (some user)) {} (w'.elapse {}) := by
    intro w' hdb
    refine .perform (hcalm _ _ _ _) ?_
    rw [← huser, ← hdb]
    rfl
  have hhashed : ∀ w', Runs machine Alone (hashPassword pf password) {} w' (.ok passwordHash) {}
      (w'.elapse { answer := .text salt }) := by
    intro w'
    have hsalt : Alone _ .gensalt { answer := .text salt } {} w' := fun x hx => by cases hx
    exact .bind (.perform hsalt rfl) (.orRaise hhash)
  have htail : ∀ w' audit, ∃ s w'', Runs machine Alone (do
      dbAdd (.setPasswordHash user.id user.passwordHash passwordHash)
      recordAudit audit
      dbCommit
      pure (tokenPair user)) {} w' (.ok (tokenPair user)) s w'' := by
    intro w' audit
    exact ⟨_, _, .bind (.perform (hcalm _ _ _ _) rfl) (.bind
      (.bind (.perform (hcalm _ _ _ _) rfl) (.perform (hcalm _ _ _ _) rfl))
      (.bind (.perform (hcalm _ _ _ _) rfl) .ret))⟩
  obtain ⟨s, w', hrest⟩ := htail ((((w.elapse {}).elapse {})).elapse { answer := .text salt })
    { actorId := some user.id, actorRole := user.role, action := "ACCOUNT_CLAIMED", entityType := "user",
      entityId := user.id, metadata := [("email", user.email)] }
  refine ⟨tokenPair user, s, w', .bind (.bind hresolve (.bind (.raiseIf hopen) (.bind (.raiseIf ?_)
    (.bind (hgetUser _ rfl) (.bind (.orRaise rfl) (.bind (.raiseIf ?_) (.bind (hhashed _) hrest))))))) .ret⟩
  · rw [h.setup]
    decide
  · rw [hnone]
    decide

end Expired

/-- **What an expired invitation grants.** With the token of an invitation whose time is over, all runs
of a response or a claim raise and change nothing, exactly unless the call claims an account of an
answered invitation. -/
theorem expired_grants_nothing_iff {L₀ L : Ledger} (h₀ : L₀.Initial) (h : Reaches pf L₀ L)
    {row : ParticipantInvitation} {rawToken : String} {call : Call}
    (hrow : row ∈ L.world.db.invitations) (hraw : row.tokenHash = pf.sha256Hex rawToken)
    (hexpired : row.expiresAt ≤ L.world.now) (hcall : call.Presents rawToken) :
    (∀ r s w, Runs machine Alone (handle pf call) {} L.world r s w → GrantsNothing row L.world r w) ↔
      ¬ call.Reopens pf row L.world := by
  have hlookup : L.world.db.invitationByTokenHash (pf.sha256Hex rawToken) = some row := by
    rw [← hraw]
    exact (h.schema h₀.schema).proper.invitationByTokenHash_eq hrow
  have hsame : ∀ row', L.world.db.invitationByTokenHash (pf.sha256Hex rawToken) = some row' →
      row' = row :=
    fun row' hrow' => Option.some.inj (hrow'.symm.trans hlookup)
  cases call with
  | respond raw response reason =>
    obtain rfl : raw = rawToken := hcall
    refine ⟨fun _ h => h, fun _ r s w hrun => ?_⟩
    refine hrun.meets (Q := fun r v => GrantsNothing row L.world r v.2)
      (wp_map (wp_respondToInvitation pf raw response reason idle_empty ?_ ?_ ?_))
    · intro e s' w' hk
      exact hk.grantsNothing rfl
    · intro e s' w' row' hrow' hpending _ hm
      obtain rfl := hsame row' hrow'
      exact ⟨⟨e, rfl⟩, Or.inr ⟨hpending, hm.db⟩⟩
    · rintro r s' w' (⟨hrow', _, ht, hlive, _, _, _⟩)
      obtain rfl := hsame _ hrow'
      lia
  | claimAccount raw password =>
    obtain rfl : raw = rawToken := hcall
    constructor
    · intro hnothing hreopens
      obtain ⟨pair, s, w, hrun⟩ := runs_claimAccount hlookup hreopens
      obtain ⟨e, he⟩ := (hnothing _ s w hrun).raises
      cases he
    · intro hclosed r s w hrun
      refine hrun.meets (Q := fun r v => GrantsNothing row L.world r v.2)
        (wp_map (wp_claimAccount pf raw password idle_empty ?_ ?_ ?_))
      · intro e s' w' hk
        exact hk.grantsNothing rfl
      · intro e s' w' row' hrow' hpending _ hm
        obtain rfl := hsame row' hrow'
        exact ⟨⟨e, rfl⟩, Or.inr ⟨hpending, hm.db⟩⟩
      · rintro pair s' w' hclaimed
        cases hclaimed with
        | of hrow' ht hlive hstatus hsetup huser hnone hhash _ _ _ _ _ _ =>
          obtain rfl := hsame _ hrow'
          refine absurd ⟨?_, hsetup, ⟨_, huser, hnone⟩, ?_⟩ hclosed
          · refine answered_of_closed (fun hpending => ?_) hstatus
            have := hlive hpending
            lia
          · obtain ⟨salt, hsalt⟩ := hhash
            exact ⟨salt, by rw [hsalt]; rfl⟩
  | _ => exact hcall.elim

/-- An invitation is issued, accepted, and looked at a week later. -/
def acceptedCalls : List (Call × List Choice) :=
  [(.issueForRequest admin 1, issuingChoices),
    (.respond sampleToken .accepted none, [{}, {}, {}, {}, {}, {}, {}, {}, {}, {}, {}]),
    (.getByToken sampleToken, [{ elapsed := 604800000000 }, {}, {}])]

theorem reaches_accepted : ∃ L row, Reaches samplePlatform sampleLedger L ∧
    row ∈ L.world.db.invitations ∧ row.tokenHash = sampleSha256 sampleToken ∧
      row.expiresAt ≤ L.world.now ∧
        returns samplePlatform (.claimAccount sampleToken samplePassword)
          [{}, {}, { answer := .text sampleSalt }, {}, {}, {}, {}] L.world (.tokens (tokenPair ada))
            (fun _ => true) := by
  have hrun : (runCalls samplePlatform acceptedCalls sampleLedger).any fun L =>
      (L.world.db.invitationByTokenHash (sampleSha256 sampleToken)).any
        (fun row => row.expiresAt ≤ L.world.now) &&
        returns samplePlatform (.claimAccount sampleToken samplePassword)
          [{}, {}, { answer := .text sampleSalt }, {}, {}, {}, {}] L.world (.tokens (tokenPair ada))
            (fun _ => true) := by
    decide +kernel
  obtain ⟨L, hL, hend⟩ := reaches_of_runCalls hrun
  obtain ⟨hrow, hclaim⟩ := (Bool.and_eq_true _ _).mp hend
  obtain ⟨row, hfound, hexpired⟩ := (Option.any_eq_true _ _).mp hrow
  obtain ⟨hmem, hhash⟩ := Tables.mem_of_invitationByTokenHash hfound
  exact ⟨L, row, hL, hmem, hhash, of_decide_eq_true hexpired, hclaim⟩

theorem expired_response_grants_nothing : ∃ L row, Reaches samplePlatform sampleLedger L ∧
    row ∈ L.world.db.invitations ∧ row.expiresAt ≤ L.world.now ∧ ∀ r s w, Runs machine Alone
      (handle samplePlatform (.respond sampleToken .declined none)) {} L.world r s w →
        GrantsNothing row L.world r w := by
  obtain ⟨L, row, hL, hrow, hhash, hexpired, -⟩ := reaches_accepted
  have hcall : (Call.respond sampleToken .declined none).Presents sampleToken := rfl
  exact ⟨L, row, hL, hrow, hexpired, (expired_grants_nothing_iff samplePlatform initial_sampleLedger hL
    hrow hhash hexpired hcall).mpr fun h => h⟩

/-- A week after an invitation was sent that was accepted, its token opens the account. -/
theorem expired_claim_succeeds : ∃ L row pair s w, Reaches samplePlatform sampleLedger L ∧
    row ∈ L.world.db.invitations ∧ row.tokenHash = sampleSha256 sampleToken ∧
      row.expiresAt ≤ L.world.now ∧ Runs machine Alone
        (handle samplePlatform (.claimAccount sampleToken samplePassword)) {} L.world
          (.ok (.tokens pair)) s w := by
  obtain ⟨L, row, hL, hrow, hhash, hexpired, hclaim⟩ := reaches_accepted
  obtain ⟨s, w, h, -⟩ := runs_of_returns hclaim
  exact ⟨L, row, _, s, w, hL, hrow, hhash, hexpired, h⟩

end InterviewScheduler.Accounts
