import InterviewScheduler.Accounts.Calls

/-! # Tokens for archived users

A login asks whether the account is archived. A login with Google and the claim of an account do not: they
issue tokens to an archived user as well. -/

namespace InterviewScheduler.Accounts

open InterviewScheduler.Intervals InterviewScheduler.Engine InterviewScheduler.Effects
open InterviewScheduler.Core (Id)

/-- The user whom the tokens name is not archived. -/
def ActiveHolder (T : Tables) (pair : TokenPair) : Prop :=
  ∀ user, T.user pair.user.id = some user → user.archivedAt = none

/-- A login with Google names no archived user, and neither does the token of a claim. -/
def Call.OfActive (pf : Platform) (w : World) : Call → Prop
  | .googleLogin idToken => ∀ user,
    w.db.userByEmail (pf.googleIdentity idToken).email = some user → user.archivedAt = none
  | .claimAccount rawToken _ => ∀ row user,
    w.db.invitationByTokenHash (pf.sha256Hex rawToken) = some row →
      w.db.user row.userId = some user → user.archivedAt = none
  | _ => True

section Holder

variable {T T' : Tables} {user : User}

theorem mem_of_userByEmail {email : String} (h : T.userByEmail email = some user) : user ∈ T.users :=
  List.mem_of_find?_eq_some h

theorem mem_of_user {u : Id} (h : T.user u = some user) : user ∈ T.users :=
  List.mem_of_find?_eq_some h

/-- The tokens of a user of the table. -/
theorem activeHolder_tokenPair (hT : T.Registered) (hmem : user ∈ T.users) :
    ActiveHolder T (tokenPair user) ↔ user.archivedAt = none := by
  unfold ActiveHolder
  rw [show (tokenPair user).user.id = user.id from rfl, hT.user_eq hmem]
  constructor
  · intro h
    exact h user rfl
  · rintro h _ ⟨⟩
    exact h

/-- The tokens of a user who has become another row with the same key. -/
theorem activeHolder_of_same {user' : User} (hT : T.Registered) (hmem : user' ∈ T.users)
    (hid : user'.id = user.id) (harchived : user'.archivedAt = user.archivedAt) :
    ActiveHolder T (tokenPair user) ↔ user.archivedAt = none := by
  rw [← harchived, ← activeHolder_tokenPair hT hmem]
  unfold ActiveHolder
  rw [show (tokenPair user).user.id = (tokenPair user').user.id from hid.symm]

/-- A claim changes the password of the user alone. -/
theorem mem_setPassword {h : String} (hmem : user ∈ T.users) :
    ∃ user' ∈ (T.setPassword user h).users,
      user'.id = user.id ∧ user'.archivedAt = user.archivedAt := by
  unfold Tables.setPassword Write.apply
  refine ⟨_, List.mem_map_of_mem hmem, ?_⟩
  rw [if_pos rfl]
  exact ⟨rfl, rfl⟩

end Holder

/-! ### The calls that issue tokens -/

/-- Nothing is asked of a program. -/
theorem wp_true {α : Type} {C : Condition Effect Choice Session World} (p : M α)
    (v : Session × World) : wp (follow C) p (fun _ _ => True) v := by
  induction p generalizing v with
  | ret a => trivial
  | raise e => trivial
  | op o k ih => exact ⟨trivial, fun r v' _ => ih r v'⟩

/-- What a call returns is what its response is made of. -/
theorem wp_range {α : Type} {C : Condition Effect Choice Session World} (f : α → Response) (p : M α)
    (v : Session × World) :
    wp (follow C) (f <$> p) (fun r _ => ∀ x, r = .ok x → ∃ a, f a = x) v := by
  apply wp_map
  refine wp_mono (wp_true p v) fun r v' _ x hx => ?_
  cases r with
  | error e => cases hx
  | ok a => exact ⟨a, Except.ok.inj hx⟩

/-- Logins and claims. -/
def Call.Grants : Call → Prop
  | .login _ => True
  | .googleLogin _ => True
  | .claimAccount _ _ => True
  | _ => False

variable (pf : Platform)

theorem grants_of_tokens {call : Call} {pair : TokenPair} {s : Session} {w w' : World}
    (hrun : Runs machine Alone (handle pf call) {} w (.ok (.tokens pair)) s w') : call.Grants := by
  cases call with
  | register data =>
    obtain ⟨_, ⟨⟩⟩ := hrun.meets (wp_range _ _ _) _ rfl
  | setArchived actorId userId archived =>
    obtain ⟨_, ⟨⟩⟩ := hrun.meets (wp_range _ _ _) _ rfl
  | issueForRequest actor requestId =>
    obtain ⟨_, ⟨⟩⟩ := hrun.meets (wp_range _ _ _) _ rfl
  | getByToken rawToken =>
    obtain ⟨_, ⟨⟩⟩ := hrun.meets (wp_range _ _ _) _ rfl
  | respond rawToken response reason =>
    obtain ⟨_, ⟨⟩⟩ := hrun.meets (wp_range _ _ _) _ rfl
  | login data => trivial
  | googleLogin idToken => trivial
  | claimAccount rawToken password => trivial

/-- **Tokens are for active users** exactly when the call names none who is archived: a login always, a
login with Google and a claim when the user is not archived. -/
theorem tokens_active_iff {L₀ L : Ledger} (h₀ : L₀.Initial) (h : Reaches pf L₀ L) {call : Call}
    {pair : TokenPair} {s : Session} {w : World}
    (hrun : Runs machine Alone (handle pf call) {} L.world (.ok (.tokens pair)) s w) :
    ActiveHolder w.db pair ↔ call.OfActive pf L.world := by
  have hT := h.schema h₀.schema
  have hT' := schema_runs hrun hT
  suffices hwp : wp (follow Alone) (handle pf call) (fun r v => v.2.db.Schema → ∀ pair,
      r = .ok (.tokens pair) → (ActiveHolder v.2.db pair ↔ call.OfActive pf L.world)) ({}, L.world) from
    hrun.meets hwp hT' pair rfl
  have hgrants := grants_of_tokens pf hrun
  cases call with
  | login data =>
    refine wp_map (wp_login pf data idle_empty ?_ ?_)
    · rintro _ _ _ _ _ _ ⟨⟩
    · rintro user s' w' huser hactive hk hT' _ ⟨⟩
      refine (activeHolder_tokenPair hT'.registered ?_).trans ⟨fun _ => trivial, fun _ => hactive⟩
      rw [hk.db]
      exact mem_of_userByEmail huser
  | googleLogin idToken =>
    refine wp_map (wp_googleLogin pf idToken idle_empty ?_ ?_ ?_)
    · rintro _ _ _ _ _ _ ⟨⟩
    · rintro user s' w' huser hk hT' _ ⟨⟩
      rw [activeHolder_tokenPair hT'.registered (by rw [hk.db]; exact mem_of_userByEmail huser)]
      constructor
      · intro hactive user' huser'
        obtain rfl : user = user' := Option.some.inj (huser.symm.trans huser')
        exact hactive
      · intro hactive
        exact hactive user huser
    · rintro user s' w' hnone hactive hm hT' _ ⟨⟩
      refine (activeHolder_tokenPair hT'.registered ?_).trans ⟨fun _ => ?_, fun _ => hactive⟩
      · rw [hm.db]
        exact List.mem_append_right _ (List.mem_singleton.mpr rfl)
      · intro user' huser'
        rw [hnone] at huser'
        cases huser'
  | claimAccount rawToken password =>
    refine wp_map (wp_claimAccount pf rawToken password idle_empty ?_ ?_ ?_)
    · rintro _ _ _ _ _ _ ⟨⟩
    · rintro _ _ _ _ _ _ _ _ _ _ ⟨⟩
    · rintro _ s' w' hclaimed hT' _ ⟨⟩
      cases hclaimed with
      | @of row user passwordHash _ _ _ hrow _ _ _ _ huser _ _ hpair hm husers _ _ _ =>
        obtain ⟨user', hmem, hid, harchived⟩ := mem_setPassword (mem_of_user huser)
        rw [hpair, activeHolder_of_same hT'.registered (by rw [hm.db, husers]; exact hmem) hid harchived]
        constructor
        · intro hactive row' user'' hrow' huser'
          obtain rfl : row = row' := Option.some.inj (hrow.symm.trans hrow')
          obtain rfl : user = user'' := Option.some.inj (huser.symm.trans huser')
          exact hactive
        · intro hactive
          exact hactive row user hrow huser
  | _ => exact hgrants.elim

theorem tokens_active_login : ∃ pair s w, Runs machine Alone
    (handle samplePlatform (.login ⟨"root@example.com", samplePassword⟩)) {} sampleLedger.world
      (.ok (.tokens pair)) s w ∧ ActiveHolder w.db pair := by
  have hrun : returns samplePlatform (.login ⟨"root@example.com", samplePassword⟩) [{}]
      sampleLedger.world (.tokens (tokenPair admin)) (fun _ => true) := by
    decide +kernel
  obtain ⟨s, w, h, -⟩ := runs_of_returns hrun
  exact ⟨_, s, w, h, (tokens_active_iff samplePlatform initial_sampleLedger .init h).mpr trivial⟩

/-- A candidate is archived, and logs in with Google. -/
theorem googleLogin_archived : ∃ L pair s w, Reaches samplePlatform sampleLedger L ∧
    Runs machine Alone (handle samplePlatform (.googleLogin "eyJhbGciOiJSUzI1NiJ9")) {} L.world
      (.ok (.tokens pair)) s w ∧ ¬ ActiveHolder w.db pair := by
  have hrun : (runCalls samplePlatform [(.setArchived 9 2 true, [{}, {}, {}, {}, {}, {}])]
      sampleLedger).any fun L => returns samplePlatform (.googleLogin "eyJhbGciOiJSUzI1NiJ9") [{}, {}]
        L.world (.tokens (tokenPair ada))
          fun w => (w.db.user 2).map (fun user => user.archivedAt) = some (some 0) := by
    decide +kernel
  obtain ⟨L, hL, hcall⟩ := reaches_of_runCalls hrun
  obtain ⟨s, w, h, harchived⟩ := runs_of_returns hcall
  refine ⟨L, _, s, w, hL, h, fun hactive => ?_⟩
  obtain ⟨user, huser, htime⟩ := Option.map_eq_some_iff.mp (of_decide_eq_true harchived)
  rw [hactive user huser] at htime
  cases htime

end InterviewScheduler.Accounts
