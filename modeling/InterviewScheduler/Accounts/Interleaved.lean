import InterviewScheduler.Accounts.Answers

/-! # Calls about accounts, interleaved

Any calls about accounts, from a table whose ids were drawn. A user in the table was there at first or was
permitted to one of the calls (`users_accounted`), what a call has answered is true of the table at any
later time (`answers_true`), and a refresh token that was handed out is honoured until it expires
(`refresh_honoured`). -/

namespace InterviewScheduler.Accounts

open InterviewScheduler.Engine InterviewScheduler.Effects
open InterviewScheduler.Core (Id Role)

variable {Token : Type} {dep : Deployment Token} {v : Sight}

/-! ### A refresh token of a user -/

/-- When a refresh token expires that was created at the time `t₀`. -/
def refreshExpiry (cfg : TokenSettings Token) (t₀ : Instant) : Instant :=
  numericDate (t₀ + minutes (1440 * cfg.jwtRefreshTokenExpireDays)) * 1000000

/-- The claims of a refresh token. -/
def refreshClaims (cfg : TokenSettings Token) (userId : Id) (tokenVersion : ℕ) (t₀ : Instant) : Payload :=
  { claimsOf userId .refresh (minutes (1440 * cfg.jwtRefreshTokenExpireDays)) t₀ with
    tokenVersion := some tokenVersion }

theorem decodeToken_createRefreshToken {cfg : TokenSettings Token} (hjwt : cfg.jwt.Lawful) {userId : Id}
    {tokenVersion : ℕ} {t₀ t : Instant} (ht : t₀ ≤ t) :
    decodeToken cfg (createRefreshToken cfg userId tokenVersion t₀) .refresh t =
      if t < refreshExpiry cfg t₀ then some (refreshClaims cfg userId tokenVersion t₀) else none := by
  have hsigned : SignedAs cfg (createRefreshToken cfg userId tokenVersion t₀)
      (refreshClaims cfg userId tokenVersion t₀) := rfl
  have hvalid : (refreshClaims cfg userId tokenVersion t₀).ValidAt t ↔ t < refreshExpiry cfg t₀ :=
    validAt_claimsOf userId .refresh ht
  by_cases hlive : t < refreshExpiry cfg t₀
  · rw [if_pos hlive]
    exact (decodeToken_eq_some hjwt hsigned).mpr ⟨rfl, rfl, hvalid.mpr hlive⟩
  · rw [if_neg hlive]
    refine Option.eq_none_iff_forall_ne_some.mpr fun q hq => ?_
    exact hlive (hvalid.mp ((decodeToken_eq_some hjwt hsigned).mp hq).2.2)

/-- The answer to the refresh token of a user who is there. -/
theorem wp_refresh_issued {Per : Tables → User → Prop} (hjwt : dep.jwt.Lawful) {u : User} {t₀ : Instant}
    (hu : u ∈ v.tables.users) (ht₀ : t₀ ≤ v.time) :
    wp (counting Per) (refresh dep (createRefreshToken dep.toTokenSettings u.id u.tokenVersion t₀))
      (fun x v' => ∀ out, x = .ok out → ∃ t, v.time ≤ t ∧ t ≤ v'.time ∧
        out = if t < refreshExpiry dep.toTokenSettings t₀ then .ok (tokenPair u).accessToken
          else .error (.ofClass .refreshTokenInvalidError)) v := by
  refine wp_bind (wp_perform trivial ?_)
  rintro (e | t) v₁ ⟨hlater₁, hstep₁⟩
  · exact fun out h => by cases h
  obtain ⟨-, -, hle, hle₁⟩ := hstep₁
  dsimp only [Then]
  rw [decodeToken_createRefreshToken hjwt (ht₀.trans hle)]
  by_cases hlive : t < refreshExpiry dep.toTokenSettings t₀
  · rw [if_pos hlive]
    refine wp_bind (wp_getUser (fun e v₂ _ out h => by cases h) (fun v₂ h₂ _ _ hnone => ?_)
      fun user v₂ h₂ _ _ huser hid => ?_)
    · obtain ⟨u', hu', heq⟩ := (hlater₁.outlives.trans h₂.outlives) u hu
      exact absurd (User.of_identity heq).1 (hnone u' hu')
    · obtain ⟨u', hu', heq⟩ := (hlater₁.outlives.trans h₂.outlives) u hu
      obtain ⟨hid', -, hrole, hversion⟩ := User.of_identity heq
      obtain rfl : user = u' := h₂.keys.ids user huser u' hu' (hid.trans hid'.symm)
      refine wp_ite (fun hne => absurd (congrArg some hversion.symm) hne) fun _ => ?_
      rintro out ⟨⟩
      refine ⟨t, hle, hle₁.trans h₂.time, ?_⟩
      rw [if_pos hlive, hid', hrole]
      rfl
  · rw [if_neg hlive]
    rintro out ⟨⟩
    exact ⟨t, hle, hle₁, by rw [if_neg hlive]⟩

/-! ### Every run -/

section Pools

variable {ι : Type} [DecidableEq ι] {C : ι → Condition Effect Choice Session World}
  {calls : ι → DirectoryCall Token} {w₀ : World} {P P' : Pool Effect Exc Reply Session World ι}

/-- The calls before their first step, each with a session of its own. -/
def received (dep : Deployment Token) (calls : ι → DirectoryCall Token) (w₀ : World) :
    Pool Effect Exc Reply Session World ι where
  prog i := serve dep (calls i)
  loc _ := {}
  shared := w₀

/-- The keys of the users are unique, and their ids are among those that were drawn. -/
structure Enrolled (w : World) : Prop where
  registered : w.db.Registered
  drawn : ∀ u ∈ w.db.users, u.id ∈ w.drawn

omit [DecidableEq ι] in
theorem counted_received (h₀ : Enrolled w₀) :
    ∃ v, Counted (fun i => Permitted dep (calls i)) (fun i x T _ => Says dep (calls i) x T) w₀.db
      (received dep calls w₀) v := by
  refine ⟨fun _ => { tables := w₀.db, time := w₀.now }, ?_, fun i => wp_serve_counting (calls i) rfl⟩
  exact {
    registered := h₀.registered
    drawn := h₀.drawn
    outlives := .refl _
    counted := fun u hu => .inl ⟨u, hu, rfl⟩
    seen := fun i => .refl _
    time := fun i => le_refl _
    pending := fun i => rfl
    fresh := fun i n hn => absurd hn List.not_mem_nil
    apart := fun i j _ n hn => absurd hn List.not_mem_nil
    inserts := fun i row hrow => absurd hrow List.not_mem_nil }

/-- The calls, on their way. -/
theorem counted_of_received (h₀ : Enrolled w₀) (h : Pool.Reaches machine C (received dep calls w₀) P) :
    ∃ v, Counted (fun i => Permitted dep (calls i)) (fun i x T _ => Says dep (calls i) x T) w₀.db P v :=
  counted_of_reaches (fun i => lasting_permitted (calls i)) (counted_received h₀) h

/-- **Nobody is in the table who was not let in.** Users are never removed, keep what they were created with
and have different e-mail addresses; one that is new was permitted to a call. -/
theorem users_accounted (h₀ : Enrolled w₀) (h : Pool.Reaches machine C (received dep calls w₀) P) :
    P.shared.db.Registered ∧ Outlives w₀.db P.shared.db ∧
      ∀ u ∈ P.shared.db.users, w₀.db.Has u.identity ∨ ∃ i, Permitted dep (calls i) P.shared.db u := by
  obtain ⟨v, hv⟩ := counted_of_received h₀ h
  exact ⟨hv.census.registered, hv.census.outlives, hv.census.counted⟩

/-- **What a call has answered stays true.** -/
theorem answers_true (h₀ : Enrolled w₀) (h : Pool.Reaches machine C (received dep calls w₀) P) (i : ι) :
    (∀ reply, P.prog i = .ret reply → Says dep (calls i) (.ok reply) P.shared.db) ∧
      ∀ e, P.prog i = .raise e → Says dep (calls i) (.error e) P.shared.db := by
  obtain ⟨v, hv⟩ := counted_of_received h₀ h
  exact hv.answer (fun j x T T' t t' hT _ hsays => hsays.outlives hT) i

/-- The tokens that a call has handed out. -/
def handedOut : DirectoryCall Token → Reply → Option TokenPair
  | .account (.login _), .account (.tokens pair) => some pair
  | .account (.googleLogin _), .account (.tokens pair) => some pair
  | .account (.claimAccount _ _), .account (.tokens pair) => some pair
  | .bootstrapAdmin _ _, .tokens pair => some pair
  | _, _ => none

/-- They are those of a user in the table. -/
theorem Says.handedOut {call : DirectoryCall Token} {reply : Reply} {pair : TokenPair} {T : Tables}
    (h : Says dep call (.ok reply) T) (hpair : handedOut call reply = some pair) :
    ∃ u ∈ T.users, pair = tokenPair u := by
  unfold Accounts.handedOut at hpair
  split at hpair
  · obtain rfl := Option.some.inj hpair
    obtain ⟨u, hu, heq, -⟩ := h
    exact ⟨u, hu, heq⟩
  · obtain rfl := Option.some.inj hpair
    obtain ⟨u, hu, heq, -⟩ := h
    exact ⟨u, hu, heq⟩
  · obtain rfl := Option.some.inj hpair
    exact h
  · obtain rfl := Option.some.inj hpair
    obtain ⟨u, hu, heq, -⟩ := h
    exact ⟨u, hu, heq⟩
  · cases hpair

/-- **A refresh token is honoured until it expires, and nothing revokes it.** Whatever the other calls do,
the archive of the account included. -/
theorem refresh_honoured {C' : ι → Condition Effect Choice Session World} (hjwt : dep.jwt.Lawful)
    (h₀ : Enrolled w₀) (h : Pool.Reaches machine C (received dep calls w₀) P) {i j : ι} {reply : Reply}
    {pair : TokenPair} {t₀ : Instant} (hreply : P.prog i = .ret reply)
    (hpair : handedOut (calls i) reply = some pair) (ht₀ : t₀ ≤ P.shared.now)
    (hcall : calls j = .refresh (createRefreshToken dep.toTokenSettings pair.refreshToken.sub
      pair.refreshToken.tokenVersion t₀))
    (hj : P.prog j = serve dep (calls j)) (h' : Pool.Reaches machine C' P P') {out : Except Refusal AccessToken}
    (hout : P'.prog j = .ret (.access out)) :
    ∃ t, P.shared.now ≤ t ∧ t ≤ P'.shared.now ∧
      out = if t < refreshExpiry dep.toTokenSettings t₀ then .ok pair.accessToken
        else .error (.ofClass .refreshTokenInvalidError) := by
  obtain ⟨v, hv⟩ := counted_of_received h₀ h
  obtain ⟨u, hu, rfl⟩ := Says.handedOut ((hv.answer (fun j x T T' t t' hT _ hsays => hsays.outlives hT) i).1
    reply hreply) hpair
  -- the call sees the table at the time of its first step
  let Q : ι → Except Exc Reply → Tables → Instant → Prop := fun k x _ t' => k = j →
    ∀ out, x = .ok (.access out) → ∃ t, P.shared.now ≤ t ∧ t ≤ t' ∧
      out = if t < refreshExpiry dep.toTokenSettings t₀ then .ok (tokenPair u).accessToken
        else .error (.ofClass .refreshTokenInvalidError)
  have hnext : Counted (fun i => Permitted dep (calls i)) Q w₀.db P
      (Function.update v j ((v j).look P.shared)) := by
    refine ⟨hv.census.look j, fun k => ?_⟩
    by_cases hk : k = j
    · subst hk
      rw [hj, hcall, Function.update_self]
      refine wp_map (wp_mono (wp_refresh_issued hjwt hu ht₀) ?_)
      rintro (e | answer) v' hanswer - out hx
      · cases hx
      · cases hx
        exact hanswer answer rfl
    · rw [Function.update_of_ne hk]
      exact wp_mono (hv.proved k) fun x v' _ heq => absurd heq hk
  obtain ⟨v', hv'⟩ := counted_of_reaches (fun i => lasting_permitted (calls i)) ⟨_, hnext⟩ h'
  refine (hv'.answer (fun k x T T' t t' _ ht hQ hk out hx => ?_) j).1 _ hout rfl out rfl
  obtain ⟨t₁, hle, hle', heq⟩ := hQ hk out hx
  exact ⟨t₁, hle, hle'.trans ht, heq⟩

end Pools

/-! ### Samples -/

/-- A library whose tokens are the claims with the key. -/
def sampleJwt : JwtLibrary (Payload × String) where
  encode p key := (p, key)
  decode token key t := if token.2 = key ∧ token.1.ValidAt t then some token.1 else none

theorem lawful_sampleJwt : sampleJwt.Lawful := fun p key t => by simp [sampleJwt]

def sampleDeployment : Deployment (Payload × String) where
  jwt := sampleJwt
  platform := samplePlatform
  adminBootstrapToken := "first-admin"

def sampleWorld : World := { db := sampleTables, drawn := [9, 2] }

theorem enrolled_sampleWorld : Enrolled sampleWorld := by
  refine ⟨⟨?_, ?_⟩, ?_⟩
  · decide
  · decide
  · decide

/-- How a call in progress has ended. -/
def ended {α : Type} : M α → Option (Except Exc α)
  | .ret a => some (.ok a)
  | .raise e => some (.error e)
  | .op _ _ => none

theorem ret_of_ended {α : Type} {p : M α} {a : α} (h : ended p = some (.ok a)) : p = .ret a := by
  cases p with
  | ret b =>
    cases h
    rfl
  | raise e => cases h
  | op o k => cases h

theorem raise_of_ended {α : Type} {p : M α} {e : Exc} (h : ended p = some (.error e)) : p = .raise e := by
  cases p with
  | ret b => cases h
  | raise e =>
    cases h
    rfl
  | op o k => cases h

/-- An administrator is made with the secret while somebody registers with the same e-mail address. -/
def sameAddress : Bool → DirectoryCall (Payload × String)
  | true => .bootstrapAdmin { email := "grace@example.com", password := "pw", name := "Grace" } (some "first-admin")
  | false => .account (.register { email := "grace@example.com", password := "pw", name := "Grace" })

/-- Both find that nobody has the e-mail address; the administrator is first. -/
def sameAddressSchedule : List (Bool × Choice) :=
  [(false, {}), (true, { answer := .text sampleSalt }), (true, { answer := .pick 11 }), (true, {}), (true, {}),
    (true, {}), (true, {}), (true, {}), (true, {}), (false, { answer := .text sampleSalt }),
    (false, { answer := .pick 12 }), (false, {}), (false, {}), (false, {})]

theorem reaches_sameAddress : ∃ P : Pool Effect Exc Reply Session World Bool,
    Pool.Reaches machine (fun _ _ _ _ _ _ => True) (received sampleDeployment sameAddress sampleWorld) P ∧
      (∃ u ∈ P.shared.db.users, u.email = "grace@example.com" ∧ u.role = .admin) ∧
      P.prog false = .raise (.ofClass .emailAlreadyRegisteredError) := by
  have hrun : (Pool.run machine (fun _ _ _ _ _ _ => true) sameAddressSchedule
      (received sampleDeployment sameAddress sampleWorld)).any (fun P =>
        decide (∃ u ∈ P.shared.db.users, u.email = "grace@example.com" ∧ u.role = .admin) &&
          decide (ended (P.prog false) = some (.error (.ofClass .emailAlreadyRegisteredError)))) := by
    decide +kernel
  obtain ⟨P, hP, hp⟩ := (Option.any_eq_true _ _).mp hrun
  obtain ⟨hadmin, hended⟩ := Bool.and_eq_true_iff.mp hp
  refine ⟨P, (Pool.reaches_of_run hP).mono fun _ _ _ _ _ _ _ => trivial, of_decide_eq_true hadmin, ?_⟩
  exact raise_of_ended (of_decide_eq_true hended)

/-- The new administrator was let in. -/
theorem users_accounted_sample : ∃ P : Pool Effect Exc Reply Session World Bool,
    (∃ u ∈ P.shared.db.users, u.email = "grace@example.com" ∧ u.role = .admin) ∧
      P.shared.db.Registered ∧ Outlives sampleTables P.shared.db ∧
      ∀ u ∈ P.shared.db.users, sampleTables.Has u.identity ∨
        ∃ i, Permitted sampleDeployment (sameAddress i) P.shared.db u := by
  obtain ⟨P, hP, hadmin, -⟩ := reaches_sameAddress
  exact ⟨P, hadmin, users_accounted enrolled_sampleWorld hP⟩

/-- The registration that comes too late says why. -/
theorem answers_true_sample : ∃ P : Pool Effect Exc Reply Session World Bool,
    Says sampleDeployment (sameAddress false) (.error (.ofClass .emailAlreadyRegisteredError)) P.shared.db := by
  obtain ⟨P, hP, -, hraise⟩ := reaches_sameAddress
  exact ⟨P, (answers_true enrolled_sampleWorld hP false).2 _ hraise⟩

/-- An administrator logs in, and later comes with the refresh token. -/
def loginThenRefresh : Bool → DirectoryCall (Payload × String)
  | true => .account (.login { email := "root@example.com", password := samplePassword })
  | false => .refresh (createRefreshToken sampleDeployment.toTokenSettings 9 0 0)

/-- One minute after the login. -/
def afterLogin : List (Bool × Choice) := [(false, { elapsed := 60000000 }), (false, {})]

theorem refresh_honoured_sample : ∃ t : Instant, ∃ out : Except Refusal AccessToken,
    out = .ok { sub := 9, role := .admin } ∧ 0 ≤ t ∧
      out = if t < refreshExpiry sampleDeployment.toTokenSettings 0 then .ok (tokenPair admin).accessToken
        else .error (.ofClass .refreshTokenInvalidError) := by
  have hrun : (Pool.run machine (fun _ _ _ _ _ _ => true) [(true, {})]
      (received sampleDeployment loginThenRefresh sampleWorld)).any (fun P =>
        (Pool.run machine (fun _ _ _ _ _ _ => true) afterLogin P).any fun P' =>
          decide (P.shared.now = 0) &&
            decide (ended (P.prog true) = some (.ok (.account (.tokens (tokenPair admin))))) &&
              decide (ended (P'.prog false) = some (.ok (.access (.ok { sub := 9, role := .admin }))))) := by
    decide +kernel
  obtain ⟨P, hP, hrest⟩ := (Option.any_eq_true _ _).mp hrun
  obtain ⟨P', hP', hp⟩ := (Option.any_eq_true _ _).mp hrest
  obtain ⟨hp, hrefresh⟩ := Bool.and_eq_true_iff.mp hp
  obtain ⟨hnow, hlogin⟩ := Bool.and_eq_true_iff.mp hp
  have hwaiting : P.prog false = serve sampleDeployment (loginThenRefresh false) := by
    cases hP
    rfl
  have hstart : (0 : Instant) ≤ P.shared.now := by rw [of_decide_eq_true hnow]
  obtain ⟨t, ht, -, heq⟩ := refresh_honoured (i := true) (j := false) lawful_sampleJwt enrolled_sampleWorld
    (Pool.reaches_of_run hP) (ret_of_ended (of_decide_eq_true hlogin)) rfl hstart rfl hwaiting
    (Pool.reaches_of_run hP') (ret_of_ended (of_decide_eq_true hrefresh))
  exact ⟨t, _, rfl, hstart.trans ht, heq⟩

end InterviewScheduler.Accounts
