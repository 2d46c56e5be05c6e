import InterviewScheduler.Accounts.Counting

/-! # What the account calls tell is true

Whom a call about accounts may insert (`Permitted`), and what its answer says of the table (`Says`). Both
stay true as the table changes, and each call keeps to the one and answers the other
(`wp_serve_counting`). -/

namespace InterviewScheduler.Accounts

open InterviewScheduler.Engine InterviewScheduler.Effects
open InterviewScheduler.Core (Id Role)

variable {Token : Type} {dep : Deployment Token} {T T' : Tables} {v : Sight} {α β : Type}

/-! ### Permissions -/

/-- The access token is that of an administrator. -/
def AdminToken (dep : Deployment Token) (T : Tables) (credentials : Option Token) : Prop :=
  ∃ token t payload, credentials = some token ∧
    decodeToken dep.toTokenSettings token .access t = some payload ∧
    ∃ admin ∈ T.users, payload.sub = some admin.id ∧ admin.role = .admin

/-- The users whom a call may insert. -/
def Permitted (dep : Deployment Token) : DirectoryCall Token → Tables → User → Prop
  | .account (.register data), _, u => u.email = data.email ∧ u.role = .candidate
  | .account (.googleLogin idToken), _, u =>
    u.email = (dep.platform.googleIdentity idToken).email ∧ u.role = .candidate
  | .provisionUser credentials data, T, u =>
    u.email = data.email ∧ u.role = data.role ∧ AdminToken dep T credentials
  | .bootstrapAdmin data providedToken, _, u =>
    u.email = data.email ∧ u.role = .admin ∧ dep.adminBootstrapToken ≠ "" ∧
      providedToken = some dep.adminBootstrapToken
  | _, _, _ => False

theorem AdminToken.outlives {credentials : Option Token} (h : AdminToken dep T credentials)
    (hT : Outlives T T') : AdminToken dep T' credentials := by
  obtain ⟨token, t, payload, hcred, hdecode, admin, hadmin, hsub, hrole⟩ := h
  obtain ⟨admin', hadmin', heq⟩ := hT admin hadmin
  obtain ⟨hid, -, hrole', -⟩ := User.of_identity heq
  exact ⟨token, t, payload, hcred, hdecode, admin', hadmin', hid ▸ hsub, hrole'.trans hrole⟩

theorem lasting_permitted (call : DirectoryCall Token) : Lasting (Permitted dep call) := by
  intro T T' u u' hT heq h
  obtain ⟨-, hemail, hrole, -⟩ := User.of_identity heq
  unfold Permitted at h ⊢
  split at h
  · exact ⟨hemail.trans h.1, hrole.trans h.2⟩
  · exact ⟨hemail.trans h.1, hrole.trans h.2⟩
  · exact ⟨hemail.trans h.1, hrole.trans h.2.1, h.2.2.outlives hT⟩
  · exact ⟨hemail.trans h.1, hrole.trans h.2.1, h.2.2⟩
  · exact h.elim

/-! ### Answers -/

/-- A user has the e-mail address. -/
def Tables.HasEmail (T : Tables) (email : String) : Prop := ∃ u ∈ T.users, u.email = email

/-- What an answer says of the users. -/
def Says (dep : Deployment Token) : DirectoryCall Token → Except Exc Reply → Tables → Prop
  | .account (.register data), .ok (.account (.user user)), T =>
    T.Has user.identity ∧ user.email = data.email ∧ user.role = .candidate
  | .account (.register data), .error e, T =>
    e = .ofClass .emailAlreadyRegisteredError → T.HasEmail data.email
  | .account (.login data), .ok (.account (.tokens pair)), T =>
    ∃ u ∈ T.users, pair = tokenPair u ∧ u.email = data.email
  | .account (.googleLogin idToken), .ok (.account (.tokens pair)), T =>
    ∃ u ∈ T.users, pair = tokenPair u ∧ u.email = (dep.platform.googleIdentity idToken).email
  | .account (.claimAccount _ _), .ok (.account (.tokens pair)), T => ∃ u ∈ T.users, pair = tokenPair u
  | .provisionUser _ data, .ok (.provisioned (.ok (user, _))), T =>
    T.Has user.identity ∧ user.email = data.email ∧ user.role = data.role
  | .provisionUser _ data, .error e, T =>
    e = .ofClass .roleConflictError → ∃ u ∈ T.users, u.email = data.email ∧ u.role ≠ data.role
  | .bootstrapAdmin data _, .ok (.tokens pair), T =>
    ∃ u ∈ T.users, pair = tokenPair u ∧ u.email = data.email ∧ u.role = .admin
  | .bootstrapAdmin data _, .error e, T =>
    e = .ofClass .emailAlreadyRegisteredError → T.HasEmail data.email
  | .refresh _, .ok (.access (.ok token)), T => ∃ u ∈ T.users, token = ⟨u.id, u.role⟩
  | _, _, _ => True

theorem Tables.HasEmail.outlives {email : String} (h : T.HasEmail email) (hT : Outlives T T') :
    T'.HasEmail email := by
  obtain ⟨u, hu, rfl⟩ := h
  obtain ⟨u', hu', heq⟩ := hT u hu
  exact ⟨u', hu', (User.of_identity heq).2.1⟩

/-- What is said of the users stays true. -/
theorem Says.outlives {call : DirectoryCall Token} {x : Except Exc Reply} (h : Says dep call x T)
    (hT : Outlives T T') : Says dep call x T' := by
  unfold Says at h ⊢
  split at h
  · exact ⟨h.1.outlives hT, h.2⟩
  · exact fun he => (h he).outlives hT
  · obtain ⟨u, hu, rfl, hemail⟩ := h
    obtain ⟨u', hu', heq⟩ := hT u hu
    exact ⟨u', hu', (tokenPair_of_identity heq).symm, (User.of_identity heq).2.1.trans hemail⟩
  · obtain ⟨u, hu, rfl, hemail⟩ := h
    obtain ⟨u', hu', heq⟩ := hT u hu
    exact ⟨u', hu', (tokenPair_of_identity heq).symm, (User.of_identity heq).2.1.trans hemail⟩
  · obtain ⟨u, hu, rfl⟩ := h
    obtain ⟨u', hu', heq⟩ := hT u hu
    exact ⟨u', hu', (tokenPair_of_identity heq).symm⟩
  · exact ⟨h.1.outlives hT, h.2⟩
  · intro he
    obtain ⟨u, hu, hemail, hrole⟩ := h he
    obtain ⟨u', hu', heq⟩ := hT u hu
    obtain ⟨-, hemail', hrole', -⟩ := User.of_identity heq
    exact ⟨u', hu', hemail'.trans hemail, hrole' ▸ hrole⟩
  · obtain ⟨u, hu, rfl, hemail, hrole⟩ := h
    obtain ⟨u', hu', heq⟩ := hT u hu
    obtain ⟨-, hemail', hrole', -⟩ := User.of_identity heq
    exact ⟨u', hu', (tokenPair_of_identity heq).symm, hemail'.trans hemail, hrole'.trans hrole⟩
  · exact fun he => (h he).outlives hT
  · obtain ⟨u, hu, rfl⟩ := h
    obtain ⟨u', hu', heq⟩ := hT u hu
    obtain ⟨hid, -, hrole, -⟩ := User.of_identity heq
    exact ⟨u', hu', by rw [hid, hrole]⟩
  · trivial

/-! ### Inserting a user -/

section Insert

variable {Per : Tables → User → Prop} {email name : String} {role : Role} {authProvider : AuthProvider}
  {timezone : String} {passwordHash : Option String}

/-- The exception does not tell of a constraint, or the e-mail address is taken. -/
def Taken (email : String) (e : Exc) (v : Sight) : Prop :=
  e.Telling → e = .integrityError ∧ v.tables.HasEmail email

theorem taken_of_not {e : Exc} (h : ¬ e.Telling) : Taken email e v := fun he => absurd he h

/-- The user is staged with a fresh id, and nothing else but audit entries. -/
structure Staged (user : User) (v : Sight) : Prop where
  fresh : user.id ∈ v.fresh
  pending : ∃ ys, v.pending = .insertUser user :: ys ∧ ∀ y ∈ ys, ∃ a, y = .insertAudit a

theorem Staged.keep {user : User} {v' : Sight} (h : Staged user v) (hpending : v'.pending = v.pending)
    (hfresh : v'.fresh = v.fresh) : Staged user v' := by
  refine ⟨hfresh ▸ h.fresh, ?_⟩
  rw [hpending]
  exact h.pending

/-- A flush or a commit that fails finds the e-mail address taken. -/
theorem Staged.taken {user : User} {v' : Sight} {e : Exc} (h : Staged user v) (hlater : v.Later v')
    (hfresh : v'.fresh = v.fresh)
    (he : e.Telling → e = .integrityError ∧ Write.applyAll v.pending v'.tables = none) :
    Taken user.email e v' := by
  intro htelling
  obtain ⟨rfl, hclash⟩ := he htelling
  obtain ⟨ys, hpending, hys⟩ := h.pending
  rw [hpending] at hclash
  refine ⟨rfl, taken_of_clash hys hclash fun u hu => ?_⟩
  exact hlater.apart user.id (hfresh ▸ h.fresh) u hu

/-- `repository.create` fails for a taken e-mail address, or has staged the user. -/
theorem wp_createUser_counting {Q : Except Exc User → Sight → Prop} (hv : v.pending = [])
    (hper : ∀ T user, Outlives v.tables T → user.email = email → user.role = role → Per T user)
    (herr : ∀ e v', Taken email e v' → Q (.error e) v')
    (hok : ∀ user v', Outlives v.tables v'.tables → user.email = email → user.role = role → Staged user v' →
      Q (.ok user) v') :
    wp (counting Per) (createUser email name role authProvider timezone passwordHash) Q v := by
  refine wp_bind (wp_perform trivial ?_)
  rintro (e | id) v₁ ⟨hlater₁, hstep₁⟩
  · exact herr e v₁ (taken_of_not hstep₁.1)
  obtain ⟨hpending₁, hfresh₁⟩ := hstep₁
  let user : User := { id, email, name, role, authProvider, timezone, passwordHash }
  have hmem : user.id ∈ v₁.fresh := hfresh₁ ▸ List.mem_cons_self
  refine wp_bind (wp_perform ⟨hmem, hper _ user hlater₁.outlives rfl rfl⟩ ?_)
  rintro (e | a) v₂ ⟨hlater₂, hstep₂⟩
  · exact herr e v₂ (taken_of_not hstep₂.1)
  obtain ⟨hpending₂, hfresh₂⟩ := hstep₂
  have hstaged : Staged user v₂ := by
    refine ⟨hfresh₂ ▸ hmem, [], ?_, by simp⟩
    rw [hpending₂, hpending₁, hv, List.nil_append]
  have hout₂ : Outlives v.tables v₂.tables := hlater₁.outlives.trans hlater₂.outlives
  refine wp_bind (wp_settle (.inl rfl) (fun e v₃ h₃ _ hfresh₃ he => ?_)
    (fun v₃ h₃ _ hpending₃ hfresh₃ => ?_) fun v₃ _ hcommit => by cases hcommit)
  · exact herr e v₃ (hstaged.taken h₃ hfresh₃ he)
  · refine wp_bind (wp_see (fun e v₄ he => herr e v₄ (taken_of_not he))
      fun _ v₄ h₄ hpending₄ hfresh₄ => ?_)
    refine hok user v₄ ((hout₂.trans h₃.outlives).trans h₄.outlives) rfl rfl ?_
    exact (hstaged.keep hpending₃ hfresh₃).keep hpending₄ hfresh₄

/-- An audit entry beside the user. -/
theorem wp_recordAudit_staged {user : User} {row : AuditLog} {Q : Except Exc Unit → Sight → Prop}
    (h : Staged user v) (herr : ∀ e v', Taken user.email e v' → Q (.error e) v')
    (hok : ∀ v', Outlives v.tables v'.tables → Staged user v' → Q (.ok ()) v') :
    wp (counting Per) (recordAudit row) Q v := by
  refine wp_bind (wp_perform trivial ?_)
  rintro (e | a) v₁ ⟨hlater₁, hstep₁⟩
  · exact herr e v₁ (taken_of_not hstep₁.1)
  obtain ⟨hpending₁, hfresh₁⟩ := hstep₁
  have hstaged : Staged user v₁ := by
    obtain ⟨ys, hpending, hys⟩ := h.pending
    refine ⟨hfresh₁ ▸ h.fresh, ys ++ [.insertAudit row], ?_, fun y hy => ?_⟩
    · rw [hpending₁, hpending, List.cons_append]
    · rcases List.mem_append.mp hy with hy | hy
      · exact hys y hy
      · exact ⟨row, List.mem_singleton.mp hy⟩
  refine wp_settle (.inl rfl) (fun e v₂ h₂ _ hfresh₂ he => ?_) (fun v₂ h₂ _ hpending₂ hfresh₂ => ?_)
    fun v₂ _ hcommit => by cases hcommit
  · exact herr e v₂ (hstaged.taken h₂ hfresh₂ he)
  · exact hok v₂ (hlater₁.outlives.trans h₂.outlives) (hstaged.keep hpending₂ hfresh₂)

/-- The commit of the user. -/
theorem wp_commit_staged {user : User} {Q : Except Exc Unit → Sight → Prop} (h : Staged user v)
    (herr : ∀ e v', Taken user.email e v' → Q (.error e) v')
    (hok : ∀ v', Outlives v.tables v'.tables → v'.tables.Has user.identity → Q (.ok ()) v') :
    wp (counting Per) dbCommit Q v := by
  refine wp_settle (.inr rfl) (fun e v₁ h₁ _ hfresh₁ he => ?_) (fun v₁ _ hflush => by cases hflush)
    fun v₁ h₁ _ hnew => ?_
  · exact herr e v₁ (h.taken h₁ hfresh₁ he)
  · obtain ⟨ys, hpending, -⟩ := h.pending
    exact hok v₁ h₁.outlives (hnew user (hpending ▸ List.mem_cons_self))

theorem wp_hashPassword_counting {pf : Platform} {password : String} {Q : Except Exc String → Sight → Prop}
    (herr : ∀ e v', ¬ e.Telling → Q (.error e) v')
    (hok : ∀ h v', v.Later v' → v'.pending = v.pending → Q (.ok h) v') :
    wp (counting Per) (hashPassword pf password) Q v := by
  refine wp_bind (wp_perform trivial ?_)
  rintro (e | salt) v₁ ⟨hlater, hstep⟩
  · exact herr e v₁ hstep.1
  · refine wp_orRaise (fun _ => herr _ v₁ ?_) fun h _ => hok h v₁ hlater hstep.1
    simp [Exc.Telling, Exc.ofClass]

/-- What a registration ends with. -/
def Registers (email : String) (role : Role) : Except Exc User → Sight → Prop
  | .ok user, v => v.tables.Has user.identity ∧ user.email = email ∧ user.role = role
  | .error e, v => e = .ofClass .emailAlreadyRegisteredError → v.tables.HasEmail email

variable (email role) in
theorem registers_of_not {e : Exc} (h : ¬ e.Telling) : Registers email role (.error e) v :=
  fun he => absurd (.inr (.inl he)) h

/-- What is reported after a constraint has broken. -/
theorem wp_registrationFailed_counting {e : Exc} (h : Taken email e v) :
    wp (counting Per) (registrationFailed e) (Registers email role) v := by
  by_cases hintegrity : e = .integrityError
  · subst hintegrity
    have htaken : v.tables.HasEmail email := (h (.inl rfl)).2
    refine wp_bind (wp_perform trivial ?_)
    rintro (e | a) v₁ ⟨hlater, hstep⟩
    · exact registers_of_not email role hstep.1
    · exact fun _ => htaken.outlives hlater.outlives
  · have hplain : ¬ e.Telling := fun he => hintegrity (h he).1
    have heq : registrationFailed e = throw e := by
      cases e with
      | integrityError => exact absurd rfl hintegrity
      | _ => rfl
    rw [heq]
    exact wp_throw (registers_of_not email role hplain)

end Insert

/-! ### The calls that insert users -/

section Calls

variable {pf : Platform}

theorem wp_register_counting (data : RegisterRequest) (hv : v.pending = []) :
    wp (counting (Permitted dep (.account (.register data)))) (register pf data)
      (Registers data.email .candidate) v := by
  refine wp_bind (wp_getByEmail (fun e v₁ he => registers_of_not data.email .candidate he)
    (fun v₁ h₁ hpending₁ _ _ => ?_) fun u v₁ h₁ _ _ hu hemail => ?_)
  · refine wp_bind (wp_raiseIf (fun h => ?_) fun _ => ?_)
    · simp at h
    refine wp_tryCatch (wp_bind (wp_hashPassword_counting
      (fun e v₂ he => wp_registrationFailed_counting (taken_of_not he)) fun h v₂ h₂ hpending₂ => ?_))
    refine wp_bind (wp_createUser_counting (hpending₂.trans (hpending₁.trans hv))
      (fun T user _ hemail hrole => ⟨hemail, hrole⟩) (fun e v₃ he => wp_registrationFailed_counting he)
      fun user v₃ _ hemail hrole hstaged => ?_)
    refine wp_bind (wp_commit_staged hstaged
      (fun e v₄ he => wp_registrationFailed_counting (hemail ▸ he)) fun v₄ _ hhas => ?_)
    exact ⟨hhas, hemail, hrole⟩
  · refine wp_bind (wp_raiseIf (fun _ _ => ⟨u, hu, hemail⟩) fun h => ?_)
    simp at h

/-- The bootstrap is for the configured secret. -/
theorem wp_checkBootstrapToken {Per : Tables → User → Prop} {providedToken : Option String}
    {Q : Except Exc Bool → Sight → Prop} (herr : ∀ e, ¬ e.Telling → Q (.error e) v) (hfalse : Q (.ok false) v)
    (htrue : dep.adminBootstrapToken ≠ "" → providedToken = some dep.adminBootstrapToken → Q (.ok true) v) :
    wp (counting Per) (checkBootstrapToken dep providedToken) Q v := by
  cases providedToken with
  | none => exact hfalse
  | some provided =>
    unfold checkBootstrapToken
    dsimp only
    by_cases hempty : dep.adminBootstrapToken = "" ∨ provided = ""
    · rw [if_pos hempty]
      exact hfalse
    · rw [if_neg hempty]
      unfold compareDigest
      by_cases hascii : (isAscii provided && isAscii dep.adminBootstrapToken) = true
      · rw [if_pos hascii]
        by_cases heq : provided = dep.adminBootstrapToken
        · subst heq
          rw [decide_eq_true rfl]
          exact htrue (fun h => hempty (.inl h)) rfl
        · rw [decide_eq_false heq]
          exact hfalse
      · rw [if_neg hascii]
        exact herr _ (by simp [Exc.Telling, Exc.ofClass])

theorem wp_bootstrapAdmin_counting (data : RegisterRequest) (providedToken : Option String)
    (hv : v.pending = []) :
    wp (counting (Permitted dep (.bootstrapAdmin data providedToken))) (bootstrapAdmin dep data providedToken)
      (fun x v' => Says dep (.bootstrapAdmin data providedToken) (x.map .tokens) v'.tables) v := by
  refine wp_bind (wp_checkBootstrapToken (fun e he => registers_of_not data.email .admin (v := v) he) ?_
    fun hset hsecret => ?_)
  · refine wp_bind (wp_raiseIf (fun _ => ?_) fun h => ?_)
    · exact fun h => by cases h
    · exact absurd rfl h
  · refine wp_bind (wp_raiseIf (fun h => by cases h) fun _ => ?_)
    refine wp_bind (wp_mono (Q := Registers data.email .admin) ?_ ?_)
    · refine wp_tryCatch (wp_bind (wp_hashPassword_counting
        (fun e v₁ he => wp_registrationFailed_counting (taken_of_not he)) fun h v₁ h₁ hpending₁ => ?_))
      refine wp_bind (wp_createUser_counting (hpending₁.trans hv)
        (fun T user _ hemail hrole => ⟨hemail, hrole, hset, hsecret⟩)
        (fun e v₂ he => wp_registrationFailed_counting he) fun user v₂ _ hemail hrole hstaged => ?_)
      refine wp_bind (wp_recordAudit_staged hstaged
        (fun e v₃ he => wp_registrationFailed_counting (hemail ▸ he)) fun v₃ _ hstaged₃ => ?_)
      refine wp_bind (wp_commit_staged hstaged₃
        (fun e v₄ he => wp_registrationFailed_counting (hemail ▸ he)) fun v₄ _ hhas => ?_)
      exact ⟨hhas, hemail, hrole⟩
    rintro (e | user) v₁ h₁
    · exact h₁
    · obtain ⟨⟨u, hu, heq⟩, hemail, hrole⟩ := h₁
      obtain ⟨-, hemail', hrole', -⟩ := User.of_identity heq
      exact ⟨u, hu, (tokenPair_of_identity heq).symm, hemail'.trans hemail, hrole'.trans hrole⟩

/-- Who is calling, when that can be told. -/
theorem wp_getCurrentUser_counting {Per : Tables → User → Prop} {credentials : Option Token}
    {Q : Except Exc (Except Refusal User) → Sight → Prop} (herr : ∀ e v', ¬ e.Telling → Q (.error e) v')
    (hrefused : ∀ refusal v', Q (.ok (.error refusal)) v')
    (hok : ∀ user v', Outlives v.tables v'.tables → v'.pending = v.pending →
      (user.role = .admin → AdminToken dep v'.tables credentials) → Q (.ok (.ok user)) v') :
    wp (counting Per) (getCurrentUser dep credentials) Q v := by
  cases credentials with
  | none => exact hrefused _ v
  | some token =>
    refine wp_bind (wp_perform trivial ?_)
    rintro (e | t) v₁ ⟨hlater₁, hstep₁⟩
    · exact herr e v₁ hstep₁.1
    cases hsub : (decodeToken dep.toTokenSettings token .access t).bind (·.sub) with
    | none =>
      dsimp only [Then]
      rw [hsub]
      exact hrefused _ v₁
    | some userId =>
      dsimp only [Then]
      rw [hsub]
      obtain ⟨payload, hdecode, hpayload⟩ := Option.bind_eq_some_iff.mp hsub
      refine wp_bind (wp_getUser (fun e v₂ he => herr e v₂ he) (fun v₂ _ _ _ _ => hrefused _ v₂)
        fun user v₂ hlater₂ hpending₂ _ hu hid => ?_)
      refine hok user v₂ (hlater₁.outlives.trans hlater₂.outlives) (hpending₂.trans hstep₁.1) fun hrole => ?_
      exact ⟨token, t, payload, rfl, hdecode, user, hu, hid ▸ hpayload, hrole⟩

/-- What a provisioning ends with. -/
def Provisions (data : ProvisionUserRequest) : Except Exc (User × Bool) → Sight → Prop
  | .ok out, v => v.tables.Has out.1.identity ∧ out.1.email = data.email ∧ out.1.role = data.role
  | .error e, v => e = .ofClass .roleConflictError →
    ∃ u ∈ v.tables.users, u.email = data.email ∧ u.role ≠ data.role

theorem provisions_of_not (data : ProvisionUserRequest) {e : Exc} (h : ¬ e.Telling) :
    Provisions data (.error e) v :=
  fun he => absurd (.inr (.inr he)) h

/-- After a constraint has broken, the user is there, with the same role or with another. -/
theorem wp_provisionFailed {Per : Tables → User → Prop} {data : ProvisionUserRequest} {e : Exc}
    (h : Taken data.email e v) :
    wp (counting Per) (provisionFailed data.email data.role e) (Provisions data) v := by
  by_cases hintegrity : e = .integrityError
  · subst hintegrity
    have htaken : v.tables.HasEmail data.email := (h (.inl rfl)).2
    refine wp_bind (wp_perform trivial ?_)
    rintro (e | a) v₁ ⟨hlater₁, hstep₁⟩
    · exact provisions_of_not data hstep₁.1
    refine wp_bind (wp_getByEmail (fun e v₂ he => provisions_of_not data he)
      (fun v₂ hlater₂ _ _ hnone => ?_) fun u v₂ _ _ _ hu hemail => ?_)
    · obtain ⟨u, hu, hemail⟩ := htaken.outlives (hlater₁.outlives.trans hlater₂.outlives)
      exact absurd hemail (hnone u hu)
    · refine wp_bind (wp_orRaise (fun hother _ => ?_) fun found hfound => ?_)
      · have hrole : ¬ u.role = data.role := by simpa using hother
        exact ⟨u, hu, hemail, hrole⟩
      · obtain ⟨hu', hrole⟩ := Option.filter_eq_some_iff.mp hfound
        obtain rfl := Option.some.inj hu'
        exact ⟨⟨u, hu, rfl⟩, hemail, of_decide_eq_true hrole⟩
  · have hplain : ¬ e.Telling := fun he => hintegrity (h he).1
    have heq : provisionFailed data.email data.role e = throw e := by
      cases e with
      | integrityError => exact absurd rfl hintegrity
      | _ => rfl
    rw [heq]
    exact wp_throw (provisions_of_not data hplain)

theorem wp_provision {credentials : Option Token} {actorId : Id} {data : ProvisionUserRequest}
    (hv : v.pending = []) (hadmin : AdminToken dep v.tables credentials) :
    wp (counting (Permitted dep (.provisionUser credentials data))) (provision actorId data)
      (Provisions data) v := by
  refine wp_bind (wp_getByEmail (fun e v₁ he => provisions_of_not data he)
    (fun v₁ h₁ hpending₁ _ _ => ?_) fun u v₁ _ _ _ hu hemail => ?_)
  · refine wp_tryCatch (wp_bind (wp_createUser_counting (hpending₁.trans hv)
      (fun T user hout hemail hrole => ⟨hemail, hrole, hadmin.outlives (h₁.outlives.trans hout)⟩)
      (fun e v₂ he => wp_provisionFailed he) fun user v₂ _ hemail hrole hstaged => ?_))
    refine wp_bind (wp_recordAudit_staged hstaged (fun e v₃ he => wp_provisionFailed (hemail ▸ he))
      fun v₃ _ hstaged₃ => ?_)
    refine wp_bind (wp_commit_staged hstaged₃ (fun e v₄ he => wp_provisionFailed (hemail ▸ he))
      fun v₄ _ hhas => ?_)
    exact ⟨hhas, hemail, hrole⟩
  · refine wp_bind (wp_raiseIf (fun hrole _ => ⟨u, hu, hemail, hrole⟩) fun hrole => ?_)
    exact ⟨⟨u, hu, rfl⟩, hemail, not_not.mp hrole⟩

theorem wp_provisionUser_counting (credentials : Option Token) (data : ProvisionUserRequest)
    (hv : v.pending = []) :
    wp (counting (Permitted dep (.provisionUser credentials data))) (provisionUser dep credentials data)
      (fun x v' => Says dep (.provisionUser credentials data) (x.map .provisioned) v'.tables) v := by
  refine wp_bind (wp_getCurrentUser_counting (fun e v₁ he => provisions_of_not data (v := v₁) he)
    (fun refusal v₁ => trivial) fun user v₁ _ hpending₁ hadmin => ?_)
  refine wp_ite (fun _ => trivial) fun hrole => ?_
  refine wp_map (wp_mono (wp_provision (hpending₁.trans hv) (hadmin (not_not.mp hrole))) ?_)
  rintro (e | out) v₂ h₂
  · exact h₂
  · exact h₂

theorem wp_googleLogin_counting (idToken : String) (hv : v.pending = []) :
    wp (counting (Permitted dep (.account (.googleLogin idToken)))) (googleLogin dep.platform idToken)
      (fun x v' => Says dep (.account (.googleLogin idToken)) (x.map fun p => .account (.tokens p)) v'.tables)
      v := by
  refine wp_bind (wp_bind (wp_perform trivial ?_))
  rintro (e | a) v₁ ⟨hlater₁, hstep₁⟩
  · trivial
  refine wp_bind (wp_getByEmail (fun e v₂ _ => trivial) (fun v₂ h₂ hpending₂ _ _ => ?_)
    fun u v₂ _ _ _ hu hemail => ?_)
  · refine wp_bind (wp_createUser_counting (hpending₂.trans (hstep₁.1.trans hv))
      (fun T user _ hemail hrole => ⟨hemail, hrole⟩) (fun e v₃ _ => trivial)
      fun user v₃ _ hemail hrole hstaged => ?_)
    refine wp_bind (wp_commit_staged hstaged (fun e v₄ _ => trivial) fun v₄ _ hhas => ?_)
    obtain ⟨u, hu, heq⟩ := hhas
    exact ⟨u, hu, (tokenPair_of_identity heq).symm, (User.of_identity heq).2.1.trans hemail⟩
  · exact ⟨u, hu, rfl, hemail⟩

end Calls

/-! ### The calls that insert none -/

section Others

open Prog

variable {pf : Platform} {Per : Tables → User → Prop} {rawToken : String}

theorem noInsert_add {y : Write} (h : ∀ u, y ≠ .insertUser u) : NoInsert Unit (.stage y) := by
  cases y with
  | insertUser row => exact absurd rfl (h row)
  | _ => trivial

theorem noInsert_recordAudit {row : AuditLog} : (recordAudit row).Uses NoInsert :=
  uses_bind (uses_perform trivial) fun _ => uses_perform trivial

theorem noInsert_resolveActive : (resolveActive pf rawToken).Uses NoInsert := by
  refine uses_bind (uses_perform trivial) fun _ => uses_bind uses_orRaise fun row => ?_
  split
  · refine uses_bind (uses_perform trivial) fun t => ?_
    split
    · exact uses_bind (uses_perform trivial) fun _ => uses_bind (uses_perform trivial) fun _ => uses_pure
    · exact uses_pure
  · exact uses_pure

theorem noInsert_publicOut {row : ParticipantInvitation} : (publicOut row).Uses NoInsert := by
  refine uses_bind (uses_perform trivial) fun _ => uses_bind (uses_perform trivial) fun _ => ?_
  exact uses_bind uses_orRaise fun _ => uses_bind uses_orRaise fun _ => uses_pure

theorem noInsert_respondToInvitation {response : ResponseValue} {reason : Option String} :
    (respondToInvitation pf rawToken response reason).Uses NoInsert := by
  refine uses_bind noInsert_resolveActive fun row => uses_bind uses_raiseIf fun _ => ?_
  refine uses_bind uses_raiseIf fun _ => uses_bind uses_raiseIf fun _ => ?_
  refine uses_bind (uses_perform trivial) fun t => uses_bind (uses_perform trivial) fun _ => ?_
  refine uses_bind (uses_perform trivial) fun participant => ?_
  cases participant with
  | none => exact uses_bind noInsert_recordAudit fun _ => uses_bind (uses_perform trivial) fun _ => noInsert_publicOut
  | some participant =>
    refine uses_bind (uses_perform trivial) fun _ => uses_bind noInsert_recordAudit fun _ => ?_
    exact uses_bind (uses_perform trivial) fun _ => noInsert_publicOut

theorem noInsert_sendInviteEmail {user : User} {request : Core.InterviewRequest} :
    (sendInviteEmail pf user request rawToken).Uses NoInsert := by
  unfold sendInviteEmail
  split
  · exact uses_tryCatch (uses_bind (uses_perform trivial) fun _ => uses_pure) fun _ => uses_pure
  · exact uses_pure

theorem noInsert_flushRow {existing : Option ParticipantInvitation} {requestId : Id}
    {participant : Core.InterviewParticipant} {user : User} {tokenHash : String} {expiresAt : Instant} :
    (flushRow existing requestId participant user tokenHash expiresAt).Uses NoInsert := by
  cases existing with
  | none =>
    refine uses_bind (uses_perform trivial) fun id => uses_bind (uses_perform trivial) fun _ => ?_
    exact uses_bind (uses_perform trivial) fun _ => uses_pure
  | some loaded =>
    exact uses_bind (uses_perform trivial) fun _ => uses_bind (uses_perform trivial) fun _ => uses_pure

theorem noInsert_conflicted {requestId : Id} {participant : Core.InterviewParticipant} {user : User}
    {tokenHash : String} {expiresAt : Instant} {e : Exc} :
    (conflicted requestId participant user tokenHash expiresAt e).Uses NoInsert := by
  cases e with
  | integrityError =>
    refine uses_bind ?_ fun row => uses_pure
    refine uses_bind (uses_perform trivial) fun _ => uses_bind (uses_perform trivial) fun _ => ?_
    exact uses_bind (uses_perform trivial) fun _ => uses_bind uses_orRaise fun _ => noInsert_flushRow
  | _ => exact uses_throw

theorem noInsert_issueForRequest {actor : User} {requestId : Id} :
    (issueForRequest pf actor requestId).Uses NoInsert := by
  refine uses_bind (uses_perform trivial) fun _ => uses_bind uses_orRaise fun request => ?_
  refine uses_bind (uses_perform trivial) fun parts => uses_bind (uses_perform trivial) fun t => ?_
  refine uses_bind (uses_forEach fun part => ?_) fun out => uses_bind (uses_perform trivial) fun _ => uses_pure
  refine uses_bind (uses_perform trivial) fun existing => ?_
  split
  · exact uses_pure
  · refine uses_bind (uses_perform trivial) fun raw => ?_
    refine uses_bind (uses_tryCatch (uses_bind noInsert_flushRow fun _ => uses_pure) fun _ => noInsert_conflicted)
      fun row => uses_bind noInsert_sendInviteEmail fun _ => ?_
    refine uses_bind (uses_perform trivial) fun _ => uses_bind (uses_perform trivial) fun _ => ?_
    exact uses_bind noInsert_recordAudit fun _ => uses_pure

theorem noInsert_setArchived {actorId userId : Id} {archived : Bool} :
    (setArchived actorId userId archived).Uses NoInsert := by
  refine uses_bind (uses_perform trivial) fun _ => uses_bind uses_orRaise fun user => ?_
  have hrest : ∀ {y : Write} {row : AuditLog} {out : User}, (∀ u, y ≠ .insertUser u) → (do
      dbAdd y
      recordAudit row
      dbCommit
      pure out : M User).Uses NoInsert := fun hy =>
    uses_bind (uses_perform (noInsert_add hy)) fun _ => uses_bind noInsert_recordAudit fun _ =>
      uses_bind (uses_perform trivial) fun _ => uses_pure
  refine uses_bind uses_raiseIf fun _ => ?_
  cases archived with
  | true => exact uses_bind (uses_map (uses_perform trivial)) fun t => hrest fun u h => by cases h
  | false => exact uses_bind uses_pure fun t => hrest fun u h => by cases h

theorem wp_login_counting (data : LoginRequest) : wp (counting Per) (login pf data)
    (fun x v' => Says dep (.account (.login data)) (x.map fun p => .account (.tokens p)) v'.tables) v := by
  refine wp_bind (wp_getByEmail (fun e v₁ _ => trivial) (fun v₁ _ _ _ _ => trivial)
    fun u v₁ _ _ _ hu hemail => ?_)
  refine wp_bind (wp_orRaise (fun _ => trivial) fun found hfound => ?_)
  obtain rfl := Option.some.inj hfound
  refine wp_bind (wp_orRaise (fun _ => trivial) fun passwordHash _ => ?_)
  refine wp_bind (wp_raiseIf (fun _ => trivial) fun _ => wp_bind (wp_raiseIf (fun _ => trivial) fun _ => ?_))
  exact ⟨u, hu, rfl, hemail⟩

theorem wp_claimAccount_counting (password : String) : wp (counting Per) (claimAccount pf rawToken password)
    (fun x v' => Says dep (.account (.claimAccount rawToken password))
      (x.map fun p => .account (.tokens p)) v'.tables) v := by
  refine wp_bind (wp_noInsert noInsert_resolveActive ?_)
  rintro (e | row) v₁ -
  · trivial
  refine wp_bind (wp_raiseIf (fun _ => trivial) fun _ => wp_bind (wp_raiseIf (fun _ => trivial) fun _ => ?_))
  refine wp_bind (wp_getUser (fun e v₂ _ => trivial) (fun v₂ _ _ _ _ => trivial) fun user v₂ _ _ _ hu _ => ?_)
  refine wp_bind (wp_orRaise (fun _ => trivial) fun found hfound => ?_)
  obtain rfl := Option.some.inj hfound
  refine wp_bind (wp_raiseIf (fun _ => trivial) fun _ => ?_)
  -- the rest inserts nobody, and the user is still there at its end
  refine wp_bind (wp_hashPassword_counting (fun e v₃ _ => trivial) fun h v₃ h₃ _ => ?_)
  refine wp_bind (wp_noInsert (uses_perform (noInsert_add fun u hu => by cases hu)) ?_)
  rintro (e | a) v₄ h₄
  · trivial
  refine wp_bind (wp_noInsert noInsert_recordAudit ?_)
  rintro (e | a) v₅ h₅
  · trivial
  have hcommit : dbCommit.Uses NoInsert := uses_perform trivial
  refine wp_bind (wp_noInsert hcommit ?_)
  rintro (e | a) v₆ h₆
  · trivial
  have hsays : Says dep (.account (.claimAccount rawToken password)) (.ok (.account (.tokens (tokenPair user))))
      v₂.tables := ⟨user, hu, rfl⟩
  exact hsays.outlives (((h₃.outlives.trans h₄).trans h₅).trans h₆)

theorem wp_refresh_counting (refreshToken : Token) : wp (counting Per) (refresh dep refreshToken)
    (fun x v' => Says dep (.refresh refreshToken) (x.map .access) v'.tables) v := by
  refine wp_bind (wp_perform trivial ?_)
  rintro (e | t) v₁ -
  · trivial
  dsimp only [Then]
  cases decodeToken dep.toTokenSettings refreshToken .refresh t with
  | none => trivial
  | some payload =>
    dsimp only
    cases payload.sub with
    | none => trivial
    | some userId =>
      refine wp_bind (wp_getUser (fun e v₂ _ => trivial) (fun v₂ _ _ _ _ => trivial)
        fun user v₂ _ _ _ hu _ => wp_ite (fun _ => trivial) fun _ => ?_)
      exact ⟨user, hu, rfl⟩

end Others

/-! ### Every interleaving -/

/-- **Each call inserts whom it may, and says what is true.** -/
theorem wp_serve_counting (call : DirectoryCall Token) (hv : v.pending = []) :
    wp (counting (Permitted dep call)) (serve dep call) (fun x v' => Says dep call x v'.tables) v := by
  cases call with
  | account call =>
    cases call with
    | register data =>
      refine wp_map (wp_map (wp_mono (wp_register_counting data hv) ?_))
      rintro (e | user) v' h
      · exact h
      · exact h
    | login data => exact wp_map (wp_map (wp_mono (wp_login_counting data) fun x v' h => by cases x <;> exact h))
    | googleLogin idToken =>
      exact wp_map (wp_map (wp_mono (wp_googleLogin_counting idToken hv) fun x v' h => by cases x <;> exact h))
    | claimAccount rawToken password =>
      exact wp_map (wp_map (wp_mono (wp_claimAccount_counting password) fun x v' h => by cases x <;> exact h))
    | setArchived actorId userId archived =>
      exact wp_map (wp_map (wp_noInsert noInsert_setArchived fun x v' _ => by cases x <;> trivial))
    | issueForRequest actor requestId =>
      exact wp_map (wp_map (wp_noInsert noInsert_issueForRequest fun x v' _ => by cases x <;> trivial))
    | getByToken rawToken =>
      have huses : (getByToken dep.platform rawToken).Uses NoInsert :=
        Prog.uses_bind noInsert_resolveActive fun row => noInsert_publicOut
      exact wp_map (wp_map (wp_noInsert huses fun x v' _ => by cases x <;> trivial))
    | respond rawToken response reason =>
      exact wp_map (wp_map (wp_noInsert noInsert_respondToInvitation fun x v' _ => by cases x <;> trivial))
  | provisionUser credentials data =>
    exact wp_map (wp_provisionUser_counting credentials data hv)
  | bootstrapAdmin data providedToken =>
    exact wp_map (wp_bootstrapAdmin_counting data providedToken hv)
  | refresh refreshToken => exact wp_map (wp_refresh_counting refreshToken)

end InterviewScheduler.Accounts
