import InterviewScheduler.Accounts.Logic

/-! # What one call does

A call that no other session interferes with (`Alone`), from its empty session: what it returns, and what
the database is then. The database may fail at any of its calls. -/

namespace InterviewScheduler.Accounts

open InterviewScheduler.Intervals InterviewScheduler.Engine InterviewScheduler.Effects
open InterviewScheduler.Core (Id)

/-- No other session commits anything. -/
def Alone : Condition Effect Choice Session World := fun _ _ c _ _ => ∀ row, c.answer ≠ .conflict row

/-- The database has become `T`. -/
structure Made (w : World) (T : Tables) (w' : World) : Prop where
  db : w'.db = T
  now : w.now ≤ w'.now
  minted : ∀ x ∈ w.minted, x ∈ w'.minted
  drawn : ∀ x ∈ w.drawn, x ∈ w'.drawn

/-- The database is unchanged. -/
abbrev Kept (w w' : World) : Prop := Made w w.db w'

theorem Later.kept {w w' : World} (h : Later w w') : Kept w w' :=
  ⟨h.db, h.now, fun _ hx => h.minted ▸ hx, fun _ hx => h.drawn ▸ hx⟩

theorem Kept.refl (w : World) : Kept w w := ⟨rfl, le_rfl, fun _ h => h, fun _ h => h⟩

theorem Made.trans {w₁ w₂ w₃ : World} {T : Tables} (h : Made w₁ T w₂) (h' : Kept w₂ w₃) :
    Made w₁ T w₃ :=
  ⟨h'.db.trans h.db, h.now.trans h'.now, fun x hx => h'.minted x (h.minted x hx),
    fun x hx => h'.drawn x (h.drawn x hx)⟩

theorem Made.later {w₁ w₂ w₃ : World} {T : Tables} (h : Made w₁ T w₂) (h' : Later w₂ w₃) :
    Made w₁ T w₃ :=
  h.trans h'.kept

/-- A commit takes the database from the one that was kept to `T`. -/
theorem Made.set {w₁ w₂ : World} {T : Tables} (h : Kept w₁ w₂) : Made w₁ T { w₂ with db := T } :=
  ⟨rfl, h.now, h.minted, h.drawn⟩

/-- What a commit would make depends on the database alone. -/
theorem Made.virtual_eq {w₁ w₂ w₃ : World} {T : Tables} (h : Made w₁ T w₃) (h' : Made w₁ T w₂)
    (s : Session) : s.virtual w₃ = s.virtual w₂ := by
  unfold Session.virtual
  rw [h.db, h'.db]

/-- The session has nothing pending and works. -/
structure Idle (s : Session) : Prop where
  pending : s.pending = []
  invalid : s.invalid = false

theorem idle_empty : Idle {} := ⟨rfl, rfl⟩

theorem Idle.virtual {s : Session} (h : Idle s) (w : World) : s.virtual w = some w.db := by
  unfold Session.virtual
  rw [h.pending]
  rfl

theorem idle_committed {s : Session} (hs : s.invalid = false) : Idle s.committed := ⟨rfl, hs⟩

section Rules

variable {α : Type} {s : Session} {w w₀ : World}

/-- A SELECT of a call that has changed nothing so far. -/
theorem wp_look {query : ℕ → Tables → α} {Q : Except Exc α → Session × World → Prop}
    (hs : s.invalid = false) (hk : Kept w₀ w)
    (hok : ∀ n w', Kept w₀ w' → Q (.ok (query n w₀.db)) (s, w'))
    (herr : ∀ s' w', Kept w₀ w' → Q (.error .databaseError) (s', w')) :
    wp (follow Alone) (dbSelect query) Q (s, w) := by
  apply wp_select hs
  · intro n w' hw
    rw [hk.db]
    exact hok n w' (hk.later hw)
  · intro c _ _
    exact herr _ _ (hk.later (later_elapse w c))

/-- A flush reports a broken constraint or succeeds. -/
theorem wp_calmFlush {Q : Except Exc Unit → Session × World → Prop} (hs : s.invalid = false)
    (hok : ∀ T w', s.virtual w = some T → Later w w' → Q (.ok ()) (s.flushed, w'))
    (herr : ∀ w', Later w w' → Q (.error .databaseError) (s.fail, w'))
    (hviolates : ∀ w', s.virtual w = none → Later w w' → Q (.error .integrityError) (s.fail, w')) :
    wp (follow Alone) dbFlush Q (s, w) := by
  apply wp_flush hs
  · intro c T _ hT
    exact hok T _ hT (later_elapse w c)
  · intro c _ _
    exact herr _ (later_elapse w c)
  · intro c _ hT
    exact hviolates _ hT (later_elapse w c)
  · intro c row hc ha
    exact absurd ha (hc row)

/-- An audit entry breaks no constraint. -/
theorem wp_recordAudit {row : AuditLog} {Q : Except Exc Unit → Session × World → Prop} {T : Tables}
    (hs : s.invalid = false) (hT : s.virtual w = some T) (hk : Kept w₀ w)
    (hok : ∀ s' w', s'.invalid = false → s'.virtual w' = some ((Write.insertAudit row).apply T) →
      Kept w₀ w' → Q (.ok ()) (s', w'))
    (herr : ∀ e s' w', Kept w₀ w' → Q (.error e) (s', w')) :
    wp (follow Alone) (recordAudit row) Q (s, w) := by
  apply wp_bind
  apply wp_stage
  intro w' hw
  have hT' : (s.stage (.insertAudit row)).virtual w' = some ((Write.insertAudit row).apply T) := by
    rw [hw.virtual, virtual_stage_of hT rfl]
  apply wp_calmFlush (show (s.stage (.insertAudit row)).invalid = false from hs)
  · intro T' w'' _ hw''
    apply hok
    · exact hs
    · rw [← hT', ← hw''.virtual]
      rfl
    · exact (hk.later hw).later hw''
  · intro w'' hw''
    exact herr _ _ _ ((hk.later hw).later hw'')
  · intro w'' _ hw''
    exact herr _ _ _ ((hk.later hw).later hw'')

/-- The last commit of a call. -/
theorem wp_lastCommit {Q : Except Exc Unit → Session × World → Prop} {T : Tables}
    (hs : s.invalid = false) (hT : s.virtual w = some T) (hk : Kept w₀ w)
    (hok : ∀ s' w', Idle s' → Made w₀ T w' → Q (.ok ()) (s', w'))
    (herr : ∀ e s' w', Kept w₀ w' → Q (.error e) (s', w')) :
    wp (follow Alone) dbCommit Q (s, w) := by
  apply wp_commit hs
  · intro c T' w' _ _ hT' hw
    obtain rfl : T' = T := Option.some.inj (hT'.symm.trans hT)
    exact hok _ _ (idle_committed hs) (.set (hk.later hw))
  · intro c _ _
    exact herr _ _ _ (hk.later (later_elapse w c))
  · intro c _ hnone
    rw [hT] at hnone
    cases hnone

end Rules

/-! ### Resolving a token -/

/-- The invitation is marked EXPIRED. -/
def Tables.expire (T : Tables) (row : ParticipantInvitation) : Tables :=
  (Write.updateInvitation row { row with status := .expired }).apply T

variable (pf : Platform)

/-- What `_resolve_active` returns, and what it has committed then. -/
inductive Resolved (rawToken : String) (w : World) : ParticipantInvitation → World → Prop where
  | current {row : ParticipantInvitation} {w' : World} (t : Instant)
      (hrow : w.db.invitationByTokenHash (pf.sha256Hex rawToken) = some row) (ht : w.now ≤ t)
      (hlive : row.status = .pending → t < row.expiresAt) (hk : Kept w w') :
      Resolved rawToken w row w'
  | expired {row : ParticipantInvitation} {w' : World}
      (hrow : w.db.invitationByTokenHash (pf.sha256Hex rawToken) = some row)
      (hpending : row.status = .pending) (hexpired : row.expiresAt ≤ w'.now)
      (hm : Made w (w.db.expire row) w') : Resolved rawToken w { row with status := .expired } w'

/-- A change of the status alone breaks no constraint. -/
theorem violates_expire (T : Tables) (row : ParticipantInvitation) :
    (Write.updateInvitation row { row with status := .expired }).violates T = false := by
  unfold Write.violates
  simp

theorem wp_resolveActive (rawToken : String) {s : Session} {w : World} (hs : Idle s)
    {Q : Except Exc ParticipantInvitation → Session × World → Prop}
    (hok : ∀ row s' w', Idle s' → Resolved pf rawToken w row w' → Q (.ok row) (s', w'))
    (herr : ∀ e s' w', Kept w w' → Q (.error e) (s', w')) :
    wp (follow Alone) (resolveActive pf rawToken) Q (s, w) := by
  unfold resolveActive
  apply wp_bind
  refine wp_look hs.invalid (Kept.refl w) ?_ fun s' w' h => herr _ s' w' h
  intro n w₁ hk₁
  apply wp_bind
  apply wp_orRaise
  · intro _
    exact herr _ _ _ hk₁
  intro row hrow
  apply wp_ite
  · intro hpending
    apply wp_bind
    apply wp_now
    intro w₂ hw₂
    apply wp_ite
    · intro hexpired
      apply wp_bind
      apply wp_stage
      intro w₃ hw₃
      apply wp_bind
      have hk₃ : Kept w w₃ := (hk₁.later hw₂).later hw₃
      have hT : (s.stage (.updateInvitation row { row with status := .expired })).virtual w₃ =
          some (w.db.expire row) := by
        rw [virtual_stage_of (hs.virtual w₃) (violates_expire _ row), hk₃.db]
        rfl
      have hnow : ∀ w', Later w₃ w' → row.expiresAt ≤ w'.now := by
        intro w' hw'
        have := hw₃.now
        have := hw'.now
        lia
      apply wp_commit (show (s.stage _).invalid = false from hs.invalid)
      · intro c T w₄ _ _ hT' hw₄
        obtain rfl : T = w.db.expire row := Option.some.inj (hT'.symm.trans hT)
        exact hok _ _ _ (idle_committed hs.invalid)
          (.expired hrow hpending (hnow w₄ hw₄) (.set (hk₃.later hw₄)))
      · intro c _ _
        exact herr _ _ _ (hk₃.later (later_elapse w₃ c))
      · intro c _ hnone
        rw [hT] at hnone
        cases hnone
    · intro hexpired
      have hk₂ := hk₁.later hw₂
      exact hok row s w₂ hs (.current w₂.now hrow hk₂.now (fun _ => not_le.mp hexpired) hk₂)
  · intro hpending
    exact hok row s w₁ hs (.current w₁.now hrow hk₁.now (fun h => absurd h hpending) hk₁)

/-! ### Reading and answering an invitation -/

theorem wp_publicOut (row : ParticipantInvitation) {s : Session} {w : World} (hs : s.invalid = false)
    {Q : Except Exc InvitationPublicOut → Session × World → Prop}
    (h : ∀ r s' w', Kept w w' → Q r (s', w')) : wp (follow Alone) (publicOut row) Q (s, w) := by
  unfold publicOut
  apply wp_bind
  refine wp_look hs (Kept.refl w) ?_ fun s' w' hk => h _ s' w' hk
  intro n w₁ hk₁
  apply wp_bind
  refine wp_look hs hk₁ ?_ fun s' w' hk => h _ s' w' hk
  intro n' w₂ hk₂
  apply wp_bind
  apply wp_orRaise
  · intro _
    exact h _ _ _ hk₂
  intro user _
  apply wp_bind
  apply wp_orRaise
  · intro _
    exact h _ _ _ hk₂
  intro request _
  exact h _ _ _ hk₂

/-- What `get_by_token` may have committed. -/
theorem wp_getByToken (rawToken : String) {s : Session} {w : World} (hs : Idle s)
    {Q : Except Exc InvitationPublicOut → Session × World → Prop}
    (hkept : ∀ r s' w', Kept w w' → Q r (s', w'))
    (hexpired : ∀ r s' w' row, w.db.invitationByTokenHash (pf.sha256Hex rawToken) = some row →
      row.status = .pending → row.expiresAt ≤ w'.now → Made w (w.db.expire row) w' → Q r (s', w')) :
    wp (follow Alone) (getByToken pf rawToken) Q (s, w) := by
  unfold getByToken
  apply wp_bind
  refine wp_resolveActive pf rawToken hs ?_ fun e s' w' h => hkept _ s' w' h
  rintro _ s₁ w₁ hs₁ hres
  cases hres with
  | current t hrow ht hlive hk =>
    exact wp_publicOut _ hs₁.invalid fun r s' w' h => hkept r s' w' (hk.trans h)
  | expired hrow hpending hnow hm =>
    exact wp_publicOut _ hs₁.invalid fun r s' w' h =>
      hexpired r s' w' _ hrow hpending (hnow.trans h.now) (hm.trans h)

/-- The row of an answered invitation. -/
def ParticipantInvitation.answer (row : ParticipantInvitation) (response : ResponseValue)
    (reason : Option String) (t : Instant) : ParticipantInvitation :=
  { row with status := response.status, respondedAt := some t, responseReason := reason }

/-- Two databases agree but for the invitations, the responses and the audit log. -/
structure Tables.SameSetup (T T' : Tables) : Prop where
  users : T'.users = T.users
  requests : T'.requests = T.requests
  participants : T'.participants = T.participants

/-- A response was committed for the invitation of the token, which was open and not yet expired. -/
inductive Answered (rawToken : String) (response : ResponseValue) (reason : Option String) (w : World) :
    World → Prop where
  | of {row : ParticipantInvitation} {t₁ t : Instant} {T : Tables} {w' : World}
      (hrow : w.db.invitationByTokenHash (pf.sha256Hex rawToken) = some row)
      (hpending : row.status = .pending) (ht₁ : w.now ≤ t₁) (hlive : t₁ < row.expiresAt)
      (hm : Made w T w') (hsetup : w.db.SameSetup T)
      (hinvitations : T.invitations =
        ((Write.updateInvitation row (row.answer response reason t)).apply w.db).invitations) :
      Answered rawToken response reason w w'

theorem violates_answer (T : Tables) (row : ParticipantInvitation) (response : ResponseValue)
    (reason : Option String) (t : Instant) :
    (Write.updateInvitation row (row.answer response reason t)).violates T = false := by
  unfold Write.violates ParticipantInvitation.answer
  simp

theorem wp_respondToInvitation (rawToken : String) (response : ResponseValue) (reason : Option String)
    {s : Session} {w : World} (hs : Idle s)
    {Q : Except Exc InvitationPublicOut → Session × World → Prop}
    (hkept : ∀ e s' w', Kept w w' → Q (.error e) (s', w'))
    (hexpired : ∀ e s' w' row, w.db.invitationByTokenHash (pf.sha256Hex rawToken) = some row →
      row.status = .pending → row.expiresAt ≤ w'.now → Made w (w.db.expire row) w' →
        Q (.error e) (s', w'))
    (hanswered : ∀ r s' w', Answered pf rawToken response reason w w' → Q r (s', w')) :
    wp (follow Alone) (respondToInvitation pf rawToken response reason) Q (s, w) := by
  unfold respondToInvitation
  apply wp_bind
  refine wp_resolveActive pf rawToken hs ?_ fun e s' w' h => hkept e s' w' h
  rintro row s₁ w₁ hs₁ hres
  cases hres with
  | expired hrow hpending hnow hm =>
    apply wp_bind
    apply wp_raiseIf
    · intro _
      exact hexpired _ _ _ _ hrow hpending hnow hm
    · intro hne
      exact absurd rfl hne
  | current t₁ hrow ht₁ hlive hk₁ =>
    apply wp_bind
    apply wp_raiseIf
    · intro _
      exact hkept _ _ _ hk₁
    intro _
    apply wp_bind
    apply wp_raiseIf
    · intro _
      exact hkept _ _ _ hk₁
    intro hpending
    replace hpending : row.status = .pending := not_not.mp hpending
    apply wp_bind
    apply wp_raiseIf
    · intro _
      exact hkept _ _ _ hk₁
    intro _
    apply wp_bind
    apply wp_now
    intro w₂ hw₂
    apply wp_bind
    apply wp_stage
    intro w₃ hw₃
    have hk₃ : Kept w w₃ := (hk₁.later hw₂).later hw₃
    have hT₁ : (s₁.stage (.updateInvitation row (row.answer response reason w₂.now))).virtual w₃ =
        some ((Write.updateInvitation row (row.answer response reason w₂.now)).apply w.db) := by
      rw [virtual_stage_of (hs₁.virtual w₃) (violates_answer _ row response reason _), hk₃.db]
    apply wp_bind
    refine wp_look hs₁.invalid hk₃ ?_ fun s' w' h => hkept _ s' w' h
    intro n w₄ hk₄
    rw [← hk₄.virtual_eq hk₃] at hT₁
    have htail : ∀ s₅ w₅ T, s₅.virtual w₅ = some T → s₅.invalid = false → Kept w w₅ →
        w.db.SameSetup T → T.invitations = ((Write.updateInvitation row
          (row.answer response reason w₂.now)).apply w.db).invitations →
        ∀ audit, wp (follow Alone) (do
          recordAudit audit
          dbCommit
          publicOut (row.answer response reason w₂.now)) Q (s₅, w₅) := by
      intro s₅ w₅ T hT hs₅ hk₅ hsetup hinv audit
      apply wp_bind
      refine wp_recordAudit hs₅ hT hk₅ ?_ fun e s' w' h => hkept e s' w' h
      intro s₆ w₆ hs₆ hT₆ hk₆
      apply wp_bind
      refine wp_lastCommit hs₆ hT₆ hk₆ ?_ fun e s' w' h => hkept e s' w' h
      intro s₇ w₇ hs₇ hm
      apply wp_publicOut _ hs₇.invalid
      intro r s₈ w₈ hk₈
      exact hanswered r s₈ w₈ (.of hrow hpending ht₁ (hlive hpending) (hm.trans hk₈)
        ⟨hsetup.users, hsetup.requests, hsetup.participants⟩ hinv)
    apply wp_ite
    · intro _
      apply wp_bind
      apply wp_stage
      intro w₅ hw₅
      have hT₂ := virtual_stage_of hT₁
        (y := .setResponse row.interviewRequestId row.userId response.responseStatus) rfl
      rw [← hw₅.virtual] at hT₂
      exact htail _ w₅ _ hT₂ hs₁.invalid (hk₄.later hw₅) ⟨rfl, rfl, rfl⟩ rfl _
    · intro _
      exact htail _ w₄ _ hT₁ hs₁.invalid hk₄ ⟨rfl, rfl, rfl⟩ rfl _

/-! ### Claiming an account -/

/-- The database after a user's first password was set. -/
def Tables.setPassword (T : Tables) (user : User) (passwordHash : String) : Tables :=
  (Write.setPasswordHash user.id user.passwordHash passwordHash).apply T

/-- An account was claimed with a token, and `pair` is its session. -/
inductive Claimed (rawToken password : String) (pair : TokenPair) (w : World) : World → Prop where
  | of {row : ParticipantInvitation} {user : User} {passwordHash : String} {t : Instant} {T : Tables}
      {w' : World} (hrow : w.db.invitationByTokenHash (pf.sha256Hex rawToken) = some row)
      (ht : w.now ≤ t) (hlive : row.status = .pending → t < row.expiresAt) (hstatus : row.status ≠ .expired)
      (hsetup : row.requiresAccountSetup = true) (huser : w.db.user row.userId = some user)
      (hnone : user.passwordHash = none) (hhash : ∃ salt, pf.hashpw password salt = some passwordHash)
      (hpair : pair = tokenPair user) (hm : Made w T w')
      (husers : T.users = (w.db.setPassword user passwordHash).users)
      (hinvitations : T.invitations = w.db.invitations) (hrequests : T.requests = w.db.requests)
      (hparticipants : T.participants = w.db.participants) : Claimed rawToken password pair w w'

theorem wp_hashPassword (password : String) {s : Session} {w₀ w : World} (hk : Kept w₀ w)
    {Q : Except Exc String → Session × World → Prop}
    (hok : ∀ h w', (∃ salt, pf.hashpw password salt = some h) → Kept w₀ w' → Q (.ok h) (s, w'))
    (herr : ∀ w', Kept w₀ w' → Q (.error (.builtin "ValueError")) (s, w')) :
    wp (follow Alone) (hashPassword pf password) Q (s, w) := by
  unfold hashPassword
  apply wp_bind
  apply wp_gensalt
  intro salt w' hw
  apply wp_orRaise
  · intro _
    exact herr w' (hk.later hw)
  · intro h hh
    exact hok h w' ⟨salt, hh⟩ (hk.later hw)

theorem wp_claimAccount (rawToken password : String) {s : Session} {w : World} (hs : Idle s)
    {Q : Except Exc TokenPair → Session × World → Prop}
    (hkept : ∀ e s' w', Kept w w' → Q (.error e) (s', w'))
    (hexpired : ∀ e s' w' row, w.db.invitationByTokenHash (pf.sha256Hex rawToken) = some row →
      row.status = .pending → row.expiresAt ≤ w'.now → Made w (w.db.expire row) w' →
        Q (.error e) (s', w'))
    (hclaimed : ∀ pair s' w', Claimed pf rawToken password pair w w' → Q (.ok pair) (s', w')) :
    wp (follow Alone) (claimAccount pf rawToken password) Q (s, w) := by
  unfold claimAccount
  apply wp_bind
  refine wp_resolveActive pf rawToken hs ?_ fun e s' w' h => hkept e s' w' h
  rintro row s₁ w₁ hs₁ hres
  cases hres with
  | expired hrow hpending hnow hm =>
    apply wp_bind
    apply wp_raiseIf
    · intro _
      exact hexpired _ _ _ _ hrow hpending hnow hm
    · intro hne
      exact absurd rfl hne
  | current t hrow ht hlive hk₁ =>
    apply wp_bind
    apply wp_raiseIf
    · intro _
      exact hkept _ _ _ hk₁
    intro hstatus
    apply wp_bind
    apply wp_raiseIf
    · intro _
      exact hkept _ _ _ hk₁
    intro hsetup
    apply wp_bind
    refine wp_look hs₁.invalid hk₁ ?_ fun s' w' h => hkept _ s' w' h
    intro n w₂ hk₂
    apply wp_bind
    apply wp_orRaise
    · intro _
      exact hkept _ _ _ hk₂
    intro user huser
    apply wp_bind
    apply wp_raiseIf
    · intro _
      exact hkept _ _ _ hk₂
    intro hnone
    replace hnone : user.passwordHash = none := Option.not_isSome_iff_eq_none.mp hnone
    apply wp_bind
    refine wp_hashPassword pf password hk₂ ?_ fun w' h => hkept _ _ w' h
    intro passwordHash w₃ hhash hk₃
    apply wp_bind
    apply wp_stage
    intro w₄ hw₄
    have hk₄ : Kept w w₄ := hk₃.later hw₄
    have hT : (s₁.stage (.setPasswordHash user.id user.passwordHash passwordHash)).virtual w₄ =
        some (w.db.setPassword user passwordHash) := by
      rw [virtual_stage_of (hs₁.virtual w₄) rfl, hk₄.db]
      rfl
    apply wp_bind
    refine wp_recordAudit hs₁.invalid hT hk₄ ?_ fun e s' w' h => hkept e s' w' h
    intro s₅ w₅ hs₅ hT₅ hk₅
    apply wp_bind
    refine wp_lastCommit hs₅ hT₅ hk₅ ?_ fun e s' w' h => hkept e s' w' h
    intro s₆ w₆ _ hm
    exact hclaimed _ s₆ w₆ (.of hrow ht hlive hstatus (by simpa using hsetup) huser hnone hhash
      rfl hm rfl rfl rfl rfl)

/-! ### Logins and the archive -/

theorem wp_login (data : LoginRequest) {s : Session} {w : World} (hs : Idle s)
    {Q : Except Exc TokenPair → Session × World → Prop}
    (herr : ∀ e s' w', Kept w w' → Q (.error e) (s', w'))
    (hok : ∀ user s' w', w.db.userByEmail data.email = some user → user.archivedAt = none →
      Kept w w' → Q (.ok (tokenPair user)) (s', w')) :
    wp (follow Alone) (login pf data) Q (s, w) := by
  unfold login
  apply wp_bind
  refine wp_look hs.invalid (Kept.refl w) ?_ fun s' w' h => herr _ s' w' h
  intro n w₁ hk₁
  apply wp_bind
  apply wp_orRaise
  · intro _
    exact herr _ _ _ hk₁
  intro user huser
  apply wp_bind
  apply wp_orRaise
  · intro _
    exact herr _ _ _ hk₁
  intro passwordHash _
  apply wp_bind
  apply wp_raiseIf
  · intro _
    exact herr _ _ _ hk₁
  intro harchived
  apply wp_bind
  apply wp_raiseIf
  · intro _
    exact herr _ _ _ hk₁
  intro _
  exact hok user s w₁ huser (Option.not_isSome_iff_eq_none.mp harchived) hk₁

/-- An id was drawn. -/
theorem Made.draw {w₁ w₂ w₃ : World} {T : Tables} (h : Made w₁ T w₂) (h' : Later w₂ w₃) (n : Id) :
    Made w₁ T { w₃ with drawn := n :: w₂.drawn } := by
  have h₃ := h.later h'
  exact ⟨h₃.db, h₃.now, h₃.minted, fun x hx => List.mem_cons_of_mem n (h.drawn x hx)⟩

/-- A new user, who is not archived, is pending; or an exception was raised. -/
theorem wp_createUser (email name : String) (role : Core.Role) (authProvider : AuthProvider)
    (timezone : String) (passwordHash : Option String) {s : Session} {w₀ w : World} (hs : Idle s)
    (hk : Kept w₀ w) {Q : Except Exc User → Session × World → Prop}
    (hok : ∀ user s' w', user.archivedAt = none → s'.invalid = false →
      s'.virtual w' = some ((Write.insertUser user).apply w₀.db) → Kept w₀ w' → Q (.ok user) (s', w'))
    (herr : ∀ e s' w', Kept w₀ w' → Q (.error e) (s', w')) :
    wp (follow Alone) (createUser email name role authProvider timezone passwordHash) Q (s, w) := by
  unfold createUser
  apply wp_bind
  apply wp_newId
  intro id w₁ _ hw₁
  have hk₁ := hk.draw hw₁ id
  apply wp_bind
  apply wp_stage
  intro w₂ hw₂
  have hk₂ := hk₁.later hw₂
  apply wp_bind
  apply wp_calmFlush
  · exact hs.invalid
  · intro T w₃ hT hw₃
    have hk₃ := hk₂.later hw₃
    apply wp_bind
    refine wp_look hs.invalid hk₃ ?_ fun s' w' h => herr _ s' w' h
    intro _ w₄ hk₄
    refine hok _ _ w₄ rfl hs.invalid ?_ hk₄
    rw [virtual_stage (hs.virtual w₂)] at hT
    split_ifs at hT with hviolates
    change (s.stage _).virtual w₄ = _
    rw [hk₄.virtual_eq hk₂, virtual_stage (hs.virtual w₂), if_neg hviolates, hk₂.db]
  · intro w₃ hw₃
    exact herr _ _ _ (hk₂.later hw₃)
  · intro w₃ _ hw₃
    exact herr _ _ _ (hk₂.later hw₃)

theorem wp_googleLogin (idToken : String) {s : Session} {w : World} (hs : Idle s)
    {Q : Except Exc TokenPair → Session × World → Prop}
    (herr : ∀ e s' w', Kept w w' → Q (.error e) (s', w'))
    (hknown : ∀ user s' w', w.db.userByEmail (pf.googleIdentity idToken).email = some user →
      Kept w w' → Q (.ok (tokenPair user)) (s', w'))
    (hnew : ∀ user s' w', w.db.userByEmail (pf.googleIdentity idToken).email = none →
      user.archivedAt = none → Made w ((Write.insertUser user).apply w.db) w' →
        Q (.ok (tokenPair user)) (s', w')) :
    wp (follow Alone) (googleLogin pf idToken) Q (s, w) := by
  unfold googleLogin
  apply wp_bind
  apply wp_verifyIdToken
  · intro w₁ hw₁
    apply wp_bind
    refine wp_look hs.invalid hw₁.kept ?_ fun s' w' h => herr _ s' w' h
    intro n w₂ hk₂
    cases huser : w.db.userByEmail (pf.googleIdentity idToken).email with
    | some user => exact hknown user s w₂ huser hk₂
    | none =>
      apply wp_bind
      refine wp_createUser _ _ _ _ _ _ hs hk₂ ?_ fun e s' w' h => herr e s' w' h
      intro user s₃ w₃ hactive hs₃ hT₃ hk₃
      apply wp_bind
      refine wp_lastCommit hs₃ hT₃ hk₃ ?_ fun e s' w' h => herr e s' w' h
      intro s₄ w₄ _ hm
      exact hnew user s₄ w₄ huser hactive hm
  · intro w₁ hw₁
    exact herr _ _ _ hw₁.kept

theorem wp_registrationFailed (e : Exc) {s : Session} {w : World}
    {Q : Except Exc User → Session × World → Prop}
    (herr : ∀ e s' w', Kept w w' → Q (.error e) (s', w')) :
    wp (follow Alone) (registrationFailed e) Q (s, w) := by
  by_cases he : e = .integrityError
  · subst he
    apply wp_bind
    apply wp_rollback
    intro w' hw
    exact herr _ _ _ hw.kept
  · have hthrow : registrationFailed e = throw e := by
      cases e <;> first | rfl | exact absurd rfl he
    rw [hthrow]
    exact herr _ _ _ (Kept.refl w)

theorem wp_register (data : RegisterRequest) {s : Session} {w : World} (hs : Idle s)
    {Q : Except Exc User → Session × World → Prop}
    (herr : ∀ e s' w', Kept w w' → Q (.error e) (s', w'))
    (hok : ∀ user s' w', user.archivedAt = none → Made w ((Write.insertUser user).apply w.db) w' →
      Q (.ok user) (s', w')) :
    wp (follow Alone) (register pf data) Q (s, w) := by
  have hfailed : ∀ e s' w', Kept w w' → Caught (follow Alone) registrationFailed Q (.error e) (s', w') :=
    fun e s' w' hk => wp_registrationFailed e fun e' s'' w'' hk' => herr e' s'' w'' (hk.trans hk')
  unfold register
  apply wp_bind
  refine wp_look hs.invalid (Kept.refl w) ?_ fun s' w' h => herr _ s' w' h
  intro n w₁ hk₁
  apply wp_bind
  apply wp_raiseIf
  · intro _
    exact herr _ _ _ hk₁
  intro _
  apply wp_tryCatch
  apply wp_bind
  refine wp_hashPassword pf data.password hk₁ ?_ fun w' h => hfailed _ _ w' h
  intro passwordHash w₂ _ hk₂
  apply wp_bind
  refine wp_createUser _ _ _ _ _ _ hs hk₂ ?_ fun e s' w' h => hfailed e s' w' h
  intro user s₃ w₃ hactive hs₃ hT₃ hk₃
  apply wp_bind
  refine wp_lastCommit hs₃ hT₃ hk₃ ?_ fun e s' w' h => hfailed e s' w' h
  intro s₄ w₄ _ hm
  exact hok user s₄ w₄ hactive hm

theorem wp_setArchived (actorId userId : Id) (archived : Bool) {s : Session} {w : World} (hs : Idle s)
    {Q : Except Exc User → Session × World → Prop}
    (herr : ∀ e s' w', Kept w w' → Q (.error e) (s', w'))
    (hok : ∀ user archivedAt s' w' T, Made w T w' →
      T.users = ((Write.setArchivedAt userId archivedAt).apply w.db).users →
      T.invitations = w.db.invitations → T.requests = w.db.requests →
      T.participants = w.db.participants → Q (.ok user) (s', w')) :
    wp (follow Alone) (setArchived actorId userId archived) Q (s, w) := by
  unfold setArchived
  apply wp_bind
  refine wp_look hs.invalid (Kept.refl w) ?_ fun s' w' h => herr _ s' w' h
  intro n w₁ hk₁
  apply wp_bind
  apply wp_orRaise
  · intro _
    exact herr _ _ _ hk₁
  intro user huser
  have hid : user.id = userId := by
    have := List.find?_some huser
    simpa using this
  apply wp_bind
  apply wp_raiseIf
  · intro _
    exact herr _ _ _ hk₁
  intro _
  have htail : ∀ (archivedAt : Option Instant) (w₂ : World), Kept w w₂ → ∀ audit,
      wp (follow Alone) (do
        dbAdd (.setArchivedAt user.id archivedAt)
        recordAudit audit
        dbCommit
        pure { user with archivedAt }) Q (s, w₂) := by
    intro archivedAt w₂ hk₂ audit
    apply wp_bind
    apply wp_stage
    intro w₃ hw₃
    have hT := virtual_stage_of (hs.virtual w₃) (y := .setArchivedAt user.id archivedAt) rfl
    have hk₃ := hk₂.later hw₃
    apply wp_bind
    refine wp_recordAudit hs.invalid hT hk₃ ?_ fun e s' w' h => herr e s' w' h
    intro s₄ w₄ hs₄ hT₄ hk₄
    apply wp_bind
    refine wp_lastCommit hs₄ hT₄ hk₄ ?_ fun e s' w' h => herr e s' w' h
    intro s₅ w₅ _ hm
    refine hok _ archivedAt s₅ w₅ _ hm ?_ ?_ ?_ ?_
    · rw [hk₃.db, hid]
      rfl
    · rw [hk₃.db]
      rfl
    · rw [hk₃.db]
      rfl
    · rw [hk₃.db]
      rfl
  apply wp_ite
  · intro _
    apply wp_bind
    apply wp_map
    apply wp_now
    intro w₂ hw₂
    exact htail _ w₂ (hk₁.later hw₂) _
  · intro _
    apply wp_bind
    exact htail none w₁ hk₁ _

end InterviewScheduler.Accounts
