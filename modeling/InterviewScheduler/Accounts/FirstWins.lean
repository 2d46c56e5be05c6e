import InterviewScheduler.Accounts.Calls

/-! # Responses and claims under interleaving

Any number of calls in progress, each in its own session. A response or a password that was committed
stays, as long as no commit acts on a row that has been answered, or on a user whose password has been
set, since it was read. -/

namespace InterviewScheduler.Accounts

open InterviewScheduler.Intervals InterviewScheduler.Engine InterviewScheduler.Effects
open InterviewScheduler.Core (Id RoleInInterview InterviewRequest InterviewParticipant)

/-! ### Writes that do not take back an answer -/

/-- The UPDATE has the status or the time of the response. -/
def ParticipantInvitation.Reopens (loaded row : ParticipantInvitation) : Prop :=
  row.status ≠ loaded.status ∨ row.respondedAt ≠ loaded.respondedAt

instance (loaded row : ParticipantInvitation) : Decidable (loaded.Reopens row) :=
  inferInstanceAs (Decidable (_ ∨ _))

namespace Write

/-- The write leaves an answer, and a password, that its session has seen. -/
def Careful : Write → Prop
  | updateInvitation loaded row => loaded.status.Terminal → ¬ loaded.Reopens row
  | setPasswordHash _ loaded _ => loaded = none
  | _ => True

/-- No answer, and no password, was committed since the session has read what the write is about. -/
def Current (T : Tables) : Write → Prop
  | updateInvitation loaded row => loaded.Reopens row →
    ∀ x ∈ T.invitations, x.id = loaded.id → x.status.Terminal → loaded.status.Terminal
  | setPasswordHash u loaded _ =>
    ∀ user ∈ T.users, user.id = u → user.passwordHash.isSome → loaded.isSome
  | _ => True

end Write

/-- The answers and the passwords of `T` are those of `T'` as well. -/
structure StillHolds (T T' : Tables) : Prop where
  answers : ∀ x ∈ T.invitations, x.status.Terminal →
    ∃ x' ∈ T'.invitations, x'.id = x.id ∧ x'.status = x.status ∧ x'.respondedAt = x.respondedAt
  passwords : ∀ user ∈ T.users, user.passwordHash.isSome →
    ∃ user' ∈ T'.users, user'.id = user.id ∧ user'.passwordHash = user.passwordHash

section StillHolds

variable {T T' T'' : Tables}

theorem StillHolds.refl (T : Tables) : StillHolds T T :=
  ⟨fun x hx _ => ⟨x, hx, rfl, rfl, rfl⟩, fun user huser _ => ⟨user, huser, rfl, rfl⟩⟩

theorem StillHolds.trans (h : StillHolds T T') (h' : StillHolds T' T'') : StillHolds T T'' := by
  constructor
  · intro x hx hterminal
    obtain ⟨x', hx', hid, hstatus, htime⟩ := h.answers x hx hterminal
    obtain ⟨x'', hx'', hid', hstatus', htime'⟩ := h'.answers x' hx' (hstatus ▸ hterminal)
    exact ⟨x'', hx'', hid'.trans hid, hstatus'.trans hstatus, htime'.trans htime⟩
  · intro user huser hsome
    obtain ⟨user', huser', hid, hhash⟩ := h.passwords user huser hsome
    obtain ⟨user'', huser'', hid', hhash'⟩ := h'.passwords user' huser' (hhash ▸ hsome)
    exact ⟨user'', huser'', hid'.trans hid, hhash'.trans hhash⟩

/-- The rows of other tables, or new rows. -/
theorem StillHolds.of_subset (hinv : ∀ x ∈ T.invitations, x ∈ T'.invitations)
    (husers : ∀ user ∈ T.users, user ∈ T'.users) : StillHolds T T' :=
  ⟨fun x hx _ => ⟨x, hinv x hx, rfl, rfl, rfl⟩, fun user huser _ => ⟨user, husers user huser, rfl, rfl⟩⟩

/-- One write of a commit. What it is current for are the tables before the commit. -/
theorem StillHolds.apply {y : Write} (h : StillHolds T T') (hy : y.Careful) (hcurrent : y.Current T) :
    StillHolds T (y.apply T') := by
  cases y with
  | updateInvitation loaded row =>
    refine ⟨fun x hx hterminal => ?_, h.passwords⟩
    obtain ⟨x', hx', hid, hstatus, htime⟩ := h.answers x hx hterminal
    by_cases hloaded : x'.id = loaded.id
    · have hsame : ¬ loaded.Reopens row := fun hreopens =>
        hy (hcurrent hreopens x hx (hid.symm.trans hloaded) hterminal) hreopens
      unfold ParticipantInvitation.Reopens at hsame
      push Not at hsame
      refine ⟨x'.overwrite loaded row, mem_updateInvitation.mpr (Or.inr ⟨x', hx', hloaded, rfl⟩), hid,
        ?_, ?_⟩
      · rw [← hstatus]
        exact if_pos hsame.1
      · rw [← htime]
        exact if_pos hsame.2
    · exact ⟨x', mem_updateInvitation.mpr (Or.inl ⟨hx', hloaded⟩), hid, hstatus, htime⟩
  | setPasswordHash u loaded p =>
    refine ⟨h.answers, fun user huser hsome => ?_⟩
    obtain ⟨user', huser', hid, hhash⟩ := h.passwords user huser hsome
    have hne : user'.id ≠ u := by
      intro heq
      have := hcurrent user huser (hid.symm.trans heq) hsome
      rw [show loaded = none from hy] at this
      cases this
    refine ⟨user', ?_, hid, hhash⟩
    exact List.mem_map.mpr ⟨user', huser', if_neg hne⟩
  | setArchivedAt u t =>
    refine ⟨h.answers, fun user huser hsome => ?_⟩
    obtain ⟨user', huser', hid, hhash⟩ := h.passwords user huser hsome
    refine ⟨_, List.mem_map_of_mem huser', ?_, ?_⟩
    · split_ifs <;> exact hid
    · split_ifs <;> exact hhash
  | insertUser row =>
    exact h.trans (.of_subset (fun _ hx => hx) fun _ hx => List.mem_append_left _ hx)
  | insertInvitation row =>
    exact h.trans (.of_subset (fun _ hx => List.mem_append_left _ hx) fun _ hx => hx)
  | setResponse r u st => exact h.trans (.of_subset (fun _ hx => hx) fun _ hx => hx)
  | insertAudit row => exact h.trans (.of_subset (fun _ hx => hx) fun _ hx => hx)

/-- The writes of a commit. -/
theorem stillHolds_applyAll : ∀ {ys : List Write} {T' T'' : Tables}, StillHolds T T' →
    (∀ y ∈ ys, y.Careful) → (∀ y ∈ ys, y.Current T) → Write.applyAll ys T' = some T'' →
      StillHolds T T''
  | [], _, _, h, _, _, happly => by
    cases happly
    exact h
  | y :: ys, T', T'', h, hcareful, hcurrent, happly => by
    unfold Write.applyAll at happly
    split_ifs at happly
    exact stillHolds_applyAll (h.apply (hcareful y List.mem_cons_self) (hcurrent y List.mem_cons_self))
      (fun z hz => hcareful z (List.mem_cons_of_mem _ hz))
      (fun z hz => hcurrent z (List.mem_cons_of_mem _ hz)) happly

end StillHolds

/-! ### The condition on the steps -/

/-- A commit finds the rows unanswered, and the users without a password, that it was read so; and the
row that is read again after a rollback has no answer. -/
def Unraced : Condition Effect Choice Session World := fun _ o _ s w =>
  match o with
  | .invitationFor r u => s.retrying = true →
    ∀ row, w.db.invitationFor r u = some row → ¬ row.status.Terminal
  | .commit => ∀ y ∈ s.pending, y.Current w.db
  | _ => True

/-! ### What the calls stage -/

/-- The logic of the careful writes. Its view is whether the session has been rolled back since the last
flush. -/
def careful : Logic Effect Exc Bool where
  pre o _ := match o with
    | .stage y => y.Careful
    | _ => True
  step {β} o v r v' := match β, o, r with
    | _, .rollback, _ => v' = true
    | _, .flush, _ => True
    | _, .commit, _ => True
    | _, .invitationFor _ _, r =>
      v' = v ∧ (v = true → ∀ row, r = .ok (some row) → ¬ row.status.Terminal)
    | _, _, _ => v' = v

/-- The view of a session. -/
def Sees (v : Bool) (s : Session) : Prop := v = s.retrying

/-- A database call changes the flag no more than its answer does. -/
theorem dbCall_retrying {β : Type} {a : Answer} {s s' : Session} {w w' : World} {r : Except Exc β}
    {answer : ℕ → Result β} (h : dbCall a s w answer = some (r, s', w')) :
    s'.retrying = s.retrying ∧ (∃ e, r = .error e) ∨ ∃ n, answer n = some (r, s', w') := by
  unfold dbCall at h
  split_ifs at h
  · cases h
    exact Or.inl ⟨rfl, _, rfl⟩
  · cases a with
    | ok => exact Or.inr ⟨0, h⟩
    | pick n => exact Or.inr ⟨n, h⟩
    | fail =>
      cases h
      exact Or.inl ⟨rfl, _, rfl⟩
    | text t => cases h
    | conflict row => cases h

theorem faithful_careful : Pool.FaithfulUnder machine Unraced careful Sees := by
  intro β o c s w r s' w' v hv hc h
  refine ⟨s'.retrying, ?_, rfl⟩
  obtain rfl : v = s.retrying := hv
  change respond o c.answer s (w.elapse c) = _ at h
  cases o with
  | rollback =>
    cases h
    rfl
  | flush => trivial
  | commit => trivial
  | invitationFor requestId userId =>
    unfold respond at h
    dsimp only at h
    rcases dbCall_retrying h with ⟨hsame, e, rfl⟩ | ⟨n, hn⟩
    · exact ⟨hsame, fun _ row hrow => by cases hrow⟩
    · cases hn
      refine ⟨rfl, fun hretry row hrow => ?_⟩
      exact hc hretry row (Except.ok.inj hrow)
  | select query =>
    unfold respond at h
    dsimp only at h
    rcases dbCall_retrying h with ⟨hsame, -⟩ | ⟨n, hn⟩
    · exact hsame
    · cases hn
      rfl
  | stage y =>
    cases h
    rfl
  | now =>
    cases h
    rfl
  | newId =>
    unfold respond at h
    dsimp only at h
    split at h
    · split_ifs at h
      cases h
      rfl
    · cases h
  | tokenUrlsafe =>
    unfold respond at h
    dsimp only at h
    split at h
    · split_ifs at h
      cases h
      rfl
    · cases h
  | loadExpired =>
    unfold respond at h
    dsimp only at h
    split at h <;> cases h <;> rfl
  | gensalt =>
    unfold respond at h
    dsimp only at h
    split at h <;> cases h
    rfl
  | sendMail msg =>
    unfold respond at h
    dsimp only at h
    split at h <;> cases h <;> rfl
  | verifyOauth2Token idToken =>
    unfold respond at h
    dsimp only at h
    split at h <;> cases h <;> rfl

/-- A program that stages careful writes only. -/
abbrev Cares {α : Type} (p : M α) (v : Bool) : Prop := wp careful p (fun _ _ => True) v

section Cares

variable {α β : Type} {v : Bool}

theorem cares_perform {o : Effect α} (h : careful.pre o v) : Cares (.perform o) v :=
  wp_perform h fun _ _ _ => trivial

theorem cares_seq {p : M α} {f : α → M β} (hp : Cares p v) (hf : ∀ a v', Cares (f a) v') :
    Cares (p >>= f) v :=
  wp_bind_any hp hf

theorem cares_map {p : M α} {f : α → β} (hp : Cares p v) : Cares (f <$> p) v :=
  wp_map (wp_mono hp fun _ _ _ => trivial)

theorem cares_raiseIf {c : Prop} [Decidable c] {e : Exc} : Cares (Prog.raiseIf c e) v :=
  wp_raiseIf (fun _ => trivial) fun _ => trivial

theorem cares_orRaise {x : Option α} {e : Exc} : Cares (Prog.orRaise x e) v :=
  wp_orRaise (fun _ => trivial) fun _ _ => trivial

theorem cares_stage {y : Write} (h : y.Careful) : Cares (dbAdd y) v := cares_perform h

theorem cares_select {query : ℕ → Tables → α} : Cares (dbSelect query) v := cares_perform trivial

theorem cares_recordAudit {row : AuditLog} : Cares (recordAudit row) v :=
  cares_seq (cares_stage trivial) fun _ _ => cares_perform trivial

theorem cares_commit : Cares dbCommit v := cares_perform trivial

theorem cares_raiseIf_seq {c : Prop} [Decidable c] {e : Exc} {p : M α} (h : ¬ c → Cares p v) :
    Cares (Prog.raiseIf c e >>= fun _ => p) v := by
  apply wp_bind
  apply wp_raiseIf
  · intro _
    trivial
  · exact h

end Cares

variable (pf : Platform)

/-! ### Each call -/

theorem cares_createUser (email name : String) (role : Core.Role) (authProvider : AuthProvider)
    (timezone : String) (passwordHash : Option String) (v : Bool) :
    Cares (createUser email name role authProvider timezone passwordHash) v :=
  cares_seq (cares_perform trivial) fun _ _ =>
    cares_seq (cares_stage trivial) fun _ _ =>
      cares_seq (cares_perform trivial) fun _ _ =>
        cares_seq cares_select fun _ _ => trivial

theorem cares_hashPassword (password : String) (v : Bool) : Cares (hashPassword pf password) v :=
  cares_seq (cares_perform trivial) fun _ _ => cares_orRaise

theorem cares_register (data : RegisterRequest) (v : Bool) : Cares (register pf data) v := by
  refine cares_seq cares_select fun _ _ => cares_seq cares_raiseIf fun _ _ => ?_
  refine wp_tryCatch_any ?_ fun e v' => ?_
  · exact cares_seq (cares_hashPassword pf _ _) fun _ _ =>
      cares_seq (cares_createUser _ _ _ _ _ _ _) fun _ _ => cares_seq cares_commit fun _ _ => trivial
  · cases e with
    | integrityError => exact cares_seq (cares_perform trivial) fun _ _ => trivial
    | _ => trivial

theorem cares_login (data : LoginRequest) (v : Bool) : Cares (login pf data) v :=
  cares_seq cares_select fun _ _ => cares_seq cares_orRaise fun _ _ =>
    cares_seq cares_orRaise fun _ _ => cares_seq cares_raiseIf fun _ _ =>
      cares_seq cares_raiseIf fun _ _ => trivial

theorem cares_googleLogin (idToken : String) (v : Bool) : Cares (googleLogin pf idToken) v := by
  refine cares_seq (cares_seq (cares_perform trivial) fun _ _ => trivial) fun who _ =>
    cares_seq cares_select fun user _ => ?_
  cases user with
  | none =>
    exact cares_seq (cares_createUser _ _ _ _ _ _ _) fun _ _ => cares_seq cares_commit fun _ _ => trivial
  | some user => trivial

theorem cares_setArchived (actorId userId : Id) (archived : Bool) (v : Bool) :
    Cares (setArchived actorId userId archived) v := by
  refine cares_seq cares_select fun user _ => cares_seq cares_orRaise fun user _ =>
    cares_seq cares_raiseIf fun _ _ => ?_
  have hrest : ∀ (archivedAt : Option Instant) v', Cares (do
      dbAdd (.setArchivedAt user.id archivedAt)
      recordAudit
        { actorId := some actorId
          actorRole := .admin
          action := if archived then "CANDIDATE_ARCHIVED" else "CANDIDATE_UNARCHIVED"
          entityType := "user"
          entityId := user.id
          metadata := [("email", user.email)] }
      dbCommit
      pure { user with archivedAt }) v' := fun archivedAt v' =>
    cares_seq (cares_stage trivial) fun _ _ => cares_seq cares_recordAudit fun _ _ =>
      cares_seq cares_commit fun _ _ => trivial
  cases archived with
  | false => exact cares_seq (p := (pure none : M (Option Instant))) trivial hrest
  | true => exact cares_seq (cares_map (cares_perform trivial)) hrest

theorem cares_resolveActive (rawToken : String) (v : Bool) : Cares (resolveActive pf rawToken) v := by
  refine cares_seq cares_select fun row _ => cares_seq cares_orRaise fun row _ => ?_
  apply wp_ite
  · intro hpending
    refine cares_seq (cares_perform trivial) fun t _ => ?_
    apply wp_ite
    · intro _
      refine cares_seq (cares_stage fun hterminal => ?_) fun _ _ => cares_seq cares_commit fun _ _ => trivial
      rw [hpending] at hterminal
      exact absurd hterminal (by decide)
    · intro _
      trivial
  · intro _
    trivial

theorem cares_publicOut (row : ParticipantInvitation) (v : Bool) : Cares (publicOut row) v :=
  cares_seq cares_select fun _ _ => cares_seq cares_select fun _ _ => cares_seq cares_orRaise fun _ _ =>
    cares_seq cares_orRaise fun _ _ => trivial

theorem cares_getByToken (rawToken : String) (v : Bool) : Cares (getByToken pf rawToken) v :=
  cares_seq (cares_resolveActive pf rawToken v) fun _ _ => cares_publicOut _ _

/-- A response is to an invitation that is PENDING when it is read. -/
theorem cares_respondToInvitation (rawToken : String) (response : ResponseValue)
    (reason : Option String) (v : Bool) :
    Cares (respondToInvitation pf rawToken response reason) v := by
  refine cares_seq (cares_resolveActive pf rawToken v) fun row _ => cares_seq cares_raiseIf fun _ _ => ?_
  refine cares_raiseIf_seq fun hpending => cares_seq cares_raiseIf fun _ _ => ?_
  replace hpending : row.status = .pending := not_not.mp hpending
  refine cares_seq (cares_perform trivial) fun t _ => ?_
  refine cares_seq (cares_stage fun hterminal => ?_) fun _ _ => ?_
  · rw [hpending] at hterminal
    exact absurd hterminal (by decide)
  refine cares_seq cares_select fun participant _ => ?_
  have hrest : ∀ (u : Unit) v', Cares (do
      recordAudit
        { actorId := none
          actorRole := userRole row.role
          action := "INVITATION_RESPONDED"
          entityType := "participant_invitation"
          entityId := row.id
          metadata := [("response", response.name), ("role", roleName row.role)] }
      dbCommit
      publicOut { row with
        status := response.status, respondedAt := some t, responseReason := reason }) v' := fun _ v' =>
    cares_seq cares_recordAudit fun _ _ => cares_seq cares_commit fun _ _ => cares_publicOut _ _
  cases participant with
  | none => exact hrest () _
  | some participant => exact cares_seq (cares_stage trivial) hrest

/-- A claim is of an account that has no password when it is read. -/
theorem cares_claimAccount (rawToken password : String) (v : Bool) :
    Cares (claimAccount pf rawToken password) v := by
  refine cares_seq (cares_resolveActive pf rawToken v) fun row _ => cares_seq cares_raiseIf fun _ _ => ?_
  refine cares_seq cares_raiseIf fun _ _ => cares_seq cares_select fun _ _ => ?_
  refine cares_seq cares_orRaise fun user _ => cares_raiseIf_seq fun hnone => ?_
  refine cares_seq (cares_hashPassword pf _ _) fun _ _ => cares_seq (cares_stage ?_) fun _ _ => ?_
  · exact Option.not_isSome_iff_eq_none.mp (by simpa using hnone)
  · exact cares_seq cares_recordAudit fun _ _ => cares_seq cares_commit fun _ _ => trivial

/-! ### Issuance -/

theorem cares_sendInviteEmail (user : User) (request : InterviewRequest) (rawToken : String) (v : Bool) :
    Cares (sendInviteEmail pf user request rawToken) v := by
  unfold sendInviteEmail
  apply wp_ite
  · intro _
    exact wp_tryCatch_any (cares_seq (cares_perform trivial) fun _ _ => trivial) fun _ _ => trivial
  · intro _
    trivial

/-- The row is new, or is rotated and has no answer. -/
theorem cares_flushRow {existing : Option ParticipantInvitation} (requestId : Id)
    (participant : InterviewParticipant) (user : User) (tokenHash : String) (expiresAt : Instant)
    (h : ∀ loaded, existing = some loaded → ¬ loaded.status.Terminal) (v : Bool) :
    Cares (flushRow existing requestId participant user tokenHash expiresAt) v := by
  cases existing with
  | none =>
    exact cares_seq (cares_perform trivial) fun _ _ => cares_seq (cares_stage trivial) fun _ _ =>
      cares_seq (cares_perform trivial) fun _ _ => trivial
  | some loaded =>
    exact cares_seq (cares_stage fun hterminal => absurd hterminal (h loaded rfl)) fun _ _ =>
      cares_seq (cares_perform trivial) fun _ _ => trivial

/-- One effect, with what is known of its answer. -/
theorem cares_perform_seq {α β : Type} {o : Effect α} {f : α → M β} {v : Bool} (h : careful.pre o v)
    (hf : ∀ a v', careful.step o v (.ok a) v' → Cares (f a) v') : Cares (Prog.perform o >>= f) v := by
  apply wp_bind
  apply wp_perform h
  intro r v' hstep
  cases r with
  | error e => trivial
  | ok a => exact hf a v' hstep

/-- The row that is read again after the rollback has no answer. -/
theorem cares_retryRow (requestId : Id) (participant : InterviewParticipant) (user : User)
    (tokenHash : String) (expiresAt : Instant) (v : Bool) :
    Cares (retryRow requestId participant user tokenHash expiresAt) v := by
  refine cares_perform_seq trivial fun _ v₁ h₁ => ?_
  refine cares_perform_seq trivial fun _ v₂ h₂ => ?_
  refine cares_perform_seq trivial fun existing v₃ h₃ => ?_
  have hretrying : v₂ = true := Eq.trans h₂ h₁
  cases existing with
  | none => trivial
  | some loaded =>
    have hfree : ∀ row, some loaded = some row → ¬ row.status.Terminal := by
      intro row hrow
      cases hrow
      exact h₃.2 hretrying loaded rfl
    exact cares_flushRow requestId participant user tokenHash expiresAt hfree v₃

theorem cares_issueForParticipant (actor : User) (requestId : Id) (request : InterviewRequest)
    (expiresAt : Instant) (part : InterviewParticipant × User) (v : Bool) :
    Cares (issueForParticipant pf actor requestId request expiresAt part) v := by
  refine cares_seq (cares_perform trivial) fun existing v₁ => ?_
  apply wp_ite
  · intro _
    trivial
  · intro hopen
    have hfree : ∀ loaded, existing = some loaded → ¬ loaded.status.Terminal := by
      rintro loaded rfl hterminal
      exact hopen (decide_eq_true hterminal)
    refine cares_seq (cares_perform trivial) fun rawToken v₂ => ?_
    refine cares_seq (wp_tryCatch_any ?_ fun e v₃ => ?_) fun out v₄ => ?_
    · exact cares_seq (cares_flushRow requestId part.1 part.2 _ expiresAt hfree v₂) fun _ _ => trivial
    · cases e with
      | integrityError => exact cares_seq (cares_retryRow requestId part.1 part.2 _ expiresAt v₃) fun _ _ => trivial
      | _ => trivial
    · refine cares_seq (cares_sendInviteEmail pf _ _ _ _) fun _ _ => cares_seq (cares_perform trivial) fun _ _ => ?_
      refine cares_seq (cares_stage fun _ hreopens => ?_) fun _ _ => ?_
      · rcases hreopens with hstatus | htime
        · exact hstatus rfl
        · exact htime rfl
      · exact cares_seq cares_recordAudit fun _ _ => trivial

theorem cares_forEach {α β : Type} {f : α → M β} (hf : ∀ a v, Cares (f a) v) :
    ∀ (l : List α) (v : Bool), Cares (Prog.forEach f l) v
  | [], _ => trivial
  | a :: l, v => cares_seq (hf a v) fun _ v' => cares_seq (cares_forEach hf l v') fun _ _ => trivial

theorem cares_issueForRequest (actor : User) (requestId : Id) (v : Bool) :
    Cares (issueForRequest pf actor requestId) v := by
  refine cares_seq cares_select fun request _ => cares_seq cares_orRaise fun request _ => ?_
  refine cares_seq cares_select fun parts _ => cares_seq (cares_perform trivial) fun t _ => ?_
  refine cares_seq (cares_forEach (fun part v' => ?_) _ _) fun _ _ => cares_seq cares_commit fun _ _ => trivial
  exact cares_issueForParticipant pf actor requestId request _ part v'

theorem cares_handle (call : Call) (v : Bool) : Cares (handle pf call) v := by
  cases call with
  | register data => exact cares_map (cares_register pf data v)
  | login data => exact cares_map (cares_login pf data v)
  | googleLogin idToken => exact cares_map (cares_googleLogin pf idToken v)
  | setArchived actorId userId archived => exact cares_map (cares_setArchived actorId userId archived v)
  | issueForRequest actor requestId => exact cares_map (cares_issueForRequest pf actor requestId v)
  | getByToken rawToken => exact cares_map (cares_getByToken pf rawToken v)
  | respond rawToken response reason =>
    exact cares_map (cares_respondToInvitation pf rawToken response reason v)
  | claimAccount rawToken password => exact cares_map (cares_claimAccount pf rawToken password v)

/-! ### One step -/

/-- The write that an effect adds to the pending ones. -/
def Effect.staged {β : Type} : Effect β → Option Write
  | .stage y => some y
  | _ => none

section Steps

variable {pf} {β : Type} {o : Effect β} {c : Choice} {s s' : Session} {w w' : World} {r : Except Exc β}

/-- What a step does to the pending writes and to the tables. -/
structure Moves (staged : Option Write) (current : Prop) (s : Session) (w : World) (s' : Session)
    (w' : World) : Prop where
  pending : ∀ y ∈ s'.pending, y ∈ s.pending ∨ staged = some y
  /-- they stay, or the pending writes are committed, or another session commits an invitation -/
  tables : w'.db = w.db ∨ (current ∧ Write.applyAll s.pending w.db = some w'.db) ∨
    ∃ row, w'.db = (Write.insertInvitation row).apply w.db

theorem Moves.still {staged : Option Write} {current : Prop}
    (hpending : s'.pending = s.pending ∨ s'.pending = []) (hdb : w'.db = w.db) :
    Moves staged current s w s' w' := by
  refine ⟨fun y hy => ?_, Or.inl hdb⟩
  rcases hpending with hsame | hnil
  · exact Or.inl (hsame ▸ hy)
  · rw [hnil] at hy
    cases hy

/-- A database call that fails drops the pending writes. -/
theorem moves_of_dbCall {a : Answer} {staged : Option Write} {current : Prop} {w₀ : World}
    {answer : ℕ → Result β} (h : dbCall a s w answer = some (r, s', w')) (hw : w.db = w₀.db)
    (hanswer : ∀ n, answer n = some (r, s', w') → Moves staged current s w₀ s' w') :
    Moves staged current s w₀ s' w' := by
  unfold dbCall at h
  split_ifs at h
  · cases h
    exact .still (Or.inr rfl) hw
  · cases a with
    | ok => exact hanswer 0 h
    | pick n => exact hanswer n h
    | fail =>
      cases h
      exact .still (Or.inr rfl) hw
    | text t => cases h
    | conflict row => cases h

theorem moves_of_exec (hc : Unraced β o c s w) (h : machine.exec o c s w = some (r, s', w')) :
    Moves o.staged (∀ y ∈ s.pending, y.Current w.db) s w s' w' := by
  change respond o c.answer s (w.elapse c) = _ at h
  cases o with
  | select query =>
    unfold respond at h
    dsimp only at h
    refine moves_of_dbCall h rfl fun n hn => ?_
    cases hn
    exact .still (Or.inl rfl) rfl
  | invitationFor requestId userId =>
    unfold respond at h
    dsimp only at h
    refine moves_of_dbCall h rfl fun n hn => ?_
    cases hn
    exact .still (Or.inl rfl) rfl
  | commit =>
    unfold respond at h
    dsimp only at h
    refine moves_of_dbCall h rfl fun n hn => ?_
    unfold commitPending at hn
    split at hn
    · next T hT =>
      cases hn
      exact ⟨fun y hy => (List.not_mem_nil hy).elim, Or.inr (Or.inl ⟨hc, hT⟩)⟩
    · cases hn
      exact .still (Or.inr rfl) rfl
  | flush =>
    unfold respond at h
    dsimp only at h
    split at h
    · next row _ =>
      unfold conflictingFlush at h
      dsimp only at h
      split_ifs at h
      cases h
      exact ⟨fun y hy => (List.not_mem_nil hy).elim, Or.inr (Or.inr ⟨row, rfl⟩)⟩
    · refine moves_of_dbCall h rfl fun n hn => ?_
      unfold flushPending at hn
      split at hn
      · cases hn
        exact .still (Or.inl rfl) rfl
      · cases hn
        exact .still (Or.inr rfl) rfl
  | newId =>
    unfold respond at h
    dsimp only at h
    split at h
    · split_ifs at h
      cases h
      exact .still (Or.inl rfl) rfl
    · cases h
  | tokenUrlsafe =>
    unfold respond at h
    dsimp only at h
    split at h
    · split_ifs at h
      cases h
      exact .still (Or.inl rfl) rfl
    · cases h
  | stage y =>
    cases h
    refine ⟨fun z hz => ?_, Or.inl rfl⟩
    rcases List.mem_append.mp hz with hz | hz
    · exact Or.inl hz
    · rw [List.mem_singleton.mp hz]
      exact Or.inr rfl
  | rollback =>
    cases h
    exact .still (Or.inr rfl) rfl
  | now =>
    cases h
    exact .still (Or.inl rfl) rfl
  | loadExpired =>
    unfold respond at h
    dsimp only at h
    split at h <;> cases h <;> exact .still (Or.inl rfl) rfl
  | gensalt =>
    unfold respond at h
    dsimp only at h
    split at h <;> cases h
    exact .still (Or.inl rfl) rfl
  | sendMail msg =>
    unfold respond at h
    dsimp only at h
    split at h <;> cases h <;> exact .still (Or.inl rfl) rfl
  | verifyOauth2Token idToken =>
    unfold respond at h
    dsimp only at h
    split at h <;> cases h <;> exact .still (Or.inl rfl) rfl

variable {ι : Type} [DecidableEq ι] {T₀ : Tables}

/-- The answers and passwords of `T₀` are there, and no session has a pending write that takes one back. -/
structure Holding (T₀ : Tables) (loc : ι → Session) (w : World) : Prop where
  still : StillHolds T₀ w.db
  careful : ∀ i, ∀ y ∈ (loc i).pending, y.Careful

/-- **Every step of a call keeps the answers and the passwords.** -/
theorem Holding.step {loc : ι → Session} {i : ι} {v : Bool} (h : Holding T₀ loc w)
    (hpre : Accounts.careful.pre o v) (hc : Unraced β o c (loc i) w)
    (hex : machine.exec o c (loc i) w = some (r, s', w')) :
    Holding T₀ (Function.update loc i s') w' := by
  have hmoves := moves_of_exec hc hex
  constructor
  · rcases hmoves.tables with hsame | ⟨hcurrent, happly⟩ | ⟨row, hrow⟩
    · rw [hsame]
      exact h.still
    · exact h.still.trans (stillHolds_applyAll (.refl _) (h.careful i) hcurrent happly)
    · rw [hrow]
      exact h.still.trans (.of_subset (fun _ hx => List.mem_append_left _ hx) fun _ hx => hx)
  · refine (Function.forall_update_iff loc fun _ s => ∀ y ∈ s.pending, y.Careful).mpr
      ⟨fun y hy => ?_, fun j _ => h.careful j⟩
    rcases hmoves.pending y hy with hy | hy
    · exact h.careful i y hy
    · cases o with
      | stage z =>
        cases hy
        exact hpre
      | _ => cases hy

end Steps

/-! ### Every interleaving -/

section Pools

variable {ι : Type} [DecidableEq ι]

/-- The calls, none of which has begun. -/
def started (calls : ι → Call) (w : World) : Pool Effect Exc Response Session World ι where
  prog i := handle pf (calls i)
  loc _ := {}
  shared := w

variable {pf}

theorem holding_of_reaches {T₀ : Tables} {P P' : Pool Effect Exc Response Session World ι}
    (h : Pool.Reaches machine (fun _ => Unraced) P P')
    (hP : Pool.Proved (fun _ => careful) Sees (fun _ _ _ => True) P) (hI : Holding T₀ P.loc P.shared) :
    Pool.Proved (fun _ => careful) Sees (fun _ _ _ => True) P' ∧ Holding T₀ P'.loc P'.shared :=
  Pool.sound_under (fun _ => faithful_careful)
    (fun _ _ _ _ _ _ _ _ _ _ hI _ hpre hc hex => hI.step hpre hc hex) h hP hI

/-- **First wins, without races.** In every interleaving of any calls whose steps are not raced: the
responses and the passwords that are committed at any time are there at any later time. -/
theorem first_wins {calls : ι → Call} {w₀ : World} {P P' : Pool Effect Exc Response Session World ι}
    (h : Pool.Reaches machine (fun _ => Unraced) (started pf calls w₀) P)
    (h' : Pool.Reaches machine (fun _ => Unraced) P P') : StillHolds P.shared.db P'.shared.db := by
  have hproved : Pool.Proved (fun _ => careful) Sees (fun _ _ _ => True) (started pf calls w₀) :=
    fun i => ⟨false, rfl, cares_handle pf (calls i) false⟩
  have hstart : Holding w₀.db (fun _ : ι => {}) w₀ :=
    ⟨.refl _, fun _ y hy => (List.not_mem_nil hy).elim⟩
  obtain ⟨hP, hI⟩ := holding_of_reaches h hproved hstart
  exact (holding_of_reaches h' hP ⟨.refl _, hI.careful⟩).2.still

end Pools

/-! ### Two answers to one invitation -/

instance (T : Tables) : DecidablePred (Write.Current T)
  | .updateInvitation _ _ => inferInstanceAs (Decidable (_ → ∀ x ∈ T.invitations, _ → _ → _))
  | .setPasswordHash _ _ _ => inferInstanceAs (Decidable (∀ user ∈ T.users, _ → _ → _))
  | .insertUser _ | .setArchivedAt _ _ | .insertInvitation _ | .setResponse _ _ _ | .insertAudit _ =>
    inferInstanceAs (Decidable True)

/-- The step is not raced. -/
def unraced {β : Type} (o : Effect β) (s : Session) (w : World) : Bool :=
  match o with
  | .invitationFor r u =>
    !s.retrying || (w.db.invitationFor r u).all fun row => !decide row.status.Terminal
  | .commit => s.pending.all fun y => decide (y.Current w.db)
  | _ => true

theorem unraced_of_check {β : Type} {o : Effect β} {c : Choice} {s : Session} {w : World}
    (h : unraced o s w) : Unraced β o c s w := by
  cases o with
  | invitationFor requestId userId =>
    intro hretrying row hrow
    unfold unraced at h
    dsimp only at h
    rw [hretrying, hrow] at h
    simpa using h
  | commit =>
    intro y hy
    exact of_decide_eq_true (List.all_eq_true.mp h y hy)
  | _ => trivial

/-- The world after the candidate was invited. -/
def invitedWorld : World where
  db := { sampleTables with
    invitations := [⟨7, 1, 2, .candidate, sampleSha256 sampleToken, .pending, true, 604800000000, some 5, 1,
      some .sent, none, none⟩] }

/-- The next steps of one call. -/
def turns {ι : Type} (i : ι) (n : ℕ) : List (ι × Choice) := List.replicate n (i, {})

/-- The candidate follows her link twice, and gives two answers. -/
def bothAnswers : Bool → Call
  | true => .respond sampleToken .accepted none
  | false => .respond sampleToken .declined none

/-- An answer, while invitations are issued again. -/
def answerAndIssue : Bool → Call
  | true => .respond sampleToken .accepted none
  | false => .issueForRequest admin 1

/-- A part of an interleaving, and another one from there. -/
theorem reaches_in_two (P₀ : Pool Effect Exc Response Session World Bool)
    (check : Bool → ∀ β : Type, Effect β → Choice → Session → World → Bool)
    (first second : List (Bool × Choice))
    {p : Pool Effect Exc Response Session World Bool → Pool Effect Exc Response Session World Bool → Bool}
    (h : (Pool.run machine check first P₀).any fun P => (Pool.run machine check second P).any (p P)) :
    ∃ P P', Pool.Reaches machine (fun i β o c s w => check i β o c s w) P₀ P ∧
      Pool.Reaches machine (fun i β o c s w => check i β o c s w) P P' ∧ p P P' := by
  obtain ⟨P, hrun, h⟩ := (Option.any_eq_true _ _).mp h
  obtain ⟨P', hrun', hp⟩ := (Option.any_eq_true _ _).mp h
  exact ⟨P, P', Pool.reaches_of_run hrun, Pool.reaches_of_run hrun', hp⟩

/-- **The later of two answers is kept.** Both calls find the invitation PENDING. -/
theorem second_answer_wins : ∃ P P' : Pool Effect Exc Response Session World Bool,
    Pool.Reaches machine (fun _ _ _ _ _ _ => True) (started samplePlatform bothAnswers invitedWorld) P ∧
      Pool.Reaches machine (fun _ _ _ _ _ _ => True) P P' ∧
      (∃ x ∈ P.shared.db.invitations, x.id = 7 ∧ x.status = .accepted) ∧
      ∀ x ∈ P'.shared.db.invitations, x.status = .declined := by
  obtain ⟨P, P', hP, hP', hp⟩ := reaches_in_two
    (started samplePlatform bothAnswers invitedWorld) (fun _ _ _ _ _ _ => true)
    (turns false 1 ++ turns true 9) (turns false 8)
    (p := fun P P' => decide (∃ x ∈ P.shared.db.invitations, x.id = 7 ∧ x.status = .accepted) &&
      decide (∀ x ∈ P'.shared.db.invitations, x.status = .declined)) (by decide +kernel)
  obtain ⟨h, h'⟩ := Bool.and_eq_true_iff.mp hp
  refine ⟨P, P', hP.mono fun _ _ _ _ _ _ _ => trivial, hP'.mono fun _ _ _ _ _ _ _ => trivial, ?_, ?_⟩
  · exact of_decide_eq_true h
  · exact of_decide_eq_true h'

/-- An issuance that has begun before the answer, and goes on after it, leaves it. -/
theorem first_wins_sample : ∃ P P' : Pool Effect Exc Response Session World Bool,
    (∃ x ∈ P.shared.db.invitations, x.id = 7 ∧ x.status = .accepted) ∧
      (∃ x, P'.prog false = .ret x) ∧ StillHolds P.shared.db P'.shared.db := by
  obtain ⟨P, P', hP, hP', hp⟩ := reaches_in_two
    (started samplePlatform answerAndIssue invitedWorld) (fun _ _ o _ s w => unraced o s w)
    (turns false 3 ++ turns true 9) (turns false 2)
    (p := fun P P' => decide (∃ x ∈ P.shared.db.invitations, x.id = 7 ∧ x.status = .accepted) &&
      match P'.prog false with
      | .ret _ => true
      | _ => false) (by decide +kernel)
  obtain ⟨h, h'⟩ := Bool.and_eq_true_iff.mp hp
  refine ⟨P, P', of_decide_eq_true h, ?_, ?_⟩
  · split at h'
    · next x hx => exact ⟨x, hx⟩
    · cases h'
  · exact first_wins (hP.mono fun _ _ _ _ _ _ hc => unraced_of_check hc)
      (hP'.mono fun _ _ _ _ _ _ hc => unraced_of_check hc)

end InterviewScheduler.Accounts
