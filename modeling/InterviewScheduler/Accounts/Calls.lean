import Mathlib.Logic.Equiv.Basic
import InterviewScheduler.Accounts.Issuance

/-! # Complete calls, one after the other

The calls that create, change and use users and invitations, each in a session of its own. Between them
the rest of the program may change the other tables: participants are replaced, users are provisioned,
requests are edited. The ledger records what the issuances have reported. -/

namespace InterviewScheduler.Accounts

open InterviewScheduler.Intervals InterviewScheduler.Engine InterviewScheduler.Effects
open InterviewScheduler.Core (Id)

inductive Call where
  | register (data : RegisterRequest)
  | login (data : LoginRequest)
  | googleLogin (idToken : String)
  | setArchived (actorId userId : Id) (archived : Bool)
  | issueForRequest (actor : User) (requestId : Id)
  | getByToken (rawToken : String)
  | respond (rawToken : String) (response : ResponseValue) (reason : Option String)
  | claimAccount (rawToken password : String)
  deriving DecidableEq, Repr

inductive Response where
  | user (user : User)
  | tokens (pair : TokenPair)
  | summaries (out : List InvitationSummary)
  | publicOut (out : InvitationPublicOut)
  deriving DecidableEq, Repr

def handle (pf : Platform) : Call → M Response
  | .register data => .user <$> register pf data
  | .login data => .tokens <$> login pf data
  | .googleLogin idToken => .tokens <$> googleLogin pf idToken
  | .setArchived actorId userId archived => .user <$> setArchived actorId userId archived
  | .issueForRequest actor requestId => .summaries <$> issueForRequest pf actor requestId
  | .getByToken rawToken => .publicOut <$> getByToken pf rawToken
  | .respond rawToken response reason => .publicOut <$> respondToInvitation pf rawToken response reason
  | .claimAccount rawToken password => .tokens <$> claimAccount pf rawToken password

/-! ### The keys of the users -/

namespace Tables

/-- The primary key and the unique e-mail address of `users`. -/
structure Registered (T : Tables) : Prop where
  ids : ∀ a ∈ T.users, ∀ b ∈ T.users, a.id = b.id → a = b
  emails : ∀ a ∈ T.users, ∀ b ∈ T.users, a.email = b.email → a = b

variable {T T' : Tables}

theorem Registered.congr (h : T.Registered) (heq : T'.users = T.users) : T'.Registered := by
  constructor
  · rw [heq]
    exact h.ids
  · rw [heq]
    exact h.emails

/-- An attribute of a user is set that is no key. -/
theorem Registered.map (h : T.Registered) {f : User → User} (hid : ∀ a, (f a).id = a.id)
    (hemail : ∀ a, (f a).email = a.email) (heq : T'.users = T.users.map f) : T'.Registered := by
  constructor
  · rw [heq]
    intro x hx y hy hxy
    obtain ⟨a, ha, rfl⟩ := List.mem_map.mp hx
    obtain ⟨b, hb, rfl⟩ := List.mem_map.mp hy
    rw [hid, hid] at hxy
    rw [h.ids a ha b hb hxy]
  · rw [heq]
    intro x hx y hy hxy
    obtain ⟨a, ha, rfl⟩ := List.mem_map.mp hx
    obtain ⟨b, hb, rfl⟩ := List.mem_map.mp hy
    rw [hemail, hemail] at hxy
    rw [h.emails a ha b hb hxy]

theorem Registered.user_eq (h : T.Registered) {user : User} (hmem : user ∈ T.users) :
    T.user user.id = some user := by
  cases hfound : T.user user.id with
  | none =>
    unfold Tables.user at hfound
    rw [List.find?_eq_none] at hfound
    simpa using hfound user hmem
  | some found =>
    rw [h.ids found (List.mem_of_find?_eq_some hfound) user hmem (id_of_user hfound)]

end Tables

theorem registered_insertUser {T : Tables} {user : User} (hT : T.Registered)
    (h : (Write.insertUser user).violates T = false) :
    ((Write.insertUser user).apply T).Registered := by
  have hfresh : ∀ a ∈ T.users, a.id ≠ user.id ∧ a.email ≠ user.email := by
    intro a ha
    unfold Write.violates at h
    rw [List.any_eq_false] at h
    simpa using h a ha
  have hmem : ∀ a, a ∈ ((Write.insertUser user).apply T).users ↔ a ∈ T.users ∨ a = user := by
    intro a
    simp [Write.apply]
  constructor
  · intro a ha b hb hab
    rcases (hmem a).mp ha with ha' | rfl <;> rcases (hmem b).mp hb with hb' | rfl
    · exact hT.ids a ha' b hb' hab
    · exact absurd hab (hfresh a ha').1
    · exact absurd hab.symm (hfresh b hb').1
    · rfl
  · intro a ha b hb hab
    rcases (hmem a).mp ha with ha' | rfl <;> rcases (hmem b).mp hb with hb' | rfl
    · exact hT.emails a ha' b hb' hab
    · exact absurd hab (hfresh a ha').2
    · exact absurd hab.symm (hfresh b hb').2
    · rfl

theorem registered_apply {T : Tables} {y : Write} (hT : T.Registered) (h : y.violates T = false) :
    (y.apply T).Registered := by
  cases y with
  | insertUser row => exact registered_insertUser hT h
  | setPasswordHash u loaded p =>
    refine hT.map (fun a => ?_) (fun a => ?_) rfl
    · by_cases ha : a.id = u <;> simp [ha]
    · by_cases ha : a.id = u <;> simp [ha]
  | setArchivedAt u t =>
    refine hT.map (fun a => ?_) (fun a => ?_) rfl
    · by_cases ha : a.id = u <;> simp [ha]
    · by_cases ha : a.id = u <;> simp [ha]
  | insertInvitation row => exact hT.congr rfl
  | updateInvitation loaded row => exact hT.congr rfl
  | setResponse r u st => exact hT.congr rfl
  | insertAudit row => exact hT.congr rfl

/-! ### What every step keeps -/

/-- What one write keeps that breaks no constraint is kept by all writes of a commit. -/
theorem applyAll_keeps {J : Tables → Prop}
    (hJ : ∀ {T : Tables} {y : Write}, J T → y.violates T = false → J (y.apply T)) :
    ∀ {ys : List Write} {T T' : Tables}, J T → Write.applyAll ys T = some T' → J T'
  | [], _, _, hT, h => by
    cases h
    exact hT
  | y :: ys, T, T', hT, h => by
    unfold Write.applyAll at h
    split_ifs at h with hy
    exact applyAll_keeps hJ (hJ hT (Bool.not_eq_true _ ▸ hy)) h

/-- What a database call answers has the tables of before, when what counts as an answer has. -/
theorem dbCall_db {β : Type} {a : Answer} {s s' : Session} {w w' : World} {r : Except Exc β}
    {answer : ℕ → Result β} {J : World → Prop} (hfail : J w)
    (hanswer : ∀ n, answer n = some (r, s', w') → J w') (h : dbCall a s w answer = some (r, s', w')) :
    J w' := by
  unfold dbCall at h
  split_ifs at h
  · cases h
    exact hfail
  · cases a with
    | ok => exact hanswer 0 h
    | pick n => exact hanswer n h
    | fail =>
      cases h
      exact hfail
    | text t => cases h
    | conflict row => cases h

/-- A step leaves the tables, or commits writes that break no constraint. -/
theorem exec_db {β : Type} {o : Effect β} {c : Choice} {s s' : Session} {w w' : World}
    {r : Except Exc β} (h : machine.exec o c s w = some (r, s', w')) :
    ∃ ys, Write.applyAll ys w.db = some w'.db := by
  have hkeep : ∃ ys, Write.applyAll ys w.db = some (w.elapse c).db := ⟨[], rfl⟩
  change respond o c.answer s (w.elapse c) = _ at h
  cases o with
  | select query =>
    unfold respond at h
    dsimp only at h
    refine dbCall_db (J := fun w' => ∃ ys, Write.applyAll ys w.db = some w'.db) hkeep (fun n h => ?_) h
    cases h
    exact hkeep
  | invitationFor requestId userId =>
    unfold respond at h
    dsimp only at h
    refine dbCall_db (J := fun w' => ∃ ys, Write.applyAll ys w.db = some w'.db) hkeep (fun n h => ?_) h
    cases h
    exact hkeep
  | commit =>
    unfold respond at h
    dsimp only at h
    refine dbCall_db (J := fun w' => ∃ ys, Write.applyAll ys w.db = some w'.db) hkeep (fun n h => ?_) h
    unfold commitPending at h
    split at h
    · next T hT =>
      cases h
      exact ⟨s.pending, hT⟩
    · cases h
      exact hkeep
  | flush =>
    unfold respond at h
    dsimp only at h
    split at h
    · next row _ =>
      unfold conflictingFlush at h
      dsimp only at h
      split_ifs at h with hconflict
      cases h
      refine ⟨[.insertInvitation row], ?_⟩
      have hviolates : (Write.insertInvitation row).violates w.db = false := hconflict.2.1
      unfold Write.applyAll
      rw [hviolates]
      rfl
    · refine dbCall_db (J := fun w' => ∃ ys, Write.applyAll ys w.db = some w'.db) hkeep
        (fun n h => ?_) h
      unfold flushPending at h
      split at h
      · cases h
        exact hkeep
      · cases h
        exact hkeep
  | newId =>
    unfold respond at h
    dsimp only at h
    split at h
    · split_ifs at h
      cases h
      exact hkeep
    · cases h
  | tokenUrlsafe =>
    unfold respond at h
    dsimp only at h
    split at h
    · split_ifs at h
      cases h
      exact hkeep
    · cases h
  | stage y =>
    cases h
    exact hkeep
  | rollback =>
    cases h
    exact hkeep
  | now =>
    cases h
    exact hkeep
  | loadExpired =>
    unfold respond at h
    dsimp only at h
    split at h <;> cases h <;> exact hkeep
  | gensalt =>
    unfold respond at h
    dsimp only at h
    split at h <;> cases h
    exact hkeep
  | sendMail msg =>
    unfold respond at h
    dsimp only at h
    split at h <;> cases h <;> exact hkeep
  | verifyOauth2Token idToken =>
    unfold respond at h
    dsimp only at h
    split at h <;> cases h <;> exact hkeep

/-- The constraints of the schema that the calls rely on. -/
structure Tables.Schema (T : Tables) : Prop where
  proper : T.Proper
  registered : T.Registered
  rostered : T.Rostered

theorem schema_apply {T : Tables} {y : Write} (hT : T.Schema) (h : y.violates T = false) :
    (y.apply T).Schema := by
  refine ⟨proper_apply hT.proper h, registered_apply hT.registered h, ?_⟩
  cases y <;> exact hT.rostered

/-- **The constraints hold throughout**, whatever the calls do. -/
theorem schema_exec {β : Type} {o : Effect β} {c : Choice} {s s' : Session} {w w' : World}
    {r : Except Exc β} (hT : w.db.Schema) (h : machine.exec o c s w = some (r, s', w')) :
    w'.db.Schema := by
  obtain ⟨ys, hys⟩ := exec_db h
  exact applyAll_keeps (fun hT hy => schema_apply hT hy) hT hys

/-- A run keeps the constraints. -/
theorem schema_runs {α : Type} {C : Condition Effect Choice Session World} {p : M α} {s s' : Session}
    {w w' : World} {r : Except Exc α} (h : Runs machine C p s w r s' w') (hT : w.db.Schema) :
    w'.db.Schema :=
  h.keeps (I := fun _ w => w.db.Schema) (fun _ _ _ _ _ _ _ hT hex => schema_exec hT hex) hT

/-! ### Sequences of calls -/

/-- A raw token that was handed out for a participant of a request. -/
structure Issue where
  requestId : Id
  userId : Id
  rawToken : String
  deriving DecidableEq, Repr

/-- What an issuance reports. -/
def issuesOf (requestId : Id) (out : List InvitationSummary) : List Issue :=
  out.map fun summary =>
    { requestId, userId := summary.userId, rawToken := summary.inviteUrl.rawToken }

def issuedBy : Call → Except Exc Response → List Issue
  | .issueForRequest _ requestId, .ok (.summaries out) => issuesOf requestId out
  | _, _ => []

/-- The world, with the issuances reported so far. -/
structure Ledger where
  world : World
  issued : List Issue := []

/-- Before the first issuance. -/
structure Ledger.Initial (L : Ledger) : Prop where
  invitations : L.world.db.invitations = []
  issued : L.issued = []
  schema : L.world.db.Schema

/-- The ledgers that complete calls lead to. -/
inductive Reaches (pf : Platform) (L₀ : Ledger) : Ledger → Prop
  | init : Reaches pf L₀ L₀
  | call {L call r s w} (h : Reaches pf L₀ L)
      (hrun : Runs machine Alone (handle pf call) {} L.world r s w) :
      Reaches pf L₀ ⟨w, L.issued ++ issuedBy call r⟩
  /-- Time passes, and other tables change. -/
  | elsewhere {L t T} (h : Reaches pf L₀ L) (ht : L.world.now ≤ t)
      (hinvitations : T.invitations = L.world.db.invitations) (hschema : T.Schema) :
      Reaches pf L₀ ⟨{ L.world with db := T, now := t }, L.issued⟩

theorem Reaches.trans {pf : Platform} {L₀ L₁ L₂ : Ledger} (h : Reaches pf L₀ L₁)
    (h' : Reaches pf L₁ L₂) : Reaches pf L₀ L₂ := by
  induction h' with
  | init => exact h
  | call _ hrun ih => exact .call ih hrun
  | elsewhere _ ht hinvitations hschema ih => exact .elsewhere ih ht hinvitations hschema

theorem Reaches.schema {pf : Platform} {L₀ L : Ledger} (h : Reaches pf L₀ L)
    (h₀ : L₀.world.db.Schema) : L.world.db.Schema := by
  induction h with
  | init => exact h₀
  | call _ hrun ih => exact schema_runs hrun ih
  | elsewhere _ _ _ hschema => exact hschema

/-! ### Samples -/

def sampleToken : String := "Zt3yqkWm0s8cV1hN5bRj7LxPd2uFgAe9TiOoKwQzYnE"

def otherToken : String := "u8Hq2ZxWm4Rk0YbNc7LtVfJd1GsPaEi6TnOoKwQyXzM"

/-- SHA-256 at the sample tokens, and some injective function elsewhere. -/
def sampleSha256 : String → String :=
  (Equiv.swap sampleToken "0ec79836ff5cd2ff7c332ebedc860f3361105ae6e7e3e335f1c87ba1e06ee18b").trans
    (Equiv.swap otherToken "881668422ac7d74892beb9763041b22afee28d3e185096d98b77347fa643af39")

theorem sampleSha256_injective : Function.Injective sampleSha256 := Equiv.injective _

def samplePassword : String := "Kk4DQuMMfZL9o"

def sampleSalt : String := "$2b$04$cVWp4XaNU8a4v1uMRum2SO"

def samplePasswordHash : String := "$2b$04$cVWp4XaNU8a4v1uMRum2SO026BWLIoQMD/TXg5uZV.0P.uO8m3YEm"

/-- With bcrypt at the sample password. -/
def samplePlatform : Platform where
  sha256Hex := sampleSha256
  googleIdentity _ := { email := "ada@example.com", name := "Ada" }
  hashpw password salt :=
    if password = samplePassword ∧ salt = sampleSalt then some samplePasswordHash
    else some (salt ++ password)
  checkpw password passwordHash :=
    some (passwordHash = samplePasswordHash ∧ password = samplePassword)
  sendGridConfigured := true

/-- A candidate who has not claimed her account. -/
def ada : User :=
  { id := 2, email := "ada@example.com", name := "Ada", role := .candidate, authProvider := .password }

def admin : User :=
  { id := 9, email := "root@example.com", name := "Root", role := .admin, authProvider := .password,
    passwordHash := some samplePasswordHash }

/-- One request, with the candidate as its only participant. -/
def sampleTables : Tables where
  users := [admin, ada]
  requests r := if r = 1 then some
    { id := 1, candidateId := 2, createdBy := 9, roundType := .technical, durationMinutes := 60,
      bufferMinutes := 15, status := .draft } else none
  participants r := if r = 1 then [{ userId := 2, roleInInterview := .candidate }] else []

def sampleLedger : Ledger := { world := { db := sampleTables } }

theorem initial_sampleLedger : sampleLedger.Initial where
  invitations := rfl
  issued := rfl
  schema := by
    refine ⟨⟨?_, ?_, ?_⟩, ⟨?_, ?_⟩, fun r => ?_⟩
    · exact fun x hx => absurd hx List.not_mem_nil
    · exact fun x hx => absurd hx List.not_mem_nil
    · exact fun x hx => absurd hx List.not_mem_nil
    · decide
    · decide
    · change ((if r = 1 then _ else _ : List _).map _).Nodup
      split_ifs
      · exact List.nodup_singleton _
      · exact List.nodup_nil

/-- No conflict is answered. -/
def alone (β : Type) (_ : Effect β) (c : Choice) (_ : Session) (_ : World) : Bool :=
  match c.answer with
  | .conflict _ => false
  | _ => true

theorem alone_of_check {β : Type} (o : Effect β) (c : Choice) (s : Session) (w : World)
    (h : alone β o c s w) : Alone β o c s w := by
  intro row hrow
  unfold alone at h
  rw [hrow] at h
  cases h

/-- The sequence along lists of choices. -/
def runCalls (pf : Platform) : List (Call × List Choice) → Ledger → Option Ledger
  | [], L => some L
  | (call, cs) :: rest, L =>
    match machine.run alone (handle pf call) cs {} L.world with
    | some (r, _, w) => runCalls pf rest ⟨w, L.issued ++ issuedBy call r⟩
    | none => none

/-- A sequence that can be computed, with what can be decided of its end. -/
theorem reaches_of_runCalls {pf : Platform} {L₀ : Ledger} {calls : List (Call × List Choice)}
    {p : Ledger → Bool} (h : (runCalls pf calls L₀).any p) : ∃ L, Reaches pf L₀ L ∧ p L := by
  induction calls generalizing L₀ with
  | nil => exact ⟨L₀, .init, by simpa [runCalls] using h⟩
  | cons call rest ih =>
    simp only [runCalls] at h
    split at h
    · next r s w hrun =>
      obtain ⟨L, hL, hp⟩ := ih h
      exact ⟨L, (Reaches.call .init ((runs_of_run hrun).mono alone_of_check)).trans hL, hp⟩
    · simp at h

/-- The call returns `x` along the choices, in a world that passes the test. -/
def returns (pf : Platform) (call : Call) (cs : List Choice) (w : World) (x : Response)
    (p : World → Bool) : Bool :=
  (machine.run alone (handle pf call) cs {} w).any fun y => y.1.toOption = some x && p y.2.2

theorem runs_of_returns {pf : Platform} {call : Call} {cs : List Choice} {w : World} {x : Response}
    {p : World → Bool} (h : returns pf call cs w x p) :
    ∃ s w', Runs machine Alone (handle pf call) {} w (.ok x) s w' ∧ p w' := by
  obtain ⟨⟨r, s, w'⟩, hrun, hx⟩ := (Option.any_eq_true _ _).mp h
  obtain ⟨hr, hp⟩ := (Bool.and_eq_true _ _).mp hx
  have hr : r.toOption = some x := of_decide_eq_true hr
  cases r with
  | error e => cases hr
  | ok a =>
    rw [← Option.some.inj hr]
    exact ⟨s, w', (runs_of_run hrun).mono alone_of_check, hp⟩

/-- What answers the issuance to the candidate. -/
def issuingChoices : List Choice :=
  [{}, {}, {}, {}, { answer := .text sampleToken }, { answer := .pick 7 }, {}, {}, {}, {}, {}, {}, {}, {}]

end InterviewScheduler.Accounts
