import InterviewScheduler.Core.Move
import InterviewScheduler.Calendar.Connections
import InterviewScheduler.Effects.Amid

/-! # Rejected grants

What the calendar service does when Google rejects a grant, while other calls are at work. The record of a
call says which connections it knows, as it has read and changed them, and whether it has been rejected
without having stored that yet. When the only calls that are rejected are refreshes, and the status that
follows is stored, a call stores REVOKED before it asks Google again, and it asks with the token of a
connection that it does not know to be REVOKED. -/

namespace InterviewScheduler.Calendar

open InterviewScheduler.Engine InterviewScheduler.Core InterviewScheduler.Effects

/-! ### The record -/

/-- The stored connections, by user. -/
abbrev Connections := Id → Option CalendarConnection

/-- Of a call of Google that was rejected, the users whose connections it was made with. -/
abbrev Holder := Id → Bool

/-- What a call has to do with connections. -/
structure Dealings where
  /-- the users whose connections it has read -/
  read : List Id := []
  /-- the connections as it has read them, with the changes that it has committed since -/
  known : Connections := fun _ => none
  /-- its last call of Google, if that was rejected and nothing was committed since -/
  waiting : Option Holder := none

/-- A call of the Google client. -/
def isGoogle {β : Type} : Effect β → Bool
  | .createEvent _ _ => true
  | .deleteEvent _ _ => true
  | .freeBusy _ _ _ => true
  | .refreshToken _ => true
  | _ => false

variable (pf : Platform)

/-- The access token is the one of the user's connection. -/
def hasToken (K : Connections) (token : String) (u : Id) : Bool :=
  (K u).any fun conn => pf.decrypt (conn.accessTokenEncrypted.getD "") = some token

/-- The call of Google carries a token of the user's connection. -/
def carries {β : Type} (o : Effect β) (K : Connections) (u : Id) : Bool :=
  match o with
  | .createEvent token _ => hasToken pf K token u
  | .deleteEvent token _ => hasToken pf K token u
  | .freeBusy token _ _ => hasToken pf K token u
  | .refreshToken token =>
    (K u).any fun conn => conn.refreshTokenEncrypted.bind pf.decrypt = some token
  | _ => false

/-- What a write makes of the connections. -/
def renew (K : Connections) : SideWrite → Connections
  | .setConnectionStatus u st =>
    Function.update K u ((K u).map fun c => { c with status := st })
  | .setAccessToken u tok exp =>
    Function.update K u ((K u).map fun c =>
      { c with accessTokenEncrypted := some tok, tokenExpiresAt := some exp, status := .connected })
  | _ => K

/-- The call of Google was answered by an authorisation error. -/
def rejected {β : Type} (o : Effect β) (x : Except Exc β) : Bool :=
  match x with
  | .error .calendarAuthError => isGoogle o
  | _ => false

/-- A connection that is read, a commit, and a call that Google rejects are recorded. -/
def note {β : Type} (o : Effect β) (s : Session) (_ : World) (x : Except Exc β) (d : Dealings) :
    Dealings :=
  match o, x with
  | .connectionOf u, .ok row => { d with read := u :: d.read, known := Function.update d.known u row }
  | .commit, .ok _ => { d with known := s.side.foldl renew d.known, waiting := none }
  | o, x => if rejected o x then { d with waiting := some (carries pf o d.known) } else d

/-- The machine, with the record of each call. -/
def rejecting : Machine Effect Exc Choice (Session × Dealings) World := machine.recording (note pf)

/-- The user's connection is REVOKED. -/
def Revoked (u : Id) (K : Connections) : Prop := ∃ conn, K u = some conn ∧ conn.status = .revoked

/-- The user's connection is there, and not REVOKED. -/
def Unrevoked (u : Id) (K : Connections) : Prop := ∃ conn, K u = some conn ∧ conn.status ≠ .revoked

/-- A rejected grant is about to be stored as REVOKED. -/
def Revokes (s : Session) : Prop := ∃ u, .setConnectionStatus u .revoked ∈ s.side

/-- Google rejects refreshes only, and the database takes the status that follows. -/
def RejectsRefreshes : Condition Effect Choice (Session × Dealings) World := fun _ o c s _ =>
  match o with
  | .createEvent _ _ => c.answer ≠ .auth
  | .deleteEvent _ _ => c.answer ≠ .auth
  | .freeBusy _ _ _ => c.answer ≠ .auth
  | .flush => Revokes s.1 → c.answer ≠ .fail
  | .commit => Revokes s.1 → c.answer ≠ .fail
  | _ => True

/-! ### What is demanded of a call -/

/-- The user whose connection a write changes. -/
def renewed : SideWrite → Option Id
  | .setConnectionStatus u _ => some u
  | .setAccessToken u _ _ => some u
  | _ => none

/-- What a transaction does to connections: it changes such that the call does not know to be REVOKED, and
makes one REVOKED if and only if the call was rejected with it. -/
structure Covered (v : Session × Dealings) : Prop where
  usable : ∀ x ∈ v.1.side, ∀ u, renewed x = some u → Unrevoked u v.2.known
  rejected : ∀ u, .setConnectionStatus u .revoked ∈ v.1.side → ∃ holder ∈ v.2.waiting, holder u = true
  stored : ∀ holder ∈ v.2.waiting, ∃ u side, holder u = true ∧
    v.1.side = side ++ [.setConnectionStatus u .revoked]

/-- A call of Google carries the token of a connection that the caller does not know to be REVOKED, and no
rejection waits to be stored. -/
structure Granted {β : Type} (o : Effect β) (d : Dealings) : Prop where
  stored : d.waiting = none
  token : ∃ u, carries pf o d.known u = true ∧ Unrevoked u d.known

/-- The demands on the effects of a call. -/
def Heeds : ∀ β : Type, Effect β → Session × Dealings → Prop := fun _ o v =>
  (isGoogle o = true → Granted pf o v.2) ∧ (o.IsCommit → Covered v)

/-! ### What a call relies on -/

/-- Nobody takes part in a request twice. -/
structure Seated (T : Interviews) : Prop where
  user_id : ∀ u user, T.users u = some user → user.id = u
  nodup : ∀ r, ((T.participants r).map (·.userId)).Nodup

/-- What a call can rely on, whatever the others do. -/
structure Knows (v : Session × Dealings) (w : World) : Prop where
  keyed : Keyed w
  seated : Seated w.db.toInterviews

/-- The handlers among others, on the machine with the record. -/
abbrev granting : Logic Effect Exc (Session × Dealings) :=
  .amid (rejecting pf) RejectsRefreshes Knows (Heeds pf)

variable {pf} {α β γ : Type} {K K' X : Connections} {v v' z : Session × Dealings} {s s' : Session}
  {w w' : World} {u : Id} {conn : CalendarConnection} {token : String}

/-! ### Between two calls of Google -/

/-- No connection is about to change, and no rejection waits to be stored. -/
structure Stable (K : Connections) (v : Session × Dealings) : Prop where
  known : v.2.known = K
  waiting : v.2.waiting = none
  side : ∀ x ∈ v.1.side, x.isRenewal = false
  keyed : ∀ u conn, K u = some conn → conn.userId = u

/-- Nothing is pending, moreover. -/
structure Clean (K : Connections) (v : Session × Dealings) : Prop extends Stable K v where
  pending : v.1.pending = []

/-- The effects that concern no connection. -/
def tame {β : Type} : Effect β → Bool
  | .stageSide x => !x.isRenewal
  | .connectionOf _ => false
  | o => !isGoogle o

/-- The tame effects that write nothing to the interviews. -/
def calm {β : Type} (o : Effect β) : Bool := tame o && o.staged.isNone

theorem tame_of_calm {o : Effect β} (ho : calm o = true) : tame o = true :=
  ((Bool.and_eq_true _ _).mp ho).1

theorem staged_of_calm {o : Effect β} (ho : calm o = true) : o.staged = none :=
  Option.isNone_iff_eq_none.mp ((Bool.and_eq_true _ _).mp ho).2

theorem not_isGoogle_of_tame {o : Effect β} (ho : tame o = true) : isGoogle o = false := by
  cases o <;> simp_all [tame, isGoogle]

theorem renewed_of_not {x : SideWrite} (h : x.isRenewal = false) : renewed x = none := by
  cases x <;> first | rfl | simp [SideWrite.isRenewal] at h

theorem renew_of_not {x : SideWrite} (h : x.isRenewal = false) : renew K x = K := by
  cases x <;> first | rfl | simp [SideWrite.isRenewal] at h

/-- Writes none of which is about a connection. -/
theorem foldl_renew_of_not {side : List SideWrite} (h : ∀ x ∈ side, x.isRenewal = false) :
    side.foldl renew K = K := by
  induction side with
  | nil => rfl
  | cons x side ih =>
    rw [List.foldl_cons, renew_of_not (h x List.mem_cons_self)]
    exact ih fun y hy => h y (List.mem_cons_of_mem _ hy)

theorem rejected_of_not {o : Effect β} (ho : isGoogle o = false) {x : Except Exc β} :
    rejected o x = false := by
  unfold rejected
  split
  · exact ho
  · rfl

/-- Nothing is recorded of an effect that fails and is no call of Google. -/
theorem note_error {o : Effect β} (ho : isGoogle o = false) (e : Exc) {d : Dealings} :
    note pf o s w (.error e) d = d := by
  have hrejected : rejected o (.error e) = false := rejected_of_not ho
  cases o <;> simp [note, hrejected]

theorem note_flush {x : Except Exc Unit} {d : Dealings} : note pf .flush s w x d = d := by
  simp [note, rejected_of_not (o := Effect.flush) rfl]

theorem note_now {x : Except Exc Instant} {d : Dealings} : note pf .now s w x d = d := by
  simp [note, rejected_of_not (o := Effect.now) rfl]

/-- What a tame effect records. -/
theorem note_of_tame {o : Effect β} (ho : tame o = true) (hs : Stable K v) {x : Except Exc β} :
    note pf o v.1 w x v.2 = v.2 := by
  have hrejected : rejected o x = false := rejected_of_not (not_isGoogle_of_tame ho)
  cases o with
  | connectionOf u => simp [tame] at ho
  | commit =>
    cases x with
    | ok a => simp [note, foldl_renew_of_not hs.side, ← hs.waiting]
    | error e => simp [note, hrejected]
  | _ => simp [note, hrejected]

/-- What the writes of a session are about after a step that stages none about a connection. -/
theorem side_of_tame {o : Effect β} {a : Answer} {x : Except Exc β} (ho : tame o = true)
    (hex : respond o a s w = some (x, s', w')) (hside : ∀ x ∈ s.side, x.isRenewal = false) :
    ∀ x ∈ s'.side, x.isRenewal = false := by
  rcases respond_cases hex with ⟨-, -, T, -, rfl, -⟩ | ⟨hn, -, -⟩
  · simp [Session.committed]
  obtain ⟨-, hs' | hs' | ⟨y, hy, hs'⟩⟩ := respond_idle hex hn
  · rwa [hs']
  · simp [hs']
  · intro z hz
    rw [hs'] at hz
    rcases List.mem_append.mp hz with hz | hz
    · exact hside z hz
    · obtain rfl := List.mem_singleton.mp hz
      cases o with
      | stageSide x' =>
        obtain rfl : x' = z := Option.some.inj hy
        simpa [tame] using ho
      | _ => simp [Effect.sideWrite] at hy

/-- **A tame effect keeps what is known.** -/
theorem Stable.step {o : Effect β} {c : Choice} {x : Except Exc β} (hs : Stable K v)
    (ho : tame o = true) (hex : (rejecting pf).exec o c v w = some (x, z, w')) : Stable K z := by
  obtain ⟨s', d'⟩ := z
  obtain ⟨hex', hd⟩ := of_exec_recording (s := v.1) (h := v.2) hex
  rw [note_of_tame ho hs] at hd
  subst hd
  exact ⟨hs.known, hs.waiting, side_of_tame ho hex' hs.side, hs.keyed⟩

theorem Clean.step {o : Effect β} {c : Choice} {x : Except Exc β} (hs : Clean K v)
    (ho : calm o = true) (hex : (rejecting pf).exec o c v w = some (x, z, w')) : Clean K z := by
  refine ⟨hs.toStable.step (tame_of_calm ho) hex, ?_⟩
  obtain ⟨s', d'⟩ := z
  obtain ⟨hex, -⟩ := of_exec_recording (s := v.1) (h := v.2) hex
  exact (pending_of_respond (staged_of_calm ho) hex).elim (·.trans hs.pending) id

/-- A call of Google that is not rejected. -/
theorem Stable.called {o : Effect β} {c : Choice} {x : Except Exc β} (hs : Stable K v)
    (ho : isGoogle o = true) (hc : c.answer ≠ .auth)
    (hex : (rejecting pf).exec o c v w = some (x, z, w')) :
    Stable K z ∧ z.1.pending = v.1.pending := by
  obtain ⟨s', d'⟩ := z
  obtain ⟨hex, hd⟩ := of_exec_recording (s := v.1) (h := v.2) hex
  have hall : x ≠ .error .calendarAuthError ∧ s'.side = v.1.side ∧ s'.pending = v.1.pending := by
    change respond o c.answer v.1 (w.elapse c) = _ at hex
    cases o with
    | createEvent | deleteEvent | freeBusy | refreshToken =>
      simp only [respond, googleCall] at hex
      repeat' split at hex
      all_goals simp only [Option.some.injEq, Prod.mk.injEq, reduceCtorEq] at hex
      all_goals obtain ⟨rfl, rfl, rfl⟩ := hex
      all_goals first
        | exact absurd ‹_› hc
        | exact ⟨by simp, rfl, rfl⟩
    | _ => simp [isGoogle] at ho
  obtain ⟨hx, hside, hpending⟩ := hall
  have hrejected : rejected o x = false := by
    unfold rejected
    split
    · exact absurd rfl hx
    · rfl
  have hd' : d' = v.2 := by
    rw [hd]
    cases o with
    | createEvent | deleteEvent | freeBusy | refreshToken => simp [note, hrejected]
    | _ => simp [isGoogle] at ho
  subst hd'
  refine ⟨⟨hs.known, hs.waiting, ?_, hs.keyed⟩, hpending⟩
  dsimp only
  rw [hside]
  exact hs.side

/-! ### Rules -/

theorem covered_of_stable (hs : Stable K v) : Covered v where
  usable x hx u hu := by simp [renewed_of_not (hs.side x hx)] at hu
  rejected u hu := absurd (hs.side _ hu) (by simp [SideWrite.isRenewal])
  stored holder hmem := by simp [hs.waiting] at hmem

/-- Nothing is demanded of a tame effect. -/
theorem heeds_tame {o : Effect β} (ho : tame o = true) (hs : Stable K v) : Heeds pf β o v :=
  ⟨fun hg => by simp [not_isGoogle_of_tame ho] at hg, fun _ => covered_of_stable hs⟩

/-- A part without calls of Google. -/
theorem wp_tame {p : M α} (hp : p.Uses fun _ o => tame o = true) (hs : Stable K v) :
    wp (granting pf) p (fun _ v' => Stable K v') v :=
  wp_amid_uses hp (fun _ _ ho hs => heeds_tame ho hs) (fun _ _ _ _ _ _ _ ho hs _ hex => hs.step ho hex) hs

/-- A part without calls of Google that writes nothing to the interviews. -/
theorem wp_calm {p : M α} (hp : p.Uses fun _ o => calm o = true) (hs : Clean K v) :
    wp (granting pf) p (fun _ v' => Clean K v') v :=
  wp_amid_uses hp (fun _ _ ho hs => heeds_tame (tame_of_calm ho) hs.toStable)
    (fun _ _ _ _ _ _ _ ho hs _ hex => hs.step ho hex) hs

theorem wp_bind_calm {p : M α} {f : α → M β} {Q : Except Exc β → Session × Dealings → Prop}
    (hp : p.Uses fun _ o => calm o = true) (hs : Clean K v)
    (herr : ∀ e v', Clean K v' → Q (.error e) v')
    (hf : ∀ a v', Clean K v' → wp (granting pf) (f a) Q v') : wp (granting pf) (p >>= f) Q v := by
  refine wp_bind (wp_mono (wp_calm hp hs) ?_)
  rintro (e | a) v' hv'
  · exact herr e v' hv'
  · exact hf a v' hv'

theorem wp_bind_tame {p : M α} {f : α → M β} {Q : Except Exc β → Session × Dealings → Prop}
    (hp : p.Uses fun _ o => tame o = true) (hs : Stable K v)
    (herr : ∀ e v', Stable K v' → Q (.error e) v')
    (hf : ∀ a v', Stable K v' → wp (granting pf) (f a) Q v') : wp (granting pf) (p >>= f) Q v := by
  refine wp_bind (wp_mono (wp_tame hp hs) ?_)
  rintro (e | a) v' hv'
  · exact herr e v' hv'
  · exact hf a v' hv'

/-- A call of Google with a token that is not rejected. -/
theorem wp_called {o : Effect α} (ho : isGoogle o = true)
    (hC : ∀ c s w, RejectsRefreshes α o c s w → c.answer ≠ .auth) (hs : Stable K v)
    (hu : carries pf o K u = true) (hst : Unrevoked u K) :
    wp (granting pf) (.perform o) (fun _ v' => Stable K v' ∧ v'.1.pending = v.1.pending) v := by
  refine wp_amid ⟨fun _ => ⟨hs.waiting, u, ?_⟩, fun hcommit => ?_⟩ fun c r s' w w' _ hc hex =>
    hs.called ho (hC c _ _ hc) hex
  · rw [hs.known]
    exact ⟨hu, hst⟩
  · cases o <;> simp_all [isGoogle, Effect.IsCommit]

/-- Nothing is staged after what is left of a transaction. -/
structure Emptied (d : Dealings) (v : Session × Dealings) : Prop where
  record : v.2 = d
  side : v.1.side = []
  pending : v.1.pending = []

theorem Emptied.clean {d : Dealings} (hv : Emptied d v) (hd : d.waiting = none)
    (hk : ∀ u conn, d.known u = some conn → conn.userId = u) : Clean d.known v where
  known := by rw [hv.record]
  waiting := by rw [hv.record]; exact hd
  side := by simp [hv.side]
  keyed := hk
  pending := hv.pending

/-- The session can take a change of a connection. -/
structure Primed (s : Session) : Prop where
  side : ∀ x ∈ s.side, x.isRenewal = false
  pending : s.pending = []
  valid : s.invalid = false

theorem Clean.primed (hs : Clean K v) (hv : v.1.invalid = false) : Primed v.1 :=
  ⟨hs.side, hs.pending, hv⟩

/-- **A change of a connection is stored**, and what was staged before it; or nothing is, which the
condition rules out when a grant was rejected. -/
theorem wp_renewal {d : Dealings} {x : SideWrite} {a : γ} {f : γ → M α}
    {Q : Except Exc α → Session × Dealings → Prop} (hs : Primed s)
    (hcovered : ∀ s' : Session, s'.side = s.side ++ [x] → Covered (s', d))
    (herr : ∀ e v', Emptied d v' → (∀ u, x ≠ .setConnectionStatus u .revoked) → Q (.error e) v')
    (hok : ∀ v', Emptied { d with known := renew d.known x, waiting := none } v' →
      wp (granting pf) (f a) Q v') :
    wp (granting pf) ((do dbAddSide x; dbFlush; pure a : M γ) >>= fun b => dbCommit >>= fun _ => f b) Q
      (s, d) := by
  have hrevokes : ∀ {s' : Session}, s'.side = s.side ++ [x] → ∀ u, x = .setConnectionStatus u .revoked →
      Revokes s' := fun hside u hx => ⟨u, by simp [hside, hx]⟩
  have hdemand : ∀ {β : Type} {o : Effect β} {v : Session × Dealings}, isGoogle o = false → ¬ o.IsCommit →
      Heeds pf β o v := fun hg hc => ⟨fun h => by simp [hg] at h, fun h => absurd h hc⟩
  refine wp_bind (wp_bind (wp_amid (hdemand rfl id) fun c₁ r₁ s₁ w₁ w₁' _ _ hrun₁ => ?_))
  obtain ⟨s₁, d₁⟩ := s₁
  obtain ⟨hex₁, hd₁⟩ := of_exec_recording hrun₁
  change respond (.stageSide x) c₁.answer s (w₁.elapse c₁) = _ at hex₁
  simp only [respond, Option.some.injEq, Prod.mk.injEq] at hex₁
  obtain ⟨rfl, rfl, rfl⟩ := hex₁
  obtain rfl : d₁ = d := hd₁
  refine wp_bind (wp_amid (hdemand rfl id) fun c₂ r₂ s₂ w₂ w₂' _ hc₂ hrun₂ => ?_)
  obtain ⟨s₂, d₂⟩ := s₂
  obtain ⟨hex₂, hd₂⟩ := of_exec_recording hrun₂
  obtain rfl : d₂ = d₁ := hd₂.trans note_flush
  rcases flush_cases (s := { s with side := s.side ++ [x] }) hs.pending hs.valid hex₂ with
    ⟨hfail, ⟨e, rfl⟩, rfl, rfl⟩ | ⟨rfl, rfl, rfl⟩
  · exact herr e _ ⟨rfl, rfl, rfl⟩ fun u hx => hc₂ (hrevokes rfl u hx) hfail
  change wp (granting pf) (dbCommit >>= fun _ => f a) Q _
  refine wp_bind (wp_amid ⟨(absurd · Bool.false_ne_true), fun _ => hcovered _ rfl⟩
    fun c₃ r₃ s₃ w₃ w₃' _ hc₃ hrun₃ => ?_)
  obtain ⟨s₃, d₃⟩ := s₃
  obtain ⟨hex₃, hd₃⟩ := of_exec_recording hrun₃
  rcases commit_cases (s := Session.touch { s with side := s.side ++ [x] } _) hs.pending hs.valid hex₃ with
    ⟨hfail, ⟨e, rfl⟩, rfl, rfl⟩ | ⟨rfl, rfl, rfl⟩
  · obtain rfl : d₃ = d₂ := hd₃.trans (note_error rfl e)
    exact herr e _ ⟨rfl, rfl, rfl⟩ fun u hx => hc₃ (hrevokes rfl u hx) hfail
  · refine hok _ ⟨?_, rfl, rfl⟩
    rw [hd₃]
    change { d₂ with known := (s.side ++ [x]).foldl renew d₂.known, waiting := none } = _
    rw [List.foldl_append, foldl_renew_of_not hs.side]
    rfl

/-- The exchange of a refresh token, which may be rejected. -/
theorem wp_exchange {d : Dealings} {Q : Except Exc TokenBundle → Session × Dealings → Prop}
    (hgranted : Granted pf (.refreshToken token) d) (hok : ∀ bundle, Q (.ok bundle) (s, d))
    (hfail : Q (.error .calendarTransportError) (s, d))
    (hauth : Q (.error .calendarAuthError)
      (s, { d with waiting := some (carries pf (.refreshToken token) d.known) })) :
    wp (granting pf) (.perform (.refreshToken token)) Q (s, d) := by
  refine wp_amid ⟨fun _ => hgranted, False.elim⟩ fun c x s₁ w w' _ _ hrun => ?_
  obtain ⟨s₁, d₁⟩ := s₁
  obtain ⟨hex, rfl⟩ := of_exec_recording hrun
  change respond (.refreshToken token) c.answer s (w.elapse c) = _ at hex
  simp only [respond, googleCall] at hex
  repeat' split at hex
  all_goals simp only [Option.some.injEq, Prod.mk.injEq, reduceCtorEq] at hex
  all_goals obtain ⟨rfl, rfl, rfl⟩ := hex
  · exact hfail
  · exact hauth
  · exact hok _

/-! ### The service -/

/-- Nothing is pending, and no rejection waits to be stored, whatever is known. -/
def AtRest (v : Session × Dealings) : Prop := ∃ K, Clean K v

/-- The user's connection is CONNECTED, and its access token is the given one. -/
def Connected (K : Connections) (u : Id) (accessTokenEncrypted : Option String) : Prop :=
  ∃ row, K u = some row ∧ row.status = .connected ∧ row.accessTokenEncrypted = accessTokenEncrypted

theorem Connected.unrevoked {enc : Option String} (h : Connected K u enc) : Unrevoked u K := by
  obtain ⟨row, hrow, hst, -⟩ := h
  exact ⟨row, hrow, by simp [hst]⟩

theorem Connected.hasToken {enc : Option String} (h : Connected K u enc)
    (htoken : pf.decrypt (enc.getD "") = some token) : hasToken pf K token u = true := by
  obtain ⟨row, hrow, -, rfl⟩ := h
  simp [Calendar.hasToken, hrow, htoken]

/-- The connection can be used, and nothing else is known of the other users' connections. -/
def Renewed (K : Connections) (u : Id) : Except Exc CalendarConnection → Session × Dealings → Prop
  | .ok conn, v => ∃ K', Clean K' v ∧ (∀ u', u' ≠ u → K' u' = K u') ∧
      Connected K' u conn.accessTokenEncrypted
  | .error _, v => AtRest v

/-- The connections stay their users'. -/
theorem keyed_renew (hk : ∀ u conn, K u = some conn → conn.userId = u) (x : SideWrite) :
    ∀ u conn, renew K x u = some conn → conn.userId = u := by
  intro u conn hconn
  cases x with
  | setConnectionStatus u' st =>
    simp only [renew, Function.update_apply] at hconn
    split at hconn
    · next hu =>
      obtain ⟨row, hrow, rfl⟩ := Option.map_eq_some_iff.mp hconn
      exact hu ▸ hk u' row hrow
    · exact hk u conn hconn
  | setAccessToken u' tok exp =>
    simp only [renew, Function.update_apply] at hconn
    split at hconn
    · next hu =>
      obtain ⟨row, hrow, rfl⟩ := Option.map_eq_some_iff.mp hconn
      exact hu ▸ hk u' row hrow
    · exact hk u conn hconn
  | _ => exact hk u conn hconn

theorem Emptied.renewed {l : List Id} {x : SideWrite} (hv : Emptied ⟨l, renew K x, none⟩ v)
    (hk : ∀ u conn, K u = some conn → conn.userId = u) : Clean (renew K x) v :=
  hv.clean rfl (keyed_renew hk x)

/-- **A rejected refresh leaves the connection REVOKED**, and an accepted one leaves it CONNECTED. -/
theorem renewed_refresh (hs : Clean K v) (hv : v.1.invalid = false)
    (hconn : K conn.userId = some conn) (hst : conn.status ≠ .revoked) {email : String} :
    wp (granting pf) (refresh pf conn email) (Renewed K conn.userId) v := by
  obtain ⟨s, d⟩ := v
  have hprimed : Primed s := hs.primed hv
  obtain ⟨⟨rfl, hw, hside, hk⟩, hp⟩ := hs
  dsimp only at hw hside hk hp hconn
  have hopen : Unrevoked conn.userId d.known := ⟨conn, hconn, hst⟩
  have hrest : AtRest (s, d) := ⟨_, ⟨rfl, hw, hside, hk⟩, hp⟩
  -- a change of the connection other than to REVOKED
  have hcovered : ∀ {x : SideWrite}, renewed x = some conn.userId →
      (∀ u, x ≠ .setConnectionStatus u .revoked) →
      ∀ s' : Session, s'.side = s.side ++ [x] → Covered (s', d) := by
    intro x hx hnot s' hs'
    refine ⟨fun y hy u hu => ?_, fun u hu => ?_, fun holder hmem => ?_⟩
    · rcases List.mem_append.mp (hs' ▸ hy) with hy | hy
      · simp [renewed_of_not (hside y hy)] at hu
      · obtain rfl := List.mem_singleton.mp hy
        rw [hx, Option.some.injEq] at hu
        exact hu ▸ hopen
    · rcases List.mem_append.mp (hs' ▸ hu) with hu | hu
      · exact absurd (hside _ hu) (by simp [SideWrite.isRenewal])
      · exact absurd (List.mem_singleton.mp hu).symm (hnot u)
    · simp [hw] at hmem
  unfold refresh
  split
  · -- the grant has lapsed
    refine wp_renewal hprimed (hcovered rfl (by simp)) (fun e v' hv' _ => ⟨_, hv'.clean hw hk⟩) fun v' hv' => ?_
    exact wp_throw ⟨_, hv'.renewed hk⟩
  · next refreshToken hfilter =>
    have hrefresh : conn.refreshTokenEncrypted = some refreshToken :=
      (Option.filter_eq_some_iff.mp hfilter).1
    refine wp_bind (wp_tryCatch (wp_bind (wp_orRaise (fun _ => hrest) fun token htoken => ?_)))
    have hcarries : carries pf (.refreshToken token) d.known conn.userId = true := by
      simp [carries, hconn, hrefresh, htoken]
    refine wp_exchange ⟨hw, conn.userId, hcarries, hopen⟩ (fun bundle => ?_) hrest ?_
    · -- the new token is stored
      refine wp_bind (wp_orRaise (fun _ => hrest) fun accessTokenEncrypted _ => ?_)
      refine wp_bind (wp_amid ⟨(absurd · Bool.false_ne_true), False.elim⟩ fun c x s₂ w w' _ _ hrun => ?_)
      obtain ⟨s₂, d₂⟩ := s₂
      obtain ⟨hex, hd₂⟩ := of_exec_recording hrun
      obtain rfl : d₂ = d := hd₂.trans note_now
      change respond .now c.answer s (w.elapse c) = _ at hex
      simp only [respond, Option.some.injEq, Prod.mk.injEq] at hex
      obtain ⟨rfl, rfl, rfl⟩ := hex
      refine wp_renewal hprimed (hcovered rfl (by simp)) (fun e v' hv' _ => ⟨_, hv'.clean hw hk⟩)
        fun v' hv' => ?_
      refine wp_pure ⟨_, hv'.renewed hk, fun u' hu' => ?_, ?_⟩
      · simp [renew, hu']
      · exact ⟨{ conn with
          accessTokenEncrypted := some accessTokenEncrypted
          tokenExpiresAt := some ((w.elapse c).now + bundle.expiresIn * 1000000)
          status := .connected }, by simp [renew, hconn], rfl, rfl⟩
    · -- the grant is rejected
      refine wp_renewal hprimed (fun s' hs' => ?_) (fun e v' _ hnot => absurd rfl (hnot conn.userId))
        fun v' hv' => wp_throw (⟨_, hv'.renewed hk⟩ : AtRest v')
      refine ⟨fun y hy u hu => ?_, fun u hu => ⟨_, rfl, ?_⟩, fun holder hmem => ?_⟩
      · rcases List.mem_append.mp (hs' ▸ hy) with hy | hy
        · simp [renewed_of_not (hside y hy)] at hu
        · obtain rfl := List.mem_singleton.mp hy
          rw [renewed, Option.some.injEq] at hu
          exact hu ▸ hopen
      · rcases List.mem_append.mp (hs' ▸ hu) with hu | hu
        · exact absurd (hside _ hu) (by simp [SideWrite.isRenewal])
        · simp only [List.mem_singleton, SideWrite.setConnectionStatus.injEq, and_true] at hu
          exact hu ▸ hcarries
      · obtain rfl := Option.some.inj hmem
        exact ⟨conn.userId, s.side, hcarries, hs'⟩

/-- The row of the user's connection, from a session that works. -/
theorem wp_ownConnection {Q : Except Exc (Option CalendarConnection) → Session × Dealings → Prop}
    (hs : Clean K v) (herr : ∀ e v', Clean K v' → Q (.error e) v')
    (hok : ∀ row v', Clean (Function.update K u row) v' → v'.1.invalid = false → Q (.ok row) v') :
    wp (granting pf) (getByUser u) Q v := by
  refine wp_amid ⟨(absurd · Bool.false_ne_true), False.elim⟩ fun c x s₁ w w' hJ _ hrun => ?_
  obtain ⟨s, d⟩ := v
  obtain ⟨s₁, d₁⟩ := s₁
  obtain ⟨hex, hd⟩ := of_exec_recording hrun
  obtain ⟨⟨rfl, hw, hside, hk⟩, hp⟩ := hs
  change respond (.connectionOf u) c.answer s (w.elapse c) = _ at hex
  simp only [respond] at hex
  rcases dbCall_cases hex with ⟨e, -, rfl, rfl, -⟩ | ⟨hv, n, hex⟩
  · obtain rfl : d₁ = d := hd.trans (note_error rfl e)
    exact herr e _ ⟨⟨rfl, hw, by simp [Session.fail], hk⟩, rfl⟩
  · simp only [Option.some.injEq, Prod.mk.injEq] at hex
    obtain ⟨rfl, rfl, rfl⟩ := hex
    refine hok _ _ ⟨⟨by rw [hd]; rfl, by rw [hd]; exact hw, hside, fun u' conn hconn => ?_⟩, hp⟩ hv
    by_cases hu : u' = u
    · subst hu
      rw [Function.update_self] at hconn
      exact hJ.keyed u' conn hconn
    · rw [Function.update_of_ne hu] at hconn
      exact hk u' conn hconn

/-- **A connection that is used is known to be CONNECTED.** -/
theorem renewed_usableConnection (hs : Clean K v) {user : User} :
    wp (granting pf) (usableConnection pf user) (Renewed K user.id) v := by
  refine wp_bind (wp_ownConnection hs (fun e v' hv' => (⟨_, hv'⟩ : AtRest v')) fun row v₁ hv₁ hvalid => ?_)
  refine wp_bind (wp_orRaise (fun _ => (⟨_, hv₁⟩ : AtRest v₁)) fun conn hconn => ?_)
  subst hconn
  refine wp_bind (wp_raiseIf (fun _ => (⟨_, hv₁⟩ : AtRest v₁)) fun hrevoked => ?_)
  refine wp_bind (wp_raiseIf (fun _ => (⟨_, hv₁⟩ : AtRest v₁)) fun hdisconnected => ?_)
  refine wp_bind (wp_amid (heeds_tame rfl hv₁.toStable) fun c x s₂ w w' _ _ hrun => ?_)
  have h₂ : Clean (Function.update K user.id (some conn)) s₂ := hv₁.step rfl hrun
  have hvalid₂ : s₂.1.invalid = false := by
    obtain ⟨s₁, d₁⟩ := v₁
    obtain ⟨s₂, d₂⟩ := s₂
    have hex := (of_exec_recording hrun).1
    change respond .now c.answer s₁ (w.elapse c) = _ at hex
    simp only [respond, Option.some.injEq, Prod.mk.injEq] at hex
    obtain ⟨-, rfl, -⟩ := hex
    exact hvalid
  cases x with
  | error e => exact (⟨_, h₂⟩ : AtRest s₂)
  | ok t =>
    dsimp only [Then]
    have hkey : conn.userId = user.id := hv₁.keyed user.id conn (Function.update_self ..)
    have hother : ∀ u', u' ≠ user.id → Function.update K user.id (some conn) u' = K u' := fun u' hu' =>
      Function.update_of_ne hu' _ _
    split
    · rw [← hkey] at h₂ hother ⊢
      refine wp_mono (renewed_refresh h₂ hvalid₂ (Function.update_self ..) hrevoked) ?_
      rintro (e | conn') v' hv'
      · exact hv'
      · obtain ⟨K', hK', hsame, hconn'⟩ := hv'
        exact ⟨K', hK', fun u' hu' => (hsame u' hu').trans (hother u' hu'), hconn'⟩
    · next hfresh =>
      have hst : conn.status = .connected := by
        have hexpired : conn.status ≠ .expired := fun hst => hfresh (.inl hst)
        cases hs : conn.status <;> simp_all
      exact wp_pure ⟨_, h₂, hother, conn, Function.update_self .., hst, rfl⟩

/-- The same connections are known as before the call. -/
def Same (K : Connections) (v v' : Session × Dealings) : Prop :=
  Stable K v' ∧ v'.1.pending = v.1.pending

theorem Same.clean (hsame : Same K v v') (hs : Clean K v) : Clean K v' :=
  ⟨hsame.1, hsame.2.trans hs.pending⟩

theorem same_createEvent (hs : Stable K v) (hu : hasToken pf K token u = true)
    (hst : Unrevoked u K) {draft : EventDraft} :
    wp (granting pf) (createEvent token draft) (fun _ v' => Same K v v') v := by
  refine wp_tryCatch (wp_mono (wp_called (o := .createEvent token draft) rfl (fun _ _ _ hc => hc) hs hu hst) ?_)
  rintro (e | a) v' hv'
  · cases e <;> exact hv'
  · exact hv'

theorem same_deleteEvent (hs : Stable K v) (hu : hasToken pf K token u = true)
    (hst : Unrevoked u K) {eventId : String} :
    wp (granting pf) (deleteEvent token eventId) (fun _ v' => Same K v v') v := by
  refine wp_tryCatch (wp_bind (wp_mono (wp_called (o := .deleteEvent token eventId) rfl
    (fun _ _ _ hc => hc) hs hu hst) ?_))
  rintro (e | a) v' hv'
  · cases e <;> exact hv'
  · exact hv'

theorem clean_getFreeBusy (hs : Clean K v) (hconn : Connected K u conn.accessTokenEncrypted)
    {tmin tmax : Instant} :
    wp (granting pf) (getFreeBusy pf conn tmin tmax) (fun _ v' => Clean K v') v := by
  refine wp_bind_attempt (wp_mono (wp_calm (Prog.uses_perform rfl) hs) fun cached v₁ hv₁ => ?_)
  split
  · exact wp_pure hv₁
  · refine wp_bind (wp_mono (Q := fun _ v' => Clean K v') ?_ ?_)
    · refine wp_tryCatch (wp_bind (wp_orRaise (fun _ => hv₁) fun token htoken => ?_))
      refine wp_mono (wp_called (o := .freeBusy token tmin tmax) rfl (fun _ _ _ hc => hc)
        hv₁.toStable (hconn.hasToken htoken) hconn.unrevoked) ?_
      rintro (e | busy) v₂ hv₂
      · have h₂ : Clean K v₂ := Same.clean hv₂ hv₁
        cases e <;> exact h₂
      · exact Same.clean hv₂ hv₁
    · rintro (e | busy) v₂ hv₂
      · exact hv₂
      · exact wp_bind_attempt (wp_mono (wp_calm (Prog.uses_perform rfl) hv₂) fun _ v₃ hv₃ => wp_pure hv₃)

end InterviewScheduler.Calendar
