import InterviewScheduler.Accounts.Census
import InterviewScheduler.Accounts.FirstWins

/-! # Following the users

The logic `counting Per` has as its view the users that a handler has seen, what it has staged, and the ids
that it has drawn and not yet committed. A user may be inserted with such an id only, and when the call is
permitted to, `Per`. -/

namespace InterviewScheduler.Accounts

open InterviewScheduler.Engine InterviewScheduler.Effects
open InterviewScheduler.Core (Id Role)

/-! ### The logic -/

/-- What a handler knows of the users. -/
structure Sight where
  tables : Tables
  time : Instant := 0
  pending : List Write := []
  fresh : List Id := []

/-- The drawn ids are of no user. -/
def Sight.Apart (v : Sight) : Prop := ∀ n ∈ v.fresh, ∀ u ∈ v.tables.users, u.id ≠ n

/-- An exception that tells something of the users. -/
def Exc.Telling (e : Exc) : Prop :=
  e = .integrityError ∨ e = .ofClass .emailAlreadyRegisteredError ∨ e = .ofClass .roleConflictError

/-- What an effect changes of the staged writes and of the drawn ids, and what it answers. -/
def Sight.Changes {β : Type} (o : Effect β) (v : Sight) (x : Except Exc β) (v' : Sight) : Prop :=
  match β, o, x with
  | _, .select query, .ok a =>
    (∃ n, a = query n v'.tables) ∧ v'.pending = v.pending ∧ v'.fresh = v.fresh
  | _, .stage y, .ok _ => v'.pending = v.pending ++ [y] ∧ v'.fresh = v.fresh
  | _, .newId, .ok n => v'.pending = v.pending ∧ v'.fresh = n :: v.fresh
  | _, .rollback, .ok _ => v'.pending = [] ∧ v'.fresh = v.fresh
  | _, .commit, .ok _ =>
    (∀ row, .insertUser row ∈ v.pending → v'.tables.Has row.identity) ∧ v'.pending = []
  | _, .flush, .error e | _, .commit, .error e =>
    (e.Telling → e = .integrityError ∧ Write.applyAll v.pending v'.tables = none) ∧ v'.pending = [] ∧
      v'.fresh = v.fresh
  | _, .now, .ok t => v'.pending = v.pending ∧ v'.fresh = v.fresh ∧ v.time ≤ t ∧ t ≤ v'.time
  | _, _, .ok _ => v'.pending = v.pending ∧ v'.fresh = v.fresh
  | _, _, .error e => ¬ e.Telling ∧ v'.fresh = v.fresh

/-- Time has passed, and the users whom the handler has seen are there. -/
structure Sight.Later (v v' : Sight) : Prop where
  outlives : Outlives v.tables v'.tables
  time : v.time ≤ v'.time
  keys : v'.tables.Registered
  apart : v'.Apart

def counting (Per : Tables → User → Prop) : Logic Effect Exc Sight where
  pre o v := match o with
    | .stage (.insertUser row) => row.id ∈ v.fresh ∧ Per v.tables row
    | _ => True
  step o v x v' := v.Later v' ∧ v.Changes o x v'

/-- The effect inserts no user. -/
def NoInsert (β : Type) (o : Effect β) : Prop :=
  match o with
  | .stage (.insertUser _) => False
  | _ => True

variable {Per : Tables → User → Prop} {v : Sight} {α β : Type}

section Rules

theorem counting_pre {o : Effect α} (ho : NoInsert α o) : (counting Per).pre o v := by
  cases o with
  | stage y =>
    cases y with
    | insertUser row => exact ho.elim
    | _ => trivial
  | _ => trivial

/-- A part that inserts no user. -/
theorem wp_noInsert {p : M α} (hp : p.Uses NoInsert) {Q : Except Exc α → Sight → Prop}
    (hQ : ∀ x v', Outlives v.tables v'.tables → Q x v') : wp (counting Per) p Q v := by
  have hgo : ∀ {v₁ : Sight}, Outlives v.tables v₁.tables → wp (counting Per) p Q v₁ := by
    induction p with
    | ret a => exact fun h => hQ _ _ h
    | raise e => exact fun h => hQ _ _ h
    | op o k ih =>
      exact fun h => ⟨counting_pre hp.1, fun x v₂ hstep => ih x (hp.2 x) (h.trans hstep.1.outlives)⟩
  exact hgo (.refl _)

/-- A SELECT. -/
theorem wp_see {query : ℕ → Tables → α} {Q : Except Exc α → Sight → Prop}
    (herr : ∀ e v', ¬ e.Telling → Q (.error e) v')
    (hok : ∀ n v', v.Later v' → v'.pending = v.pending → v'.fresh = v.fresh →
      Q (.ok (query n v'.tables)) v') : wp (counting Per) (dbSelect query) Q v := by
  refine wp_perform trivial ?_
  rintro (e | a) v' ⟨hlater, hchanges⟩
  · exact herr e v' hchanges.1
  · obtain ⟨⟨n, rfl⟩, hpending, hfresh⟩ := hchanges
    exact hok n v' hlater hpending hfresh

/-- The user with an e-mail address. -/
theorem wp_getByEmail {email : String} {Q : Except Exc (Option User) → Sight → Prop}
    (herr : ∀ e v', ¬ e.Telling → Q (.error e) v')
    (hnone : ∀ v', v.Later v' → v'.pending = v.pending → v'.fresh = v.fresh →
      (∀ u ∈ v'.tables.users, u.email ≠ email) → Q (.ok none) v')
    (hsome : ∀ u v', v.Later v' → v'.pending = v.pending → v'.fresh = v.fresh →
      u ∈ v'.tables.users → u.email = email → Q (.ok (some u)) v') :
    wp (counting Per) (getByEmail email) Q v := by
  refine wp_see herr fun n v' hlater hpending hfresh => ?_
  cases hfound : v'.tables.userByEmail email with
  | none =>
    refine hnone v' hlater hpending hfresh fun u hu heq => ?_
    have hnot := List.find?_eq_none.mp hfound u hu
    exact hnot (decide_eq_true heq)
  | some u =>
    refine hsome u v' hlater hpending hfresh (mem_of_userByEmail hfound) ?_
    exact of_decide_eq_true (List.find?_some (p := fun u : User => decide (u.email = email)) hfound)

theorem wp_getUser {userId : Id} {Q : Except Exc (Option User) → Sight → Prop}
    (herr : ∀ e v', ¬ e.Telling → Q (.error e) v')
    (hnone : ∀ v', v.Later v' → v'.pending = v.pending → v'.fresh = v.fresh →
      (∀ u ∈ v'.tables.users, u.id ≠ userId) → Q (.ok none) v')
    (hsome : ∀ u v', v.Later v' → v'.pending = v.pending → v'.fresh = v.fresh →
      u ∈ v'.tables.users → u.id = userId → Q (.ok (some u)) v') :
    wp (counting Per) (getUser userId) Q v := by
  refine wp_see herr fun n v' hlater hpending hfresh => ?_
  cases hfound : v'.tables.user userId with
  | none =>
    refine hnone v' hlater hpending hfresh fun u hu heq => ?_
    have hnot := List.find?_eq_none.mp hfound u hu
    exact hnot (decide_eq_true heq)
  | some u => exact hsome u v' hlater hpending hfresh (mem_of_user hfound) (id_of_user hfound)

/-- A flush or a commit that fails for a constraint has met one that breaks. -/
theorem wp_settle {o : Effect Unit} (ho : o = .flush ∨ o = .commit) {Q : Except Exc Unit → Sight → Prop}
    (herr : ∀ e v', v.Later v' → v'.pending = [] → v'.fresh = v.fresh →
      (e.Telling → e = .integrityError ∧ Write.applyAll v.pending v'.tables = none) → Q (.error e) v')
    (hflush : ∀ v', v.Later v' → o = .flush → v'.pending = v.pending → v'.fresh = v.fresh → Q (.ok ()) v')
    (hcommit : ∀ v', v.Later v' → o = .commit →
      (∀ row, .insertUser row ∈ v.pending → v'.tables.Has row.identity) → Q (.ok ()) v') :
    wp (counting Per) (.perform o) Q v := by
  rcases ho with rfl | rfl
  · refine wp_perform trivial ?_
    rintro (e | a) v' ⟨hlater, hstep⟩
    · exact herr e v' hlater hstep.2.1 hstep.2.2 hstep.1
    · exact hflush v' hlater rfl hstep.1 hstep.2
  · refine wp_perform trivial ?_
    rintro (e | a) v' ⟨hlater, hstep⟩
    · exact herr e v' hlater hstep.2.1 hstep.2.2 hstep.1
    · exact hcommit v' hlater rfl hstep.1

end Rules

/-! ### The machine -/

/-- The ids that a session has drawn and not committed. -/
def nextFresh {β : Type} (o : Effect β) (fresh : List Id) (x : Except Exc β) : List Id :=
  match β, o, x with
  | _, .newId, .ok n => n :: fresh
  | _, .commit, .ok _ => []
  | _, _, _ => fresh

/-- A step of a session, as the logic sees it: the users of the table outlive it, the changes are as the
logic says, and only ids that were not drawn before are drawn. -/
structure Steps {β : Type} (o : Effect β) (s : Session) (w : World) (x : Except Exc β) (s' : Session) (w' : World)
    (fresh : List Id) : Prop where
  changes : Sight.Changes o ⟨w.db, w.now, s.pending, fresh⟩ x ⟨w'.db, w'.now, s'.pending, nextFresh o fresh x⟩
  /-- the users are those of before, or the pending ones are committed -/
  users : w'.db.users = w.db.users ∨
    (nextFresh o fresh x = [] ∧ s'.pending = [] ∧ Write.applyAll s.pending w.db = some w'.db)
  drawn : w.drawn ⊆ w'.drawn
  time : w.now ≤ w'.now
  new : ∀ n ∈ nextFresh o fresh x, n ∈ fresh ∨ (n ∉ w.drawn ∧ n ∈ w'.drawn)
  staged : ∀ y ∈ s'.pending, (y ∈ s.pending ∨ o.staged = some y) ∧ fresh ⊆ nextFresh o fresh x

section Machine

variable {o : Effect β} {c : Choice} {s s' : Session} {w w' w₀ : World} {x : Except Exc β} {fresh : List Id}

/-- What has been seen of the tables is not changed. -/
theorem Sight.Changes.congr {v v' : Sight} {T : Tables} {ys : List Write}
    {t : Instant} (h : Changes o ⟨T, t, ys, v.fresh⟩ x v') (hys : v.pending = ys) (ht : v.time ≤ t) :
    v.Changes o x v' := by
  obtain ⟨T₁, t₁, ys₁, fresh₁⟩ := v
  obtain rfl : ys₁ = ys := hys
  cases o with
  | now =>
    cases x with
    | error e => exact h
    | ok a => exact ⟨h.1, h.2.1, ht.trans h.2.2.1, h.2.2.2⟩
  | _ => cases x <;> exact h

/-- A step that stores nothing and draws nothing. -/
theorem steps_idle
    (hchanges : Sight.Changes o ⟨w₀.db, w₀.now, s.pending, fresh⟩ x ⟨w'.db, w'.now, s'.pending, fresh⟩)
    (hnext : nextFresh o fresh x = fresh) (hdb : w'.db.users = w₀.db.users)
    (hdrawn : w'.drawn = w₀.drawn) (hnow : w₀.now ≤ w'.now)
    (hpending : s'.pending = s.pending ∨ s'.pending = []) :
    Steps o s w₀ x s' w' fresh where
  changes := by rwa [hnext]
  users := .inl hdb
  drawn := by rw [hdrawn]; exact fun _ h => h
  time := hnow
  new n hn := .inl (hnext ▸ hn)
  staged y hy := by
    rw [hnext]
    rcases hpending with hsame | hnil
    · exact ⟨.inl (hsame ▸ hy), fun _ h => h⟩
    · rw [hnil] at hy
      simp at hy

/-- A database call fails in the database, and does nothing, or answers. -/
theorem dbCall_fails {a : Answer} {answer : ℕ → Result β} (h : dbCall a s w answer = some (x, s', w')) :
    (∃ e, x = .error e ∧ ¬ e.Telling ∧ s' = s.fail ∧ w' = w) ∨ ∃ n, answer n = some (x, s', w') := by
  unfold dbCall at h
  split_ifs at h
  · cases h
    exact .inl ⟨_, rfl, by simp [Exc.Telling, Exc.ofClass], rfl, rfl⟩
  · cases a with
    | ok => exact .inr ⟨0, h⟩
    | pick n => exact .inr ⟨n, h⟩
    | fail =>
      cases h
      exact .inl ⟨_, rfl, by simp [Exc.Telling, Exc.ofClass], rfl, rfl⟩
    | text t => cases h
    | conflict row => cases h

theorem steps_of_exec (h : machine.exec o c s w = some (x, s', w')) : Steps o s w x s' w' fresh := by
  have hnow : w.now ≤ (w.elapse c).now := by
    change w.now ≤ w.now + c.elapsed
    lia
  change respond o c.answer s (w.elapse c) = _ at h
  cases o with
  | select query =>
    unfold respond at h
    dsimp only at h
    rcases dbCall_fails h with ⟨e, rfl, he, rfl, rfl⟩ | ⟨n, hn⟩
    · exact steps_idle ⟨he, rfl⟩ rfl rfl rfl hnow (.inr rfl)
    · cases hn
      exact steps_idle ⟨⟨n, rfl⟩, rfl, rfl⟩ rfl rfl rfl hnow (.inl rfl)
  | invitationFor requestId userId =>
    unfold respond at h
    dsimp only at h
    rcases dbCall_fails h with ⟨e, rfl, he, rfl, rfl⟩ | ⟨n, hn⟩
    · exact steps_idle ⟨he, rfl⟩ rfl rfl rfl hnow (.inr rfl)
    · cases hn
      exact steps_idle ⟨rfl, rfl⟩ rfl rfl rfl hnow (.inl rfl)
  | commit =>
    unfold respond at h
    dsimp only at h
    rcases dbCall_fails h with ⟨e, rfl, he, rfl, rfl⟩ | ⟨n, hn⟩
    · exact steps_idle ⟨fun hte => absurd hte he, rfl, rfl⟩ rfl rfl rfl hnow (.inr rfl)
    · unfold commitPending at hn
      split at hn
      · next T hT =>
        cases hn
        have hnew := (identity_applyAll hT).2.2
        exact ⟨⟨hnew, rfl⟩, .inr ⟨rfl, rfl, hT⟩, fun _ h => h, hnow, by simp [nextFresh],
          fun y hy => by simp [Session.committed] at hy⟩
      · next hT =>
        cases hn
        exact steps_idle ⟨fun _ => ⟨rfl, hT⟩, rfl, rfl⟩ rfl rfl rfl hnow (.inr rfl)
  | flush =>
    unfold respond at h
    dsimp only at h
    split at h
    · next row _ =>
      unfold conflictingFlush at h
      dsimp only at h
      split_ifs at h with hconflict
      cases h
      exact steps_idle ⟨fun _ => ⟨rfl, hconflict.2.2⟩, rfl, rfl⟩ rfl rfl rfl hnow (.inr rfl)
    · rcases dbCall_fails h with ⟨e, rfl, he, rfl, rfl⟩ | ⟨n, hn⟩
      · exact steps_idle ⟨fun hte => absurd hte he, rfl, rfl⟩ rfl rfl rfl hnow (.inr rfl)
      · unfold flushPending at hn
        split at hn
        · cases hn
          exact steps_idle ⟨rfl, rfl⟩ rfl rfl rfl hnow (.inl rfl)
        · next hT =>
          cases hn
          exact steps_idle ⟨fun _ => ⟨rfl, hT⟩, rfl, rfl⟩ rfl rfl rfl hnow (.inr rfl)
  | newId =>
    unfold respond at h
    dsimp only at h
    split at h
    · next n _ =>
      split_ifs at h with hdrawn
      cases h
      refine ⟨⟨rfl, rfl⟩, .inl rfl, fun _ h => List.mem_cons_of_mem _ h, hnow, fun m hm => ?_,
        fun y hy => ⟨.inl hy, fun _ h => List.mem_cons_of_mem _ h⟩⟩
      rcases List.mem_cons.mp hm with rfl | hm
      · exact .inr ⟨hdrawn, List.mem_cons_self⟩
      · exact .inl hm
    · cases h
  | stage y =>
    cases h
    refine ⟨⟨rfl, rfl⟩, .inl rfl, fun _ h => h, hnow, fun _ hn => .inl hn, fun z hz => ⟨?_, fun _ h => h⟩⟩
    rcases List.mem_append.mp hz with hz | hz
    · exact .inl hz
    · exact .inr (by rw [List.mem_singleton.mp hz]; rfl)
  | rollback =>
    cases h
    exact steps_idle ⟨rfl, rfl⟩ rfl rfl rfl hnow (.inr rfl)
  | now =>
    cases h
    exact steps_idle ⟨rfl, rfl, hnow, le_refl _⟩ rfl rfl rfl hnow (.inl rfl)
  | loadExpired =>
    unfold respond at h
    dsimp only at h
    split at h <;> cases h
    · exact steps_idle ⟨rfl, rfl⟩ rfl rfl rfl hnow (.inl rfl)
    · exact steps_idle ⟨by simp [Exc.Telling, Exc.ofClass], rfl⟩ rfl rfl rfl hnow (.inl rfl)
  | tokenUrlsafe =>
    unfold respond at h
    dsimp only at h
    split at h
    · split_ifs at h
      cases h
      exact steps_idle ⟨rfl, rfl⟩ rfl rfl rfl hnow (.inl rfl)
    · cases h
  | gensalt =>
    unfold respond at h
    dsimp only at h
    split at h <;> cases h
    exact steps_idle ⟨rfl, rfl⟩ rfl rfl rfl hnow (.inl rfl)
  | sendMail msg =>
    unfold respond at h
    dsimp only at h
    split at h <;> cases h
    · exact steps_idle ⟨rfl, rfl⟩ rfl rfl rfl hnow (.inl rfl)
    · exact steps_idle ⟨by simp [Exc.Telling, Exc.ofClass], rfl⟩ rfl rfl rfl hnow (.inl rfl)
  | verifyOauth2Token idToken =>
    unfold respond at h
    dsimp only at h
    split at h <;> cases h
    · exact steps_idle ⟨rfl, rfl⟩ rfl rfl rfl hnow (.inl rfl)
    · exact steps_idle ⟨by simp [Exc.Telling, Exc.ofClass], rfl⟩ rfl rfl rfl hnow (.inl rfl)

end Machine

/-! ### Every interleaving -/

section Pools

variable {ι : Type} {γ : Type}

/-- What holds among calls of which each may insert the users that it is permitted to: the keys of the users
are unique, a drawn id is of no user and of no other call, and whoever was not there at first was permitted
to a call. -/
structure Census (Per : ι → Tables → User → Prop) (T₀ : Tables) (loc : ι → Session) (w : World)
    (v : ι → Sight) : Prop where
  registered : w.db.Registered
  drawn : ∀ u ∈ w.db.users, u.id ∈ w.drawn
  outlives : Outlives T₀ w.db
  counted : ∀ u ∈ w.db.users, T₀.Has u.identity ∨ ∃ i, Per i w.db u
  seen : ∀ i, Outlives (v i).tables w.db
  time : ∀ i, (v i).time ≤ w.now
  pending : ∀ i, (v i).pending = (loc i).pending
  fresh : ∀ i, ∀ n ∈ (v i).fresh, n ∈ w.drawn ∧ ∀ u ∈ w.db.users, u.id ≠ n
  apart : ∀ i j, i ≠ j → ∀ n ∈ (v i).fresh, n ∉ (v j).fresh
  inserts : ∀ i row, .insertUser row ∈ (v i).pending → row.id ∈ (v i).fresh ∧ Per i w.db row

/-- A permission is about what a user keeps, and is not taken back. -/
def Lasting (Per : Tables → User → Prop) : Prop :=
  ∀ T T' u u', Outlives T T' → u'.identity = u.identity → Per T u → Per T' u'

variable [DecidableEq ι] {Per : ι → Tables → User → Prop} {T₀ : Tables} {loc : ι → Session}
  {v : ι → Sight} {w w' : World}

/-- **One step of one call.** -/
theorem Census.step (hPer : ∀ i, Lasting (Per i)) (h : Census Per T₀ loc w v) {i : ι} {o : Effect β}
    {c : Choice} {x : Except Exc β} {s' : Session} (hpre : (counting (Per i)).pre o (v i))
    (hex : machine.exec o c (loc i) w = some (x, s', w')) :
    ∃ v', (counting (Per i)).step o (v i) x v' ∧
      Census Per T₀ (Function.update loc i s') w' (Function.update v i v') := by
  have hsteps : Steps o (loc i) w x s' w' (v i).fresh := steps_of_exec hex
  obtain ⟨ys, hys⟩ := exec_db hex
  have hregistered : w'.db.Registered := applyAll_keeps (fun hT hy => registered_apply hT hy) h.registered hys
  have hgrown : Outlives w.db w'.db := (identity_applyAll hys).1
  -- a user is there already, or it is one that the call has staged
  have husers : ∀ u ∈ w'.db.users, w.db.Has u.identity ∨ (nextFresh o (v i).fresh x = [] ∧
      ∃ row, .insertUser row ∈ (v i).pending ∧ u.identity = row.identity) := by
    intro u hu
    rcases hsteps.users with hsame | ⟨hnil, -, happly⟩
    · exact .inl ⟨u, hsame ▸ hu, rfl⟩
    · rcases (identity_applyAll happly).2.1 u hu with hold | ⟨row, hrow, heq⟩
      · exact .inl hold
      · exact .inr ⟨hnil, row, (h.pending i).symm ▸ hrow, heq⟩
  have hids : ∀ u ∈ w'.db.users, (∃ u₀ ∈ w.db.users, u₀.id = u.id) ∨
      (nextFresh o (v i).fresh x = [] ∧ u.id ∈ (v i).fresh) := by
    intro u hu
    rcases husers u hu with ⟨u₀, hu₀, heq⟩ | ⟨hnil, row, hrow, heq⟩
    · exact .inl ⟨u₀, hu₀, (User.of_identity heq).1⟩
    · exact .inr ⟨hnil, (User.of_identity heq).1 ▸ (h.inserts i row hrow).1⟩
  have hdrawn : ∀ u ∈ w'.db.users, u.id ∈ w.drawn := by
    intro u hu
    rcases hids u hu with ⟨u₀, hu₀, heq⟩ | ⟨-, hmem⟩
    · exact heq ▸ h.drawn u₀ hu₀
    · exact (h.fresh i _ hmem).1
  have hfresh : ∀ n ∈ nextFresh o (v i).fresh x, n ∈ w'.drawn ∧ ∀ u ∈ w'.db.users, u.id ≠ n := by
    intro n hn
    refine ⟨?_, fun u hu heq => ?_⟩
    · rcases hsteps.new n hn with hold | ⟨-, hnew⟩
      · exact hsteps.drawn (h.fresh i n hold).1
      · exact hnew
    · rcases hsteps.new n hn with hold | ⟨hnew, -⟩
      · rcases hids u hu with ⟨u₀, hu₀, heq₀⟩ | ⟨hnil, -⟩
        · exact (h.fresh i n hold).2 u₀ hu₀ (heq₀.trans heq)
        · rw [hnil] at hn
          simp at hn
      · exact hnew (heq ▸ hdrawn u hu)
  have hothers : ∀ j, j ≠ i → ∀ n ∈ (v j).fresh, n ∈ w'.drawn ∧ ∀ u ∈ w'.db.users, u.id ≠ n := by
    intro j hj n hn
    refine ⟨hsteps.drawn (h.fresh j n hn).1, fun u hu heq => ?_⟩
    rcases hids u hu with ⟨u₀, hu₀, heq₀⟩ | ⟨-, hmem⟩
    · exact (h.fresh j n hn).2 u₀ hu₀ (heq₀.trans heq)
    · exact h.apart j i hj n hn (heq ▸ hmem)
  refine ⟨⟨w'.db, w'.now, s'.pending, nextFresh o (v i).fresh x⟩, ⟨⟨(h.seen i).trans hgrown,
    (h.time i).trans hsteps.time, hregistered, fun n hn => (hfresh n hn).2⟩, ?_⟩, ?_⟩
  · exact hsteps.changes.congr (h.pending i) (h.time i)
  · have hinserts : ∀ row, .insertUser row ∈ s'.pending →
        row.id ∈ nextFresh o (v i).fresh x ∧ Per i w'.db row := by
      intro row hrow
      obtain ⟨hstaged, hkept⟩ := hsteps.staged _ hrow
      rcases hstaged with hold | hnew
      · obtain ⟨hid, hper⟩ := h.inserts i row ((h.pending i).symm ▸ hold)
        exact ⟨hkept hid, hPer i _ _ _ _ hgrown rfl hper⟩
      · cases o with
        | stage y =>
          obtain rfl : y = .insertUser row := Option.some.inj hnew
          exact ⟨hkept hpre.1, hPer i _ _ _ _ ((h.seen i).trans hgrown) rfl hpre.2⟩
        | _ => cases hnew
    refine ⟨hregistered, fun u hu => hsteps.drawn (hdrawn u hu), h.outlives.trans hgrown, fun u hu => ?_,
      fun j => ?_, fun j => ?_, fun j => ?_, fun j n hn => ?_, fun j k hjk n hn => ?_, fun j row hrow => ?_⟩
    · rcases husers u hu with ⟨u₀, hu₀, heq⟩ | ⟨-, row, hrow, heq⟩
      · rcases h.counted u₀ hu₀ with hfirst | ⟨j, hper⟩
        · exact .inl (heq ▸ hfirst)
        · exact .inr ⟨j, hPer j _ _ _ _ hgrown heq.symm hper⟩
      · exact .inr ⟨i, hPer i _ _ _ _ hgrown heq (h.inserts i row hrow).2⟩
    all_goals by_cases hj : j = i
    · subst hj
      rw [Function.update_self]
      exact .refl _
    · rw [Function.update_of_ne hj]
      exact (h.seen j).trans hgrown
    · subst hj
      rw [Function.update_self]
    · rw [Function.update_of_ne hj]
      exact (h.time j).trans hsteps.time
    · subst hj
      rw [Function.update_self, Function.update_self]
    · rw [Function.update_of_ne hj, Function.update_of_ne hj]
      exact h.pending j
    · subst hj
      rw [Function.update_self] at hn
      exact hfresh n hn
    · rw [Function.update_of_ne hj] at hn
      exact hothers j hj n hn
    · subst hj
      rw [Function.update_self] at hn
      rw [Function.update_of_ne (Ne.symm hjk)]
      intro hmem
      rcases hsteps.new n hn with hold | ⟨hnew, -⟩
      · exact h.apart j k hjk n hold hmem
      · exact hnew (h.fresh k n hmem).1
    · rw [Function.update_of_ne hj] at hn
      by_cases hk : k = i
      · subst hk
        rw [Function.update_self]
        intro hmem
        rcases hsteps.new n hmem with hold | ⟨hnew, -⟩
        · exact h.apart j k hj n hn hold
        · exact hnew (h.fresh j n hn).1
      · rw [Function.update_of_ne hk]
        exact h.apart j k hjk n hn
    · subst hj
      rw [Function.update_self] at hrow ⊢
      exact hinserts row hrow
    · rw [Function.update_of_ne hj] at hrow ⊢
      obtain ⟨hid, hper⟩ := h.inserts j row hrow
      exact ⟨hid, hPer j _ _ _ _ hgrown rfl hper⟩

/-- What one call has seen of the table, when it looks at it now. -/
def Sight.look (v : Sight) (w : World) : Sight := { v with tables := w.db, time := w.now }

theorem Census.look (h : Census Per T₀ loc w v) (i : ι) :
    Census Per T₀ loc w (Function.update v i ((v i).look w)) := by
  have hsame : ∀ j, (Function.update v i ((v i).look w) j).pending = (v j).pending ∧
      (Function.update v i ((v i).look w) j).fresh = (v j).fresh := by
    intro j
    by_cases hj : j = i
    · subst hj
      rw [Function.update_self]
      exact ⟨rfl, rfl⟩
    · rw [Function.update_of_ne hj]
      exact ⟨rfl, rfl⟩
  refine ⟨h.registered, h.drawn, h.outlives, h.counted, fun j => ?_, fun j => ?_, fun j => ?_, fun j => ?_,
    fun j k => ?_, fun j => ?_⟩
  · by_cases hj : j = i
    · subst hj
      rw [Function.update_self]
      exact .refl _
    · rw [Function.update_of_ne hj]
      exact h.seen j
  · by_cases hj : j = i
    · subst hj
      rw [Function.update_self]
      exact le_refl _
    · rw [Function.update_of_ne hj]
      exact h.time j
  · rw [(hsame j).1]
    exact h.pending j
  · rw [(hsame j).2]
    exact h.fresh j
  · rw [(hsame j).2, (hsame k).2]
    exact h.apart j k
  · rw [(hsame j).1, (hsame j).2]
    exact h.inserts j

/-- The same pool with what is proved of each call. -/
structure Counted (Per : ι → Tables → User → Prop) (Q : ι → Except Exc γ → Tables → Instant → Prop) (T₀ : Tables)
    (P : Pool Effect Exc γ Session World ι) (v : ι → Sight) : Prop where
  census : Census Per T₀ P.loc P.shared v
  proved : ∀ i, wp (counting (Per i)) (P.prog i) (fun x v' => Q i x v'.tables v'.time) (v i)

variable {Q : ι → Except Exc γ → Tables → Instant → Prop} {P P' : Pool Effect Exc γ Session World ι}

theorem Counted.step {C : ι → Condition Effect Choice Session World} (hPer : ∀ i, Lasting (Per i))
    (hP : Counted Per Q T₀ P v) (h : Pool.Step machine C P P') : ∃ v', Counted Per Q T₀ P' v' := by
  cases h with
  | @op i β o k c x s' w' hprog hc hex =>
    have hwp := hP.proved i
    rw [hprog] at hwp
    obtain ⟨vi, hstep, hcensus⟩ := hP.census.step hPer hwp.1 hex
    refine ⟨Function.update v i vi, hcensus, fun j => ?_⟩
    change wp (counting (Per j)) (Function.update P.prog i (k x) j) _ (Function.update v i vi j)
    by_cases hj : j = i
    · subst hj
      rw [Function.update_self, Function.update_self]
      exact hwp.2 x vi hstep
    · rw [Function.update_of_ne hj, Function.update_of_ne hj]
      exact hP.proved j

/-- **However the calls interleave.** -/
theorem counted_of_reaches {C : ι → Condition Effect Choice Session World} (hPer : ∀ i, Lasting (Per i))
    (hP : ∃ v, Counted Per Q T₀ P v) (h : Pool.Reaches machine C P P') : ∃ v, Counted Per Q T₀ P' v := by
  induction h with
  | refl => exact hP
  | tail _ hlast ih =>
    obtain ⟨v, hv⟩ := ih
    exact hv.step hPer hlast

omit [DecidableEq ι] in
/-- What is true of the users when a call ends stays true. -/
theorem Counted.answer (hQ : ∀ i x T T' t t', Outlives T T' → t ≤ t' → Q i x T t → Q i x T' t')
    (hP : Counted Per Q T₀ P v) (i : ι) :
    (∀ a, P.prog i = .ret a → Q i (.ok a) P.shared.db P.shared.now) ∧
      ∀ e, P.prog i = .raise e → Q i (.error e) P.shared.db P.shared.now := by
  have hwp := hP.proved i
  refine ⟨fun a ha => ?_, fun e he => ?_⟩
  · rw [ha] at hwp
    exact hQ i _ _ _ _ _ (hP.census.seen i) (hP.census.time i) hwp
  · rw [he] at hwp
    exact hQ i _ _ _ _ _ (hP.census.seen i) (hP.census.time i) hwp

end Pools

end InterviewScheduler.Accounts
