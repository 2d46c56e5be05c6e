import InterviewScheduler.Core.Following
import InterviewScheduler.Calendar.Spec

/-! # The connection that is used

`usableConnection` ends with a connection that is CONNECTED in the database, whether it was so or the
token was refreshed, and the access token it returns is the one that is stored. -/

namespace InterviewScheduler.Calendar

open InterviewScheduler.Engine InterviewScheduler.Core InterviewScheduler.Effects

variable {pf : Platform} {C : Condition Effect Choice Session World} {D : Demand Effect Session World}
  {T : Interviews} {t : Instant} {α : Type} {s s' : Session} {w w' : World} {u : Id}
  {conn : CalendarConnection}

/-! ### The table -/

/-- Every connection is stored under its user. -/
def Keyed (w : World) : Prop := ∀ u conn, w.db.connections u = some conn → conn.userId = u

/-- The access token of the user's connection, which is CONNECTED. -/
def Linked (u : Id) (accessTokenEncrypted : Option String) (db : Db) : Prop :=
  ∃ conn, db.connections u = some conn ∧ conn.status = .connected ∧
    conn.accessTokenEncrypted = accessTokenEncrypted

/-- A connection stays, and it stays its user's. -/
theorem connections_foldl (side : List SideWrite) (db : Db) (u : Id) :
    ∃ f : CalendarConnection → CalendarConnection, (∀ conn, (f conn).userId = conn.userId) ∧
      (side.foldl SideWrite.apply db).connections u = (db.connections u).map f := by
  induction side generalizing db with
  | nil => exact ⟨id, fun _ => rfl, by simp⟩
  | cons x side ih =>
    have hx : ∃ g : CalendarConnection → CalendarConnection, (∀ conn, (g conn).userId = conn.userId) ∧
        (x.apply db).connections u = (db.connections u).map g := by
      cases x with
      | setConnectionStatus u' st =>
        by_cases hu : u = u'
        · subst hu
          exact ⟨fun c => { c with status := st }, fun _ => rfl, by simp [SideWrite.apply]⟩
        · exact ⟨id, fun _ => rfl, by simp [SideWrite.apply, hu]⟩
      | setAccessToken u' tok exp =>
        by_cases hu : u = u'
        · subst hu
          exact ⟨fun c => { c with
            accessTokenEncrypted := some tok, tokenExpiresAt := some exp, status := .connected },
            fun _ => rfl, by simp [SideWrite.apply]⟩
        · exact ⟨id, fun _ => rfl, by simp [SideWrite.apply, hu]⟩
      | _ => exact ⟨id, fun _ => rfl, by simp [SideWrite.apply]⟩
    obtain ⟨g, hg, hone⟩ := hx
    obtain ⟨f, hf, hrest⟩ := ih (x.apply db)
    refine ⟨f ∘ g, fun conn => (hf _).trans (hg _), ?_⟩
    rw [List.foldl_cons, hrest, hone, Option.map_map]

/-- What a step makes of a connection. -/
theorem connections_of_exec {o : Effect α} {c : Choice} {x : Except Exc α}
    (hex : machine.exec o c s w = some (x, s', w')) (u : Id) :
    ∃ f : CalendarConnection → CalendarConnection, (∀ conn, (f conn).userId = conn.userId) ∧
      w'.db.connections u = (w.db.connections u).map f := by
  rcases respond_cases (w := w.elapse c) hex with ⟨-, -, T', -, -, rfl⟩ | ⟨-, hdb, -⟩
  · exact connections_foldl s.side _ u
  · exact ⟨id, fun _ => rfl, by rw [hdb]; simp [World.elapse]⟩

theorem Keyed.step {o : Effect α} {c : Choice} {x : Except Exc α} (h : Keyed w)
    (hex : machine.exec o c s w = some (x, s', w')) : Keyed w' := by
  intro u conn hconn
  obtain ⟨f, hf, hmap⟩ := connections_of_exec hex u
  rw [hmap, Option.map_eq_some_iff] at hconn
  obtain ⟨old, hold, rfl⟩ := hconn
  rw [hf, h u old hold]

/-- The last of the pending changes is the one that counts. -/
theorem linked_of_setAccessToken {side : List SideWrite} {db : Db} {tok : String} {exp : Instant}
    (h : db.connections u ≠ none) :
    Linked u (some tok) ((side ++ [SideWrite.setAccessToken u tok exp]).foldl SideWrite.apply db) := by
  obtain ⟨f, -, hmap⟩ := connections_foldl side db u
  obtain ⟨old, hold⟩ := Option.ne_none_iff_exists'.mp h
  rw [hold, Option.map_some] at hmap
  rw [List.foldl_append, List.foldl_cons, List.foldl_nil]
  refine ⟨{ f old with
    accessTokenEncrypted := some tok, tokenExpiresAt := some exp, status := .connected },
    ?_, rfl, rfl⟩
  simp [SideWrite.apply, hmap]

/-! ### Rules -/

/-- The connection can be used, and nothing was written that the session sees. -/
def Usable (T : Interviews) (t : Instant) (u : Id) :
    Except Exc CalendarConnection → Session × World → Prop
  | .ok conn, v => Looks T t v.1 v.2 ∧ Linked u conn.accessTokenEncrypted v.2.db
  | .error _, v => Looks T t v.1 v.2

/-- The demands admit what the calendar service does on its own. -/
structure Unhindered (D : Demand Effect Session World) : Prop where
  plain : Lenient D
  commit : ∀ s w, D _ .commit s w
  refreshToken : ∀ token s w, D _ (.refreshToken token) s w

/-- The effects of the calendar service that are not about events. -/
def Effect.renews {β : Type} : Effect β → Bool
  | .commit => true
  | .refreshToken _ => true
  | o => o.plain

theorem Unhindered.renews (hD : Unhindered D) {β : Type} {o : Effect β} (ho : Effect.renews o = true)
    (s : Session) (w : World) : D β o s w := by
  cases o with
  | commit => exact hD.commit s w
  | refreshToken token => exact hD.refreshToken token s w
  | _ => exact hD.plain _ s w ho

theorem staged_of_renews {β : Type} {o : Effect β} (ho : Effect.renews o = true) : o.staged = none := by
  cases o <;> first | rfl | simp [Effect.renews, Effect.plain] at ho

/-- A part of the service that writes to no interview, while the user has a connection. -/
theorem wp_renews (hD : Unhindered D) {p : M α} (hp : p.Uses fun _ o => Effect.renews o = true)
    (h : Looks T t s w) (hu : w.db.connections u ≠ none) :
    wp (demanding C D) p (fun _ v => Looks T t v.1 v.2 ∧ v.2.db.connections u ≠ none) (s, w) := by
  refine wp_follow_uses (I := fun s w => Looks T t s w ∧ w.db.connections u ≠ none) hp
    (fun o s w ho _ => hD.renews ho s w) (fun o c s w x s' w' ho hI _ hex => ?_) ⟨h, hu⟩
  refine ⟨(hI.1.step (staged_of_renews ho) hex).1, ?_⟩
  obtain ⟨f, -, hmap⟩ := connections_of_exec hex u
  rw [hmap]
  simpa using hI.2

theorem wp_stageSide {x : SideWrite} {Q : Except Exc Unit → Session × World → Prop}
    (h : Looks T t s w) (hD : D _ (.stageSide x) s w)
    (hok : ∀ w', Looks T t { s with side := s.side ++ [x] } w' → w'.db = w.db →
      Q (.ok ()) ({ s with side := s.side ++ [x] }, w')) :
    wp (demanding C D) (dbAddSide x) Q (s, w) := by
  refine wp_follow hD fun c r s' w' _ hex => ?_
  have h' := (h.step rfl hex).1
  change respond (.stageSide x) c.answer s (w.elapse c) = _ at hex
  simp only [respond, Option.some.injEq, Prod.mk.injEq] at hex
  obtain ⟨rfl, rfl, rfl⟩ := hex
  exact hok _ h' rfl

theorem wp_flush {Q : Except Exc Unit → Session × World → Prop} (h : Looks T t s w)
    (hD : D _ .flush s w) (herr : ∀ e s' w', Looks T t s' w' → Q (.error e) (s', w'))
    (hok : ∀ s' w', Looks T t s' w' → s'.side = s.side → w'.db = w.db → Q (.ok ()) (s', w')) :
    wp (demanding C D) dbFlush Q (s, w) := by
  refine wp_follow hD fun c r s' w' _ hex => ?_
  have h' := (h.step rfl hex).1
  change respond .flush c.answer s (w.elapse c) = _ at hex
  simp only [respond] at hex
  rcases dbCall_cases hex with ⟨e, -, rfl, rfl, rfl⟩ | ⟨-, n, hex⟩
  · exact herr e _ _ h'
  · split at hex
    · simp only [Option.some.injEq, Prod.mk.injEq] at hex
      obtain ⟨rfl, rfl, rfl⟩ := hex
      exact hok _ _ h' rfl rfl
    · simp only [Option.some.injEq, Prod.mk.injEq] at hex
      obtain ⟨rfl, rfl, rfl⟩ := hex
      exact herr _ _ _ h'

theorem wp_commit {Q : Except Exc Unit → Session × World → Prop} (h : Looks T t s w)
    (hD : D _ .commit s w) (herr : ∀ e s' w', Looks T t s' w' → Q (.error e) (s', w'))
    (hok : ∀ s' w' T', Looks T t s' w' →
      w'.db = s.side.foldl SideWrite.apply { w.db with toInterviews := T' } → Q (.ok ()) (s', w')) :
    wp (demanding C D) dbCommit Q (s, w) := by
  refine wp_follow hD fun c r s' w' _ hex => ?_
  have h' := (h.step rfl hex).1
  change respond .commit c.answer s (w.elapse c) = _ at hex
  simp only [respond] at hex
  rcases dbCall_cases hex with ⟨e, -, rfl, rfl, rfl⟩ | ⟨-, n, hex⟩
  · exact herr e _ _ h'
  · split at hex
    · next T' hT' =>
      simp only [Option.some.injEq, Prod.mk.injEq] at hex
      obtain ⟨rfl, rfl, rfl⟩ := hex
      exact hok _ _ T' h' rfl
    · simp only [Option.some.injEq, Prod.mk.injEq] at hex
      obtain ⟨rfl, rfl, rfl⟩ := hex
      exact herr _ _ _ h'

/-- The row of a user's connection, as it is stored. -/
theorem wp_getByUser {Q : Except Exc (Option CalendarConnection) → Session × World → Prop}
    (hD : Lenient D) (h : Looks T t s w) (herr : ∀ e s' w', Looks T t s' w' → Q (.error e) (s', w'))
    (hok : ∀ s' w', Looks T t s' w' → Q (.ok (w'.db.connections u)) (s', w')) :
    wp (demanding C D) (getByUser u) Q (s, w) := by
  refine wp_follow (hD _ s w rfl) fun c r s' w' _ hex => ?_
  have h' := (h.step rfl hex).1
  change respond (.connectionOf u) c.answer s (w.elapse c) = _ at hex
  simp only [respond] at hex
  rcases dbCall_cases hex with ⟨e, -, rfl, rfl, rfl⟩ | ⟨-, n, hex⟩
  · exact herr e _ _ h'
  · simp only [Option.some.injEq, Prod.mk.injEq] at hex
    obtain ⟨rfl, rfl, rfl⟩ := hex
    exact hok _ _ h'

/-! ### The service -/

section Uses

open Prog

theorem renews_setStatus {st : ConnectionStatus} :
    (setStatus conn st).Uses fun _ o => Effect.renews o = true :=
  uses_bind (uses_perform rfl) fun _ => uses_bind (uses_perform rfl) fun _ => uses_pure

end Uses

/-- A refreshed token is stored. -/
theorem usable_refresh (hD : Unhindered D) (h : Looks T t s w) {email : String}
    (hu : w.db.connections conn.userId ≠ none) :
    wp (demanding C D) (refresh pf conn email) (Usable T t conn.userId) (s, w) := by
  unfold refresh
  split
  · -- the grant has lapsed
    refine wp_bind (wp_mono (wp_renews hD renews_setStatus h hu) ?_)
    rintro (e | _) ⟨s₁, w₁⟩ ⟨h₁, hu₁⟩
    · exact h₁
    exact wp_bind (wp_commit h₁ (hD.commit _ _) (fun _ _ _ h => h) fun _ _ _ h _ => h)
  · refine wp_bind (wp_mono (wp_renews hD (Prog.uses_tryCatch ?_ fun e => ?_) h hu) ?_)
    · exact Prog.uses_bind Prog.uses_orRaise fun _ => Prog.uses_perform rfl
    · cases e with
      | calendarAuthError =>
        exact Prog.uses_bind renews_setStatus fun _ =>
          Prog.uses_bind (Prog.uses_perform rfl) fun _ => Prog.uses_throw
      | _ => exact Prog.uses_throw
    rintro (e | bundle) ⟨s₁, w₁⟩ ⟨h₁, hu₁⟩
    · exact h₁
    refine wp_bind (wp_orRaise (fun _ => h₁) fun accessTokenEncrypted _ => ?_)
    refine wp_bind (wp_mono (wp_renews hD (Prog.uses_perform rfl) h₁ hu₁) ?_)
    rintro (e | t') ⟨s₂, w₂⟩ ⟨h₂, hu₂⟩
    · exact h₂
    refine wp_bind (wp_bind (wp_stageSide h₂ (hD.plain _ _ _ rfl) fun w₃ h₃ hdb₃ => ?_))
    refine wp_bind (wp_flush h₃ (hD.plain _ _ _ rfl) (fun _ _ _ h => h) fun s₄ w₄ h₄ hside₄ hdb₄ => ?_)
    change wp (demanding C D) (dbCommit >>= fun _ => _) _ (s₄, w₄)
    refine wp_bind (wp_commit h₄ (hD.commit _ _) (fun _ _ _ h => h) fun s₅ w₅ T' h₅ hdb₅ => ?_)
    refine And.intro h₅ ?_
    rw [hdb₅, hside₄]
    refine linked_of_setAccessToken ?_
    rw [hdb₄, hdb₃]
    exact hu₂

/-- **A connection that is used is CONNECTED**, and its token the stored one. -/
theorem usable_usableConnection (hC : ∀ {β : Type} (o : Effect β) c s w, C β o c s w → Keyed w)
    (hD : Unhindered D) (h : Looks T t s w) {user : User} :
    wp (demanding C D) (usableConnection pf user) (Usable T t user.id) (s, w) := by
  refine wp_bind (wp_getByUser hD.plain h (fun _ _ _ h => h) fun s₁ w₁ h₁ => ?_)
  refine wp_bind (wp_orRaise (fun _ => h₁) fun conn hconn => ?_)
  refine wp_bind (wp_raiseIf (fun _ => h₁) fun hrevoked => ?_)
  refine wp_bind (wp_raiseIf (fun _ => h₁) fun hdisconnected => ?_)
  refine wp_bind (wp_follow (hD.plain _ _ _ rfl) fun c x s₂ w₂ hc hex => ?_)
  have hkey : conn.userId = user.id := hC _ c s₁ w₁ hc _ conn hconn
  have h₂ := (h₁.step rfl hex).1
  have hdb : w₂.db = w₁.db := by
    change respond .now c.answer s₁ (w₁.elapse c) = _ at hex
    simp only [respond, Option.some.injEq, Prod.mk.injEq] at hex
    obtain ⟨-, -, rfl⟩ := hex
    rfl
  cases x with
  | error e => exact h₂
  | ok t' =>
    have hconn₂ : w₂.db.connections user.id = some conn := by
      rw [hdb]
      exact hconn
    dsimp only [Then]
    split
    · rw [← hkey]
      refine usable_refresh hD h₂ ?_
      rw [hkey, hconn₂]
      simp
    · next hfresh =>
      have hst : conn.status = .connected := by
        have hexpired : conn.status ≠ .expired := fun hst => hfresh (.inl hst)
        cases hs : conn.status <;> simp_all
      exact wp_pure ⟨h₂, conn, hconn₂, hst, rfl⟩

end InterviewScheduler.Calendar
