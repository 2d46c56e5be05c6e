import InterviewScheduler.Core.Move
import InterviewScheduler.Core.Transaction

/-! # A handler that asks, and then writes

Before its first write a handler that runs alone stages nothing but renewals of calendar connections.
`Asking T A t` is that phase: the interview tables are `T`, the audit log is `A`, the time is `t` or
later. `Writing` is what follows, up to the commit. -/

namespace InterviewScheduler.Core

open InterviewScheduler.Engine InterviewScheduler.Effects

/-- The effects with which a handler asks. -/
def Effect.asks {β : Type} : Effect β → Bool
  | .stage _ => false
  | .stageSide x => x.isRenewal
  | .createEvent _ _ => false
  | .deleteEvent _ _ => false
  | _ => true

/-- The blocks that an effect puts into the cache. -/
def Effect.cached {β : Type} : Effect β → List BusyInterval
  | .cacheSet _ busy => busy
  | _ => []

/-- It only asks, and what it puts into the cache are blocks of which `B` holds. -/
def Asks (B : BusyInterval → Prop) (β : Type) (o : Effect β) : Prop :=
  o.asks = true ∧ ∀ b ∈ o.cached, B b

/-- An exception that neither the lock nor the evaluation of a request raises. -/
def Exc.OfOthers : Exc → Prop
  | .app cls _ => cls ≠ .noCommonAvailabilityError ∧ cls ≠ .appError
  | .lockNotAcquired => False
  | _ => True

/-- What effects answer: exceptions of libraries, and busy blocks of which `B` holds. -/
def Replies (B : BusyInterval → Prop) (β : Type) (o : Effect β) (x : Except Exc β) : Prop :=
  match o, x with
  | _, .error e => e.OfOthers ∧ e.isApp = false
  | .freeBusy _ _ _, .ok blocks => ∀ b ∈ blocks, B b
  | .cacheGet _, .ok (some blocks) => ∀ b ∈ blocks, B b
  | _, _ => True

/-- The busy blocks that a call is given satisfy `B`, whether they come from Google or from the cache. -/
def Blocks (B : BusyInterval → Prop) : Condition Effect Choice Session World := fun _ o c _ w =>
  match o with
  | .freeBusy _ _ _ => ∀ blocks, c.answer = .busy blocks → ∀ b ∈ blocks, B b
  | .cacheGet key => ∀ blocks, w.cache key = some blocks → ∀ b ∈ blocks, B b
  | _ => True

section Steps

variable {B : BusyInterval → Prop} {T : Interviews} {A : List AuditLog} {t : Instant} {β : Type}
  {o : Effect β} {c : Choice} {a : Answer} {s s' : Session} {w w' : World} {x : Except Exc β}

theorem ofOthers_of_respond {e : Exc} (h : respond o a s w = some (.error e, s', w')) :
    e.OfOthers ∧ e.isApp = false := by
  cases o <;> simp only [respond, dbCall, outerCall, googleCall] at h
  all_goals repeat' split at h
  all_goals simp only [Option.some.injEq, Prod.mk.injEq, reduceCtorEq, false_and,
    Except.error.injEq] at h
  all_goals obtain ⟨rfl, -, -⟩ := h
  all_goals exact ⟨trivial, rfl⟩

theorem replies_of_exec (hc : Blocks B β o c s w) (h : machine.exec o c s w = some (x, s', w')) :
    Replies B β o x := by
  change respond o c.answer s (w.elapse c) = _ at h
  cases x with
  | error e =>
    have he := ofOthers_of_respond h
    cases o <;> exact he
  | ok y =>
    cases o with
    | freeBusy token tmin tmax =>
      simp only [respond, googleCall] at h
      cases ha : c.answer with
      | busy blocks =>
        simp only [ha, Option.some.injEq, Prod.mk.injEq, Except.ok.injEq] at h
        obtain ⟨rfl, -, -⟩ := h
        exact hc _ ha
      | _ => simp [ha] at h
    | cacheGet key =>
      simp only [respond, outerCall] at h
      cases ha : c.answer with
      | ok =>
        simp only [ha, Option.some.injEq, Prod.mk.injEq, Except.ok.injEq] at h
        obtain ⟨rfl, -, -⟩ := h
        cases hcache : (w.elapse c).cache key with
        | none => trivial
        | some blocks =>
          refine hc blocks ?_
          change (if key ∈ c.evicted then none else w.cache key) = some blocks at hcache
          split_ifs at hcache
          exact hcache
      | _ => simp [ha] at h
    | _ => trivial

end Steps

/-! ### Before the first write -/

/-- The tables and the audit log are as they were, and only renewals are pending. -/
structure Asking (T : Interviews) (A : List AuditLog) (t : Instant) (s : Session) (w : World) : Prop
    extends Looks T t s w where
  audits : w.db.audits = A
  renewals : ∀ y ∈ s.side, y.isRenewal = true

theorem asking_empty (w : World) : Asking w.db.toInterviews w.db.audits w.now {} w :=
  ⟨looks_empty w, rfl, by simp⟩

/-- Renewals leave the audit log alone. -/
theorem audits_foldl_renewals {side : List SideWrite} (h : ∀ y ∈ side, y.isRenewal = true) (db : Db) :
    (side.foldl SideWrite.apply db).audits = db.audits := by
  induction side generalizing db with
  | nil => rfl
  | cons y side ih =>
    rw [List.foldl_cons, ih fun z hz => h z (List.mem_cons_of_mem _ hz)]
    have hy := h y List.mem_cons_self
    cases y with
    | setConnectionStatus u st => rfl
    | setAccessToken u tok exp => rfl
    | _ => simp [SideWrite.isRenewal] at hy

section Rules

variable {C : Condition Effect Choice Session World} {D : Demand Effect Session World}
  {B : BusyInterval → Prop} {T : Interviews} {A : List AuditLog} {t : Instant} {α β : Type}
  {s s' : Session} {w w' : World} {o : Effect β} {c : Choice} {x : Except Exc β}

theorem staged_of_asks (h : o.asks = true) : o.staged = none := by
  cases o <;> first | rfl | simp [Effect.asks] at h

theorem Asking.step (h : Asking T A t s w) (ho : o.asks = true)
    (hex : machine.exec o c s w = some (x, s', w')) :
    Asking T A t s' w' ∧ ∀ y, x = .ok y → Truthful T o y := by
  obtain ⟨hlooks, htrue⟩ := h.toLooks.step (staged_of_asks ho) hex
  refine ⟨⟨hlooks, ?_, ?_⟩, htrue⟩
  · rcases respond_cases (w := w.elapse c) hex with ⟨-, -, T', -, -, rfl⟩ | ⟨-, hdb, -⟩
    · exact (audits_foldl_renewals h.renewals _).trans h.audits
    · rw [hdb]
      exact h.audits
  · rcases respond_cases (w := w.elapse c) hex with ⟨-, -, T', -, rfl, -⟩ | ⟨hn, -, -⟩
    · simp [Session.committed]
    · rcases (respond_idle hex hn).2 with hside | hside | ⟨y, hy, hside⟩
      · rw [hside]
        exact h.renewals
      · simp [hside]
      · rw [hside]
        intro z hz
        rcases List.mem_append.mp hz with hz | hz
        · exact h.renewals z hz
        · obtain rfl := List.mem_singleton.mp hz
          cases o with
          | stageSide y =>
            obtain rfl : y = z := Option.some.inj hy
            exact ho
          | _ => simp [Effect.sideWrite] at hy

variable (hD : ∀ {β : Type} (o : Effect β) s w, D β o s w)
  (hC : ∀ {β : Type} (o : Effect β) c s w, C β o c s w → Blocks B β o c s w)

include hD hC

/-- One effect, which answers truthfully. -/
theorem wp_asking {o : Effect α} (h : Asking T A t s w) (ho : o.asks = true)
    {Q : Except Exc α → Session × World → Prop}
    (herr : ∀ e : Exc, e.OfOthers → e.isApp = false → ∀ s' w', Asking T A t s' w' → Q (.error e) (s', w'))
    (hok : ∀ y s' w', Asking T A t s' w' → Truthful T o y → Q (.ok y) (s', w')) :
    wp (demanding C D) (.perform o) Q (s, w) := by
  refine wp_follow (hD o s w) fun c x s' w' hc hex => ?_
  obtain ⟨h', htrue⟩ := h.step ho hex
  have hreply := replies_of_exec (hC o c s w hc) hex
  cases x with
  | error e =>
    obtain ⟨he, happ⟩ : e.OfOthers ∧ e.isApp = false := by cases o <;> exact hreply
    exact herr e he happ s' w' h'
  | ok y => exact hok y s' w' h' (htrue y rfl)

omit hC in
/-- The time that is told has come. -/
theorem wp_asking_now (h : Asking T A t s w) {Q : Except Exc Instant → Session × World → Prop}
    (hok : ∀ x s' w', Asking T A t s' w' → t ≤ x → Q (.ok x) (s', w')) :
    wp (demanding C D) now Q (s, w) := by
  refine wp_follow (hD _ s w) fun c r s' w' _ hex => ?_
  obtain rfl := now_of_now hex
  obtain ⟨h', -⟩ := h.step rfl hex
  exact hok _ s' w' h' h'.now

/-- A part that is proved without a look at the state. -/
theorem wp_asking_part {p : M α} {R : Except Exc α → Prop} (h : Asking T A t s w)
    (hp : wp (.answering (Asks B) (Replies B)) p (fun x _ => R x) ())
    {Q : Except Exc α → Session × World → Prop}
    (hQ : ∀ x s' w', Asking T A t s' w' → R x → Q x (s', w')) : wp (demanding C D) p Q (s, w) :=
  wp_mono (wp_follow_answering (I := Asking T A t) hp (fun o s w _ _ => hD o s w)
    (fun o c s w _ _ _ ho h hc hex => ⟨(h.step ho.1 hex).1, replies_of_exec (hC o c s w hc) hex⟩) h)
    fun x v hx => hQ x v.1 v.2 hx.2 hx.1

/-- A block under a lock, when the end depends on the stored tables only. -/
theorem wp_asking_lock {key : LockKey} {ttlSeconds : ℕ} {block : M α} (h : Asking T A t s w)
    {Q : Except Exc α → Db → Prop}
    (herr : ∀ e : Exc, e.OfOthers → ∀ s' w', Asking T A t s' w' → Q (.error e) w'.db)
    (hblock : ∀ s' w', Asking T A t s' w' → wp (demanding C D) block (fun x v => Q x v.2.db) (s', w')) :
    wp (demanding C D) (redisLock key ttlSeconds block)
      (fun x v => Q x v.2.db ∨ x = .error .lockNotAcquired ∧ Asking T A t v.1 v.2) (s, w) := by
  have hleft : ∀ s' w', Asking T A t s' w' → wp (demanding C D) block
      (fun x v => Q x v.2.db ∨ x = .error .lockNotAcquired ∧ Asking T A t v.1 v.2) (s', w') :=
    fun s' w' h' => wp_mono (hblock s' w' h') fun _ _ hq => .inl hq
  refine wp_bind (wp_asking hD hC h rfl (fun e he _ s₁ w₁ h₁ => .inl (herr e he s₁ w₁ h₁))
    fun token s₁ w₁ h₁ _ => ?_)
  refine wp_bind_attempt (wp_asking hD hC h₁ rfl (fun e _ _ s₂ w₂ h₂ => hleft s₂ w₂ h₂)
    fun taken s₂ w₂ h₂ _ => ?_)
  cases taken with
  | false => exact wp_throw (.inr ⟨rfl, h₂⟩)
  | true =>
    refine wp_finallyDo (wp_mono (hblock s₂ w₂ h₂) fun x v hq => ?_)
    refine wp_follow (hD _ _ _) fun c y s₃ w₃ _ hex => .inl ?_
    replace hex : respond (.release key token) c.answer v.1 (v.2.elapse c) = some (y, s₃, w₃) := hex
    rcases respond_cases hex with ⟨hc, -⟩ | ⟨-, hdb, -⟩
    · exact hc.elim
    · rw [hdb]
      exact hq

/-! ### From the first write to the commit -/

omit hC

/-- The interview tables and the audit log are as they were. -/
def Unwritten (T : Interviews) (A : List AuditLog) (db : Db) : Prop :=
  db.toInterviews = T ∧ db.audits = A

/-- The writes that are pending, and the status of the request as the session sees it. -/
structure Writing (T : Interviews) (A : List AuditLog) (r : Id) (st : RequestStatus) (ws : List Write)
    (entries : List AuditLog) (s : Session) (w : World) : Prop where
  tables : w.db.toInterviews = T
  audits : w.db.audits = A
  pending : s.pending = ws
  side : ∃ rs, (∀ y ∈ rs, SideWrite.isRenewal y = true) ∧ s.side = rs ++ entries.map .insertAudit
  copy : ∀ row, s.copies r = some row → row.status = st

omit hD in
theorem Asking.writing (h : Asking T A t s w) {r : Id} {row : InterviewRequest}
    (hrow : T.requests r = some row) : Writing T A r row.status [] [] s w := by
  refine ⟨h.tables, h.audits, h.pending, ⟨s.side, h.renewals, by simp⟩, fun row' hrow' => ?_⟩
  have hT := h.copies r row' hrow'
  rw [hrow, Option.some.injEq] at hT
  rw [hT]

variable {r : Id} {st : RequestStatus} {ws : List Write} {entries : List AuditLog}

/-- The session takes a write. -/
theorem wp_writing_add (h : Writing T A r st ws entries s w) {y : Write} {st' : RequestStatus}
    (hpending : (s.stage y).pending = s.pending ++ [y])
    (hcopy : ∀ row, (s.stage y).copies r = some row → row.status = st')
    {Q : Except Exc Unit → Session × World → Prop}
    (hQ : ∀ s' w', Writing T A r st' (ws ++ [y]) entries s' w' → Q (.ok ()) (s', w')) :
    wp (demanding C D) (dbAdd y) Q (s, w) := by
  refine wp_follow (hD _ _ _) fun c x s' w' _ hex => ?_
  change respond (.stage y) c.answer s (w.elapse c) = _ at hex
  simp only [respond, Option.some.injEq, Prod.mk.injEq] at hex
  obtain ⟨rfl, rfl, rfl⟩ := hex
  refine hQ _ _ ⟨h.tables, h.audits, by rw [hpending, h.pending], ?_, hcopy⟩
  rw [s.stage_side]
  exact h.side

/-- A run leaves the session's copies as they are. -/
theorem wp_writing_insertRun (h : Writing T A r st ws entries s w) {run : RecommendationRun}
    {Q : Except Exc Unit → Session × World → Prop}
    (hQ : ∀ s' w', Writing T A r st (ws ++ [.insertRun run]) entries s' w' → Q (.ok ()) (s', w')) :
    wp (demanding C D) (dbAdd (.insertRun run)) Q (s, w) :=
  wp_writing_add (y := .insertRun run) hD h rfl h.copy hQ

theorem wp_writing_setStatus (h : Writing T A r st ws entries s w) {st' : RequestStatus} (hne : st ≠ st')
    {Q : Except Exc Unit → Session × World → Prop}
    (hQ : ∀ s' w', Writing T A r st' (ws ++ [.setStatus r st']) entries s' w' → Q (.ok ()) (s', w')) :
    wp (demanding C D) (dbAdd (.setStatus r st')) Q (s, w) := by
  have hstage : s.stage (.setStatus r st') = { s.modifyCopy r fun row => { row with status := st' } with
      pending := s.pending ++ [.setStatus r st'] } := by
    have hnot : (s.copies r).any (fun row => row.status = st') = false := by
      cases hcopy : s.copies r with
      | none => rfl
      | some row => simpa [h.copy row hcopy] using hne
    simp only [Session.stage, hnot]
    rfl
  refine wp_writing_add hD h (by rw [hstage]) (fun row hrow => ?_) hQ
  rw [hstage] at hrow
  simp only [Session.modifyCopy, Function.update_self] at hrow
  obtain ⟨row₀, -, rfl⟩ := Option.map_eq_some_iff.mp hrow
  rfl

theorem wp_writing_flush (h : Writing T A r st ws entries s w)
    {Q : Except Exc Unit → Session × World → Prop}
    (herr : ∀ e : Exc, e.OfOthers → ∀ s' w', Unwritten T A w'.db → Q (.error e) (s', w'))
    (hok : ∀ s' w', Writing T A r st ws entries s' w' → Q (.ok ()) (s', w')) :
    wp (demanding C D) dbFlush Q (s, w) := by
  refine wp_follow (hD _ _ _) fun c x s' w' _ hex => ?_
  change respond .flush c.answer s (w.elapse c) = _ at hex
  cases x with
  | error e =>
    refine herr e (ofOthers_of_respond hex).1 s' w' ?_
    rcases respond_cases hex with ⟨hc, -⟩ | ⟨-, hdb, -⟩
    · exact hc.elim
    · rw [hdb]
      exact ⟨h.tables, h.audits⟩
  | ok u =>
    simp only [respond] at hex
    rcases dbCall_cases hex with ⟨e, -, hx, -, -⟩ | ⟨-, n, hex⟩
    · simp at hx
    · split at hex
      · simp only [Option.some.injEq, Prod.mk.injEq] at hex
        obtain ⟨-, rfl, rfl⟩ := hex
        exact hok _ _ ⟨h.tables, h.audits, h.pending, h.side, h.copy⟩
      · simp at hex

/-- An entry of the audit log. -/
theorem wp_writing_audit (h : Writing T A r st ws entries s w) {actor : User} {action : String} {id : Id}
    {metadata : List (String × String)} {Q : Except Exc Unit → Session × World → Prop}
    (herr : ∀ e : Exc, e.OfOthers → ∀ s' w', Unwritten T A w'.db → Q (.error e) (s', w'))
    (hok : ∀ s' w', Writing T A r st ws (entries ++ [⟨actor.id, actor.role, action,
      "interview_request", id, metadata⟩]) s' w' → Q (.ok ()) (s', w')) :
    wp (demanding C D) (recordAudit actor action id metadata) Q (s, w) := by
  refine wp_bind (wp_follow (hD _ _ _) fun c x s₁ w₁ _ hex => ?_)
  replace hex : respond (.stageSide (.insertAudit ⟨actor.id, actor.role, action, "interview_request", id,
    metadata⟩)) c.answer s (w.elapse c) = some (x, s₁, w₁) := hex
  simp only [respond, Option.some.injEq, Prod.mk.injEq] at hex
  obtain ⟨rfl, rfl, rfl⟩ := hex
  obtain ⟨rs, hrs, hside⟩ := h.side
  have h₁ : Writing T A r st ws (entries ++ [⟨actor.id, actor.role, action, "interview_request", id,
      metadata⟩]) { s with side := s.side ++ [.insertAudit ⟨actor.id, actor.role, action,
        "interview_request", id, metadata⟩] } (w.elapse c) :=
    ⟨h.tables, h.audits, h.pending, ⟨rs, hrs, by simp [hside]⟩, h.copy⟩
  exact wp_writing_flush hD h₁ herr hok

/-- What is pending is committed, or nothing is. -/
theorem wp_writing_commit (h : Writing T A r st ws entries s w)
    {Q : Except Exc Unit → Session × World → Prop}
    (herr : ∀ e : Exc, e.OfOthers → ∀ s' w', Unwritten T A w'.db → Q (.error e) (s', w'))
    (hok : ∀ s' w', w'.db.toInterviews = Write.force ws T → w'.db.audits = A ++ entries →
      Q (.ok ()) (s', w')) : wp (demanding C D) dbCommit Q (s, w) := by
  refine wp_follow (hD _ _ _) fun c x s' w' _ hex => ?_
  change respond .commit c.answer s (w.elapse c) = _ at hex
  rcases respond_cases hex with ⟨-, ⟨u, rfl⟩, T', hT', -, rfl⟩ | ⟨hn, hdb, -⟩
  · have hforce := Write.applyAll_eq_force hT'
    have htables : (w.elapse c).db.toInterviews = T := h.tables
    rw [h.pending, htables] at hforce
    refine hok _ _ ?_ ?_
    · rw [World.commit_toInterviews, hforce]
    · obtain ⟨rs, hrs, hside⟩ := h.side
      have hentries : ∀ (es : List AuditLog) (db : Db),
          ((es.map SideWrite.insertAudit).foldl SideWrite.apply db).audits = db.audits ++ es := by
        intro es
        induction es with
        | nil => simp
        | cons e es ih =>
          intro db
          rw [List.map_cons, List.foldl_cons, ih]
          simp [SideWrite.apply]
      change (s.side.foldl SideWrite.apply _).audits = _
      rw [hside, List.foldl_append, hentries, audits_foldl_renewals hrs]
      congr 1
      exact h.audits
  · cases x with
    | error e =>
      refine herr e (ofOthers_of_respond hex).1 s' w' ?_
      rw [hdb]
      exact ⟨h.tables, h.audits⟩
    | ok u =>
      rcases hn with hn | ⟨e, he⟩
      · exact absurd trivial hn
      · simp at he

end Rules

end InterviewScheduler.Core
