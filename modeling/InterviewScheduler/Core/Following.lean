import InterviewScheduler.Effects.Follow
import InterviewScheduler.Core.Reading

/-! # A handler before its first write

A handler that runs alone sees the tables as they are until it stages a write of its own; what it
commits before is about other tables. `Looks T t` is the states of that phase, at the time `t` or later:
the demands on what comes later are proved from what the handler has read there. -/

namespace InterviewScheduler.Core

open InterviewScheduler.Engine InterviewScheduler.Effects

/-- The write that an effect adds to the transaction. -/
def Effect.staged {β : Type} : Effect β → Option Write
  | .stage y => some y
  | _ => none

/-- The effects that no demand is made on: what is read, and what stays in the process. -/
def Effect.plain {β : Type} : Effect β → Bool
  | .confirmedEvent _ => false
  | .stage _ => false
  | .commit => false
  | .createEvent _ _ => false
  | .deleteEvent _ _ => false
  | .freeBusy _ _ _ => false
  | .refreshToken _ => false
  | _ => true

/-- Nothing is demanded of plain effects. -/
def Lenient (D : Demand Effect Session World) : Prop :=
  ∀ {β : Type} (o : Effect β) (s : Session) (w : World), o.plain = true → D β o s w

theorem staged_of_plain {β : Type} {o : Effect β} (h : o.plain = true) : o.staged = none := by
  cases o <;> first | rfl | simp [Effect.plain] at h

/-- The tables are `T`, and so does the session see them. -/
structure Looks (T : Interviews) (t : Instant) (s : Session) (w : World) : Prop where
  tables : w.db.toInterviews = T
  copies : ∀ r row, s.copies r = some row → T.requests r = some row
  pending : s.pending = []
  now : t ≤ w.now

theorem looks_empty (w : World) : Looks w.db.toInterviews w.now {} w :=
  ⟨rfl, fun _ _ h => by simp at h, rfl, le_rfl⟩

section Steps

variable {T : Interviews} {t : Instant} {β : Type} {o : Effect β} {c : Choice} {s s' : Session}
  {w w' : World} {x : Except Exc β}

theorem Looks.later {t' : Instant} (h : Looks T t s w) (ht : t' ≤ w.now) : Looks T t' s w :=
  ⟨h.tables, h.copies, h.pending, ht⟩

/-- No effect turns the clock. -/
theorem now_of_respond {a : Answer} (h : respond o a s w = some (x, s', w')) : w'.now = w.now := by
  cases o <;> simp only [respond, dbCall, outerCall, googleCall] at h
  all_goals repeat' split at h
  all_goals simp only [Option.some.injEq, Prod.mk.injEq, reduceCtorEq] at h
  all_goals obtain ⟨-, -, rfl⟩ := h
  all_goals rfl

/-- Time passes. -/
theorem now_of_exec (h : machine.exec o c s w = some (x, s', w')) : w.now < w'.now := by
  have hlt : w.now < (w.elapse c).now := by
    change w.now < w.now + c.elapsed + 1
    lia
  exact hlt.trans_eq (now_of_respond (w := w.elapse c) h).symm

/-- The pending writes are kept or dropped, unless one is staged. -/
theorem pending_of_respond {a : Answer} (ho : o.staged = none)
    (h : respond o a s w = some (x, s', w')) : s'.pending = s.pending ∨ s'.pending = [] := by
  cases o <;> simp only [respond, dbCall, outerCall, googleCall] at h
  all_goals repeat' split at h
  all_goals simp only [Option.some.injEq, Prod.mk.injEq, reduceCtorEq] at h
  all_goals obtain ⟨-, rfl, -⟩ := h
  all_goals first
    | exact .inl rfl
    | exact .inr rfl
    | simp [Effect.staged] at ho

/-- A write that is pending was so before, or is the one that is staged. -/
theorem pending_of_exec (h : machine.exec o c s w = some (x, s', w')) :
    ∀ z ∈ s'.pending, z ∈ s.pending ∨ o.staged = some z := by
  cases ho : o.staged with
  | none =>
    rcases pending_of_respond ho h with hp | hp
    · exact fun z hz => .inl (hp ▸ hz)
    · simp [hp]
  | some y =>
    cases o with
    | stage y' =>
      obtain rfl : y' = y := Option.some.inj ho
      change respond (.stage y') c.answer s (w.elapse c) = _ at h
      simp only [respond, Option.some.injEq, Prod.mk.injEq] at h
      obtain ⟨-, rfl, -⟩ := h
      have hstage : ∀ z ∈ s.pending ++ [y'], z ∈ s.pending ∨ some y' = some z := by
        intro z hz
        exact (List.mem_append.mp hz).imp_right fun hz => by rw [List.mem_singleton.mp hz]
      intro z hz
      cases y' with
      | setStatus r st =>
        simp only [Session.stage] at hz
        split at hz
        · exact .inl hz
        · exact hstage z hz
      | _ => exact hstage z hz
    | _ => simp [Effect.staged] at ho

/-- **Nothing but a staged write ends the phase**, and until then the answers are true. -/
theorem Looks.step (h : Looks T t s w) (ho : o.staged = none)
    (hex : machine.exec o c s w = some (x, s', w')) :
    Looks T t s' w' ∧ ∀ y, x = .ok y → Truthful T o y := by
  have hnow := now_of_exec hex
  replace hex : respond o c.answer s (w.elapse c) = some (x, s', w') := hex
  have hw : (w.elapse c).db.toInterviews = T := h.tables
  have hpending : s'.pending = [] := (pending_of_respond ho hex).elim (·.trans h.pending) id
  have htables : w'.db.toInterviews = T := by
    rcases respond_cases hex with ⟨-, -, T', hT', -, rfl⟩ | ⟨-, hdb, -⟩
    · rw [h.pending, Write.applyAll, Option.some.injEq] at hT'
      rw [World.commit_toInterviews, ← hT', hw]
    · rw [hdb, hw]
  have hlooks : (∀ r row, s'.copies r = some row → T.requests r = some row) → Looks T t s' w' :=
    fun hcopies => ⟨htables, hcopies, hpending, h.now.trans hnow.le⟩
  cases hwrites : o.writes with
  | false =>
    obtain ⟨htrue, hcopies⟩ := truthful_of_respond hwrites hw h.copies hex
    exact ⟨hlooks hcopies, htrue⟩
  | true =>
    cases o with
    | commit =>
      refine ⟨hlooks ?_, fun _ _ => trivial⟩
      rcases respond_cases hex with ⟨-, -, T', -, rfl, -⟩ | ⟨herr, -⟩
      · exact h.copies
      · simp only [respond] at hex
        rcases dbCall_cases hex with ⟨e, -, -, rfl, -⟩ | ⟨-, n, hex⟩
        · exact fun r row hrow => by simp [Session.fail] at hrow
        · split at hex
          · simp only [Option.some.injEq, Prod.mk.injEq] at hex
            obtain ⟨-, rfl, -⟩ := hex
            exact h.copies
          · simp only [Option.some.injEq, Prod.mk.injEq] at hex
            obtain ⟨-, rfl, -⟩ := hex
            exact fun r row hrow => by simp [Session.fail] at hrow
    | stage y => simp [Effect.staged] at ho
    | _ => simp [Effect.writes] at hwrites

/-- What the clock says. -/
theorem now_of_now {x : Except Exc Instant} (hex : machine.exec .now c s w = some (x, s', w')) :
    x = .ok w'.now := by
  change respond .now c.answer s (w.elapse c) = some (x, s', w') at hex
  simp only [respond, Option.some.injEq, Prod.mk.injEq] at hex
  obtain ⟨rfl, -, rfl⟩ := hex
  rfl

end Steps

/-! ### Rules -/

/-- The handlers, with a demand on their effects. -/
abbrev demanding (C : Condition Effect Choice Session World) (D : Demand Effect Session World) :
    Logic Effect Exc (Session × World) :=
  .following machine C D

/-- The tables are still `T`, whatever the session has staged. -/
structure Lasts (T : Interviews) (t : Instant) (w : World) : Prop where
  tables : w.db.toInterviews = T
  now : t ≤ w.now

theorem Looks.lasts {T : Interviews} {t : Instant} {s : Session} {w : World} (h : Looks T t s w) :
    Lasts T t w := ⟨h.tables, h.now⟩

theorem Lasts.step {T : Interviews} {t : Instant} {β : Type} {o : Effect β} {c : Choice}
    {s s' : Session} {w w' : World} {x : Except Exc β} (h : Lasts T t w) (ho : ¬ o.IsCommit)
    (hex : machine.exec o c s w = some (x, s', w')) : Lasts T t w' := by
  have hnow := now_of_exec hex
  rcases respond_cases (w := w.elapse c) hex with ⟨hc, -⟩ | ⟨-, hdb, -⟩
  · exact absurd hc ho
  · exact ⟨by rw [hdb]; exact h.tables, h.now.trans hnow.le⟩

section Rules

variable {C : Condition Effect Choice Session World} {D : Demand Effect Session World}
  {T : Interviews} {t : Instant} {α β : Type} {s : Session} {w : World}

/-- An effect of the phase. -/
theorem wp_looks {o : Effect α} {Q : Except Exc α → Session × World → Prop} (h : Looks T t s w)
    (ho : o.staged = none) (hD : D α o s w)
    (herr : ∀ e s' w', Looks T t s' w' → Q (.error e) (s', w'))
    (hok : ∀ x s' w', Looks T t s' w' → Truthful T o x → Q (.ok x) (s', w')) :
    wp (demanding C D) (.perform o) Q (s, w) := by
  refine wp_follow hD fun c r s' w' _ hex => ?_
  obtain ⟨h', htrue⟩ := h.step ho hex
  cases r with
  | error e => exact herr e s' w' h'
  | ok x => exact hok x s' w' h' (htrue x rfl)

/-- The time that is told is the time now. -/
theorem wp_looks_now {Q : Except Exc Instant → Session × World → Prop} (h : Looks T t s w)
    (hD : D _ .now s w) (hok : ∀ x s' w', Looks T x s' w' → Q (.ok x) (s', w')) :
    wp (demanding C D) now Q (s, w) := by
  refine wp_follow hD fun c r s' w' _ hex => ?_
  obtain rfl := now_of_now hex
  exact hok _ _ _ ((h.step rfl hex).1.later le_rfl)

/-- The end of a part of a handler, before the first write. -/
def Looking (T : Interviews) (t : Instant) (D : α → Prop) : Except Exc α → Session × World → Prop
  | .ok a, v => Looks T t v.1 v.2 ∧ D a
  | .error _, v => Looks T t v.1 v.2

/-- A part of a handler, followed by the rest. -/
theorem wp_bind_looking {p : M α} {f : α → M β} {R : α → Prop}
    {Q : Except Exc β → Session × World → Prop}
    (hp : wp (demanding C D) p (Looking T t R) (s, w))
    (herr : ∀ e s' w', Looks T t s' w' → Q (.error e) (s', w'))
    (hf : ∀ a s' w', Looks T t s' w' → R a → wp (demanding C D) (f a) Q (s', w')) :
    wp (demanding C D) (p >>= f) Q (s, w) := by
  refine wp_bind (wp_mono hp ?_)
  rintro (e | a) ⟨s', w'⟩ h
  · exact herr e s' w' h
  · exact hf a s' w' h.1 h.2

theorem looking_effect {o : Effect α} (h : Looks T t s w) (ho : o.staged = none) (hD : D α o s w) :
    wp (demanding C D) (.perform o) (Looking T t (Truthful T o)) (s, w) :=
  wp_looks h ho hD (fun _ _ _ h' => h') fun _ _ _ h' hx => ⟨h', hx⟩

theorem looking_plain {o : Effect α} (hD : Lenient D) (h : Looks T t s w) (ho : o.plain = true) :
    wp (demanding C D) (.perform o) (Looking T t (Truthful T o)) (s, w) :=
  looking_effect h (staged_of_plain ho) (hD o s w ho)

/-- A part of a handler with plain effects only. -/
theorem wp_looks_uses {p : M α} (hD : Lenient D) (hp : p.Uses fun _ o => o.plain = true)
    (h : Looks T t s w) : wp (demanding C D) p (fun _ v => Looks T t v.1 v.2) (s, w) :=
  wp_follow_uses hp (fun o s w ho _ => hD o s w ho)
    (fun _ _ _ _ _ _ _ ho hI _ hex => (hI.step (staged_of_plain ho) hex).1) h

theorem looking_raiseIf {c : Prop} [Decidable c] {e : Exc} (h : Looks T t s w) :
    wp (demanding C D) (Prog.raiseIf c e) (Looking T t fun _ => ¬ c) (s, w) :=
  wp_raiseIf (fun _ => h) fun hc => ⟨h, hc⟩

theorem looking_orRaise {x : Option α} {e : Exc} (h : Looks T t s w) :
    wp (demanding C D) (Prog.orRaise x e) (Looking T t fun a => x = some a) (s, w) :=
  wp_orRaise (fun _ => h) fun _ hx => ⟨h, hx⟩

/-- An effect other than a commit. -/
theorem wp_lasts {o : Effect α} (h : Lasts T t w) (hD : D α o s w)
    {Q : Except Exc α → Session × World → Prop} (hQ : ∀ x s' w', Lasts T t w' → Q x (s', w'))
    (ho : ¬ o.IsCommit := by exact not_false) :
    wp (demanding C D) (.perform o) Q (s, w) :=
  wp_follow hD fun _ x s' w' _ hex => hQ x s' w' (h.step ho hex)

/-- An effect other than a commit, followed by the rest. -/
theorem wp_bind_lasts {o : Effect α} {f : α → M β} (h : Lasts T t w) (hD : D α o s w)
    {Q : Except Exc β → Session × World → Prop}
    (herr : ∀ e s' w', Lasts T t w' → Q (.error e) (s', w'))
    (hf : ∀ a s' w', Lasts T t w' → wp (demanding C D) (f a) Q (s', w'))
    (ho : ¬ o.IsCommit := by exact not_false) :
    wp (demanding C D) (Prog.perform o >>= f) Q (s, w) := by
  refine wp_bind (wp_lasts h hD (fun x s' w' h' => ?_) ho)
  cases x with
  | error e => exact herr e s' w' h'
  | ok a => exact hf a s' w' h'

/-- The effects whose demand is met in every state. -/
def Anytime (D : Demand Effect Session World) : ∀ β : Type, Effect β → Prop := fun β o =>
  ∀ s w, D β o s w

/-- What is left of a handler when the demands no longer matter. -/
theorem wp_anytime {p : M α} (hp : p.Uses (Anytime D)) {v : Session × World} :
    wp (demanding C D) p (fun _ _ => True) v :=
  wp_follow_free hp fun _ s w ho => ho s w

/-- A block under a lock. -/
theorem wp_locked {key : LockKey} {ttlSeconds : ℕ} {block : M α} (hD : Lenient D) (h : Looks T t s w)
    (hblock : ∀ s' w', Looks T t s' w' → wp (demanding C D) block (fun _ _ => True) (s', w')) :
    wp (demanding C D) (redisLock key ttlSeconds block) (fun _ _ => True) (s, w) := by
  refine wp_bind_looking (looking_plain hD h rfl) (fun _ _ _ _ => trivial) fun token s₁ w₁ h₁ _ => ?_
  refine wp_bind_attempt (wp_mono (looking_plain hD h₁ rfl) ?_)
  rintro (e | taken) ⟨s₂, w₂⟩ h₂
  · -- Redis is down
    exact hblock s₂ w₂ h₂
  cases taken with
  | false => exact wp_throw trivial
  | true =>
    refine wp_finallyDo (wp_mono (hblock s₂ w₂ h₂.1) fun _ v _ => ?_)
    exact wp_anytime (Prog.uses_perform fun s w => hD _ s w rfl)

end Rules

end InterviewScheduler.Core
