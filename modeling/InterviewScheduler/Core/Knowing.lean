import InterviewScheduler.Core.Following
import InterviewScheduler.Core.Growth

/-! # What a handler knows among others

Between two of its effects the others may do anything that the schema allows, and users are registered.
Then the tables have grown (`Grows`): what a handler has once seen is still there. The logic `knowing J S`
has the tables as its view. Every answer is true of them, they have the property `J`, and a write `y` that
is staged must be justified by what is known by then, `S T y`. -/

namespace InterviewScheduler.Core

open InterviewScheduler.Effects

variable {T T' : Interviews} {S : Interviews → Write → Prop} {J : Interviews → Prop}

/-! ### Requests -/

/-- The request has what `row` was created with. -/
def Recalls (T : Interviews) (r : Id) (row : InterviewRequest) : Prop :=
  ∃ row', T.requests r = some row' ∧ row'.origin = row.origin

theorem recalls_self {r : Id} {row : InterviewRequest} (h : T.requests r = some row) : Recalls T r row :=
  ⟨row, h, rfl⟩

theorem Recalls.grows {r : Id} {row : InterviewRequest} (h : Recalls T r row) (hT : Grows T T') :
    Recalls T' r row := by
  obtain ⟨row', hrow', heq⟩ := h
  obtain ⟨row'', hrow'', heq'⟩ := hT.requests r row' hrow'
  exact ⟨row'', hrow'', heq'.trans heq⟩

theorem Recalls.congr {r : Id} {row row₁ : InterviewRequest} (h : Recalls T r row)
    (heq : row₁.origin = row.origin) : Recalls T r row₁ := by
  obtain ⟨row', hrow', heq'⟩ := h
  exact ⟨row', hrow', heq'.trans heq.symm⟩

theorem InterviewRequest.of_origin {row row' : InterviewRequest} (h : row'.origin = row.origin) :
    row'.id = row.id ∧ row'.candidateId = row.candidateId ∧ row'.createdBy = row.createdBy ∧
      row'.roundNumber = row.roundNumber ∧ row'.parentRequestId = row.parentRequestId := by
  simp only [InterviewRequest.origin, RequestOrigin.mk.injEq] at h
  exact ⟨h.1, h.2.1, h.2.2.1, h.2.2.2.2.2.1, h.2.2.2.2.2.2⟩

/-- What a session holds of the requests. -/
def Session.Recalls (s : Session) (T : Interviews) : Prop :=
  ∀ r row, s.copies r = some row → Core.Recalls T r row

theorem Session.Recalls.grows {s : Session} (h : s.Recalls T) (hT : Grows T T') : s.Recalls T' :=
  fun r row hrow => (h r row hrow).grows hT

theorem Session.Recalls.update {s s' : Session} (h : s.Recalls T) {r : Id} {x : Option InterviewRequest}
    (hs' : s'.copies = Function.update s.copies r x) (hx : ∀ row, x = some row → Core.Recalls T r row) :
    s'.Recalls T := by
  intro r' row hrow
  rw [hs', Function.update_apply] at hrow
  split_ifs at hrow with heq
  · rw [heq]
    exact hx row hrow
  · exact h r' row hrow

/-- A staged write changes no more of a request than what may change. -/
theorem Session.Recalls.stage {s : Session} (h : s.Recalls T) (y : Write) : (s.stage y).Recalls T := by
  have hmodify : ∀ {r : Id} {f : InterviewRequest → InterviewRequest} {s' : Session},
      (∀ row, (f row).origin = row.origin) → s'.copies = (s.modifyCopy r f).copies → s'.Recalls T := by
    intro r f s' hf hs'
    refine h.update hs' fun row hrow => ?_
    obtain ⟨row₀, hrow₀, rfl⟩ := Option.map_eq_some_iff.mp hrow
    exact (h r row₀ hrow₀).congr (hf row₀)
  cases y with
  | setStatus r st =>
    simp only [Session.stage]
    split
    · exact h
    · exact hmodify (f := fun row => { row with status := st }) (fun _ => rfl) rfl
  | setOutcome r o notes =>
    exact hmodify (f := fun row => { row with outcome := some o, outcomeNotes := notes })
      (fun _ => rfl) rfl
  | setDetails r rt d b =>
    exact hmodify (r := r) (f := fun row => { row with
      roundType := rt.column row.roundType
      durationMinutes := d.column row.durationMinutes
      bufferMinutes := b.column row.bufferMinutes }) (fun _ => rfl) rfl
  | _ => exact h

/-! ### The logic -/

/-- What an answer says of the tables. -/
def Reports (T : Interviews) {β : Type} (o : Effect β) (x : β) : Prop :=
  match o, x with
  | .get r, none => T.requests r = none
  | .get r, some row => Recalls T r row
  | o, x => Truthful T o x

def knowing (J : Interviews → Prop) (S : Interviews → Write → Prop) : Logic Effect Exc Interviews where
  pre o T := ∀ y, o.staged = some y → S T y
  step o T x T' := Grows T T' ∧ J T' ∧ ∀ y, x = .ok y → Reports T' o y

/-- Nothing is asked of the end. -/
abbrev Anyway {α : Type} : Except Exc α → Interviews → Prop := fun _ _ => True

/-- The effects that are justified from `T` on. -/
def Justified (S : Interviews → Write → Prop) (T : Interviews) (β : Type) (o : Effect β) : Prop :=
  ∀ y, o.staged = some y → ∀ T', Grows T T' → S T' y

section Rules

variable {α β γ : Type}

theorem justified_ordinary : Ordinary (Justified S T) := by
  intro β o ho y hy
  cases o <;> simp [Effect.staged, Effect.ordinary] at hy ho

theorem justified_of_staged {o : Effect β} (ho : o.staged = none) : Justified S T β o := by
  intro y hy
  rw [ho] at hy
  simp at hy

theorem justified_stage {y : Write} (hy : ∀ T', Grows T T' → S T' y) :
    Justified S T Unit (.stage y) := by
  intro z hz
  obtain rfl : y = z := Option.some.inj hz
  exact hy

/-- One effect. -/
theorem wp_knows {o : Effect α} {Q : Except Exc α → Interviews → Prop} (ho : Justified S T α o)
    (herr : ∀ e T', Grows T T' → J T' → Q (.error e) T')
    (hok : ∀ x T', Grows T T' → J T' → Reports T' o x → Q (.ok x) T') :
    wp (knowing J S) (.perform o) Q T := by
  refine wp_perform (fun y hy => ho y hy T (.refl T)) ?_
  rintro (e | x) T' ⟨hT, hJ, htells⟩
  · exact herr e T' hT hJ
  · exact hok x T' hT hJ (htells x rfl)

/-- One effect, and what follows. -/
theorem wp_bind_knows {o : Effect α} {f : α → M β} (ho : Justified S T α o)
    (hf : ∀ x T', Grows T T' → J T' → Reports T' o x → wp (knowing J S) (f x) Anyway T') :
    wp (knowing J S) (.perform o >>= f) Anyway T := by
  refine wp_bind (wp_knows ho (fun _ _ _ _ => trivial) ?_)
  exact hf

/-- A part whose writes are justified already. -/
theorem wp_justified {p : M α} {Q : Except Exc α → Interviews → Prop} (hp : p.Uses (Justified S T))
    (hQ : ∀ x T', Grows T T' → Q x T') : wp (knowing J S) p Q T := by
  refine wp_mono (wp_uses (L := knowing J S) (I := fun T' => Grows T T') hp
    (fun o T' ho hT y hy => ho y hy T' hT) (fun o _ T' x T'' hT hstep => hT.trans hstep.1) (.refl T)) ?_
  exact hQ

/-- The tables have grown when a program ends. -/
theorem wp_grows {p : M α} {Q : Except Exc α → Interviews → Prop} (hp : wp (knowing J S) p Q T) :
    wp (knowing J S) p (fun x T' => Q x T' ∧ Grows T T') T := by
  have hgo : ∀ {T₁ : Interviews}, Grows T T₁ → wp (knowing J S) p Q T₁ →
      wp (knowing J S) p (fun x T' => Q x T' ∧ Grows T T') T₁ := by
    clear hp
    induction p with
    | ret a => exact fun hT h => ⟨h, hT⟩
    | raise e => exact fun hT h => ⟨h, hT⟩
    | op o k ih =>
      exact fun hT h => ⟨h.1, fun x T' hstep => ih x (hT.trans hstep.1) (h.2 x T' hstep)⟩
  exact hgo (.refl T) hp

/-- A part that is proved already, and what follows. -/
theorem wp_bind_anyway {p : M α} {f : α → M β} (hp : wp (knowing J S) p Anyway T)
    (hf : ∀ a T', Grows T T' → wp (knowing J S) (f a) Anyway T') :
    wp (knowing J S) (p >>= f) Anyway T := by
  refine wp_bind (wp_mono (wp_grows hp) ?_)
  rintro (e | a) T' ⟨-, hT⟩
  · trivial
  · exact hf a T' hT

theorem wp_bind_justified {p : M α} {f : α → M β} (hp : p.Uses (Justified S T))
    (hf : ∀ a T', Grows T T' → wp (knowing J S) (f a) Anyway T') :
    wp (knowing J S) (p >>= f) Anyway T :=
  wp_bind_anyway (wp_justified hp fun _ _ _ => trivial) hf

/-- A check, and what follows. -/
theorem wp_bind_check {c : Prop} [Decidable c] {e : Exc} {f : Unit → M β}
    (hf : ¬ c → wp (knowing J S) (f ()) Anyway T) :
    wp (knowing J S) (Prog.raiseIf c e >>= f) Anyway T :=
  wp_bind (wp_raiseIf (fun _ => trivial) hf)

theorem wp_bind_found {x : Option α} {e : Exc} {f : α → M β}
    (hf : ∀ a, x = some a → wp (knowing J S) (f a) Anyway T) :
    wp (knowing J S) (Prog.orRaise x e >>= f) Anyway T :=
  wp_bind (wp_orRaise (fun _ => trivial) hf)

/-- A block under a lock. -/
theorem wp_knowing_lock {key : LockKey} {ttlSeconds : ℕ} {block : M α}
    (hblock : ∀ T', Grows T T' → wp (knowing J S) block Anyway T') :
    wp (knowing J S) (redisLock key ttlSeconds block) Anyway T := by
  have hplain : ∀ {γ : Type} {o : Effect γ} {T₁ : Interviews}, o.staged = none →
      Justified S T₁ γ o := fun ho => justified_of_staged ho
  refine wp_bind_knows (hplain rfl) fun token T₁ h₁ _ _ => ?_
  refine wp_bind_attempt (wp_knows (hplain rfl) (fun e T₂ h₂ _ => hblock T₂ (h₁.trans h₂))
    fun taken T₂ h₂ _ _ => ?_)
  cases taken with
  | false => trivial
  | true =>
    refine wp_finallyDo (wp_mono (hblock T₂ (h₁.trans h₂)) fun x T₃ _ => ?_)
    exact wp_knows (hplain rfl) (fun _ _ _ _ => trivial) fun _ _ _ _ _ => trivial

end Rules

/-! ### One step of the machine -/

section Steps

variable {β : Type} {o : Effect β} {a : Answer} {s s' : Session} {w w' : World} {x : Except Exc β}

/-- **An effect loses nothing that is stored.** -/
theorem grows_of_respond (h : respond o a s w = some (x, s', w')) :
    Grows w.db.toInterviews w'.db.toInterviews := by
  rcases respond_cases h with ⟨-, -, T, hT, -, rfl⟩ | ⟨-, hdb, -⟩
  · rw [World.commit_toInterviews]
    exact grows_applyAll hT
  · rw [hdb]
    exact .refl _

/-- A read that loads no request. -/
theorem reports_of_read (hs : s.Recalls w.db.toInterviews) {answer : ℕ → β} {s₁ : ℕ → Session}
    (hcopies : ∀ n, (s₁ n).copies = s.copies) (htrue : ∀ n, Reports w.db.toInterviews o (answer n))
    (h : dbCall a s w (fun n => some (.ok (answer n), s₁ n, w)) = some (x, s', w')) :
    s'.Recalls w.db.toInterviews ∧ ∀ y, x = .ok y → Reports w.db.toInterviews o y := by
  rcases dbCall_cases h with ⟨e, -, rfl, rfl, -⟩ | ⟨-, n, h⟩
  · exact ⟨fun r row hrow => by simp [Session.fail] at hrow, by simp⟩
  · simp only [Option.some.injEq, Prod.mk.injEq] at h
    obtain ⟨rfl, rfl, rfl⟩ := h
    refine ⟨fun r row hrow => ?_, fun y hy => ?_⟩
    · rw [hcopies n] at hrow
      exact hs r row hrow
    · obtain rfl := Except.ok.inj hy
      exact htrue n

/-- The session recalls what is stored, and so does the answer. -/
theorem reports_of_respond (hs : s.Recalls w.db.toInterviews) (h : respond o a s w = some (x, s', w')) :
    s'.Recalls w.db.toInterviews ∧ ∀ y, x = .ok y → Reports w.db.toInterviews o y := by
  have hkeep : ∀ {s₁ : Session}, s₁.copies = s.copies → s₁.Recalls w.db.toInterviews := by
    intro s₁ h₁ r row hrow
    rw [h₁] at hrow
    exact hs r row hrow
  have hfail : ∀ {s₁ : Session}, (s₁.copies = fun _ => none) → s₁.Recalls w.db.toInterviews := by
    intro s₁ h₁ r row hrow
    rw [h₁] at hrow
    simp at hrow
  have hload : ∀ {r : Id}, ((s.touch w).load w r (w.db.requests r)).Recalls w.db.toInterviews :=
    fun {r} => hs.update (Session.load_copies _ _ _ _) fun row hrow => recalls_self hrow
  cases o with
  | get r =>
    simp only [respond] at h
    split at h
    · next row hrow =>
      simp only [Option.some.injEq, Prod.mk.injEq] at h
      obtain ⟨rfl, rfl, rfl⟩ := h
      refine ⟨hkeep rfl, fun y hy => ?_⟩
      obtain rfl := Except.ok.inj hy
      exact hs r row hrow
    · rcases dbCall_cases h with ⟨e, -, rfl, rfl, -⟩ | ⟨-, n, h⟩
      · exact ⟨hfail rfl, by simp⟩
      · simp only [Option.some.injEq, Prod.mk.injEq] at h
        obtain ⟨rfl, rfl, rfl⟩ := h
        refine ⟨hload, fun y hy => ?_⟩
        obtain rfl := Except.ok.inj hy
        cases hrow : w.db.requests r with
        | none => exact hrow
        | some row => exact recalls_self hrow
  | refresh r =>
    simp only [respond] at h
    rcases dbCall_cases h with ⟨e, -, rfl, rfl, -⟩ | ⟨-, n, h⟩
    · exact ⟨hfail rfl, by simp⟩
    · split at h
      · next row hrow =>
        simp only [Option.some.injEq, Prod.mk.injEq] at h
        obtain ⟨rfl, rfl, rfl⟩ := h
        refine ⟨hrow ▸ hload, fun y hy => ?_⟩
        obtain rfl := Except.ok.inj hy
        exact hrow
      · simp only [Option.some.injEq, Prod.mk.injEq] at h
        obtain ⟨rfl, rfl, rfl⟩ := h
        exact ⟨hs, by simp⟩
  | expunge r =>
    simp only [respond, Option.some.injEq, Prod.mk.injEq] at h
    obtain ⟨rfl, rfl, rfl⟩ := h
    exact ⟨hs.update rfl (by simp), fun _ _ => trivial⟩
  | select query =>
    simp only [respond] at h
    refine reports_of_read hs ?_ ?_ h
    · exact fun _ => rfl
    · exact fun n => ⟨n, w.db, rfl, rfl⟩
  | confirmedEvent r =>
    simp only [respond] at h
    refine reports_of_read hs ?_ ?_ h
    · exact fun _ => rfl
    · exact fun _ => rfl
  | slotWithRun slotId =>
    simp only [respond] at h
    refine reports_of_read hs ?_ ?_ h
    · exact fun _ => rfl
    · exact fun _ => rfl
  | latestRun r =>
    simp only [respond] at h
    refine reports_of_read hs ?_ ?_ h
    · exact fun _ => rfl
    · exact fun n => ⟨n, rfl⟩
  | stage y =>
    simp only [respond, Option.some.injEq, Prod.mk.injEq] at h
    obtain ⟨rfl, rfl, rfl⟩ := h
    exact ⟨hs.stage y, fun _ _ => trivial⟩
  | _ =>
    simp only [respond, dbCall, outerCall, googleCall] at h
    repeat' split at h
    all_goals simp only [Option.some.injEq, Prod.mk.injEq, reduceCtorEq] at h
    all_goals obtain ⟨rfl, rfl, rfl⟩ := h
    all_goals refine ⟨?_, fun _ _ => trivial⟩
    all_goals first | exact hkeep rfl | exact hfail rfl

end Steps

end InterviewScheduler.Core
