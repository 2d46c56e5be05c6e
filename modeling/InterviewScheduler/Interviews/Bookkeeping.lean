import InterviewScheduler.Interviews.Footprint
import InterviewScheduler.Interviews.Api

/-! # The entries of the audit log

Which rows a transaction stores is in the entries that it adds to the audit log: one for a request that is
created, a submission, a run, an interview and an outcome, and one for the interviews that it cancels. The
logic `bookkeeping` follows what a session has staged of the two, and asks at each commit that they agree
(`Complete`). -/

namespace InterviewScheduler.Interviews

open InterviewScheduler.Engine InterviewScheduler.Core InterviewScheduler.Effects
open InterviewScheduler.Booking (Part Parts)

/-! ### Rows and entries -/

/-- What is done to a request when a row is stored. -/
inductive Deed where
  | created
  | continued
  | submitted
  | generated
  | booked
  deriving DecidableEq, Repr

/-- The action of the entry. -/
def Deed.action : Deed → String
  | created => "INTERVIEW_REQUEST_CREATED"
  | continued => "NEXT_ROUND_CREATED"
  | submitted => "CANDIDATE_AVAILABILITY_SUBMITTED"
  | generated => "RECOMMENDATION_GENERATED"
  | booked => "INTERVIEW_BOOKED"

theorem Deed.action_injective {d d' : Deed} (h : d.action = d'.action) : d = d' := by
  cases d <;> cases d' <;> first | rfl | exact absurd h (by decide)

/-- `INTERVIEW_OUTCOME_RECORDED` -/
def outcomeAction : String := "INTERVIEW_OUTCOME_RECORDED"

/-- The actions that release a booking. -/
def releaseActions : List String :=
  ["INTERVIEW_DECLINED", "INTERVIEW_RESCHEDULE_REQUESTED", "INTERVIEW_CANCELLED"]

/-- A request is created as a first round or as the next one. -/
def createdAs (row : InterviewRequest) : Deed := if row.parentRequestId = none then .created else .continued

/-- What a write does, and to which request. -/
def deedOf : Write → Option (Deed × Id)
  | .insertRequest row _ => some (createdAs row, row.id)
  | .insertAvailability a => some (.submitted, a.interviewRequestId)
  | .insertRun run => some (.generated, run.interviewRequestId)
  | .insertEvent e => some (.booked, e.interviewRequestId)
  | _ => none

/-- The write goes with an entry of its own. -/
def logged : Write → Bool
  | .setOutcome _ _ _ => true
  | .cancelEvent _ => true
  | y => (deedOf y).isSome

/-- A new request has no outcome, and a new interview is CONFIRMED. -/
def Opening : Write → Prop
  | .insertRequest row _ => row.outcome = none
  | .insertEvent e => e.status = .confirmed
  | _ => True

/-- An interview is cancelled. -/
def cancels : Write → Bool
  | .cancelEvent _ => true
  | _ => false

/-- The entry is of this action and about this request. -/
def Entry (action : String) (r : Id) (a : AuditLog) : Prop := a.action = action ∧ a.entityId = r

instance (action : String) (r : Id) (a : AuditLog) : Decidable (Entry action r a) :=
  inferInstanceAs (Decidable (_ ∧ _))

/-- The entries of an action about a request. -/
def entries (as : List AuditLog) (action : String) (r : Id) : ℕ := as.countP fun a => Entry action r a

/-- The entries of the releases of a request. -/
def releaseEntries (as : List AuditLog) (r : Id) : ℕ :=
  as.countP fun a => a.action ∈ releaseActions ∧ a.entityId = r

/-! ### The logic -/

/-- What a session has staged: writes that go with entries, and entries. -/
structure Draft where
  writes : List Write := []
  audits : List AuditLog := []

/-- **The entries agree with the writes.** -/
structure Draft.Complete (v : Draft) (about : Option Id) : Prop where
  opening : ∀ y ∈ v.writes, Opening y
  deeds : ∀ d r, entries v.audits d.action r = v.writes.countP fun y => deedOf y = some (d, r)
  outcomes : ∀ r o notes, .setOutcome r o notes ∈ v.writes → ∃ a ∈ v.audits, Entry outcomeAction r a
  releases : ∀ r, about = some r → v.writes.countP cancels ≤ releaseEntries v.audits r

/-- What is staged after an effect has succeeded. -/
def Draft.after {β : Type} (v : Draft) : Effect β → Draft
  | .stage y => { v with writes := v.writes ++ [y].filter fun y => logged y }
  | .stageSide (.insertAudit a) => { v with audits := v.audits ++ [a] }
  | .commit => {}
  | .rollback => {}
  | _ => v

def bookkeeping (about : Option Id) : Logic Effect Exc Draft where
  pre o v := match o with
    | .commit => v.Complete about
    | _ => True
  step o v x v' := match x with
    | .ok _ => v' = v.after o
    | .error _ => v' = v ∨ v' = {}

/-- The effect has nothing to do with the audit log. -/
def plain {β : Type} : Effect β → Bool
  | .stage y => !logged y
  | .stageSide (.insertAudit _) => false
  | _ => true

abbrev Plain (β : Type) (o : Effect β) : Prop := plain o = true

/-- The same, and it leaves what is staged. -/
def idle {β : Type} : Effect β → Bool
  | .commit => false
  | .rollback => false
  | o => plain o

abbrev Idle (β : Type) (o : Effect β) : Prop := idle o = true

/-- What a part has staged when it succeeds. -/
def Leaves {α : Type} (φ : α → Draft → Prop) : Except Exc α → Draft → Prop
  | .ok a, v => φ a v
  | .error _, _ => True

/-- Nothing is left over when a part succeeds. -/
abbrev Clean {α : Type} : Except Exc α → Draft → Prop := Leaves fun _ v => v = {}

theorem leaves_any {α : Type} (x : Except Exc α) (v : Draft) : Leaves (fun _ _ => True) x v := by
  cases x with
  | ok a => trivial
  | error e => trivial

/-- Nothing is left over. -/
def Cleared {α : Type} : Except Exc α → Draft → Prop := fun _ v => v = {}

variable {about : Option Id} {α β : Type} {v : Draft} {r : Id} {φ : β → Draft → Prop}

section Rules

theorem complete_empty : ({} : Draft).Complete about := by
  refine ⟨fun y h => ?_, fun d r => rfl, fun r o notes h => ?_, fun r _ => le_rfl⟩
  · simp at h
  · simp at h

/-- An entry of its own for a row. -/
theorem complete_deed {y : Write} {d : Deed} {a : AuditLog} (hopen : Opening y)
    (hy : deedOf y = some (d, r)) (ha : Entry d.action r a) : (⟨[y], [a]⟩ : Draft).Complete about := by
  refine ⟨fun z h => ?_, fun d' r' => ?_, fun r' o notes h => ?_, fun r' _ => ?_⟩
  · exact List.mem_singleton.mp h ▸ hopen
  · have hiff : Entry d'.action r' a ↔ deedOf y = some (d', r') := by
      rw [hy, Option.some.injEq, Prod.mk.injEq]
      constructor
      · rintro ⟨haction, hentity⟩
        exact ⟨Deed.action_injective (ha.1.symm.trans haction), ha.2.symm.trans hentity⟩
      · rintro ⟨rfl, rfl⟩
        exact ha
    simp only [entries, List.countP_singleton, hiff]
  · obtain rfl := List.mem_singleton.mp h
    simp [deedOf] at hy
  · have hnot : cancels y = false := by
      cases y with
      | cancelEvent i => simp [deedOf] at hy
      | _ => rfl
    simp [hnot]

/-- An entry with writes that store no row. -/
theorem complete_other {ys : List Write} {a : AuditLog} (hys : ∀ y ∈ ys, deedOf y = none)
    (ha : ∀ d : Deed, a.action ≠ d.action)
    (houtcome : ∀ r o notes, .setOutcome r o notes ∈ ys → Entry outcomeAction r a)
    (hrelease : ∀ r, about = some r → ys.countP cancels ≤ releaseEntries [a] r) :
    (⟨ys, [a]⟩ : Draft).Complete about := by
  refine ⟨fun y hy => ?_, fun d r => ?_, fun r o notes h => ?_, hrelease⟩
  · have hnone : deedOf y = none := hys y hy
    cases y with
    | insertRequest row ps => simp [deedOf] at hnone
    | insertEvent e => simp [deedOf] at hnone
    | _ => trivial
  · have hentry : ¬ Entry d.action r a := fun h => ha d h.1
    have hwrites : (ys.countP fun y => deedOf y = some (d, r)) = 0 := by
      rw [List.countP_eq_zero]
      intro y hy
      simp [hys y hy]
    rw [hwrites]
    simp [entries, hentry]
  · exact ⟨a, List.mem_singleton_self a, houtcome r o notes h⟩

/-- An entry on its own. -/
theorem complete_entry {a : AuditLog} (ha : ∀ d : Deed, a.action ≠ d.action) :
    (⟨[], [a]⟩ : Draft).Complete about :=
  complete_other (fun _ h => absurd h List.not_mem_nil) ha (fun _ _ _ h => absurd h List.not_mem_nil)
    fun _ _ => Nat.zero_le _

theorem plain_after {o : Effect β} (ho : Plain β o) : ({} : Draft).after o = {} := by
  cases o with
  | stage y =>
    have hy : logged y = false := by simpa [Plain, plain] using ho
    simp [Draft.after, hy]
  | stageSide y =>
    cases y with
    | insertAudit a => simp [Plain, plain] at ho
    | _ => rfl
  | _ => rfl

theorem idle_after {o : Effect β} (ho : Idle β o) : v.after o = v := by
  cases o with
  | stage y =>
    have hy : logged y = false := by simpa [Idle, idle, plain] using ho
    simp [Draft.after, hy]
  | stageSide y =>
    cases y with
    | insertAudit a => simp [Idle, idle, plain] at ho
    | _ => rfl
  | commit => simp [Idle, idle] at ho
  | rollback => simp [Idle, idle] at ho
  | _ => rfl

theorem bookkeeping_pre {o : Effect β} (h : v.Complete about) : (bookkeeping about).pre o v := by
  cases o with
  | commit => exact h
  | _ => trivial

theorem idle_pre {o : Effect β} (ho : Idle β o) : (bookkeeping about).pre o v := by
  cases o with
  | commit => simp [Idle, idle] at ho
  | _ => trivial

/-- A part that has nothing to do with the audit log. -/
theorem wp_plain {p : M α} (hp : p.Uses Plain) : wp (bookkeeping about) p Cleared {} := by
  refine wp_uses (I := fun v : Draft => v = {}) hp (fun o v _ hv => ?_) (fun o ho v x v' hv hstep => ?_) rfl
  · exact bookkeeping_pre (hv ▸ complete_empty)
  · subst hv
    rcases x with e | a
    · exact hstep.elim id id
    · exact hstep.trans (plain_after ho)

theorem wp_clean_plain {p : M α} (hp : p.Uses Plain) : wp (bookkeeping about) p Clean {} := by
  refine wp_mono (wp_plain hp) fun x v hv => ?_
  cases x with
  | ok a => exact hv
  | error e => trivial

theorem wp_bind_leaves {p : M α} {f : α → M β} {ψ : α → Draft → Prop}
    (hp : wp (bookkeeping about) p (Leaves ψ) v)
    (hf : ∀ a v', ψ a v' → wp (bookkeeping about) (f a) (Leaves φ) v') :
    wp (bookkeeping about) (p >>= f) (Leaves φ) v := by
  refine wp_bind (wp_mono hp ?_)
  rintro (e | a) v' hv'
  · trivial
  · exact hf a v' hv'

/-- After a part that leaves nothing. -/
theorem wp_bind_clean {p : M α} {f : α → M β} (hp : wp (bookkeeping about) p Clean v)
    (hf : ∀ a, wp (bookkeeping about) (f a) (Leaves φ) {}) :
    wp (bookkeeping about) (p >>= f) (Leaves φ) v := by
  refine wp_bind_leaves hp ?_
  rintro a v' rfl
  exact hf a

theorem wp_bind_plain {p : M α} {f : α → M β} (hp : p.Uses Plain)
    (hf : ∀ a, wp (bookkeeping about) (f a) (Leaves φ) {}) :
    wp (bookkeeping about) (p >>= f) (Leaves φ) {} := by
  refine wp_bind_leaves (wp_clean_plain hp) fun a v' hv' => ?_
  subst hv'
  exact hf a

/-- A part that leaves what is staged. -/
theorem wp_idle {p : M α} (hp : p.Uses Idle) : wp (bookkeeping about) p (fun _ _ => True) v := by
  refine wp_mono (wp_uses (I := fun _ => True) hp (fun o w ho _ => idle_pre ho) (fun _ _ _ _ _ _ _ => trivial)
    trivial) fun _ _ _ => trivial

/-- An effect that leaves what is staged, and what follows. -/
theorem wp_bind_idle {o : Effect α} {f : α → M β} (ho : Idle α o)
    (hf : ∀ a, wp (bookkeeping about) (f a) (Leaves φ) v) :
    wp (bookkeeping about) (.perform o >>= f) (Leaves φ) v := by
  refine wp_bind (wp_perform (idle_pre ho) ?_)
  · rintro (e | a) v' hstep
    · trivial
    · obtain rfl : v' = v := hstep.trans (idle_after ho)
      exact hf a

theorem wp_bind_logged {y : Write} {f : Unit → M β} (hy : logged y = true)
    (hf : wp (bookkeeping about) (f ()) (Leaves φ) { v with writes := v.writes ++ [y] }) :
    wp (bookkeeping about) (dbAdd y >>= f) (Leaves φ) v := by
  refine wp_bind (wp_perform trivial ?_)
  rintro (e | a) v' hstep
  · trivial
  · have hv' : v' = { v with writes := v.writes ++ [y] } := by
      rw [hstep]
      simp [Draft.after, hy]
    rw [hv']
    exact hf

/-- An entry is added. -/
theorem wp_bind_recordAudit {actor : User} {action : String} {metadata : List (String × String)}
    {f : Unit → M β}
    (hf : ∀ a, Entry action r a → wp (bookkeeping about) (f ()) (Leaves φ) { v with audits := v.audits ++ [a] }) :
    wp (bookkeeping about) (recordAudit actor action r metadata >>= f) (Leaves φ) v := by
  refine wp_bind (wp_bind (wp_perform trivial ?_))
  rintro (e | a) v₁ hstep₁
  · trivial
  obtain rfl := hstep₁
  refine wp_perform trivial ?_
  rintro (e | a) v₂ hstep₂
  · trivial
  · obtain rfl := hstep₂
    exact hf _ ⟨rfl, rfl⟩

/-- The transaction is committed. -/
theorem wp_bind_complete {f : Unit → M β} (hv : v.Complete about)
    (hf : wp (bookkeeping about) (f ()) (Leaves φ) {}) :
    wp (bookkeeping about) (dbCommit >>= f) (Leaves φ) v := by
  refine wp_bind (wp_perform hv ?_)
  rintro (e | a) v' hstep
  · trivial
  · obtain rfl := hstep
    exact hf

theorem wp_bind_unless {c : Prop} [Decidable c] {e : Exc} {f : Unit → M β}
    (hf : wp (bookkeeping about) (f ()) (Leaves φ) v) :
    wp (bookkeeping about) (Prog.raiseIf c e >>= f) (Leaves φ) v :=
  wp_bind (wp_raiseIf (fun _ => trivial) fun _ => hf)

theorem wp_bind_given {x : Option α} {e : Exc} {f : α → M β}
    (hf : ∀ a, x = some a → wp (bookkeeping about) (f a) (Leaves φ) v) :
    wp (bookkeeping about) (Prog.orRaise x e >>= f) (Leaves φ) v :=
  wp_bind (wp_orRaise (fun _ => trivial) hf)

/-- A block under a lock. -/
theorem wp_clean_lock {key : LockKey} {ttlSeconds : ℕ} {block : M α}
    (hblock : wp (bookkeeping about) block Clean {}) :
    wp (bookkeeping about) (redisLock key ttlSeconds block) Clean {} := by
  refine wp_bind_plain (Prog.uses_perform rfl) fun token => ?_
  refine wp_bind_attempt (wp_mono (wp_plain (Prog.uses_perform rfl)) ?_)
  rintro (e | (_ | _)) v' hv'
  · obtain rfl : v' = {} := hv'
    exact hblock
  · trivial
  · obtain rfl : v' = {} := hv'
    refine wp_finallyDo (wp_mono hblock fun x v'' hv'' => ?_)
    cases x with
    | error e => exact wp_perform trivial fun _ _ _ => trivial
    | ok a =>
      obtain rfl : v'' = {} := hv''
      exact wp_plain (Prog.uses_perform rfl)

end Rules

end InterviewScheduler.Interviews
