import InterviewScheduler.System.Latest

/-! # Locks that hold

A caller that has taken a lock is alone in its critical section, as long as Redis is up and the entry
that it has made does not expire (`Holding`). An entry that was there at the start may expire: its
holder is none of the callers. -/

namespace InterviewScheduler.System

open InterviewScheduler.Engine InterviewScheduler.Core InterviewScheduler.Effects
open InterviewScheduler.Lifecycle

/-! ### One step -/

/-- The effect asks for a lock with the token. -/
def AsksWith {β : Type} (o : Effect β) (token : Id) : Prop :=
  match o with
  | .setNx _ t _ => t = token
  | _ => False

/-- Redis is up, and no entry of the lock expires but the one of the start, whose token nobody else
has. -/
def LockKept (key : LockKey) (stale : Option Id) : Condition Effect Choice Session World :=
  fun _ o c _ w => (key ∈ c.expired → w.locks key = stale) ∧ (o.Lockless ∨ c.answer ≠ .fail) ∧
    ∀ token, AsksWith o token → some token ≠ stale

variable {ι : Type} {key : LockKey} {stale : Option Id} {β : Type} {o : Effect β} {c : Choice}
  {x : Except Exc β} {s s' : Session} {w w' : World}

/-- What a step does to the entry of a lock and to the critical section of its caller. -/
inductive Locking (key : LockKey) (stale : Option Id) (s s' : Session) (before after : Option Id) :
    Prop
  | kept (hs : s.SameSection s') (h : after = before)
  | entered {token : Id} {cr : Critical} (hfree : before = none) (htoken : some token ≠ stale)
      (h : after = some token) (hs : s'.trace.critical = some cr) (hkey : cr.key = key)
      (hcr : cr.token = some token)
  | outside {cr : Critical} (hs : s'.trace.critical = some cr) (hkey : cr.key ≠ key)
      (h : after = before)
  | left (hs : s'.trace.critical = none)
      (h : after = before ∨ (∃ token, s.Inside key (some token)) ∧ after = none)

theorem locking_of_exec {creates : Prop} {C : Session → Interviews → Prop} {T : Interviews}
    (hcond : LockKept key stale β o c s w) (hduty : Duty creates C o s T)
    (h : machine.exec o c s w = some (x, s', w')) :
    Locking key stale s s' ((w.elapse c).locks key) (w'.locks key) := by
  obtain ⟨-, hup, hnew⟩ := hcond
  change respond o c.answer s (w.elapse c) = _ at h
  by_cases ho : o.Lockless
  · obtain ⟨hs, hlocks⟩ := section_of_respond ho h
    exact .kept hs (by rw [hlocks])
  replace hup := hup.resolve_left ho
  cases o with
  | setNx key' token ttl =>
    simp only [respond] at h
    split at h
    · split at h
      · simp only [Option.some.injEq, Prod.mk.injEq] at h
        obtain ⟨-, rfl, rfl⟩ := h
        exact .kept (Session.sameSection_of_eq rfl) rfl
      · next hfree =>
        simp only [Option.some.injEq, Prod.mk.injEq] at h
        obtain ⟨-, rfl, rfl⟩ := h
        by_cases hkey : key' = key
        · subst hkey
          refine Locking.entered ?_ (hnew token rfl) (by simp) rfl rfl rfl
          simpa using hfree
        · refine Locking.outside rfl hkey ?_
          have hne : key ≠ key' := fun h => hkey h.symm
          simp [hne]
    · next hfail => exact absurd hfail hup
    · simp at h
  | release key' token =>
    have hin : s.Inside key' (some token) := hduty
    simp only [respond] at h
    unfold outerCall at h
    split at h
    · simp only [Option.some.injEq, Prod.mk.injEq] at h
      obtain ⟨-, rfl, rfl⟩ := h
      refine .left rfl ?_
      by_cases hkey : key' = key
      · subst hkey
        split
        · exact .inr ⟨⟨token, hin⟩, by simp⟩
        · exact .inl rfl
      · have hne : key ≠ key' := fun h => hkey h.symm
        refine .inl ?_
        split
        · simp [hne]
        · rfl
    · next hfail => exact absurd hfail hup
    · simp at h
  | _ => exact absurd trivial ho

/-! ### The holder of a lock -/

/-- The session is in the critical section of the lock. -/
def InSection (key : LockKey) (s : Session) : Prop := ∃ cr, s.trace.critical = some cr ∧ cr.key = key

/-- **At most one caller is in the critical section**, and the entry is its own. -/
structure Holding (key : LockKey) (stale : Option Id) (loc : ι → Session) (entry : Option Id) :
    Prop where
  own : ∀ j cr, (loc j).trace.critical = some cr → cr.key = key →
    ∃ token, cr.token = some token ∧ some token ≠ stale ∧ entry = some token
  alone : ∀ j j', InSection key (loc j) → InSection key (loc j') → j = j'

/-- The entry of a holder does not expire. -/
theorem Holding.elapse {loc : ι → Session} (h : Holding key stale loc (w.locks key))
    (hexpired : key ∈ c.expired → w.locks key = stale) :
    Holding key stale loc ((w.elapse c).locks key) := by
  refine ⟨fun j cr hcr hkey => ?_, h.alone⟩
  obtain ⟨token, htoken, hne, hentry⟩ := h.own j cr hcr hkey
  refine ⟨token, htoken, hne, ?_⟩
  have hnot : key ∉ c.expired := fun hmem => hne (hentry.symm.trans (hexpired hmem))
  simp only [World.elapse, if_neg hnot]
  exact hentry

variable [DecidableEq ι]

theorem Holding.step {loc : ι → Session} {i : ι} {before after : Option Id}
    (h : Holding key stale loc before) (hl : Locking key stale (loc i) s' before after) :
    Holding key stale (Function.update loc i s') after := by
  -- the other callers are as before
  have hother : ∀ {j}, j ≠ i → Function.update loc i s' j = loc j := fun hj =>
    Function.update_of_ne hj _ _
  cases hl with
  | kept hs hafter =>
    obtain ⟨f, hf, hs⟩ := hs
    have hin : ∀ j, InSection key (Function.update loc i s' j) → InSection key (loc j) := by
      rintro j ⟨cr, hcr, hkey⟩
      by_cases hj : j = i
      · subst hj
        rw [Function.update_self, hs] at hcr
        obtain ⟨cr₀, hcr₀, rfl⟩ := Option.map_eq_some_iff.mp hcr
        exact ⟨cr₀, hcr₀, (hf cr₀).1.symm.trans hkey⟩
      · rw [hother hj] at hcr
        exact ⟨cr, hcr, hkey⟩
    refine ⟨fun j cr hcr hkey => ?_, fun j j' hj hj' => h.alone j j' (hin j hj) (hin j' hj')⟩
    rw [hafter]
    by_cases hj : j = i
    · subst hj
      rw [Function.update_self, hs] at hcr
      obtain ⟨cr₀, hcr₀, rfl⟩ := Option.map_eq_some_iff.mp hcr
      rw [(hf cr₀).1] at hkey
      rw [(hf cr₀).2]
      exact h.own j cr₀ hcr₀ hkey
    · rw [hother hj] at hcr
      exact h.own j cr hcr hkey
  | @entered token cr hfree htoken hafter hs hkey hcr =>
    -- the entry was free, so that nobody was in the section
    have hnone : ∀ j, j ≠ i → ¬ InSection key (Function.update loc i s' j) := by
      rintro j hj ⟨cr', hcr', hkey'⟩
      rw [hother hj] at hcr'
      obtain ⟨token', -, -, hentry⟩ := h.own j cr' hcr' hkey'
      rw [hfree] at hentry
      simp at hentry
    have honly : ∀ j, InSection key (Function.update loc i s' j) → j = i := fun j hj => by
      by_contra hne
      exact hnone j hne hj
    refine ⟨fun j cr' hcr' hkey' => ?_, fun j j' hj hj' => (honly j hj).trans (honly j' hj').symm⟩
    obtain rfl := honly j ⟨cr', hcr', hkey'⟩
    rw [Function.update_self, hs] at hcr'
    obtain rfl := Option.some.inj hcr'
    exact ⟨token, hcr, htoken, hafter⟩
  | @outside cr hs hkey hafter =>
    have hne : ∀ j, InSection key (Function.update loc i s' j) → j ≠ i := by
      rintro j ⟨cr', hcr', hkey'⟩ rfl
      rw [Function.update_self, hs] at hcr'
      obtain rfl := Option.some.inj hcr'
      exact hkey hkey'
    refine ⟨fun j cr' hcr' hkey' => ?_, fun j j' hj hj' => ?_⟩
    · have hj := hne j ⟨cr', hcr', hkey'⟩
      rw [hother hj] at hcr'
      rw [hafter]
      exact h.own j cr' hcr' hkey'
    · have hji := hne j hj
      have hji' := hne j' hj'
      rw [hother hji] at hj
      rw [hother hji'] at hj'
      exact h.alone j j' hj hj'
  | left hs hafter =>
    have hne : ∀ j, InSection key (Function.update loc i s' j) → j ≠ i := by
      rintro j ⟨cr', hcr', hkey'⟩ rfl
      rw [Function.update_self, hs] at hcr'
      simp at hcr'
    refine ⟨fun j cr' hcr' hkey' => ?_, fun j j' hj hj' => ?_⟩
    · have hj := hne j ⟨cr', hcr', hkey'⟩
      rw [hother hj] at hcr'
      rcases hafter with rfl | ⟨⟨token, cr, hcr, hkey, -⟩, -⟩
      · exact h.own j cr' hcr' hkey'
      · -- the one that releases the lock was the only holder
        exact absurd (h.alone j i ⟨cr', hcr', hkey'⟩ ⟨cr, hcr, hkey⟩) hj
    · have hji := hne j hj
      have hji' := hne j' hj'
      rw [hother hji] at hj
      rw [hother hji'] at hj'
      exact h.alone j j' hj hj'

/-! ### The time of a run -/

/-- The transaction of the session began after the time, and so did the one of the runs it adds. -/
structure Dated (t₀ : Instant) (s : Session) : Prop where
  began : ∀ t ∈ s.began, t₀ < t
  runs : ∀ run, .insertRun run ∈ s.pending → t₀ < run.generatedAt

section Dated

variable {t₀ : Instant}

theorem dated_empty : Dated t₀ {} := ⟨by simp, by simp⟩

theorem Dated.touch (h : Dated t₀ s) (hnow : t₀ < w.now) : Dated t₀ (s.touch w) := by
  refine ⟨fun t ht => ?_, h.runs⟩
  obtain rfl := Option.some.inj ht
  cases hb : s.began with
  | none => exact hnow
  | some t => exact h.began t hb

theorem Dated.load (h : Dated t₀ s) (r : Id) (row : Option InterviewRequest) :
    Dated t₀ (s.load w r row) := ⟨h.began, h.runs⟩

/-- A run that is added has the time of its transaction. -/
theorem Dated.stage (h : Dated t₀ s) {y : Write} (hy : y.Timed s.began) : Dated t₀ (s.stage y) := by
  have hnew : ∀ run, .insertRun run ∈ s.pending ++ [y] → t₀ < run.generatedAt := by
    intro run hrun
    rcases List.mem_append.mp hrun with hrun | hrun
    · exact h.runs run hrun
    · obtain rfl := List.mem_singleton.mp hrun
      exact h.began _ hy
  cases y with
  | setStatus r st =>
    simp only [Session.stage]
    split
    · exact h
    · exact ⟨h.began, hnew⟩
  | _ => exact ⟨h.began, hnew⟩

theorem Dated.cleared (h : Dated t₀ s) (hp : s'.pending = []) (hb : s'.began = s.began ∨ s'.began = none) :
    Dated t₀ s' := by
  refine ⟨fun t ht => ?_, by simp [hp]⟩
  rcases hb with hb | hb
  · exact h.began t (hb ▸ ht)
  · rw [hb] at ht
    simp at ht

theorem Dated.of_eq (h : Dated t₀ s) (hp : s'.pending = s.pending) (hb : s'.began = s.began) :
    Dated t₀ s' := ⟨hb ▸ h.began, hp ▸ h.runs⟩

/-- Time passes before every step. -/
theorem Dated.step {creates : Prop} {C : Session → Interviews → Prop} {T : Interviews}
    (h : Dated t₀ s) (hnow : t₀ ≤ w.now) (hduty : Duty creates C o s T)
    (hex : machine.exec o c s w = some (x, s', w')) : Dated t₀ s' ∧ t₀ ≤ w'.now := by
  have hnow' : t₀ < (w.elapse c).now := by
    change t₀ < w.now + c.elapsed + 1
    lia
  change respond o c.answer s (w.elapse c) = _ at hex
  generalize w.elapse c = w₁ at hex hnow'
  have htouch := h.touch (w := w₁) hnow'
  cases o with
  | stage y =>
    simp only [respond, Option.some.injEq, Prod.mk.injEq] at hex
    obtain ⟨-, rfl, rfl⟩ := hex
    exact ⟨h.stage hduty, hnow'.le⟩
  | _ =>
    simp only [respond, dbCall, outerCall, googleCall] at hex
    repeat' split at hex
    all_goals simp only [Option.some.injEq, Prod.mk.injEq, reduceCtorEq] at hex
    all_goals obtain ⟨-, rfl, rfl⟩ := hex
    all_goals refine ⟨?_, hnow'.le⟩
    all_goals first
      | exact h
      | exact htouch
      | exact htouch.load _ _
      | exact htouch.of_eq rfl rfl
      | exact h.of_eq rfl rfl
      | exact h.cleared rfl (.inl rfl)
      | exact h.cleared rfl (.inr rfl)

end Dated

end InterviewScheduler.System
