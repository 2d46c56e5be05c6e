import InterviewScheduler.Interviews.Furnished

/-! # Every handler keeps the tables fit

The logic `furnishing` demands of every write that it supplies what the engine relies on, at the time at
which it is staged, and has every answer rely on that. A handler that is proved in it does not depend on
what other callers do meanwhile: time goes on, and what was offered once stays as near. -/

namespace InterviewScheduler.Interviews

open InterviewScheduler.Engine InterviewScheduler.Core InterviewScheduler.Effects
open InterviewScheduler.Booking (Part Parts)
open InterviewScheduler.Scheduling (RowOf engineRejected)

variable {zones : ZoneDatabase} {B : BusyInterval → Prop} {t t' : Instant} {T : Interviews}

/-! ### The logic -/

/-- What an answer says of the tables at the time `t`. -/
def Tells (zones : ZoneDatabase) (t : Instant) {β : Type} (o : Effect β) (x : β) : Prop :=
  match o, x with
  | .now, x => x = t
  | .refresh _, x => Lasting x
  | .select query, x => ∃ n db, Furnished zones t db.toInterviews ∧ x = query n db
  | .slotWithRun _, x => ∀ found, x = some found → found.1.startTime < found.1.endTime
  | _, _ => True

/-- The view is a time that has come. -/
def furnishing (zones : ZoneDatabase) (B : BusyInterval → Prop) : Logic Effect Exc Instant where
  pre o t := (∀ y, o.staged = some y → Supplies zones t y) ∧ ∀ b ∈ o.cached, B b
  step o t x t' := t ≤ t' ∧ Replies B _ o x ∧ ∀ y, x = .ok y → Tells zones t' o y

/-- The effects that are admitted at any time. -/
def Anyhow (zones : ZoneDatabase) (B : BusyInterval → Prop) (β : Type) (o : Effect β) : Prop :=
  (∀ y, o.staged = some y → ∀ t, Supplies zones t y) ∧ ∀ b ∈ o.cached, B b

section Rules

variable {α β : Type} {Q : Except Exc α → Instant → Prop}

theorem anyhow_ordinary : Ordinary (Anyhow zones B) := by
  intro β o ho
  refine ⟨fun y hy => ?_, fun b hb => ?_⟩
  · cases o <;> simp [Effect.staged, Effect.ordinary] at hy ho
  · cases o <;> simp [Effect.cached, Effect.ordinary] at hb ho

theorem serves_anyhow : Serves (Anyhow zones B) where
  ordinary := anyhow_ordinary
  setNx _ _ _ := ⟨fun _ hy => by simp [Effect.staged] at hy, fun _ hb => by simp [Effect.cached] at hb⟩
  release _ _ := ⟨fun _ hy => by simp [Effect.staged] at hy, fun _ hb => by simp [Effect.cached] at hb⟩

theorem anyhow_stage {y : Write} (hy : ∀ t, Supplies zones t y) : Anyhow zones B Unit (.stage y) := by
  refine ⟨fun z hz => ?_, fun b hb => by simp [Effect.cached] at hb⟩
  obtain rfl : y = z := Option.some.inj hz
  exact hy

theorem Anyhow.pre {o : Effect β} (h : Anyhow zones B β o) : (furnishing zones B).pre o t :=
  ⟨fun y hy => h.1 y hy t, h.2⟩

/-- An effect that is admitted at any time. -/
theorem wp_tells {o : Effect α} (ho : Anyhow zones B α o)
    (herr : ∀ e t', t ≤ t' → e.OfOthers → Q (.error e) t')
    (hok : ∀ x t', t ≤ t' → Tells zones t' o x → Q (.ok x) t') :
    wp (furnishing zones B) (.perform o) Q t := by
  refine wp_perform ho.pre ?_
  rintro (e | x) t' ⟨ht, hreplies, htells⟩
  · have he : e.OfOthers ∧ e.isApp = false := by cases o <;> exact hreplies
    exact herr e t' ht he.1
  · exact hok x t' ht (htells x rfl)

/-- A part that is proved without a look at the time. -/
theorem wp_furnishing_part {p : M α} {R : α → Prop}
    (hp : wp (Scheduling.inquiring B) p (Scheduling.Inquired R) ())
    (herr : ∀ e t', t ≤ t' → e.OfOthers → Q (.error e) t')
    (hok : ∀ a t', t ≤ t' → R a → Q (.ok a) t') : wp (furnishing zones B) p Q t := by
  refine wp_mono (wp_of_answering (L := furnishing zones B) (I := fun t' => t ≤ t')
    (R := fun x => Scheduling.Inquired R x ()) hp (fun o v ho _ => ?_)
    (fun o v x v' _ hv hstep => ⟨hstep.2.1, hv.trans hstep.1⟩) le_rfl) ?_
  · refine ⟨fun y hy => ?_, ho.2⟩
    rw [staged_of_asks ho.1] at hy
    simp at hy
  · rintro (e | a) t' ⟨hx, ht⟩
    · exact herr e t' ht hx
    · exact hok a t' ht hx

/-- A part whose effects are admitted at any time. -/
theorem wp_anyhow {p : M α} (hp : p.Uses (Anyhow zones B)) (hQ : ∀ x t', t ≤ t' → Q x t') :
    wp (furnishing zones B) p Q t := by
  refine wp_mono (wp_uses (L := furnishing zones B) (I := fun t' => t ≤ t') hp
    (fun o v ho _ => ⟨fun y hy => ho.1 y hy v, ho.2⟩)
    (fun o _ v x v' hv hstep => hv.trans hstep.1) le_rfl) ?_
  exact fun x t' ht => hQ x t' ht

/-- A block under a lock. -/
theorem wp_furnishing_lock {key : LockKey} {ttlSeconds : ℕ} {block : M α} {R : Except Exc α → Prop}
    (hlock : R (.error .lockNotAcquired)) (herr : ∀ e : Exc, e.OfOthers → R (.error e))
    (hblock : ∀ t', wp (furnishing zones B) block (fun x _ => R x) t') :
    wp (furnishing zones B) (redisLock key ttlSeconds block) (fun x _ => R x) t := by
  refine wp_bind (wp_tells (anyhow_ordinary _ rfl) (fun e _ _ he => herr e he)
    fun token t₁ _ _ => ?_)
  refine wp_bind_attempt (wp_tells (serves_anyhow.setNx _ _ _) (fun e t₂ _ _ => hblock t₂)
    fun taken t₂ _ _ => ?_)
  cases taken with
  | false => exact wp_throw hlock
  | true =>
    refine wp_finallyDo (wp_mono (hblock t₂) fun x v hx => ?_)
    exact wp_tells (serves_anyhow.release _ _) (fun _ _ _ _ => hx) fun _ _ _ _ => hx

end Rules

/-! ### The availability of a candidate -/

section Submit

variable {pf : Platform} {actor : User} {r : Id} {data : Availability.SubmitAvailabilityRequest}

theorem bounds_of_checkBounds {now : Instant} {w : AvailabilityWindow}
    (h : Availability.checkBounds now w = .ok ()) : w.startTime < w.endTime ∧
      w.endTime ≤ now + days Availability.availabilityHorizonDays := by
  unfold Availability.checkBounds at h
  split_ifs at h with h₁ h₂ h₃ h₄
  exact ⟨not_le.mp h₁, not_lt.mp h₄⟩

/-- The check of one window against the clock. -/
theorem furnishing_checkBounds {w : AvailabilityWindow} :
    wp (furnishing zones B) (do
      let now ← now
      match Availability.checkBounds now w with
      | .ok () => pure ()
      | .error e => throw e : M Unit) (fun x t' => t ≤ t' ∧
        (x = .ok () → w.startTime < w.endTime ∧
          w.endTime ≤ t' + days Availability.availabilityHorizonDays)) t := by
  refine wp_bind (wp_tells (anyhow_ordinary _ rfl) (fun e t₁ ht _ => ⟨ht, by simp⟩)
    fun now t₁ ht hnow => ?_)
  obtain rfl : now = t₁ := hnow
  dsimp only [Then]
  split
  · next hcheck => exact wp_pure ⟨ht, fun _ => bounds_of_checkBounds hcheck⟩
  · exact wp_throw ⟨ht, by simp⟩

theorem furnishing_checks {check : AvailabilityWindow → M Unit}
    (hcheck : ∀ w t, wp (furnishing zones B) (check w) (fun x t' => t ≤ t' ∧
      (x = .ok () → w.startTime < w.endTime ∧
        w.endTime ≤ t' + days Availability.availabilityHorizonDays)) t) (windows : List AvailabilityWindow) :
    wp (furnishing zones B) (Prog.forEach check windows) (fun x t' => t ≤ t' ∧ ∀ l, x = .ok l →
      ∀ w ∈ windows, w.startTime < w.endTime ∧
        w.endTime ≤ t' + days Availability.availabilityHorizonDays) t := by
  induction windows generalizing t with
  | nil => exact ⟨le_rfl, fun _ _ w hw => by simp at hw⟩
  | cons v windows ih =>
    refine wp_bind (wp_mono (hcheck v t) ?_)
    rintro (e | u) t₁ ⟨ht₁, hv⟩
    · exact ⟨ht₁, by simp⟩
    refine wp_bind (wp_mono ih ?_)
    rintro (e | l) t₂ ⟨ht₂, hl⟩
    · exact ⟨ht₁.trans ht₂, by simp⟩
    · refine ⟨ht₁.trans ht₂, fun _ _ w hw => ?_⟩
      rcases List.mem_cons.mp hw with rfl | hw
      · obtain ⟨hlt, hle⟩ := hv rfl
        exact ⟨hlt, by lia⟩
      · exact hl l rfl w hw

theorem furnishing_validate :
    wp (furnishing pf.zones B) (Availability.validate pf data) (fun x t' =>
      x = .ok () → ∀ id requestId candidateId submittedAt,
        Offered pf.zones t' ⟨id, requestId, candidateId, data.timezone, submittedAt, data.windows⟩) t := by
  refine wp_bind (wp_raiseIf (fun _ h => absurd h (by simp)) fun hknown => ?_)
  refine wp_bind (wp_mono (furnishing_checks (fun w t => furnishing_checkBounds) data.windows) ?_)
  rintro (e | l) t₁ ⟨-, hl⟩
  · intro h
    simp at h
  · exact fun _ _ _ _ _ => ⟨by simpa using hknown, hl l rfl⟩

theorem furnishing_create {actorId : Id} (hdata : ∀ id requestId candidateId submittedAt,
      Offered zones t ⟨id, requestId, candidateId, data.timezone, submittedAt, data.windows⟩) :
    wp (furnishing zones B) (Availability.create r actorId data.timezone data.windows)
      (fun _ _ => True) t := by
  refine wp_bind (wp_tells (anyhow_ordinary _ rfl) (fun _ _ _ _ => trivial)
    fun id t₁ ht₁ _ => ?_)
  refine wp_bind (wp_tells (anyhow_ordinary _ rfl) (fun _ _ _ _ => trivial)
    fun submittedAt t₂ ht₂ _ => ?_)
  have hoffered := (hdata id r actorId submittedAt).later (ht₁.trans ht₂)
  refine wp_bind (wp_perform ⟨fun y hy => ?_, by simp [Effect.cached]⟩ fun u t₃ _ => ?_)
  · obtain rfl := Option.some.inj hy
    exact hoffered
  cases u with
  | error e => trivial
  | ok u =>
    refine wp_bind (wp_tells (anyhow_ordinary _ rfl) (fun _ _ _ _ => trivial) ?_)
    exact fun _ _ _ _ => trivial

theorem furnishing_submit (hdata : ∀ id requestId candidateId submittedAt, Offered zones t
      ⟨id, requestId, candidateId, data.timezone, submittedAt, data.windows⟩) :
    wp (furnishing zones B) (Availability.submit actor r data) (fun _ _ => True) t := by
  refine wp_bind (wp_tells (anyhow_ordinary _ rfl) (fun _ _ _ _ => trivial)
    fun request t₁ ht₁ _ => ?_)
  refine wp_bind (wp_orRaise (fun _ => trivial) fun row _ => ?_)
  refine wp_bind (wp_raiseIf (fun _ => trivial) fun _ => ?_)
  refine wp_bind (wp_raiseIf (fun _ => trivial) fun _ => ?_)
  refine wp_bind (wp_mono (furnishing_create fun id requestId candidateId submittedAt =>
    (hdata id requestId candidateId submittedAt).later ht₁) ?_)
  rintro (e | stored) t₂ -
  · trivial
  have hstatus : Anyhow zones B Unit (.stage (.setStatus r .readyForScheduling)) :=
    anyhow_stage fun _ => trivial
  refine wp_anyhow (t := t₂) ?_ fun _ _ _ => trivial
  refine Prog.uses_bind (Prog.uses_perform hstatus) fun _ => ?_
  refine Prog.uses_bind (Booking.uses_recordAudit anyhow_ordinary.internal) fun _ => ?_
  refine Prog.uses_bind (Prog.uses_perform (anyhow_ordinary _ rfl)) fun _ => ?_
  exact Prog.uses_bind (Prog.uses_perform (anyhow_ordinary _ rfl)) fun _ => Prog.uses_pure

end Submit

/-! ### An evaluation -/

section Generate

variable {pf : Platform} {actor : User} {r : Id} {α : Type}

/-- The engine has not rejected its input, when there is a zone UTC and the busy blocks are in order. -/
def NotRejected (zones : ZoneDatabase) (B : BusyInterval → Prop) (x : Except Exc α) : Prop :=
  zones.known "UTC" = true → (∀ b, B b → BusyOk b) → x ≠ .error engineRejected

theorem notRejected_of_others {e : Exc} (he : e.OfOthers) :
    NotRejected zones B (.error e : Except Exc α) := by
  intro _ _ h
  obtain rfl := Except.error.inj h
  exact he.2 rfl

theorem notRejected_noCommon :
    NotRejected zones B (.error Scheduling.noCommonAvailability : Except Exc α) := by
  intro _ _ h
  exact absurd (Except.error.inj h) (by decide)

theorem notRejected_ok {a : α} : NotRejected zones B (.ok a : Except Exc α) :=
  fun _ _ h => by simp at h

theorem furnishing_recordAudit {action : String} {metadata : List (String × String)}
    {Q : Except Exc Unit → Instant → Prop} (herr : ∀ e t', t ≤ t' → e.OfOthers → Q (.error e) t')
    (hok : ∀ t', t ≤ t' → Q (.ok ()) t') :
    wp (furnishing zones B) (recordAudit actor action r metadata) Q t := by
  refine wp_bind (wp_tells (anyhow_ordinary _ rfl) herr fun _ t₁ ht₁ _ => ?_)
  exact wp_tells (anyhow_ordinary _ rfl) (fun e t₂ ht₂ he => herr e t₂ (ht₁.trans ht₂) he)
    fun _ t₂ ht₂ _ => hok t₂ (ht₁.trans ht₂)

/-- A failed evaluation. -/
theorem furnishing_fail {reason : String} :
    wp (furnishing zones B) (Scheduling.fail actor r reason) (fun x _ => NotRejected zones B x) t := by
  have hstatus : Anyhow zones B Unit (.stage (.setStatus r .failed)) := anyhow_stage fun _ => trivial
  refine wp_bind (wp_tells hstatus (fun e _ _ he => notRejected_of_others he) fun _ t₁ _ _ => ?_)
  refine wp_bind (furnishing_recordAudit (fun e _ _ he => notRejected_of_others he) fun t₂ _ => ?_)
  refine wp_bind (wp_tells (anyhow_ordinary _ rfl) (fun e _ _ he => notRejected_of_others he)
    fun _ t₃ _ _ => ?_)
  exact notRejected_noCommon

theorem furnishing_persistRun {inp : EngineInput} {result : EngineResult}
    (hresult : generateRecommendations zones inp = .ok result) :
    wp (furnishing zones B) (Scheduling.persistRun pf actor r inp result)
      (fun x _ => NotRejected zones B x) t := by
  refine wp_bind (wp_bind (wp_tells (anyhow_ordinary _ rfl) (fun e _ _ he => notRejected_of_others he)
    fun id t₁ _ _ => ?_))
  refine wp_bind (wp_furnishing_part (Scheduling.inquired_slotRows _)
    (fun e _ _ he => notRejected_of_others he) fun rows t₂ _ hrows => ?_)
  refine wp_bind (wp_tells (anyhow_ordinary _ rfl) (fun e _ _ he => notRejected_of_others he)
    fun generatedAt t₃ _ _ => ?_)
  refine wp_bind (wp_tells (anyhow_stage fun t => ?_) (fun e _ _ he => notRejected_of_others he)
    fun _ t₄ _ _ => ?_)
  · exact supplies_of_computed hresult hrows
  refine wp_bind (wp_tells (anyhow_ordinary _ rfl) (fun e _ _ he => notRejected_of_others he)
    fun _ t₅ _ _ => ?_)
  have hstatus : Anyhow zones B Unit (.stage (.setStatus r .recommended)) := anyhow_stage fun _ => trivial
  refine wp_bind (wp_tells hstatus (fun e _ _ he => notRejected_of_others he) fun _ t₆ _ _ => ?_)
  refine wp_bind (furnishing_recordAudit (fun e _ _ he => notRejected_of_others he) fun t₇ _ => ?_)
  refine wp_bind (wp_tells (anyhow_ordinary _ rfl) (fun e _ _ he => notRejected_of_others he)
    fun _ t₈ _ _ => ?_)
  exact notRejected_ok

/-- From the clipped windows to the end. -/
theorem furnishing_recommend (hpf : pf.zones = zones) {request : InterviewRequest}
    {avail : CandidateAvailability} {panelists : Parts} {ref : Instant} (hrequest : Lasting request)
    (havail : Offered zones t avail) (ht : t ≤ ref)
    (hzones : ∀ p ∈ panelists, Registrable zones p.2.timezone) (hne : panelists ≠ [])
    (hwindows : Scheduling.clipWindows ref avail.windows ≠ []) {t₀ : Instant} :
    wp (furnishing zones B) (Scheduling.recommend pf actor r request avail panelists ref
      (Scheduling.clipWindows ref avail.windows)) (fun x _ => NotRejected zones B x) t₀ := by
  refine wp_bind (wp_furnishing_part Scheduling.inquired_calendarBusy
    (fun e _ _ he => notRejected_of_others he) fun busyByUser t₁ _ hbusy => ?_)
  have hgo : ∀ internal t₂, (∀ x ∈ internal, x.2.1 < x.2.2) →
      wp (furnishing zones B) (do
        let result ← Scheduling.runEngine pf (Scheduling.engineInput request avail panelists ref
          (Scheduling.clipWindows ref avail.windows) (Scheduling.withInternal busyByUser internal))
        if result.slots = [] then Scheduling.fail actor r "no_common_availability"
        else Scheduling.persistRun pf actor r (Scheduling.engineInput request avail panelists ref
          (Scheduling.clipWindows ref avail.windows) (Scheduling.withInternal busyByUser internal)) result)
        (fun x _ => NotRejected zones B x) t₂ := by
    intro internal t₂ hinternal
    refine wp_bind ?_
    unfold Scheduling.runEngine
    split
    · next result hresult =>
      refine wp_ite (fun _ => furnishing_fail) fun _ => furnishing_persistRun ?_
      rw [← hpf]
      exact hresult
    · next m herr =>
      intro hutc hB
      rw [hpf] at herr
      exact absurd herr (generateRecommendations_not_rejected (accepted_input hutc hrequest havail ht hzones
        hne hwindows (fun x hx b hb => hB b (hbusy x hx b hb)) hinternal))
    · next herr => exact notRejected_of_others trivial
    · next herr => exact notRejected_of_others trivial
  refine wp_bind ?_
  unfold Booking.confirmedEventsForUsers
  refine wp_ite (fun _ => hgo [] t₁ (by simp)) fun _ => ?_
  refine wp_tells (anyhow_ordinary _ rfl) (fun e _ _ he => notRejected_of_others he)
    fun internal t₂ _ htells => hgo internal t₂ ?_
  obtain ⟨n, db, hdb, rfl⟩ := htells
  exact fun x hx => hdb.confirmedFor ((inSomeOrder_perm n _).mem_iff.mp hx)

theorem furnishing_generateReady (hpf : pf.zones = zones) {row : InterviewRequest}
    (hrow : Lasting row) :
    wp (furnishing zones B) (Scheduling.generateReady pf actor r row)
      (fun x _ => NotRejected zones B x) t := by
  have hready : ∀ {α : Type}, NotRejected zones B
      (.error (.ofClass .notReadyForSchedulingError) : Except Exc α) :=
    notRejected_of_others (Scheduling.ofOthers_ofClass (by decide) (by decide))
  refine wp_bind (wp_raiseIf (fun _ => hready) fun _ => ?_)
  refine wp_bind (wp_tells (anyhow_ordinary _ rfl) (fun e _ _ he => notRejected_of_others he)
    fun found t₁ _ htells => ?_)
  refine wp_bind (wp_orRaise (fun _ => hready) fun avail hfound => ?_)
  have havail : Offered zones t₁ avail := by
    obtain ⟨n, db, hdb, hlatest⟩ := htells
    rw [hfound] at hlatest
    exact hdb.availability avail (List.mem_of_mem_filter (Booking.of_latestBy hlatest.symm).1)
  refine wp_bind (wp_raiseIf (fun _ => hready) fun _ => ?_)
  refine wp_bind (wp_tells (anyhow_ordinary _ rfl) (fun e _ _ he => notRejected_of_others he)
    fun parts t₂ ht₂ htells => ?_)
  have hzones : ∀ p ∈ parts.filter Part.isPanelist, Registrable zones p.2.timezone := by
    obtain ⟨n, db, hdb, rfl⟩ := htells
    exact fun p hp => hdb.partsOf ((inSomeOrder_perm n _).mem_iff.mp (List.mem_of_mem_filter hp))
  refine wp_bind (wp_raiseIf (fun _ => hready) fun hne => ?_)
  refine wp_bind (wp_tells (anyhow_ordinary _ rfl) (fun e _ _ he => notRejected_of_others he)
    fun ref t₃ ht₃ href => ?_)
  obtain rfl : ref = t₃ := href
  refine wp_ite (fun _ => furnishing_fail) fun hwindows => ?_
  exact furnishing_recommend hpf hrow havail (ht₂.trans ht₃) hzones hne hwindows

theorem furnishing_generateLocked (hpf : pf.zones = zones) :
    wp (furnishing zones B) (Scheduling.generateLocked pf actor r)
      (fun x _ => NotRejected zones B x) t := by
  refine wp_bind (wp_tells (anyhow_ordinary _ rfl) (fun e _ _ he => notRejected_of_others he)
    fun _ t₁ _ _ => ?_)
  refine wp_bind (wp_tells (anyhow_ordinary _ rfl) (fun e _ _ he => notRejected_of_others he)
    fun row t₂ _ hrow => ?_)
  refine wp_bind (wp_furnishing_part Scheduling.inquired_existingRun
    (fun e _ _ he => notRejected_of_others he) fun found t₃ _ _ => ?_)
  cases found with
  | some run => exact notRejected_ok
  | none => exact furnishing_generateReady hpf hrow

theorem furnishing_waitForRun (n : ℕ) :
    wp (furnishing zones B) (Scheduling.waitForRun r n) (fun x _ => NotRejected zones B x) t := by
  induction n generalizing t with
  | zero => exact notRejected_of_others (Scheduling.ofOthers_ofClass (by decide) (by decide))
  | succ n ih =>
    refine wp_bind (wp_tells (anyhow_ordinary _ rfl) (fun e _ _ he => notRejected_of_others he)
      fun _ t₁ _ _ => ?_)
    refine wp_bind (wp_tells (anyhow_ordinary _ rfl) (fun e _ _ he => notRejected_of_others he)
      fun _ t₂ _ _ => ?_)
    refine wp_bind (wp_tells (anyhow_ordinary _ rfl) (fun e _ _ he => notRejected_of_others he)
      fun row t₃ _ _ => ?_)
    refine wp_bind (wp_raiseIf (fun _ => notRejected_noCommon) fun _ => ?_)
    refine wp_ite (fun _ => ?_) fun _ => ih
    refine wp_bind (wp_tells (anyhow_ordinary _ rfl) (fun e _ _ he => notRejected_of_others he)
      fun found t₄ _ _ => ?_)
    cases found with
    | some run => exact notRejected_ok
    | none => exact ih

/-- **No evaluation is rejected by the engine.** -/
theorem furnishing_generate (hpf : pf.zones = zones) :
    wp (furnishing zones B) (Scheduling.generate pf actor r) (fun x _ => NotRejected zones B x) t := by
  refine wp_bind (wp_tells (anyhow_ordinary _ rfl) (fun e _ _ he => notRejected_of_others he)
    fun request t₁ _ _ => ?_)
  refine wp_bind (wp_orRaise
    (fun _ => notRejected_of_others (e := notFoundError _) ⟨by decide, by decide⟩) fun row _ => ?_)
  refine wp_bind (wp_furnishing_part Scheduling.inquired_existingRun
    (fun e _ _ he => notRejected_of_others he) fun found t₂ _ _ => ?_)
  cases found with
  | some run => exact notRejected_ok
  | none =>
    refine wp_tryCatch (wp_mono (wp_furnishing_lock
      (R := fun x => x = .error .lockNotAcquired ∨ NotRejected zones B x) (.inl rfl)
      (fun e he => .inr (notRejected_of_others he)) fun t₃ =>
        wp_mono (furnishing_generateLocked hpf) fun x _ hx => .inr hx) ?_)
    rintro (e | response) t₃ hx
    · cases e with
      | lockNotAcquired => exact furnishing_waitForRun 50
      | _ =>
        rcases hx with hx | hx
        · simp at hx
        · exact hx
    · exact notRejected_ok

/-- The evaluation that follows a reschedule. -/
theorem furnishing_retriggerRecommendations (hpf : pf.zones = zones) :
    wp (furnishing zones B) (retriggerRecommendations pf actor r) (fun _ _ => True) t := by
  have hstatus : Anyhow zones B Unit (.stage (.setStatus r .readyForScheduling)) :=
    anyhow_stage fun _ => trivial
  refine wp_bind (wp_tells (anyhow_ordinary _ rfl) (fun _ _ _ _ => trivial) fun request t₁ _ _ => ?_)
  cases request with
  | none => trivial
  | some row =>
    refine wp_bind (wp_tells hstatus (fun _ _ _ _ => trivial) fun _ t₂ _ _ => ?_)
    refine wp_bind (wp_tells (anyhow_ordinary _ rfl) (fun _ _ _ _ => trivial) fun _ t₃ _ _ => ?_)
    exact wp_bind_attempt (wp_mono (furnishing_generate hpf) fun _ _ _ => trivial)

end Generate

/-! ### Every handler -/

section Handle

variable {pf : Platform} {actor : User} {r slotId : Id} {reason : Option (Text 1000)} {α β : Type}

/-- A part whose effects are admitted at any time, and what follows. -/
theorem wp_bind_anyhow {p : M α} {f : α → M β} (hp : p.Uses (Anyhow zones B))
    (hf : ∀ a t', wp (furnishing zones B) (f a) (fun _ _ => True) t') :
    wp (furnishing zones B) (p >>= f) (fun _ _ => True) t := by
  refine wp_bind (wp_anyhow hp fun x t' _ => ?_)
  cases x with
  | error e => trivial
  | ok a => exact hf a t'

theorem anyhow_deleteEvent (token id : String) : Anyhow zones B Unit (.deleteEvent token id) :=
  ⟨fun _ hy => by simp [Effect.staged] at hy, fun _ hb => by simp [Effect.cached] at hb⟩

theorem anyhow_createEvent (token : String) (draft : EventDraft) :
    Anyhow zones B CalendarEvent (.createEvent token draft) :=
  ⟨fun _ hy => by simp [Effect.staged] at hy, fun _ hb => by simp [Effect.cached] at hb⟩

/-- A slot that ends after it starts becomes such an event. -/
theorem furnishing_book : wp (furnishing zones B) (Booking.book pf actor r slotId) (fun _ _ => True) t := by
  refine wp_bind (wp_tells (anyhow_ordinary _ rfl) (fun _ _ _ _ => trivial) fun found t₁ _ hfound => ?_)
  refine wp_bind (wp_orRaise (fun _ => trivial) fun x hx => ?_)
  obtain ⟨slot, run⟩ := x
  have hslot : slot.startTime < slot.endTime := hfound (slot, run) hx
  have hplain : ∀ {γ : Type} {o : Effect γ}, o.ordinary = true →
      (Prog.perform o : M γ).Uses (Anyhow zones B) := fun ho => Prog.uses_perform (anyhow_ordinary _ ho)
  have hlocked : (Booking.bookLocked pf actor r slot).Uses (Anyhow zones B) :=
    Booking.uses_bookLocked anyhow_ordinary anyhow_createEvent anyhow_deleteEvent
      (fun e _ hstart hend => anyhow_stage fun t => by
        change e.startTime < e.endTime
        rwa [hstart, hend]) (anyhow_stage fun _ => trivial) (anyhow_stage fun _ => trivial)
  refine wp_anyhow (t := t₁) ?_ fun _ _ _ => trivial
  refine Prog.uses_bind Prog.uses_raiseIf fun _ => Prog.uses_bind (hplain rfl) fun request => ?_
  refine Prog.uses_bind Prog.uses_orRaise fun row => ?_
  refine Prog.uses_bind (Prog.uses_bind (hplain rfl) fun _ => Prog.uses_pure) fun latest => ?_
  refine Prog.uses_bind Prog.uses_raiseIf fun _ => Prog.uses_bind Prog.uses_raiseIf fun _ => ?_
  refine Prog.uses_bind (Prog.uses_tryCatch (uses_redisLock serves_anyhow.attends hlocked) fun e => ?_) ?_
  · cases e <;> exact Prog.uses_throw
  · exact fun booked => Prog.uses_bind (uses_notice serves_anyhow.attends) fun _ => Prog.uses_pure

theorem furnishing_decline (hpf : pf.zones = zones) :
    wp (furnishing zones B) (decline pf actor r reason) (fun _ _ => True) t := by
  refine wp_bind_anyhow (uses_load anyhow_ordinary.internal) fun row t₁ => ?_
  refine wp_bind_anyhow (Prog.uses_perform (anyhow_ordinary _ rfl)) fun _ t₂ => ?_
  refine wp_bind_anyhow (Prog.uses_perform (anyhow_ordinary _ rfl)) fun parts t₃ => ?_
  refine wp_bind_anyhow Prog.uses_raiseIf fun _ t₄ => ?_
  refine wp_bind_anyhow (uses_redisLock serves_anyhow.attends (uses_declineLocked anyhow_ordinary
    anyhow_deleteEvent (fun _ => anyhow_stage fun _ => trivial)
    fun _ _ => anyhow_stage fun _ => trivial)) fun x t₅ => ?_
  refine wp_bind_anyhow (uses_notify serves_anyhow.attends) fun _ t₆ => ?_
  refine wp_ite (fun _ => ?_) fun _ => wp_pure trivial
  refine wp_bind (wp_mono (furnishing_retriggerRecommendations hpf) ?_)
  rintro (e | u) t₇ -
  · trivial
  · trivial

theorem furnishing_reschedule (hpf : pf.zones = zones) :
    wp (furnishing zones B) (reschedule pf actor r reason) (fun _ _ => True) t := by
  refine wp_bind_anyhow (uses_load anyhow_ordinary.internal) fun row t₁ => ?_
  refine wp_bind_anyhow Prog.uses_raiseIf fun _ t₂ => ?_
  refine wp_bind_anyhow (Prog.uses_perform (anyhow_ordinary _ rfl)) fun parts t₃ => ?_
  refine wp_bind_anyhow (uses_redisLock serves_anyhow.attends (uses_transitionLocked anyhow_ordinary
    anyhow_deleteEvent (fun _ => anyhow_stage fun _ => trivial) (anyhow_stage fun _ => trivial)))
    fun event t₄ => ?_
  refine wp_bind_anyhow (uses_notify serves_anyhow.attends) fun _ t₅ => ?_
  refine wp_bind (wp_mono (furnishing_retriggerRecommendations hpf) ?_)
  rintro (e | u) t₆ -
  · trivial
  · trivial

/-- The other calls write what is fit at any time. -/
theorem furnishing_other {call : Call} (heval : call.evaluates = false)
    (hsubmit : ∀ u r data, call ≠ .submit u r data) (hbook : ∀ u r slotId, call ≠ .book u r slotId) :
    wp (furnishing pf.zones B) (handle pf call) (fun _ _ => True) t := by
  have huses : (handle pf call).Uses (Anyhow pf.zones B) := by
    refine uses_handle ⟨serves_anyhow, anyhow_createEvent, anyhow_deleteEvent, fun h => ?_,
      fun y hy => anyhow_stage fun t => supplies_of_writes hy hsubmit hbook⟩
    simp [heval] at h
  exact wp_anyhow huses fun _ _ _ => trivial

/-- **Every handler keeps the tables fit**, and no call of `generate` is rejected by the engine. -/
theorem furnishing_handle (call : Call) :
    wp (furnishing pf.zones B) (handle pf call)
      (fun x _ => ∀ u r, call = .generate u r → NotRejected pf.zones B x) t := by
  have hany : ∀ {f : User → M Response} {u : Id} {role : Role},
      (∀ user t', wp (furnishing pf.zones B) (f user) (fun _ _ => True) t') →
      wp (furnishing pf.zones B) (do
        let user ← getCurrentUser u
        requireRole user role
        f user) (fun _ _ => True) t := fun hf =>
    wp_bind_anyhow (uses_getCurrentUser serves_anyhow.attends) fun user _ =>
      wp_bind_anyhow Prog.uses_raiseIf fun _ t' => hf user t'
  have hother : (∀ u r, call ≠ .generate u r) →
      wp (furnishing pf.zones B) (handle pf call) (fun _ _ => True) t →
      wp (furnishing pf.zones B) (handle pf call)
        (fun x _ => ∀ u r, call = .generate u r → NotRejected pf.zones B x) t := fun hne h =>
    wp_mono h fun x _ _ u r hcall => absurd hcall (hne u r)
  cases call with
  | generate u r =>
    have howner : wp (furnishing pf.zones B) (handle pf (.generate u r))
        (fun x _ => NotRejected pf.zones B x) t := by
      refine wp_bind (wp_bind (wp_tells (anyhow_ordinary _ rfl)
        (fun e _ _ he => notRejected_of_others he) fun found t₁ _ _ => ?_))
      refine wp_orRaise (fun _ => ?_) fun user _ => ?_
      · exact notRejected_of_others (e := .app .notAuthenticatedError _) ⟨by decide, by decide⟩
      refine wp_bind (wp_furnishing_part Scheduling.inquired_adminOrOwningCandidate
        (fun e _ _ he => notRejected_of_others he) fun _ t₂ _ _ => ?_)
      refine wp_map (wp_mono (furnishing_generate rfl) fun x t₃ hx => ?_)
      cases x with
      | ok response => exact notRejected_ok
      | error e =>
        intro hutc hB he
        obtain rfl := Except.error.inj he
        exact hx hutc hB rfl
    exact wp_mono howner fun x _ hx _ _ _ => hx
  | submit u r data =>
    refine hother (by simp) (hany fun user t₁ => ?_)
    refine wp_bind (wp_mono furnishing_validate ?_)
    rintro (e | u) t₂ hdata
    · trivial
    · exact wp_map (wp_mono (furnishing_submit (hdata rfl)) fun _ _ _ => trivial)
  | book u r slotId =>
    refine hother (by simp) ?_
    refine wp_bind_anyhow (uses_getCurrentUser serves_anyhow.attends) fun user t₁ => ?_
    refine wp_bind_anyhow (uses_adminOrOwningCandidate serves_anyhow.attends) fun _ t₂ => ?_
    exact wp_map (wp_mono furnishing_book fun _ _ _ => trivial)
  | decline u r reason =>
    refine hother (by simp) (hany fun user t₁ => ?_)
    exact wp_map (wp_mono (furnishing_decline rfl) fun _ _ _ => trivial)
  | reschedule u r reason =>
    refine hother (by simp) ?_
    refine wp_bind_anyhow (uses_getCurrentUser serves_anyhow.attends) fun user t₁ => ?_
    refine wp_bind_anyhow (uses_adminOrOwningCandidate serves_anyhow.attends) fun _ t₂ => ?_
    exact wp_map (wp_mono (furnishing_reschedule rfl) fun _ _ _ => trivial)
  | _ => exact hother (by simp) (furnishing_other rfl (by simp) (by simp))

end Handle

end InterviewScheduler.Interviews
