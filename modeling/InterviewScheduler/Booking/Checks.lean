import InterviewScheduler.Core.Reading
import InterviewScheduler.Booking.Spec

/-! # The checks of a booking

Before it calls the calendar `book` asks whether the slot belongs to the latest run of the request,
whether the request is RECOMMENDED without a CONFIRMED event, and whether a participant is booked on
another request at that time (`Passes`). A booking that is made has passed them, for the time of the
slot, and one that is refused has not. -/

namespace InterviewScheduler.Booking

open InterviewScheduler.Engine InterviewScheduler.Core InterviewScheduler.Effects
open InterviewScheduler.Lifecycle
open InterviewScheduler.Calendar (usableConnection ensureUsable refresh googleError)

/-- The answers of the checks. -/
def refusals : List Exc :=
  [notFoundError "recommended slot not found for this request",
    notFoundError "interview request not found",
    slotNoLongerAvailable "this recommendation is no longer current",
    slotNoLongerAvailable "this request can no longer be booked",
    slotNoLongerAvailable "this request is already booked",
    slotNoLongerAvailable "a participant is already booked for another interview at this time"]

/-- What the checks ask for, of the slot with the id and its run. -/
structure Passing (T : Interviews) (r slotId : Id) (slot : RecommendedSlot) (run : RecommendationRun) :
    Prop where
  found : slotWithRun T slotId = some (slot, run)
  request : run.interviewRequestId = r
  latest : IsLatest T run
  recommended : ∃ row, T.requests r = some row ∧ row.status = .recommended
  unbooked : T.events.find? (fun e => e.ConfirmedFor r) = none
  unclashed : confirmedFor T ((partsOf T r).map (·.2.id)) r slot.startTime slot.endTime = []

/-- A booking of the slot passes the checks. -/
def Passes (T : Interviews) (r slotId : Id) : Prop := ∃ slot run, Passing T r slotId slot run

/-- No two runs were generated at the same time; they are stored in the order of their times. -/
def Timely (T : Interviews) : Prop :=
  T.runs.Pairwise fun run run' => run.generatedAt < run'.generatedAt

variable {T : Interviews} {pf : Platform} {actor : User} {r slotId : Id} {α β : Type} {v : Bool}

/-! ### The latest run -/

theorem Timely.eq_of_generatedAt (h : Timely T) {run run' : RecommendationRun} (hrun : run ∈ T.runs)
    (hrun' : run' ∈ T.runs) (heq : run.generatedAt = run'.generatedAt) : run = run' := by
  have hnodup : (T.runs.map (·.generatedAt)).Nodup := by
    rw [List.Nodup, List.pairwise_map]
    exact h.imp fun hlt => ne_of_lt hlt
  exact List.inj_on_of_nodup_map hnodup hrun hrun' heq

/-- The query for the latest row has one answer when no other row has the same key. -/
theorem latestBy_eq_some {key : α → Instant} {pick : ℕ} {rows : List α} {x : α} (hx : x ∈ rows)
    (htop : ∀ y ∈ rows, key y ≤ key x) (huniq : ∀ y ∈ rows, key y = key x → y = x) :
    latestBy key pick rows = some x := by
  unfold latestBy
  set top := rows.filter fun y => rows.all fun z => key z ≤ key y with htops
  have hmem : x ∈ top := by
    rw [htops, List.mem_filter]
    exact ⟨hx, List.all_eq_true.mpr fun y hy => decide_eq_true (htop y hy)⟩
  have hall : ∀ y ∈ top, y = x := by
    intro y hy
    obtain ⟨hy, hle⟩ := List.mem_filter.mp hy
    have hxy : key x ≤ key y := of_decide_eq_true (List.all_eq_true.mp hle x hx)
    exact huniq y hy (le_antisymm (htop y hy) hxy)
  have hlt : pick % top.length < top.length := Nat.mod_lt _ (List.length_pos_of_mem hmem)
  rw [List.getElem?_eq_getElem hlt, Option.some.injEq]
  exact hall _ (List.getElem_mem hlt)

theorem latestRun_eq_some (h : Timely T) {run : RecommendationRun} (hrun : IsLatest T run)
    (hr : run.interviewRequestId = r) (pick : ℕ) : latestRun pick T r = some run := by
  refine latestBy_eq_some (mem_runsOf.mpr ⟨hrun.1, hr⟩) (fun y hy => ?_) fun y hy heq => ?_
  · obtain ⟨hy, hyr⟩ := mem_runsOf.mp hy
    exact hrun.2 y hy (hyr.trans hr.symm)
  · exact h.eq_of_generatedAt (mem_runsOf.mp hy).1 hrun.1 heq

/-! ### How the parts of a booking end -/

/-- The part ends with a value as it should be, or with an exception that is not a refusal. -/
def Ends (A : α → Prop) : Except Exc α → Bool → Prop
  | .ok a, _ => A a
  | .error e, _ => e ∉ refusals

theorem not_mem_refusals {e : Exc} (h : e.isApp = false) : e ∉ refusals := by
  intro hmem
  simp only [refusals, List.mem_cons, List.not_mem_nil, or_false] at hmem
  rcases hmem with rfl | rfl | rfl | rfl | rfl | rfl <;> simp [Exc.isApp, notFoundError,
    slotNoLongerAvailable] at h

/-- An error of a class that is not one of the checks'. -/
theorem not_mem_refusals_of_class {cls : ErrorClass} {message : String} (h : cls ≠ .notFoundError)
    (h' : cls ≠ .slotNoLongerAvailableError) : .app cls message ∉ refusals := by
  intro hmem
  simp only [refusals, List.mem_cons, List.not_mem_nil, or_false, notFoundError,
    slotNoLongerAvailable, Exc.app.injEq] at hmem
  rcases hmem with ⟨rfl, -⟩ | ⟨rfl, -⟩ | ⟨rfl, -⟩ | ⟨rfl, -⟩ | ⟨rfl, -⟩ | ⟨rfl, -⟩
  all_goals first | exact h rfl | exact h' rfl

section Ends

variable {A : α → Prop} {B : β → Prop}

theorem ends_pure {a : α} (h : A a) : wp (reading T) (pure a) (Ends A) v := wp_pure h

theorem ends_throw {e : Exc} (h : e ∉ refusals) : wp (reading T) (throw e : M α) (Ends A) v :=
  wp_throw h

theorem ends_perform {o : Effect α} : wp (reading T) (.perform o) (Ends fun _ => True) v :=
  wp_answers (fun _ _ he => not_mem_refusals he) fun _ _ => trivial

theorem ends_bind {p : M α} {f : α → M β} (hp : wp (reading T) p (Ends A) v)
    (hf : ∀ a v', A a → wp (reading T) (f a) (Ends B) v') : wp (reading T) (p >>= f) (Ends B) v := by
  refine wp_bind (wp_mono hp ?_)
  rintro (e | a) v' h
  · exact h
  · exact hf a v' h

theorem ends_raiseIf {c : Prop} [Decidable c] {e : Exc} (h : e ∉ refusals) :
    wp (reading T) (Prog.raiseIf c e) (Ends fun _ => True) v :=
  wp_raiseIf (fun _ => h) fun _ => trivial

theorem ends_orRaise {x : Option α} {e : Exc} (h : e ∉ refusals) :
    wp (reading T) (Prog.orRaise x e) (Ends fun _ => True) v :=
  wp_orRaise (fun _ => h) fun _ _ => trivial

/-- The handler sees what is not a refusal. -/
theorem ends_tryCatch {p : M α} {hd : Exc → M α} (hp : wp (reading T) p (Ends A) v)
    (hh : ∀ e v', e ∉ refusals → wp (reading T) (hd e) (Ends A) v') :
    wp (reading T) (tryCatch p hd) (Ends A) v := by
  refine wp_tryCatch (wp_mono hp ?_)
  rintro (e | a) v' h
  · exact hh e v' h
  · exact h

end Ends

theorem ends_setStatus {conn : CalendarConnection} {status : ConnectionStatus} :
    wp (reading T) (Calendar.setStatus conn status) (Ends fun _ => True) v :=
  ends_bind ends_perform fun _ _ _ => ends_bind ends_perform fun _ _ _ => ends_pure trivial

theorem ends_refresh {conn : CalendarConnection} {email : String} :
    wp (reading T) (refresh pf conn email) (Ends fun _ => True) v := by
  have happ : ∀ {cls message}, cls ≠ ErrorClass.notFoundError →
      cls ≠ ErrorClass.slotNoLongerAvailableError → Exc.app cls message ∉ refusals :=
    not_mem_refusals_of_class
  unfold refresh
  split
  · refine ends_bind ends_setStatus fun _ _ _ => ends_bind ends_perform fun _ _ _ => ?_
    exact ends_throw (happ nofun nofun)
  · refine ends_bind (A := fun _ => True) (ends_tryCatch (ends_bind (ends_orRaise ?_)
      fun _ _ _ => ends_perform) fun e v' he => ?_) fun bundle _ _ => ?_
    · exact not_mem_refusals rfl
    · cases e with
      | calendarAuthError =>
        refine ends_bind ends_setStatus fun _ _ _ => ends_bind ends_perform fun _ _ _ => ?_
        exact ends_throw (happ nofun nofun)
      | calendarTransportError => exact ends_throw (happ nofun nofun)
      | _ => exact ends_throw he
    · refine ends_bind (ends_orRaise (not_mem_refusals rfl)) fun _ _ _ => ?_
      refine ends_bind ends_perform fun t _ _ => ends_bind (A := fun _ => True) ?_ fun _ _ _ => ?_
      · exact ends_bind ends_perform fun _ _ _ => ends_bind ends_perform fun _ _ _ => ends_pure trivial
      · exact ends_bind ends_perform fun _ _ _ => ends_pure trivial

theorem ends_usableConnection {user : User} :
    wp (reading T) (usableConnection pf user) (Ends fun _ => True) v := by
  have happ : ∀ {cls message}, cls ≠ ErrorClass.notFoundError →
      cls ≠ ErrorClass.slotNoLongerAvailableError → Exc.app cls message ∉ refusals :=
    not_mem_refusals_of_class
  refine ends_bind ends_perform fun conn _ _ => ends_bind (ends_orRaise (happ nofun nofun)) ?_
  intro conn v' _
  unfold ensureUsable
  refine ends_bind (ends_raiseIf (happ nofun nofun)) fun _ _ _ => ?_
  refine ends_bind (ends_raiseIf (happ nofun nofun)) fun _ _ _ => ends_bind ends_perform fun t _ _ => ?_
  split
  · exact ends_refresh
  · exact ends_pure trivial

theorem ends_googleError {call : M α} {cls : ErrorClass} (h : cls ≠ .notFoundError)
    (h' : cls ≠ .slotNoLongerAvailableError) (hcall : wp (reading T) call (Ends fun _ => True) v) :
    wp (reading T) (googleError call cls) (Ends fun _ => True) v := by
  refine ends_tryCatch hcall fun e v' he => ?_
  cases e with
  | calendarAuthError => exact ends_throw (not_mem_refusals_of_class h h')
  | calendarTransportError => exact ends_throw (not_mem_refusals_of_class h h')
  | _ => exact ends_throw he

theorem ends_hostEvent {row : InterviewRequest} {slot : RecommendedSlot} {panelists : Parts}
    {email : String} :
    wp (reading T) (hostEvent pf row slot panelists email) (Ends fun _ => True) v := by
  unfold hostEvent
  split
  · exact ends_bind ends_perform fun _ _ _ => ends_pure trivial
  · refine ends_bind (A := fun _ => True) ?_ fun conn _ _ => ?_
    · exact ends_bind (ends_orRaise (not_mem_refusals rfl)) fun _ _ _ => ends_usableConnection
    · refine ends_bind (ends_orRaise (not_mem_refusals rfl)) fun token _ _ => ?_
      refine ends_bind (ends_googleError nofun nofun ends_perform) fun _ _ _ => ends_pure trivial

/-- The event takes the time of the slot. -/
def AtSlot (r : Id) (slot : RecommendedSlot) (e : InterviewEvent) : Prop :=
  e.interviewRequestId = r ∧ e.startTime = slot.startTime ∧ e.endTime = slot.endTime

theorem ends_persist {slot : RecommendedSlot} {hosted : Hosted} :
    wp (reading T) (persist actor r slot hosted) (Ends (AtSlot r slot)) v := by
  refine ends_bind (A := AtSlot r slot) ?_ fun e _ he => ?_
  · refine ends_bind ends_perform fun id _ _ => ends_bind ends_perform fun _ _ _ => ?_
    exact ends_bind ends_perform fun _ _ _ => ends_pure ⟨rfl, rfl, rfl⟩
  · refine ends_bind ends_perform fun _ _ _ => ends_bind ends_perform fun _ _ _ => ?_
    refine ends_bind (A := fun _ => True) ?_ fun _ _ _ => ?_
    · exact ends_bind ends_perform fun _ _ _ => ends_perform
    · exact ends_bind ends_perform fun _ _ _ => ends_pure he

theorem ends_persistFailed {hosted : Hosted} {e : Exc} {A : InterviewEvent → Prop} :
    wp (reading T) (persistFailed hosted e) (Ends A) v := by
  have hcompensate : ∀ token v', wp (reading T) (compensate token hosted.calEventId e)
      (Ends fun _ => True) v' := by
    intro token v'
    refine ends_bind (A := fun _ => True) ?_ fun deleted _ _ => ?_
    · refine ends_tryCatch (ends_bind ends_perform fun _ _ _ => ends_pure trivial) fun e _ he => ?_
      cases e with
      | calendarAuthError => exact ends_pure trivial
      | calendarTransportError => exact ends_pure trivial
      | _ => exact ends_throw he
    · split
      · exact ends_pure trivial
      · refine ends_tryCatch (ends_bind ends_perform fun _ _ _ => ?_) fun _ _ _ => ends_pure trivial
        exact ends_perform
  have hthrow : ∀ v', wp (reading T) (if e = .integrityError then
        throw (slotNoLongerAvailable "this request was booked by someone else")
      else throw (.ofClass .bookingPersistenceFailedError) : M InterviewEvent) (Ends A) v' := by
    intro v'
    split
    · exact ends_throw (by simp [refusals, notFoundError, slotNoLongerAvailable])
    · exact ends_throw (not_mem_refusals_of_class nofun nofun)
  refine ends_bind ends_perform fun _ v₁ _ => ?_
  cases hosted.organiserToken with
  | none => exact hthrow v₁
  | some token => exact ends_bind (hcompensate token v₁) fun _ v₂ _ => hthrow v₂

/-! ### The checks -/

/-- The part ends with a value as it should be, or with a refusal for good reason. -/
def Checked (P : Prop) (A : α → Prop) : Except Exc α → Bool → Prop
  | .ok a, _ => A a
  | .error e, _ => e ∈ refusals → ¬ P

theorem Ends.checked {P : Prop} {A : α → Prop} {x : Except Exc α} (h : Ends A x v) :
    Checked P A x v := by
  cases x with
  | error e => exact fun he => absurd he h
  | ok a => exact h

section Checked

variable {P : Prop} {A : α → Prop} {B : β → Prop}

/-- A read, before anything was written. -/
theorem checked_reads {o : Effect α} (ho : o.writes = false) {f : α → M β}
    (hf : ∀ x, Truthful T o x → wp (reading T) (f x) (Checked P B) true) :
    wp (reading T) (.perform o >>= f) (Checked P B) true :=
  wp_bind (wp_reads ho (fun _ he hmem => absurd hmem (not_mem_refusals he)) hf)

/-- A check: what is refused is refused for good reason. -/
theorem checked_raiseIf {c : Prop} [Decidable c] {e : Exc} {f : Unit → M β}
    (herr : c → e ∈ refusals → ¬ P) (hok : ¬ c → wp (reading T) (f ()) (Checked P B) v) :
    wp (reading T) (Prog.raiseIf c e >>= f) (Checked P B) v :=
  wp_bind (wp_raiseIf herr hok)

theorem checked_orRaise {x : Option α} {e : Exc} {f : α → M β}
    (herr : x = none → e ∈ refusals → ¬ P)
    (hok : ∀ a, x = some a → wp (reading T) (f a) (Checked P B) v) :
    wp (reading T) (Prog.orRaise x e >>= f) (Checked P B) v :=
  wp_bind (wp_orRaise herr hok)

theorem checked_throw {e : Exc} (h : e ∈ refusals → ¬ P) :
    wp (reading T) (throw e : M α) (Checked P A) v := wp_throw h

theorem checked_bind {p : M α} {f : α → M β} (hp : wp (reading T) p (Checked P A) v)
    (hf : ∀ a v', A a → wp (reading T) (f a) (Checked P B) v') :
    wp (reading T) (p >>= f) (Checked P B) v := by
  refine wp_bind (wp_mono hp ?_)
  rintro (e | a) v' h
  · exact h
  · exact hf a v' h

theorem checked_tryCatch {p : M α} {hd : Exc → M α} (hp : wp (reading T) p (Checked P A) v)
    (hh : ∀ e v', (e ∈ refusals → ¬ P) → wp (reading T) (hd e) (Checked P A) v') :
    wp (reading T) (tryCatch p hd) (Checked P A) v := by
  refine wp_tryCatch (wp_mono hp ?_)
  rintro (e | a) v' h
  · exact hh e v' h
  · exact h

end Checked

theorem Checked.any {P : Prop} {A : α → Prop} {x : Except Exc α} {v' : Bool} (h : Checked P A x v) :
    Checked P A x v' := by
  cases x with
  | error e => exact h
  | ok a => exact h

/-- The slot with the id is the one that was found. -/
theorem passes_iff {slot : RecommendedSlot} {run : RecommendationRun}
    (hfound : slotWithRun T slotId = some (slot, run)) :
    Passes T r slotId ↔ Passing T r slotId slot run := by
  constructor
  · rintro ⟨slot', run', h⟩
    have hsame := h.found
    rw [hfound, Option.some.injEq, Prod.mk.injEq] at hsame
    obtain ⟨rfl, rfl⟩ := hsame
    exact h
  · intro h
    exact ⟨slot, run, h⟩

/-- The conflicts depend on who takes part, not on the order. -/
theorem confirmedFor_congr {users users' : List Id} (h : ∀ u, u ∈ users ↔ u ∈ users')
    {tmin tmax : Instant} : confirmedFor T users r tmin tmax = confirmedFor T users' r tmin tmax := by
  unfold confirmedFor
  simp only [h]

theorem checked_confirmedEventsForUsers {P : Prop} {B : β → Prop} {users : List Id}
    {tmin tmax : Instant} {f : List (Id × Instant × Instant) → M β}
    (hf : ∀ pick, wp (reading T) (f (inSomeOrder pick (confirmedFor T users r tmin tmax)))
      (Checked P B) true) :
    wp (reading T) (confirmedEventsForUsers users r tmin tmax >>= f) (Checked P B) true := by
  unfold confirmedEventsForUsers
  split
  · next h =>
    subst h
    have h := hf 0
    rw [inSomeOrder_eq_nil.mpr confirmedFor_nil] at h
    exact wp_bind (wp_pure h)
  · refine checked_reads rfl fun clashes hclashes => ?_
    obtain ⟨pick, db, hdb, rfl⟩ := hclashes
    subst hdb
    exact hf pick

/-- The checks under the lock. -/
theorem checked_bookLocked {slot : RecommendedSlot} {run : RecommendationRun}
    (hfound : slotWithRun T slotId = some (slot, run)) (hr : run.interviewRequestId = r)
    (hlatest : IsLatest T run) :
    wp (reading T) (bookLocked pf actor r slot) (Checked (Passing T r slotId slot run) fun b =>
      Passing T r slotId slot run ∧ AtSlot r slot b.event) true := by
  refine checked_reads rfl fun row hrow => ?_
  have hrow : T.requests r = some row := hrow
  refine checked_raiseIf (fun hst _ h => ?_) fun hst => ?_
  · obtain ⟨row', hrow', hst'⟩ := h.recommended
    rw [hrow, Option.some.injEq] at hrow'
    exact hst (hrow' ▸ hst')
  refine checked_reads rfl fun event hevent => ?_
  have hevent : event = T.events.find? fun e => e.ConfirmedFor r := hevent
  refine checked_raiseIf (fun hne _ h => hne (hevent.trans h.unbooked)) fun hnone => ?_
  refine checked_reads rfl fun parts hparts => ?_
  obtain ⟨pick, db, hdb, rfl⟩ := hparts
  have husers : ∀ u, u ∈ (inSomeOrder pick (partsOf db.toInterviews r)).map (·.2.id) ↔
      u ∈ (partsOf T r).map (·.2.id) := by
    intro u
    rw [hdb]
    exact ((inSomeOrder_perm pick (partsOf T r)).map _).mem_iff
  refine checked_orRaise (fun _ hmem => absurd hmem (not_mem_refusals rfl)) fun candidate _ => ?_
  refine checked_confirmedEventsForUsers fun pick' => ?_
  rw [confirmedFor_congr husers]
  refine checked_raiseIf (fun hne _ h => hne (inSomeOrder_eq_nil.mpr h.unclashed)) fun hclash => ?_
  -- all checks are passed: what follows refuses no more
  have hpassing : Passing T r slotId slot run :=
    { found := hfound, request := hr, latest := hlatest, recommended := ⟨row, hrow, not_not.mp hst⟩
      unbooked := hevent.symm.trans (not_not.mp hnone)
      unclashed := inSomeOrder_eq_nil.mp (not_not.mp hclash) }
  refine wp_mono (ends_bind ends_hostEvent fun hosted _ _ => ends_bind (A := AtSlot r slot)
    ?_ fun event _ he => ends_pure (A := fun b : Booked => Passing T r slotId slot run ∧
      AtSlot r slot b.event) ⟨hpassing, he⟩) fun _ _ h => Ends.checked h
  exact ends_tryCatch ends_persist fun _ _ _ => ends_persistFailed

theorem checked_latestRunId {P : Prop} {B : β → Prop} {f : Option Id → M β}
    (hf : ∀ pick, wp (reading T) (f ((latestRun pick T r).map (·.id))) (Checked P B) true) :
    wp (reading T) (latestRunId r >>= f) (Checked P B) true := by
  refine wp_bind (wp_bind (wp_reads (o := .latestRun r) rfl ?_ fun run hrun => ?_))
  · exact fun e he hmem => absurd hmem (not_mem_refusals he)
  · obtain ⟨pick, rfl⟩ := hrun
    exact hf pick

/-- The lock keeps nothing from being read. -/
theorem checked_redisLock {P : Prop} {A : α → Prop} {key : LockKey} {ttl : ℕ} {block : M α}
    (h : wp (reading T) block (Checked P A) true) :
    wp (reading T) (redisLock key ttl block) (Checked P A) true := by
  refine checked_reads (o := .uuid4) rfl fun token _ => wp_bind_attempt ?_
  refine wp_reads (o := .setNx key token ttl) rfl (fun _ _ => h) fun held _ => ?_
  cases held with
  | false => exact fun hmem => absurd hmem (not_mem_refusals rfl)
  | true =>
    refine wp_finallyDo (wp_mono h fun x v hx => ?_)
    exact wp_answers (fun _ _ _ => hx.any) fun _ _ => hx.any

/-- **A booking that is made has passed the checks, and one that is refused has not.** -/
theorem checked_book (hT : WellFormed T) (htimely : Timely T) :
    wp (reading T) (book pf actor r slotId) (Checked (Passes T r slotId) fun e =>
      ∃ slot run, Passing T r slotId slot run ∧ AtSlot r slot e) true := by
  refine checked_reads (o := .slotWithRun slotId) rfl fun found hfound => ?_
  have hfound : found = slotWithRun T slotId := hfound
  refine checked_orRaise (fun hnone _ h => ?_) fun ⟨slot, run⟩ hsome => ?_
  · obtain ⟨slot, run, h⟩ := h
    rw [hnone, h.found] at hfound
    simp at hfound
  rw [hsome] at hfound
  replace hfound := hfound.symm
  rw [passes_iff hfound]
  refine checked_raiseIf (fun hne _ h => hne h.request) fun hr => ?_
  replace hr : run.interviewRequestId = r := not_not.mp hr
  refine checked_reads (o := .get r) rfl fun request hrequest => ?_
  have hrequest : request = T.requests r := hrequest
  refine checked_orRaise (fun hnone _ h => ?_) fun row hrow => ?_
  · obtain ⟨row, hrow, -⟩ := h.recommended
    rw [hnone, hrow] at hrequest
    simp at hrequest
  rw [hrow] at hrequest
  refine checked_latestRunId fun pick => ?_
  refine checked_raiseIf (fun hne _ h => hne ?_) fun hsame => ?_
  · rw [latestRun_eq_some htimely h.latest hr pick]
    rfl
  obtain ⟨run', hrun', hid⟩ := Option.map_eq_some_iff.mp (not_not.mp hsame).symm
  obtain ⟨hlatest, -⟩ := of_latestRun hrun'
  obtain rfl := hT.runs.run run' hlatest.1 run (of_slotWithRun hfound).1 hid
  refine checked_raiseIf (fun hst _ h => ?_) fun _ => ?_
  · obtain ⟨row', hrow', hst'⟩ := h.recommended
    rw [← hrequest, Option.some.injEq] at hrow'
    exact hst (hrow' ▸ hst')
  refine checked_bind (checked_tryCatch (checked_redisLock (checked_bookLocked hfound hr hlatest))
    fun e v' he => ?_) fun b v' hb => ?_
  · cases e with
    | lockNotAcquired =>
      refine checked_throw fun hmem => ?_
      simp [refusals, notFoundError, slotNoLongerAvailable] at hmem
    | _ => exact checked_throw he
  · refine wp_bind (wp_tryCatch (wp_mono wp_anything fun x v _ => ?_))
    cases x with
    | ok u => exact ⟨slot, run', hb⟩
    | error e =>
      exact wp_answers (fun e v' he hmem => absurd hmem (not_mem_refusals he))
        fun _ _ => ⟨slot, run', hb⟩

end InterviewScheduler.Booking
