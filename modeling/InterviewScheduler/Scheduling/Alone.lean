import InterviewScheduler.Core.Asking
import InterviewScheduler.Interviews.Routes
import InterviewScheduler.Scheduling.Spec

/-! # A generation alone

What a call of `generate` leaves when nothing runs beside it, whatever fails on the way: nothing, the
status FAILED with its entry in the audit log, or a run that the engine has computed from what is stored. -/

namespace InterviewScheduler.Scheduling

open InterviewScheduler.Engine InterviewScheduler.Core InterviewScheduler.Effects
open InterviewScheduler.Booking (Part Parts partsOf participantsWithUsers confirmedFor
  confirmedEventsForUsers)
open InterviewScheduler.Calendar (refresh ensureUsable usableConnection getFreeBusy)

variable {pf : Platform} {B : BusyInterval → Prop} {α β : Type}

/-! ### The calendars -/

/-- The logic in which the calendars are asked. -/
abbrev inquiring (B : BusyInterval → Prop) : Logic Effect Exc Unit :=
  .answering (Asks B) (Replies B)

/-- The end of a part: a value, or an exception that does not come from the evaluation. -/
def Inquired (R : α → Prop) : Except Exc α → Unit → Prop
  | .ok a, _ => R a
  | .error e, _ => e.OfOthers

theorem inquired_bind {p : M α} {f : α → M β} {R : α → Prop} {R' : β → Prop}
    (hp : wp (inquiring B) p (Inquired R) ()) (hf : ∀ a, R a → wp (inquiring B) (f a) (Inquired R') ()) :
    wp (inquiring B) (p >>= f) (Inquired R') () := by
  refine wp_bind (wp_mono hp ?_)
  rintro (e | a) ⟨⟩ h
  · exact h
  · exact hf a h

theorem inquired_effect {o : Effect α} (ho : Asks B α o) :
    wp (inquiring B) (.perform o) (Inquired fun y => Replies B α o (.ok y)) () := by
  refine wp_perform ho fun x _ hx => ?_
  cases x with
  | error e =>
    have he : e.OfOthers ∧ e.isApp = false := by cases o <;> exact hx
    exact he.1
  | ok y => exact hx

/-- An effect whose answer does not matter. -/
theorem inquired_any {o : Effect α} (ho : o.asks = true)
    (hcached : o.cached = [] := by rfl) :
    wp (inquiring B) (.perform o) (Inquired fun _ => True) () := by
  refine wp_mono (inquired_effect ⟨ho, by simp [hcached]⟩) ?_
  rintro (e | y) ⟨⟩ h
  · exact h
  · trivial

theorem inquired_throw {e : Exc} {R : α → Prop} (he : e.OfOthers) :
    wp (inquiring B) (throw e) (Inquired R) () := he

theorem inquired_raiseIf {c : Prop} [Decidable c] {e : Exc} (he : e.OfOthers) :
    wp (inquiring B) (Prog.raiseIf c e) (Inquired fun _ => True) () :=
  wp_raiseIf (fun _ => he) fun _ => trivial

theorem inquired_orRaise {x : Option α} {e : Exc} (he : e.OfOthers) :
    wp (inquiring B) (Prog.orRaise x e) (Inquired fun _ => True) () :=
  wp_orRaise (fun _ => he) fun _ _ => trivial

theorem inquired_tryCatch {p : M α} {hd : Exc → M α} {R : α → Prop}
    (hp : wp (inquiring B) p (Inquired R) ())
    (hhd : ∀ e : Exc, e.OfOthers → wp (inquiring B) (hd e) (Inquired R) ()) :
    wp (inquiring B) (tryCatch p hd) (Inquired R) () := by
  refine wp_tryCatch (wp_mono hp ?_)
  rintro (e | a) ⟨⟩ h
  · exact hhd e h
  · exact h

theorem inquired_forEach {f : α → M β} {l : List α} {R : β → Prop}
    (hf : ∀ a, wp (inquiring B) (f a) (Inquired R) ()) :
    wp (inquiring B) (Prog.forEach f l) (Inquired fun bs => ∀ b ∈ bs, R b) () := by
  induction l with
  | nil => exact fun b hb => by simp at hb
  | cons a l ih =>
    refine inquired_bind (hf a) fun b hb => inquired_bind ih fun bs hbs => ?_
    intro x hx
    rcases List.mem_cons.mp hx with rfl | hx
    · exact hb
    · exact hbs x hx

/-- A connection is renewed, or set aside. -/
theorem inquired_renewal {y : SideWrite} (hy : y.isRenewal = true) {x : α} :
    wp (inquiring B) (do dbAddSide y; dbFlush; pure x : M α) (Inquired fun _ => True) () :=
  inquired_bind (inquired_any hy) fun _ _ => inquired_bind (inquired_any rfl) fun _ _ => trivial

theorem inquired_refresh {conn : CalendarConnection} {email : String} :
    wp (inquiring B) (refresh pf conn email) (Inquired fun _ => True) () := by
  unfold refresh
  split
  · refine inquired_bind (inquired_renewal rfl) fun _ _ => ?_
    refine inquired_bind (inquired_any rfl) fun _ _ => inquired_throw ⟨by decide, by decide⟩
  · refine inquired_bind (inquired_tryCatch (R := fun _ => True) ?_ fun e he => ?_) fun bundle _ => ?_
    · exact inquired_bind (inquired_orRaise trivial) fun _ _ => inquired_any rfl
    · cases e with
      | calendarAuthError =>
        refine inquired_bind (inquired_renewal rfl) fun _ _ => ?_
        refine inquired_bind (inquired_any rfl) fun _ _ => inquired_throw ⟨by decide, by decide⟩
      | calendarTransportError => exact inquired_throw ⟨by decide, by decide⟩
      | _ => exact inquired_throw he
    · refine inquired_bind (inquired_orRaise trivial) fun _ _ => ?_
      refine inquired_bind (inquired_any rfl) fun t _ => ?_
      refine inquired_bind (inquired_renewal rfl) fun _ _ => ?_
      exact inquired_bind (inquired_any rfl) fun _ _ => trivial

theorem inquired_usableConnection {user : User} :
    wp (inquiring B) (usableConnection pf user) (Inquired fun _ => True) () := by
  refine inquired_bind (inquired_any rfl) fun conn _ => ?_
  refine inquired_bind (inquired_orRaise ⟨by decide, by decide⟩) fun conn _ => ?_
  refine inquired_bind (inquired_raiseIf ⟨by decide, by decide⟩) fun _ _ => ?_
  refine inquired_bind (inquired_raiseIf ⟨by decide, by decide⟩) fun _ _ => ?_
  refine inquired_bind (inquired_any rfl) fun t _ => ?_
  apply wp_ite
  · exact fun _ => inquired_refresh
  · exact fun _ => wp_pure trivial

/-- The busy blocks are those that were answered, or kept in the cache. -/
theorem inquired_getFreeBusy {conn : CalendarConnection} {tmin tmax : Instant} :
    wp (inquiring B) (getFreeBusy pf conn tmin tmax) (Inquired fun busy => ∀ b ∈ busy, B b) () := by
  have hask : wp (inquiring B) (do
      let busy ← Calendar.googleError (do
        let token ← Calendar.accessTokenOf pf conn
        .perform (.freeBusy token tmin tmax)) .calendarSyncFailedError
      let _ ← Prog.attempt (.perform (.cacheSet ⟨conn.userId, tmin, tmax⟩ busy))
      pure busy : M (List BusyInterval)) (Inquired fun busy => ∀ b ∈ busy, B b) () := by
    refine inquired_bind (R := fun busy => ∀ b ∈ busy, B b) (inquired_tryCatch ?_ fun e he => ?_)
      fun busy hbusy => ?_
    · exact inquired_bind (inquired_orRaise trivial) fun token _ =>
        inquired_effect ⟨rfl, by simp [Effect.cached]⟩
    · cases e with
      | calendarAuthError => exact inquired_throw ⟨by decide, by decide⟩
      | calendarTransportError => exact inquired_throw ⟨by decide, by decide⟩
      | _ => exact inquired_throw he
    · exact wp_bind_attempt (wp_mono (inquired_effect ⟨rfl, hbusy⟩) fun _ _ _ => wp_pure hbusy)
  refine wp_bind_attempt (wp_mono (inquired_effect ⟨rfl, by simp [Effect.cached]⟩) ?_)
  rintro (e | _ | busy) ⟨⟩ h
  · exact hask
  · exact hask
  · exact wp_pure h

theorem inquired_calendarBusy {panelists : Parts} {tmin tmax : Instant} :
    wp (inquiring B) (calendarBusy pf panelists tmin tmax)
      (Inquired fun busyByUser => ∀ x ∈ busyByUser, ∀ b ∈ x.2, B b) () := by
  unfold calendarBusy
  apply wp_ite
  · refine fun _ => wp_pure fun x hx => ?_
    obtain ⟨p, -, rfl⟩ := List.mem_map.mp hx
    simp
  · refine fun _ => inquired_bind (R := fun _ => True) ?_ fun conns _ => ?_
    · refine wp_mono (inquired_forEach (R := fun _ => True) fun p => ?_) ?_
      · exact inquired_bind inquired_usableConnection fun _ _ => trivial
      · rintro (e | conns) ⟨⟩ h
        · exact h
        · trivial
    · refine inquired_forEach fun conn => ?_
      exact inquired_bind inquired_getFreeBusy fun busy hbusy => hbusy

theorem inquired_adminOrOwningCandidate {user : User} {r : Id} :
    wp (inquiring B) (adminOrOwningCandidate user r) (Inquired fun _ => True) () := by
  unfold adminOrOwningCandidate
  split
  · trivial
  · refine inquired_bind (inquired_any rfl) fun row _ => inquired_bind (inquired_any rfl) fun _ _ => ?_
    exact inquired_raiseIf ⟨by decide, by decide⟩
  · exact inquired_throw ⟨by decide, by decide⟩

theorem inquired_existingRun {r : Id} {row : InterviewRequest} :
    wp (inquiring B) (existingRun r row) (Inquired fun _ => True) () := by
  unfold existingRun
  refine wp_ite (fun _ => inquired_any rfl) fun _ => wp_pure trivial

/-- The rows of the slots. -/
theorem inquired_slotRows (slots : List ScoredSlot) :
    wp (inquiring B) (Prog.forEach slotRow slots) (Inquired fun rows => List.Forall₂ RowOf slots rows)
      () := by
  induction slots with
  | nil => exact wp_pure .nil
  | cons slot slots ih =>
    have hrow : wp (inquiring B) (slotRow slot) (Inquired fun row => RowOf slot row) () :=
      inquired_bind (inquired_any rfl) fun _ _ => wp_pure ⟨rfl, rfl, rfl, rfl, rfl, rfl⟩
    exact inquired_bind hrow fun row hrow => inquired_bind ih fun rows hrows => .cons hrow hrows

/-! ### The evaluation -/

/-- What the engine's input is made of. -/
structure Evaluation where
  request : InterviewRequest
  avail : CandidateAvailability
  panelists : Parts
  ref : Instant
  busyByUser : List (Id × List BusyInterval)
  internal : List (Id × Instant × Instant)

namespace Evaluation

variable (ev : Evaluation)

def windows : List AvailabilityWindow := clipWindows ev.ref ev.avail.windows

def input : EngineInput :=
  engineInput ev.request ev.avail ev.panelists ev.ref ev.windows (withInternal ev.busyByUser ev.internal)

/-- It is gathered from the tables at the time `t` or later, with busy blocks of which `B` holds. -/
structure Of (B : BusyInterval → Prop) (T : Interviews) (r : Id) (t : Instant) : Prop where
  request : T.requests r = some ev.request
  status : ev.request.status = .readyForScheduling
  avail : ev.avail ∈ T.availability
  panelists : ∃ pick, ev.panelists = (inSomeOrder pick (partsOf T r)).filter Part.isPanelist
  panelists_ne : ev.panelists ≠ []
  ref : t ≤ ev.ref
  windows_ne : ev.windows ≠ []
  busy : ∀ x ∈ ev.busyByUser, ∀ b ∈ x.2, B b
  internal : ∃ pick, ev.internal = inSomeOrder pick (confirmedFor T (ev.panelists.map (·.2.id)) r
    (timeMin ev.windows) (timeMax ev.windows))

end Evaluation

/-- The exception of a request that has no common availability. -/
abbrev noCommonAvailability : Exc := .ofClass .noCommonAvailabilityError

/-- The exception of an input that the engine rejects. -/
abbrev engineRejected : Exc := .app .appError "the scheduling engine could not process this request"

theorem ofOthers_ofClass {cls : ErrorClass} (h₁ : cls ≠ .noCommonAvailabilityError)
    (h₂ : cls ≠ .appError) : (Exc.ofClass cls).OfOthers := ⟨h₁, h₂⟩

/-- The entry of a failed evaluation. -/
def failureEntry (actor : User) (r : Id) (reason : String) : AuditLog where
  actorId := actor.id
  actorRole := actor.role
  action := "RECOMMENDATION_FAILED"
  entityType := "interview_request"
  entityId := r
  metadata := [("reason", reason)]

/-- **What a generation leaves.** -/
inductive Concludes (pf : Platform) (B : BusyInterval → Prop) (T : Interviews) (A : List AuditLog) (r : Id)
    (t : Instant) (actor : User) : Except Exc RecommendationResponse → Db → Prop
  | kept {x : Except Exc RecommendationResponse} {db : Db} (h : Unwritten T A db)
      (hx : ∀ e, x = .error e → e.OfOthers) : Concludes pf B T A r t actor x db
  /-- another caller has found no common availability -/
  | waited {row : InterviewRequest} {db : Db} (h : Unwritten T A db) (hrow : T.requests r = some row)
      (hst : row.status = .failed) : Concludes pf B T A r t actor (.error noCommonAvailability) db
  | rejected {ev : Evaluation} {m : String} {db : Db} (h : Unwritten T A db) (hev : ev.Of B T r t)
      (herr : generateRecommendations pf.zones ev.input = .error (.schedulingEngineError m)) :
      Concludes pf B T A r t actor (.error engineRejected) db
  | failed {row : InterviewRequest} {reason : String} {db : Db} (hrow : T.requests r = some row)
      (hst : row.status = .readyForScheduling)
      (htables : db.toInterviews = Write.force [.setStatus r .failed] T)
      (haudits : db.audits = A ++ [failureEntry actor r reason]) :
      Concludes pf B T A r t actor (.error noCommonAvailability) db
  | stored {ev : Evaluation} {result : EngineResult} {run : RecommendationRun} {db : Db}
      (hev : ev.Of B T r t) (hresult : generateRecommendations pf.zones ev.input = .ok result)
      (hrun : run.interviewRequestId = r) (hslots : List.Forall₂ RowOf result.slots run.slots)
      (htables : db.toInterviews = Write.force [.insertRun run, .setStatus r .recommended] T)
      (haudits : ∃ entry, db.audits = A ++ [entry]) :
      Concludes pf B T A r t actor (.ok (runToResponse run)) db

/-- What the handler leaves. -/
inductive Generated (pf : Platform) (B : BusyInterval → Prop) (w : World) (u r : Id) :
    Except Exc Interviews.Response → Db → Prop
  | refused {e : Exc} {db : Db} (he : e.OfOthers) (h : Unwritten w.db.toInterviews w.db.audits db) :
      Generated pf B w u r (.error e) db
  | concluded {actor : User} {x : Except Exc RecommendationResponse} {db : Db}
      (hactor : w.db.users u = some actor)
      (h : Concludes pf B w.db.toInterviews w.db.audits r w.now actor x db) :
      Generated pf B w u r (x.map .recommendations) db

theorem Concludes.ne_lockNotAcquired {T : Interviews} {A : List AuditLog} {r : Id} {t : Instant}
    {actor : User} {x : Except Exc RecommendationResponse} {db : Db}
    (h : Concludes pf B T A r t actor x db) : x ≠ .error .lockNotAcquired := by
  rintro rfl
  cases h with
  | kept h hx => exact hx _ rfl

section Calls

variable {C : Condition Effect Choice Session World} {D : Demand Effect Session World} {T : Interviews}
  {A : List AuditLog} {t : Instant} {s : Session} {w : World} {actor : User} {r : Id}
  {row : InterviewRequest} (hD : ∀ {β : Type} (o : Effect β) s w, D β o s w)
  (hC : ∀ {β : Type} (o : Effect β) c s w, C β o c s w → Blocks B β o c s w)

include hD hC

/-- A part that is proved without a look at the state. -/
theorem wp_inquired {p : M α} {R : α → Prop} (h : Asking T A t s w)
    (hp : wp (inquiring B) p (Inquired R) ()) {Q : Except Exc α → Session × World → Prop}
    (herr : ∀ e : Exc, e.OfOthers → ∀ s' w', Asking T A t s' w' → Q (.error e) (s', w'))
    (hok : ∀ a s' w', Asking T A t s' w' → R a → Q (.ok a) (s', w')) :
    wp (demanding C D) p Q (s, w) := by
  refine wp_asking_part (R := fun x => Inquired R x ()) hD hC h hp ?_
  rintro (e | a) s' w' h' hx
  · exact herr e hx s' w' h'
  · exact hok a s' w' h' hx

omit hC in
theorem concludes_fail (h : Asking T A t s w) (hrow : T.requests r = some row)
    (hst : row.status = .readyForScheduling) {reason : String} :
    wp (demanding C D) (fail actor r reason)
      (fun x v => Concludes pf B T A r t actor x v.2.db) (s, w) := by
  have hkept : ∀ e : Exc, e.OfOthers → ∀ (s' : Session) (w' : World), Unwritten T A w'.db →
      Concludes pf B T A r t actor (.error e) w'.db := fun e he s' w' h' =>
    .kept h' fun e' he' => Except.error.inj he' ▸ he
  refine wp_bind (wp_writing_setStatus hD (h.writing hrow) (by simp [hst]) fun s₁ w₁ h₁ => ?_)
  refine wp_bind (wp_writing_audit hD h₁ hkept fun s₂ w₂ h₂ => ?_)
  refine wp_bind (wp_writing_commit hD h₂ hkept fun s₃ w₃ htables haudits => ?_)
  exact Concludes.failed hrow hst htables haudits

theorem writing_createRun (h : Asking T A t s w) (hrow : T.requests r = some row) {version : String}
    {snap : InputSnapshot} {slots : List ScoredSlot}
    {Q : Except Exc RecommendationRun → Session × World → Prop}
    (herr : ∀ e : Exc, e.OfOthers → ∀ s' w', Asking T A t s' w' → Q (.error e) (s', w'))
    (hfail : ∀ e : Exc, e.OfOthers → ∀ s' w', Unwritten T A w'.db → Q (.error e) (s', w'))
    (hok : ∀ run s' w', run.interviewRequestId = r → List.Forall₂ RowOf slots run.slots →
      Writing T A r row.status [.insertRun run] [] s' w' → Q (.ok run) (s', w')) :
    wp (demanding C D) (createRun r version snap slots) Q (s, w) := by
  refine wp_bind (wp_asking hD hC h rfl (fun e he _ => herr e he) fun id s₁ w₁ h₁ _ => ?_)
  refine wp_bind (wp_inquired hD hC h₁ (inquired_slotRows _) herr fun rows s₂ w₂ h₂ hrows => ?_)
  refine wp_bind (wp_asking hD hC h₂ rfl (fun e he _ => herr e he) fun generatedAt s₃ w₃ h₃ _ => ?_)
  refine wp_bind (wp_writing_insertRun hD (h₃.writing hrow) fun s₄ w₄ h₄ => ?_)
  refine wp_bind (wp_writing_flush hD h₄ hfail fun s₅ w₅ h₅ => ?_)
  exact hok _ s₅ w₅ rfl hrows h₅

theorem concludes_persistRun (h : Asking T A t s w) {ev : Evaluation} (hev : ev.Of B T r t)
    {result : EngineResult} (hresult : generateRecommendations pf.zones ev.input = .ok result) :
    wp (demanding C D) (persistRun pf actor r ev.input result)
      (fun x v => Concludes pf B T A r t actor x v.2.db) (s, w) := by
  have hkept : ∀ e : Exc, e.OfOthers → ∀ (s' : Session) (w' : World), Unwritten T A w'.db →
      Concludes pf B T A r t actor (.error e) w'.db := fun e he s' w' h' =>
    .kept h' fun e' he' => Except.error.inj he' ▸ he
  have hasking : ∀ e : Exc, e.OfOthers → ∀ (s' : Session) (w' : World), Asking T A t s' w' →
      Concludes pf B T A r t actor (.error e) w'.db := fun e he s' w' h' =>
    hkept e he s' w' ⟨h'.tables, h'.audits⟩
  refine wp_bind (writing_createRun hD hC h hev.request hasking hkept fun run s₅ w₅ hrun hslots h₅ => ?_)
  have hst : ev.request.status ≠ .recommended := by simp [hev.status]
  refine wp_bind (wp_writing_setStatus hD h₅ hst fun s₆ w₆ h₆ => ?_)
  refine wp_bind (wp_writing_audit hD h₆ hkept fun s₇ w₇ h₇ => ?_)
  refine wp_bind (wp_writing_commit hD h₇ hkept fun s₈ w₈ htables haudits => ?_)
  exact Concludes.stored hev hresult hrun hslots htables ⟨_, haudits⟩

/-- From the clipped windows to the end. -/
theorem concludes_recommend (h : Asking T A t s w) {request : InterviewRequest}
    {avail : CandidateAvailability} {panelists : Parts} {ref : Instant}
    (hof : ∀ busyByUser internal, (∀ x ∈ busyByUser, ∀ b ∈ x.2, B b) →
      (∃ pick, internal = inSomeOrder pick (confirmedFor T (panelists.map (·.2.id)) r
        (timeMin (clipWindows ref avail.windows)) (timeMax (clipWindows ref avail.windows)))) →
      Evaluation.Of ⟨request, avail, panelists, ref, busyByUser, internal⟩ B T r t) :
    wp (demanding C D)
      (recommend pf actor r request avail panelists ref (clipWindows ref avail.windows))
      (fun x v => Concludes pf B T A r t actor x v.2.db) (s, w) := by
  have hkept : ∀ e : Exc, e.OfOthers → ∀ (s' : Session) (w' : World), Asking T A t s' w' →
      Concludes pf B T A r t actor (.error e) w'.db := fun e he s' w' h' =>
    .kept ⟨h'.tables, h'.audits⟩ fun e' he' => Except.error.inj he' ▸ he
  refine wp_bind (wp_inquired hD hC h inquired_calendarBusy hkept fun busyByUser s₁ w₁ h₁ hbusy => ?_)
  have hgo : ∀ internal s₂ w₂, Asking T A t s₂ w₂ → (∃ pick, internal = inSomeOrder pick
      (confirmedFor T (panelists.map (·.2.id)) r (timeMin (clipWindows ref avail.windows))
        (timeMax (clipWindows ref avail.windows)))) →
      wp (demanding C D) (do
        let result ← runEngine pf (engineInput request avail panelists ref
          (clipWindows ref avail.windows) (withInternal busyByUser internal))
        if result.slots = [] then fail actor r "no_common_availability"
        else persistRun pf actor r (engineInput request avail panelists ref
          (clipWindows ref avail.windows) (withInternal busyByUser internal)) result)
        (fun x v => Concludes pf B T A r t actor x v.2.db) (s₂, w₂) := by
    intro internal s₂ w₂ h₂ hinternal
    have hev := hof busyByUser internal hbusy hinternal
    refine wp_bind ?_
    unfold runEngine
    split
    · next result hresult =>
      refine wp_pure (L := demanding C D) ?_
      change wp (demanding C D) (if result.slots = [] then _ else _) _ _
      refine wp_ite (fun _ => ?_) fun _ => ?_
      · exact concludes_fail hD h₂ hev.request hev.status
      · exact concludes_persistRun hD hC h₂ hev hresult
    · next m herr => exact Concludes.rejected ⟨h₂.tables, h₂.audits⟩ hev herr
    · next herr => exact hkept (.builtin _) trivial s₂ w₂ h₂
    · next herr => exact hkept (.builtin _) trivial s₂ w₂ h₂
  refine wp_bind ?_
  unfold confirmedEventsForUsers
  refine wp_ite (fun hnil => ?_) fun _ => ?_
  · refine wp_pure (L := demanding C D) (hgo [] s₁ w₁ h₁ ⟨0, ?_⟩)
    rw [hnil, Booking.confirmedFor_nil]
    rfl
  · refine wp_asking hD hC h₁ rfl (fun e he _ => hkept e he) fun internal s₂ w₂ h₂ htrue => ?_
    obtain ⟨pick, db, rfl, hinternal⟩ := htrue
    exact hgo internal s₂ w₂ h₂ ⟨pick, hinternal⟩

/-- A request that is not yet RECOMMENDED. -/
theorem concludes_generateReady (h : Asking T A t s w) (hrow : T.requests r = some row) :
    wp (demanding C D) (generateReady pf actor r row)
      (fun x v => Concludes pf B T A r t actor x v.2.db) (s, w) := by
  have hkept : ∀ e : Exc, e.OfOthers → ∀ (s' : Session) (w' : World), Asking T A t s' w' →
      Concludes pf B T A r t actor (.error e) w'.db := fun e he s' w' h' =>
    .kept ⟨h'.tables, h'.audits⟩ fun e' he' => Except.error.inj he' ▸ he
  have hready : (Exc.ofClass .notReadyForSchedulingError).OfOthers :=
    ofOthers_ofClass (by decide) (by decide)
  refine wp_bind (wp_raiseIf (fun _ => hkept _ hready s w h) fun hst => ?_)
  have hst : row.status = .readyForScheduling := not_not.mp hst
  refine wp_bind (wp_asking hD hC h rfl (fun e he _ => hkept e he) fun found s₁ w₁ h₁ htrue => ?_)
  refine wp_bind (wp_orRaise (fun _ => hkept _ hready s₁ w₁ h₁) fun avail hfound => ?_)
  have havail : avail ∈ T.availability := by
    obtain ⟨pick, db, rfl, hlatest⟩ := htrue
    rw [hfound] at hlatest
    exact List.mem_of_mem_filter (Booking.of_latestBy hlatest.symm).1
  refine wp_bind (wp_raiseIf (fun _ => hkept _ hready s₁ w₁ h₁) fun _ => ?_)
  refine wp_bind (wp_asking hD hC h₁ rfl (fun e he _ => hkept e he) fun parts s₂ w₂ h₂ hparts => ?_)
  have hpanelists : ∃ pick, parts.filter Part.isPanelist =
      (inSomeOrder pick (partsOf T r)).filter Part.isPanelist := by
    obtain ⟨pick, db, rfl, rfl⟩ := hparts
    exact ⟨pick, rfl⟩
  refine wp_bind (wp_raiseIf (fun _ => hkept _ hready s₂ w₂ h₂) fun hne => ?_)
  refine wp_bind (wp_asking_now hD h₂ fun ref s₃ w₃ h₃ href => ?_)
  refine wp_ite (fun _ => concludes_fail hD h₃ hrow hst) fun hwindows => ?_
  exact concludes_recommend hD hC h₃ fun busyByUser internal hbusy hinternal =>
    ⟨hrow, hst, havail, hpanelists, hne, href, hwindows, hbusy, hinternal⟩

theorem concludes_generateLocked (h : Asking T A t s w) :
    wp (demanding C D) (generateLocked pf actor r)
      (fun x v => Concludes pf B T A r t actor x v.2.db) (s, w) := by
  have hkept : ∀ e : Exc, e.OfOthers → ∀ (s' : Session) (w' : World), Asking T A t s' w' →
      Concludes pf B T A r t actor (.error e) w'.db := fun e he s' w' h' =>
    .kept ⟨h'.tables, h'.audits⟩ fun e' he' => Except.error.inj he' ▸ he
  refine wp_bind (wp_asking hD hC h rfl (fun e he _ => hkept e he) fun _ s₁ w₁ h₁ _ => ?_)
  refine wp_bind (wp_asking hD hC h₁ rfl (fun e he _ => hkept e he) fun row s₂ w₂ h₂ hrow => ?_)
  refine wp_bind (wp_inquired hD hC h₂ inquired_existingRun hkept fun found s₃ w₃ h₃ _ => ?_)
  cases found with
  | some run => exact Concludes.kept ⟨h₃.tables, h₃.audits⟩ fun e he => by simp at he
  | none => exact concludes_generateReady hD hC h₃ hrow

/-- The loser of the lock writes nothing. -/
theorem concludes_waitForRun (h : Asking T A t s w) (n : ℕ) :
    wp (demanding C D) (waitForRun r n) (fun x v => Concludes pf B T A r t actor x v.2.db) (s, w) := by
  have hkept : ∀ e : Exc, e.OfOthers → ∀ (s' : Session) (w' : World), Asking T A t s' w' →
      Concludes pf B T A r t actor (.error e) w'.db := fun e he s' w' h' =>
    .kept ⟨h'.tables, h'.audits⟩ fun e' he' => Except.error.inj he' ▸ he
  induction n generalizing s w with
  | zero => exact hkept _ (ofOthers_ofClass (by decide) (by decide)) s w h
  | succ n ih =>
    refine wp_bind (wp_asking hD hC h rfl (fun e he _ => hkept e he) fun _ s₁ w₁ h₁ _ => ?_)
    refine wp_bind (wp_asking hD hC h₁ rfl (fun e he _ => hkept e he) fun _ s₂ w₂ h₂ _ => ?_)
    refine wp_bind (wp_asking hD hC h₂ rfl (fun e he _ => hkept e he) fun row s₃ w₃ h₃ hrow => ?_)
    refine wp_bind (wp_raiseIf (fun hst => ?_) fun _ => ?_)
    · exact .waited ⟨h₃.tables, h₃.audits⟩ hrow hst
    refine wp_ite (fun _ => ?_) fun _ => ih h₃
    refine wp_bind (wp_asking hD hC h₃ rfl (fun e he _ => hkept e he) fun found s₄ w₄ h₄ _ => ?_)
    cases found with
    | some run => exact Concludes.kept ⟨h₄.tables, h₄.audits⟩ fun e he => by simp at he
    | none => exact ih h₄

theorem concludes_generate (h : Asking T A t s w) :
    wp (demanding C D) (generate pf actor r)
      (fun x v => Concludes pf B T A r t actor x v.2.db) (s, w) := by
  have hkept : ∀ e : Exc, e.OfOthers → ∀ (s' : Session) (w' : World), Asking T A t s' w' →
      Concludes pf B T A r t actor (.error e) w'.db := fun e he s' w' h' =>
    .kept ⟨h'.tables, h'.audits⟩ fun e' he' => Except.error.inj he' ▸ he
  refine wp_bind (wp_asking hD hC h rfl (fun e he _ => hkept e he) fun row s₁ w₁ h₁ _ => ?_)
  refine wp_bind (wp_orRaise (fun _ => hkept (notFoundError _) ⟨by decide, by decide⟩ s₁ w₁ h₁)
    fun row _ => ?_)
  refine wp_bind (wp_inquired hD hC h₁ inquired_existingRun hkept fun found s₂ w₂ h₂ _ => ?_)
  cases found with
  | some run => exact Concludes.kept ⟨h₂.tables, h₂.audits⟩ fun e he => by simp at he
  | none =>
    refine wp_tryCatch (wp_mono (wp_asking_lock (Q := Concludes pf B T A r t actor) hD hC h₂ hkept
      fun s₃ w₃ h₃ => concludes_generateLocked hD hC h₃) ?_)
    rintro (e | response) ⟨s₃, w₃⟩ (h₃ | ⟨hx, h₃⟩)
    · cases e with
      | lockNotAcquired => exact (h₃.ne_lockNotAcquired rfl).elim
      | _ => exact h₃
    · obtain rfl := Except.error.inj hx
      exact concludes_waitForRun hD hC h₃ 50
    · exact h₃
    · simp at hx

theorem wp_asking_getCurrentUser {u : Id} (h : Asking T A t s w)
    {Q : Except Exc User → Session × World → Prop}
    (herr : ∀ e : Exc, e.OfOthers → ∀ s' w', Asking T A t s' w' → Q (.error e) (s', w'))
    (hok : ∀ user s' w', Asking T A t s' w' → T.users u = some user → Q (.ok user) (s', w')) :
    wp (demanding C D) (getCurrentUser u) Q (s, w) := by
  refine wp_bind (wp_asking hD hC h rfl (fun e he _ => herr e he) fun found s₁ w₁ h₁ htrue => ?_)
  obtain ⟨n, db, rfl, rfl⟩ := htrue
  exact wp_orRaise (fun _ => herr (.app .notAuthenticatedError _) ⟨by decide, by decide⟩ s₁ w₁ h₁)
    fun user huser => hok user s₁ w₁ h₁ huser

/-- **A call of `generate` that runs alone** ends in one of these ways. -/
theorem generated_handle (w : World) {u : Id} :
    wp (demanding C D) (Interviews.handle pf (.generate u r))
      (fun x v => Generated pf B w u r x v.2.db) ({}, w) := by
  have hkept : ∀ e : Exc, e.OfOthers → ∀ s' w', Asking w.db.toInterviews w.db.audits w.now s' w' →
      Generated pf B w u r (.error e) w'.db := fun e he s' w' h' => .refused he ⟨h'.tables, h'.audits⟩
  refine wp_bind (wp_asking_getCurrentUser hD hC (asking_empty w) hkept fun user s₁ w₁ h₁ huser => ?_)
  refine wp_bind (wp_inquired hD hC h₁ inquired_adminOrOwningCandidate hkept fun _ s₂ w₂ h₂ _ => ?_)
  exact wp_map (wp_mono (concludes_generate hD hC h₂) fun x v h => .concluded huser h)

end Calls

end InterviewScheduler.Scheduling
