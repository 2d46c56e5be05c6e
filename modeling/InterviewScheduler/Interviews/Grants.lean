import InterviewScheduler.Calendar.Grants
import InterviewScheduler.Interviews.Footprint

/-! # The handlers and rejected grants

What `generate`, `book`, `decline`, `reschedule` and `cancel` do among other calls when the grants that
Google rejects are stored as REVOKED: their calls of Google carry the tokens of connections that they do
not know to be so. -/

namespace InterviewScheduler.Calendar

open InterviewScheduler.Engine InterviewScheduler.Core InterviewScheduler.Effects
open InterviewScheduler.Booking InterviewScheduler.Interviews

variable {pf : Platform} {α β : Type} {K K' : Connections} {v v' : Session × Dealings} {u r : Id}
  {actor : User} {parts : Parts} {reason : Option (Text 1000)}

/-! ### How a part of a handler ends -/

/-- No rejection waits to be stored, whatever is known and staged. -/
def InOrder (v : Session × Dealings) : Prop := ∃ K, Stable K v

theorem Clean.atRest (hs : Clean K v) : AtRest v := ⟨K, hs⟩

theorem Stable.inOrder (hs : Stable K v) : InOrder v := ⟨K, hs⟩

theorem AtRest.inOrder (hs : AtRest v) : InOrder v := by
  obtain ⟨K, hs⟩ := hs
  exact hs.toStable.inOrder

/-- A transaction is over, or it has failed. -/
def Ends : Except Exc α → Session × Dealings → Prop
  | .ok _, v => AtRest v
  | .error _, v => InOrder v

theorem attends_tame : Attends fun β (o : Effect β) => tame o = true where
  internal o ho := by cases o <;> first | rfl | exact ho
  setNx _ _ _ := rfl
  release _ _ := rfl

theorem attends_calm : Attends fun β (o : Effect β) => calm o = true where
  internal o ho := by
    cases o with
    | stageSide x => simpa [calm, tame, Effect.staged, Effect.internal] using ho
    | _ => first | rfl | exact ho
  setNx _ _ _ := rfl
  release _ _ := rfl

theorem rests_calm {p : M α} (hp : p.Uses fun _ o => calm o = true) (hs : AtRest v) :
    wp (granting pf) p (fun _ v' => AtRest v') v := by
  obtain ⟨K, hs⟩ := hs
  exact wp_mono (wp_calm hp hs) fun _ _ h' => h'.atRest

theorem inOrder_tame {p : M α} (hp : p.Uses fun _ o => tame o = true) (hs : InOrder v) :
    wp (granting pf) p (fun _ v' => InOrder v') v := by
  obtain ⟨K, hs⟩ := hs
  exact wp_mono (wp_tame hp hs) fun _ _ h' => h'.inOrder

/-- A part that leaves nothing pending, followed by the rest. -/
theorem wp_bind_rests {p : M α} {f : α → M β} {Q : Except Exc β → Session × Dealings → Prop}
    (hp : wp (granting pf) p (fun _ v' => AtRest v') v) (herr : ∀ e v', AtRest v' → Q (.error e) v')
    (hf : ∀ a v', AtRest v' → wp (granting pf) (f a) Q v') :
    wp (granting pf) (p >>= f) Q v := by
  refine wp_bind (wp_mono hp ?_)
  rintro (e | a) v' hv'
  · exact herr e v' hv'
  · exact hf a v' hv'

/-- A part of a transaction, followed by the rest. -/
theorem wp_bind_inOrder {p : M α} {f : α → M β}
    {Q : Except Exc β → Session × Dealings → Prop}
    (hp : wp (granting pf) p (fun _ v' => InOrder v') v) (herr : ∀ e v', InOrder v' → Q (.error e) v')
    (hf : ∀ a v', InOrder v' → wp (granting pf) (f a) Q v') :
    wp (granting pf) (p >>= f) Q v := by
  refine wp_bind (wp_mono hp ?_)
  rintro (e | a) v' hv'
  · exact herr e v' hv'
  · exact hf a v' hv'

/-- A transaction, followed by the rest. -/
theorem wp_bind_ends {p : M α} {f : α → M β} {Q : Except Exc β → Session × Dealings → Prop}
    (hp : wp (granting pf) p Ends v) (herr : ∀ e v', InOrder v' → Q (.error e) v')
    (hf : ∀ a v', AtRest v' → wp (granting pf) (f a) Q v') :
    wp (granting pf) (p >>= f) Q v := by
  refine wp_bind (wp_mono hp ?_)
  rintro (e | a) v' hv'
  · exact herr e v' hv'
  · exact hf a v' hv'

/-- After a commit nothing is pending. -/
theorem wp_commitEnds {Q : Except Exc Unit → Session × Dealings → Prop} (hs : Stable K v)
    (herr : ∀ e v', Stable K v' → Q (.error e) v') (hok : ∀ v', AtRest v' → Q (.ok ()) v') :
    wp (granting pf) dbCommit Q v := by
  refine wp_amid (heeds_tame rfl hs) fun c x v₁ w w' _ _ hrun => ?_
  have h₁ : Stable K v₁ := hs.step rfl hrun
  cases x with
  | error e => exact herr e _ h₁
  | ok a =>
    refine hok _ ⟨K, h₁, ?_⟩
    obtain ⟨s₁, d₁⟩ := v₁
    obtain ⟨hex, -⟩ := of_exec_recording (s := v.1) (h := v.2) hrun
    rcases respond_cases (o := Effect.commit) (w := w.elapse c) hex with ⟨-, -, T, -, rfl, -⟩ | ⟨hn, -, -⟩
    · rfl
    · simp [Effect.IsCommit] at hn

/-- The end of a transaction. -/
theorem ends_commit {a : α} (hs : InOrder v) :
    wp (granting pf) (dbCommit >>= fun _ => pure a) Ends v := by
  obtain ⟨K, hs⟩ := hs
  exact wp_bind (wp_commitEnds hs (fun _ _ h' => h'.inOrder) fun _ h' => h')

/-- A critical section, whose end the release of the lock keeps. -/
theorem wp_criticalSection {key : LockKey} {ttlSeconds : ℕ} {block : M α}
    {Q : Except Exc α → Session × Dealings → Prop} (hs : AtRest v)
    (herr : ∀ e v', AtRest v' → Q (.error e) v')
    (hrelease : ∀ token x v', Q x v' →
      wp (granting pf) (.perform (.release key token)) (fun _ => Q x) v')
    (hblock : ∀ v', AtRest v' → wp (granting pf) block Q v') :
    wp (granting pf) (redisLock key ttlSeconds block) Q v := by
  refine wp_bind_rests (rests_calm (Prog.uses_perform rfl) hs) herr fun token v₁ h₁ => ?_
  refine wp_bind_attempt (wp_mono (rests_calm (Prog.uses_perform rfl) h₁) fun held v₂ h₂ => ?_)
  rcases held with e | (_ | _)
  · -- Redis is down
    exact hblock v₂ h₂
  · exact wp_throw (herr _ v₂ h₂)
  · exact wp_finallyDo (wp_mono (hblock v₂ h₂) fun x v₃ h₃ => hrelease token x v₃ h₃)

theorem inOrder_redisLock {key : LockKey} {ttlSeconds : ℕ} {block : M α} (hs : AtRest v)
    (hblock : ∀ v', AtRest v' → wp (granting pf) block (fun _ v'' => InOrder v'') v') :
    wp (granting pf) (redisLock key ttlSeconds block) (fun _ v' => InOrder v') v :=
  wp_criticalSection hs (fun _ _ h => h.inOrder)
    (fun _ _ _ h => inOrder_tame (Prog.uses_perform rfl) h) hblock

theorem ends_redisLock {key : LockKey} {ttlSeconds : ℕ} {block : M α} (hs : AtRest v)
    (hblock : ∀ v', AtRest v' → wp (granting pf) block Ends v') :
    wp (granting pf) (redisLock key ttlSeconds block) Ends v := by
  refine wp_criticalSection hs (fun _ _ h => h.inOrder) (fun token x v' h => ?_) hblock
  cases x with
  | ok a => exact rests_calm (Prog.uses_perform rfl) h
  | error e => exact inOrder_tame (Prog.uses_perform rfl) h

/-! ### The services -/

/-- The token of a connection that is not known to be REVOKED. -/
def Valid (pf : Platform) (K : Connections) (token : String) : Prop :=
  ∃ u, hasToken pf K token u = true ∧ Unrevoked u K

/-- The organiser's token can be used. -/
theorem wp_organiserValid (hs : AtRest v) {f : String → M α}
    {Q : Except Exc α → Session × Dealings → Prop}
    (herr : ∀ e v', AtRest v' → Q (.error e) v')
    (hf : ∀ token K v', Clean K v' → Valid pf K token → wp (granting pf) (f token) Q v') :
    wp (granting pf) (organiserConnection pf (parts.filter Part.isPanelist) >>= fun organiser =>
      accessTokenOf pf organiser >>= f) Q v := by
  obtain ⟨K, hs⟩ := hs
  refine wp_bind (wp_bind (wp_orRaise (fun _ => herr _ _ hs.atRest) fun p _ => ?_))
  refine wp_mono (renewed_usableConnection hs) ?_
  rintro (e | conn) v₁ h₁
  · exact herr e v₁ h₁
  obtain ⟨K', hs₁, -, hconn⟩ := h₁
  refine wp_bind (wp_orRaise (fun _ => herr _ _ hs₁.atRest) fun token htoken => ?_)
  exact hf token K' v₁ hs₁ ⟨p.2.id, hconn.hasToken htoken, hconn.unrevoked⟩

/-- The event is on a calendar, or simulated. -/
def Hosts (pf : Platform) : Except Exc Hosted → Session × Dealings → Prop
  | .ok hosted, v => ∃ K, Clean K v ∧ ∀ token ∈ hosted.organiserToken, Valid pf K token
  | .error _, v => AtRest v

theorem hosts_hostEvent (hs : AtRest v) {row : InterviewRequest} {slot : RecommendedSlot} {email : String} :
    wp (granting pf) (hostEvent pf row slot (parts.filter Part.isPanelist) email) (Hosts pf) v := by
  unfold hostEvent
  split
  · obtain ⟨K, hs⟩ := hs
    refine wp_bind_calm (Prog.uses_perform rfl) hs (fun _ _ h' => h'.atRest) fun id v₁ h₁ => ?_
    exact wp_pure ⟨K, h₁, by simp⟩
  · refine wp_organiserValid hs (fun _ _ h' => h') fun token K v₁ h₁ hvalid => ?_
    obtain ⟨u, hu, hst⟩ := hvalid
    refine wp_bind (wp_mono (same_createEvent h₁.toStable hu hst) ?_)
    rintro (e | cal) v₂ h₂
    · exact (h₂.clean h₁).atRest
    · have hhosts : Hosts pf (.ok ⟨some token, cal.eventId, cal.meetingLink, .google⟩) v₂ := by
        refine ⟨K, h₂.clean h₁, fun token' htoken => ?_⟩
        obtain rfl : token = token' := Option.some.inj htoken
        exact ⟨u, hu, hst⟩
      exact hhosts

/-- The transaction of a booking. -/
theorem wp_persistEnds {slot : RecommendedSlot} {hosted : Hosted}
    {Q : Except Exc InterviewEvent → Session × Dealings → Prop} (hs : Stable K v)
    (herr : ∀ e v', Stable K v' → Q (.error e) v') (hok : ∀ a v', AtRest v' → Q (.ok a) v') :
    wp (granting pf) (persist actor r slot hosted) Q v := by
  have hinsert : (insertInterviewEvent r slot.startTime slot.endTime hosted.calEventId
      hosted.calMeetingLink hosted.provider).Uses fun _ o => tame o = true :=
    Prog.uses_bind (Prog.uses_perform rfl) fun _ => Prog.uses_bind (Prog.uses_perform rfl) fun _ =>
      Prog.uses_bind (Prog.uses_perform rfl) fun _ => Prog.uses_pure
  refine wp_bind_tame hinsert hs herr fun event v₁ h₁ => ?_
  refine wp_bind_tame (Prog.uses_perform rfl) h₁ herr fun _ v₂ h₂ => ?_
  refine wp_bind_tame (Prog.uses_perform rfl) h₂ herr fun _ v₃ h₃ => ?_
  refine wp_bind_tame (uses_recordAudit attends_tame.internal) h₃ herr fun _ v₄ h₄ => ?_
  exact wp_bind (wp_commitEnds h₄ herr fun v₅ h₅ => hok event v₅ h₅)

/-- A booking that could not be stored is compensated with a token that is not rejected. -/
theorem ends_persistFailed (hs : Stable K v) {hosted : Hosted}
    (hvalid : ∀ token ∈ hosted.organiserToken, Valid pf K token) {e : Exc} :
    wp (granting pf) (persistFailed hosted e) Ends v := by
  have hend : ∀ {v'}, InOrder v' → wp (granting pf) (if e = .integrityError then
        throw (slotNoLongerAvailable "this request was booked by someone else")
      else throw (.ofClass .bookingPersistenceFailedError) : M InterviewEvent) Ends v' := by
    intro v' hv'
    split
    · exact wp_throw hv'
    · exact wp_throw hv'
  refine wp_bind_tame (Prog.uses_perform rfl) hs (fun _ _ h' => h'.inOrder) fun _ v₁ h₁ => ?_
  cases htoken : hosted.organiserToken with
  | none => exact hend h₁.inOrder
  | some token =>
    obtain ⟨u, hu, hst⟩ := hvalid token htoken
    refine wp_bind (wp_bind (wp_mono (same_deleteEvent h₁ hu hst) ?_))
    rintro (e | deleted) v₂ h₂
    · exact h₂.1.inOrder
    change wp (granting pf) (if deleted then pure () else _) _ v₂
    split
    · exact wp_pure (hend h₂.1.inOrder)
    · have hreport : (reportOrphan hosted.calEventId e).Uses fun _ o => tame o = true :=
        Prog.uses_tryCatch (uses_createReconciliationTask attends_tame.internal) fun _ => Prog.uses_pure
      refine wp_mono (inOrder_tame hreport h₂.1.inOrder) ?_
      rintro (e | _) v₃ h₃
      · exact h₃
      · exact hend h₃

theorem ends_bookLocked (hs : AtRest v) {slot : RecommendedSlot} :
    wp (granting pf) (bookLocked pf actor r slot) Ends v := by
  have hI : Internal fun β (o : Effect β) => calm o = true := attends_calm.internal
  have herr : ∀ (e : Exc) v', AtRest v' → Ends (.error e : Except Exc Booked) v' := fun _ _ h => h.inOrder
  refine wp_bind_rests (rests_calm (Prog.uses_perform rfl) hs) herr fun request v₁ h₁ => ?_
  refine wp_bind_rests (rests_calm Prog.uses_raiseIf h₁) herr fun _ v₂ h₂ => ?_
  refine wp_bind_rests (rests_calm (Prog.uses_perform rfl) h₂) herr fun _ v₃ h₃ => ?_
  refine wp_bind_rests (rests_calm Prog.uses_raiseIf h₃) herr fun _ v₄ h₄ => ?_
  refine wp_bind_rests (rests_calm (Prog.uses_perform rfl) h₄) herr fun parts v₅ h₅ => ?_
  refine wp_bind_rests (rests_calm Prog.uses_orRaise h₅) herr fun candidate v₆ h₆ => ?_
  refine wp_bind_rests (rests_calm (uses_confirmedEventsForUsers hI) h₆) herr fun _ v₇ h₇ => ?_
  refine wp_bind_rests (rests_calm Prog.uses_raiseIf h₇) herr fun _ v₈ h₈ => ?_
  refine wp_bind (wp_mono (hosts_hostEvent h₈) ?_)
  rintro (e | hosted) v₉ h₉
  · exact herr e v₉ h₉
  obtain ⟨K, hs₉, hvalid⟩ := h₉
  refine wp_bind_ends (wp_tryCatch (wp_persistEnds hs₉.toStable (fun e v' hv' => ?_) fun _ _ hv' => hv'))
    (fun _ _ h' => h') fun event v' hv' => wp_pure hv'
  exact ends_persistFailed hv' hvalid

/-! ### Free/busy -/

/-- The connections of the users that were checked, all CONNECTED; nobody else's has changed. -/
def Gathered (K : Connections) (ids : List Id) :
    Except Exc (List (Id × CalendarConnection)) → Session × Dealings → Prop
  | .ok conns, v => ∃ K', Clean K' v ∧ (∀ u, u ∉ ids → K' u = K u) ∧
      ∀ x ∈ conns, Connected K' x.1 x.2.accessTokenEncrypted
  | .error _, v => AtRest v

theorem Connected.congr {enc : Option String} (hconn : Connected K u enc) (hK : K' u = K u) :
    Connected K' u enc := by
  obtain ⟨row, hrow, hst, htoken⟩ := hconn
  exact ⟨row, hK.trans hrow, hst, htoken⟩

/-- Every connection is checked before the first is used: that is why the users must be different. -/
theorem gathered_connections (hs : Clean K v) (hnodup : (parts.map (·.2.id)).Nodup) :
    wp (granting pf) (Prog.forEach (fun p : Part => do
      let conn ← usableConnection pf p.2
      pure (p.2.id, conn)) parts) (Gathered K (parts.map (·.2.id))) v := by
  induction parts generalizing K v with
  | nil => exact ⟨K, hs, fun _ _ => rfl, by simp⟩
  | cons p parts ih =>
    rw [List.map_cons, List.nodup_cons] at hnodup
    refine wp_bind (wp_bind (wp_mono (renewed_usableConnection hs) ?_))
    rintro (e | conn) v₁ h₁
    · exact h₁
    obtain ⟨K₁, hs₁, hsame₁, hconn₁⟩ := h₁
    refine wp_bind (wp_mono (ih hs₁ hnodup.2) ?_)
    rintro (e | conns) v₂ h₂
    · exact h₂
    obtain ⟨K₂, hs₂, hsame₂, hconns₂⟩ := h₂
    refine ⟨K₂, hs₂, fun u hu => ?_, fun x hx => ?_⟩
    · rw [List.map_cons, List.mem_cons, not_or] at hu
      rw [hsame₂ u hu.2, hsame₁ u hu.1]
    · rcases List.mem_cons.mp hx with rfl | hx
      · exact hconn₁.congr (hsame₂ _ hnodup.1)
      · exact hconns₂ x hx

theorem rests_calendarBusy (hs : AtRest v) (hnodup : (parts.map (·.2.id)).Nodup) {tmin tmax : Instant} :
    wp (granting pf) (Scheduling.calendarBusy pf parts tmin tmax) (fun _ v' => AtRest v') v := by
  obtain ⟨K, hs⟩ := hs
  unfold Scheduling.calendarBusy
  split
  · exact wp_pure hs.atRest
  · refine wp_bind (wp_mono (gathered_connections hs hnodup) ?_)
    rintro (e | conns) v₁ h₁
    · exact h₁
    obtain ⟨K₁, hs₁, -, hconns⟩ := h₁
    refine wp_mono (wp_forEach (I := Clean K₁) (E := fun _ v' => Clean K₁ v') ?_ hs₁) ?_
    · rintro ⟨user, conn⟩ hmem v₂ hs₂
      refine wp_bind (wp_mono (clean_getFreeBusy hs₂ (hconns _ hmem)) ?_)
      rintro (e | busy) v₃ hs₃
      · exact hs₃
      · exact hs₃
    · rintro (e | busy) v₂ hs₂
      · exact Clean.atRest hs₂
      · exact Clean.atRest hs₂

/-! ### The panel -/

theorem Seated.apply {T : Interviews} {y : Write} (h : Seated T) (hv : y.violates T = false) :
    Seated (y.apply T) := by
  refine ⟨?_, fun r => ?_⟩
  · cases y <;> exact h.user_id
  · cases y with
    | insertRequest row ps =>
      by_cases hr : r = row.id
      · subst hr
        simpa [Write.apply] using (Write.violates_insertRequest.mp hv).nodup
      · simpa [Write.apply, hr] using h.nodup r
    | replacePanelists r' ids =>
      simp only [Write.violates, Bool.or_eq_false_iff, Bool.not_eq_false', decide_eq_true_eq,
        List.any_eq_false] at hv
      obtain ⟨⟨hids, -⟩, hnew⟩ := hv
      by_cases hr : r = r'
      · subst hr
        simp only [Write.apply, Function.update_self, List.map_append, List.map_map]
        refine List.Nodup.append ((h.nodup r).sublist (List.filter_sublist.map _)) ?_ ?_
        · simpa [Function.comp_def] using hids
        · intro u hu hu'
          obtain ⟨p, hp, rfl⟩ := List.mem_map.mp hu
          refine hnew p (List.mem_of_mem_filter hp) ?_
          simpa [Function.comp_def] using hu'
      · simpa [Write.apply, hr] using h.nodup r
    | _ => exact h.nodup r

theorem Seated.applyAll {ws : List Write} {T T' : Interviews} (h : Seated T)
    (happ : Write.applyAll ws T = some T') : Seated T' := by
  induction ws generalizing T with
  | nil =>
    simp only [Write.applyAll, Option.some.injEq] at happ
    exact happ ▸ h
  | cons y ws ih =>
    obtain ⟨hv, happ⟩ := Write.applyAll_cons_eq_some.mp happ
    exact ih (h.apply hv) happ

theorem Seated.step {o : Effect β} {c : Choice} {x : Except Exc β} {s s' : Session} {w w' : World}
    (h : Seated w.db.toInterviews) (hex : machine.exec o c s w = some (x, s', w')) :
    Seated w'.db.toInterviews := by
  rcases respond_cases (w := w.elapse c) hex with ⟨-, -, T, happ, -, rfl⟩ | ⟨-, hdb, -⟩
  · rw [World.commit_toInterviews]
    exact h.applyAll happ
  · rw [hdb]
    exact h

theorem Seated.partsOf {T : Interviews} (h : Seated T) : ((partsOf T r).map (·.2.id)).Nodup := by
  refine (h.nodup r).sublist ?_
  unfold Booking.partsOf
  induction T.participants r with
  | nil => exact .slnil
  | cons p ps ih =>
    cases huser : T.users p.userId with
    | none =>
      rw [List.filterMap_cons, huser]
      exact ih.cons _
    | some user =>
      rw [List.filterMap_cons, huser]
      simp only [Option.map_some, List.map_cons, h.user_id _ _ huser]
      exact ih.cons_cons _

/-- The panelists of a request are different users. -/
theorem wp_parts {f : Parts → M α} {Q : Except Exc α → Session × Dealings → Prop} (hs : AtRest v)
    (herr : ∀ e v', AtRest v' → Q (.error e) v')
    (hf : ∀ parts v', AtRest v' → ((parts.filter Part.isPanelist).map (·.2.id)).Nodup →
      wp (granting pf) (f parts) Q v') :
    wp (granting pf) (participantsWithUsers r >>= f) Q v := by
  obtain ⟨K, hs⟩ := hs
  refine wp_bind (wp_amid (heeds_tame rfl hs.toStable) fun c x v₁ w w' hJ _ hrun => ?_)
  have h₁ : Clean K v₁ := hs.step rfl hrun
  cases x with
  | error e => exact herr e _ h₁.atRest
  | ok parts =>
    refine hf parts _ h₁.atRest ?_
    obtain ⟨s₁, d₁⟩ := v₁
    obtain ⟨hex, -⟩ := of_exec_recording (s := v.1) (h := v.2) hrun
    change respond (.select fun pick db => inSomeOrder pick (Booking.partsOf db.toInterviews r)) c.answer
      v.1 (w.elapse c) = _ at hex
    simp only [respond] at hex
    rcases dbCall_cases hex with ⟨e, -, hx, -, -⟩ | ⟨-, n, hex⟩
    · simp at hx
    · simp only [Option.some.injEq, Prod.mk.injEq, Except.ok.injEq] at hex
      obtain ⟨rfl, -, -⟩ := hex
      have hperm : (inSomeOrder n (Booking.partsOf w.db.toInterviews r)).Perm
        (Booking.partsOf w.db.toInterviews r) := inSomeOrder_perm _ _
      have hnodup : ((inSomeOrder n (Booking.partsOf w.db.toInterviews r)).map (·.2.id)).Nodup :=
        (hperm.map _).nodup_iff.mpr hJ.seated.partsOf
      exact hnodup.sublist (List.filter_sublist.map _)

/-! ### The operations -/

theorem inOrder_generateReady
    (hs : AtRest v) {row : InterviewRequest} :
    wp (granting pf) (Scheduling.generateReady pf actor r row) (fun _ v' => InOrder v') v := by
  have hI : Internal fun β (o : Effect β) => calm o = true := attends_calm.internal
  have herr : ∀ (e : Exc) v', AtRest v' → InOrder v' := fun _ _ h => h.inOrder
  have hfail : ∀ {reason v'}, AtRest v' →
      wp (granting pf) (Scheduling.fail actor r reason) (fun _ v' => InOrder v') v' := fun h =>
    inOrder_tame (Scheduling.uses_fail attends_tame.internal rfl) h.inOrder
  refine wp_bind_rests (rests_calm Prog.uses_raiseIf hs) herr fun _ v₁ h₁ => ?_
  refine wp_bind_rests (rests_calm (Prog.uses_perform rfl) h₁) herr fun avail v₂ h₂ => ?_
  refine wp_bind_rests (rests_calm Prog.uses_orRaise h₂) herr fun avail v₃ h₃ => ?_
  refine wp_bind_rests (rests_calm Prog.uses_raiseIf h₃) herr fun _ v₄ h₄ => ?_
  refine wp_parts h₄ herr fun parts v₅ h₅ hnodup => ?_
  refine wp_bind_rests (rests_calm Prog.uses_raiseIf h₅) herr fun _ v₆ h₆ => ?_
  refine wp_bind_rests (rests_calm (Prog.uses_perform rfl) h₆) herr fun ref v₇ h₇ => ?_
  dsimp only
  split
  · exact hfail h₇
  · refine wp_bind_rests (rests_calendarBusy h₇ hnodup) herr fun busy v₈ h₈ => ?_
    refine wp_bind_rests (rests_calm (uses_confirmedEventsForUsers hI) h₈) herr fun _ v₉ h₉ => ?_
    refine wp_bind_rests (rests_calm Scheduling.uses_runEngine h₉) herr fun result v' h' => ?_
    split
    · exact hfail h'
    · exact inOrder_tame (Scheduling.uses_persistRun attends_tame.internal (fun _ _ _ _ _ => rfl) rfl) h'.inOrder

theorem inOrder_generate
    (hs : AtRest v) : wp (granting pf) (Scheduling.generate pf actor r) (fun _ v' => InOrder v') v := by
  have hexisting : ∀ row, (Scheduling.existingRun r row).Uses fun _ o => calm o = true := fun _ =>
    Scheduling.uses_existingRun attends_calm.internal
  have herr : ∀ (e : Exc) v', AtRest v' → InOrder v' := fun _ _ h => h.inOrder
  refine wp_bind_rests (rests_calm (Prog.uses_perform rfl) hs) herr fun request v₁ h₁ => ?_
  refine wp_bind_rests (rests_calm Prog.uses_orRaise h₁) herr fun row v₂ h₂ => ?_
  refine wp_bind_rests (rests_calm (hexisting row) h₂) herr fun existing v₃ h₃ => ?_
  cases existing with
  | some run => exact wp_pure h₃.inOrder
  | none =>
    refine wp_tryCatch (wp_mono (Q := fun _ v' => InOrder v') (inOrder_redisLock h₃ fun v₄ h₄ => ?_) ?_)
    · refine wp_bind_rests (rests_calm (Prog.uses_perform rfl) h₄) herr fun _ v₅ h₅ => ?_
      refine wp_bind_rests (rests_calm (Prog.uses_perform rfl) h₅) herr fun row v₆ h₆ => ?_
      refine wp_bind_rests (rests_calm (hexisting row) h₆) herr fun existing v₇ h₇ => ?_
      cases existing with
      | some run => exact wp_pure h₇.inOrder
      | none => exact inOrder_generateReady h₇
    · rintro (e | out) v' h'
      · cases e with
        | lockNotAcquired => exact inOrder_tame (uses_waitForRun attends_tame) h'
        | _ => exact h'
      · exact h'

theorem inOrder_book (hs : AtRest v) {slotId : Id} :
    wp (granting pf) (book pf actor r slotId) (fun _ v' => InOrder v') v := by
  have herr : ∀ (e : Exc) v', AtRest v' → InOrder v' := fun _ _ h => h.inOrder
  refine wp_bind_rests (rests_calm (Prog.uses_perform rfl) hs) herr fun found v₁ h₁ => ?_
  refine wp_bind_rests (rests_calm Prog.uses_orRaise h₁) herr fun found v₂ h₂ => ?_
  refine wp_bind_rests (rests_calm Prog.uses_raiseIf h₂) herr fun _ v₃ h₃ => ?_
  refine wp_bind_rests (rests_calm (Prog.uses_perform rfl) h₃) herr fun request v₄ h₄ => ?_
  refine wp_bind_rests (rests_calm Prog.uses_orRaise h₄) herr fun row v₅ h₅ => ?_
  refine wp_bind_rests (rests_calm (Prog.uses_bind (Prog.uses_perform rfl) fun _ => Prog.uses_pure) h₅)
    herr fun latest v₆ h₆ => ?_
  refine wp_bind_rests (rests_calm Prog.uses_raiseIf h₆) herr fun _ v₇ h₇ => ?_
  refine wp_bind_rests (rests_calm Prog.uses_raiseIf h₇) herr fun _ v₈ h₈ => ?_
  refine wp_bind_ends (wp_tryCatch (wp_mono (ends_redisLock h₈ fun v' h' => ends_bookLocked h') ?_))
    (fun _ _ h => h) fun booked v₉ h₉ => ?_
  · rintro (e | booked) v' h'
    · cases e <;> exact h'
    · exact h'
  · exact wp_bind_inOrder (inOrder_tame (uses_notice attends_tame) h₉.inOrder) (fun _ _ h => h)
      fun _ _ h' => wp_pure h'

/-! ### Giving up a booking -/

theorem rests_deleteFromCalendar (hs : AtRest v) {event : InterviewEvent} :
    wp (granting pf) (deleteFromCalendar pf parts event) (fun _ v' => AtRest v') v := by
  refine wp_tryCatch (wp_mono (Q := fun _ v' => AtRest v') ?_ ?_)
  · refine wp_organiserValid hs (fun _ _ h => h) fun token K v₁ h₁ hvalid => ?_
    obtain ⟨u, hu, hst⟩ := hvalid
    exact wp_mono (same_deleteEvent h₁.toStable hu hst) fun _ v₂ h₂ => (h₂.clean h₁).atRest
  · rintro (e | deleted) v₁ h₁
    · change wp (granting pf) (if e.isApp then pure false else throw e) _ v₁
      split
      · exact wp_pure h₁
      · exact wp_throw h₁
    · exact h₁

theorem inOrder_cancelConfirmed (hs : AtRest v) {trigger : String} :
    wp (granting pf) (cancelConfirmed pf parts r trigger) (fun _ v' => InOrder v') v := by
  refine wp_bind_rests (rests_calm (Prog.uses_perform rfl) hs) (fun _ _ h => h.inOrder)
    fun event v₁ h₁ => ?_
  cases event with
  | none => exact wp_pure h₁.inOrder
  | some event =>
    refine wp_bind_inOrder ?_ (fun _ _ h => h) fun _ v₂ h₂ => wp_pure h₂
    unfold cancelActiveEvent
    split
    · exact inOrder_tame (Prog.uses_perform rfl) h₁.inOrder
    · refine wp_bind_rests (rests_deleteFromCalendar h₁) (fun _ _ h => h.inOrder)
        fun deleted v₂ h₂ => inOrder_tame (Prog.uses_bind (Prog.uses_perform rfl) fun _ => ?_) h₂.inOrder
      split
      · exact Prog.uses_pure
      · exact uses_createReconciliationTask attends_tame.internal

/-- The critical sections of `reschedule` and `cancel`. -/
theorem ends_transitionLocked (hs : AtRest v) {allowed : RequestStatus → Bool} {refused : Exc}
    {trigger action : String} {st : RequestStatus} :
    wp (granting pf) (transitionLocked pf actor r parts reason allowed refused trigger st action) Ends
      v := by
  have herr : ∀ (e : Exc) v', AtRest v' → Ends (.error e : Except Exc (Option InterviewEvent)) v' :=
    fun _ _ h => h.inOrder
  refine wp_bind_rests (rests_calm (uses_load attends_calm.internal) hs) herr fun request v₁ h₁ => ?_
  refine wp_bind_rests (rests_calm Prog.uses_raiseIf h₁) herr fun _ v₂ h₂ => ?_
  refine wp_bind_inOrder (inOrder_cancelConfirmed h₂) (fun _ _ h => h) fun event v₃ h₃ => ?_
  refine wp_bind_inOrder (inOrder_tame (Prog.uses_perform rfl) h₃) (fun _ _ h => h) fun _ v₄ h₄ => ?_
  refine wp_bind_inOrder (inOrder_tame (uses_recordAudit attends_tame.internal) h₄) (fun _ _ h => h)
    fun _ v₅ h₅ => ?_
  exact ends_commit h₅

theorem ends_declineLocked (hs : AtRest v) :
    wp (granting pf) (declineLocked pf actor r parts reason) Ends v := by
  have hrest : ∀ {st : RequestStatus} {event : Option InterviewEvent} {v'}, InOrder v' →
      wp (granting pf) (do
        dbAdd (.setStatus r st)
        recordAudit actor "INTERVIEW_DECLINED" r (reasonMetadata reason)
        dbCommit
        pure (event, st)) Ends v' := by
    intro st event v' h'
    refine wp_bind_inOrder (inOrder_tame (Prog.uses_perform rfl) h') (fun _ _ h => h) fun _ v₁ h₁ => ?_
    refine wp_bind_inOrder (inOrder_tame (uses_recordAudit attends_tame.internal) h₁) (fun _ _ h => h)
      fun _ v₂ h₂ => ?_
    exact ends_commit h₂
  have herr : ∀ (e : Exc) v', AtRest v' →
      Ends (.error e : Except Exc (Option InterviewEvent × RequestStatus)) v' := fun _ _ h => h.inOrder
  refine wp_bind_rests (rests_calm (uses_load attends_calm.internal) hs) herr fun request v₁ h₁ => ?_
  refine wp_bind_rests (rests_calm (Prog.uses_perform rfl) h₁) herr fun _ v₂ h₂ => ?_
  split
  · refine wp_bind_inOrder (inOrder_cancelConfirmed h₂) (fun _ _ h => h) fun event v₃ h₃ => ?_
    exact hrest h₃
  · exact hrest h₂.inOrder

theorem inOrder_retriggerRecommendations (hs : AtRest v) :
    wp (granting pf) (retriggerRecommendations pf actor r) (fun _ v' => InOrder v') v := by
  refine wp_bind_rests (rests_calm (Prog.uses_perform rfl) hs) (fun _ _ h => h.inOrder)
    fun request v₁ h₁ => ?_
  cases request with
  | none => exact wp_pure h₁.inOrder
  | some row =>
    refine wp_bind_inOrder (inOrder_tame (Prog.uses_perform rfl) h₁.inOrder) (fun _ _ h => h)
      fun _ v₂ h₂ => ?_
    obtain ⟨K, h₂⟩ := h₂
    refine wp_bind (wp_commitEnds h₂ (fun _ _ h' => h'.inOrder) fun v₃ h₃ => ?_)
    exact wp_bind_attempt (wp_mono (inOrder_generate h₃) fun _ _ h' => wp_pure h')

theorem inOrder_decline (hs : AtRest v) :
    wp (granting pf) (decline pf actor r reason) (fun _ v' => InOrder v') v := by
  have herr : ∀ (e : Exc) v', AtRest v' → InOrder v' := fun _ _ h => h.inOrder
  refine wp_bind_rests (rests_calm (uses_load attends_calm.internal) hs) herr fun request v₁ h₁ => ?_
  refine wp_bind_rests (rests_calm (Prog.uses_perform rfl) h₁) herr fun _ v₂ h₂ => ?_
  refine wp_bind_rests (rests_calm (Prog.uses_perform rfl) h₂) herr fun parts v₃ h₃ => ?_
  refine wp_bind_rests (rests_calm Prog.uses_raiseIf h₃) herr fun _ v₄ h₄ => ?_
  refine wp_bind_ends (ends_redisLock h₄ fun v' h' => ends_declineLocked h') (fun _ _ h => h)
    fun resp v₅ h₅ => ?_
  refine wp_bind_rests (rests_calm (uses_notify attends_calm) h₅) herr fun _ v₆ h₆ => ?_
  split
  · exact wp_bind_inOrder (inOrder_retriggerRecommendations h₆) (fun _ _ h => h)
      fun _ _ h => wp_pure h
  · exact wp_pure h₆.inOrder

theorem inOrder_reschedule (hs : AtRest v) :
    wp (granting pf) (reschedule pf actor r reason) (fun _ v' => InOrder v') v := by
  have herr : ∀ (e : Exc) v', AtRest v' → InOrder v' := fun _ _ h => h.inOrder
  refine wp_bind_rests (rests_calm (uses_load attends_calm.internal) hs) herr fun request v₁ h₁ => ?_
  refine wp_bind_rests (rests_calm Prog.uses_raiseIf h₁) herr fun _ v₂ h₂ => ?_
  refine wp_bind_rests (rests_calm (Prog.uses_perform rfl) h₂) herr fun parts v₃ h₃ => ?_
  refine wp_bind_ends (ends_redisLock h₃ fun v' h' => ends_transitionLocked h') (fun _ _ h => h)
    fun event v₄ h₄ => ?_
  refine wp_bind_rests (rests_calm (uses_notify attends_calm) h₄) herr fun _ v₅ h₅ => ?_
  exact wp_bind_inOrder (inOrder_retriggerRecommendations h₅) (fun _ _ h => h)
    fun _ _ h => wp_pure h

theorem inOrder_cancel (hs : AtRest v) :
    wp (granting pf) (cancel pf actor r reason) (fun _ v' => InOrder v') v := by
  have herr : ∀ (e : Exc) v', AtRest v' → InOrder v' := fun _ _ h => h.inOrder
  refine wp_bind_rests (rests_calm (uses_load attends_calm.internal) hs) herr fun request v₁ h₁ => ?_
  refine wp_bind_rests (rests_calm Prog.uses_raiseIf h₁) herr fun _ v₂ h₂ => ?_
  refine wp_bind_rests (rests_calm (Prog.uses_perform rfl) h₂) herr fun parts v₃ h₃ => ?_
  refine wp_bind_ends (ends_redisLock h₃ fun v' h' => ends_transitionLocked h') (fun _ _ h => h)
    fun event v₄ h₄ => ?_
  exact wp_bind_inOrder (inOrder_tame (uses_notify attends_tame) h₄.inOrder) (fun _ _ h => h)
    fun _ _ h => wp_pure h

/-- **Every call of Google carries the token of a connection that is not known to be REVOKED**, and a
rejection is stored before the next one. -/
theorem inOrder_handle (hs : AtRest v) (call : Call) :
    wp (granting pf) (handle pf call) (fun _ v' => InOrder v') v := by
  have herr : ∀ (e : Exc) v', AtRest v' → InOrder v' := fun _ _ h => h.inOrder
  have huser : ∀ {u}, (getCurrentUser u).Uses fun _ o => calm o = true := uses_getCurrentUser attends_calm
  have hown : ∀ {user r}, (adminOrOwningCandidate user r).Uses fun _ o => calm o = true :=
    uses_adminOrOwningCandidate attends_calm
  have hother : ∀ {call : Call}, call.internal = true →
      wp (granting pf) (handle pf call) (fun _ v' => InOrder v') v := fun hcall =>
    inOrder_tame (uses_internal attends_tame (fun _ _ => rfl) hcall) hs.inOrder
  cases call with
  | generate userId r =>
    refine wp_bind_rests (rests_calm huser hs) herr fun user v₁ h₁ => ?_
    refine wp_bind_rests (rests_calm hown h₁) herr fun _ v₂ h₂ => ?_
    exact wp_map (inOrder_generate h₂)
  | book userId r slotId =>
    refine wp_bind_rests (rests_calm huser hs) herr fun user v₁ h₁ => ?_
    refine wp_bind_rests (rests_calm hown h₁) herr fun _ v₂ h₂ => ?_
    exact wp_map (inOrder_book h₂)
  | decline userId r reason =>
    refine wp_bind_rests (rests_calm huser hs) herr fun user v₁ h₁ => ?_
    refine wp_bind_rests (rests_calm Prog.uses_raiseIf h₁) herr fun _ v₂ h₂ => ?_
    exact wp_map (inOrder_decline h₂)
  | reschedule userId r reason =>
    refine wp_bind_rests (rests_calm huser hs) herr fun user v₁ h₁ => ?_
    refine wp_bind_rests (rests_calm hown h₁) herr fun _ v₂ h₂ => ?_
    exact wp_map (inOrder_reschedule h₂)
  | cancel userId r reason =>
    refine wp_bind_rests (rests_calm huser hs) herr fun user v₁ h₁ => ?_
    refine wp_bind_rests (rests_calm Prog.uses_raiseIf h₁) herr fun _ v₂ h₂ => ?_
    exact wp_map (inOrder_cancel h₂)
  | _ => exact hother rfl

end InterviewScheduler.Calendar
