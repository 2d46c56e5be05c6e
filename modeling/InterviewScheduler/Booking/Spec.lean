import InterviewScheduler.Calendar.Spec
import InterviewScheduler.Notifications.Spec
import InterviewScheduler.Booking.Service

/-! # What a booking does

From a calm session `book` commits one transaction or none: the event row, the status BOOKED and the
selected slot, on a request that it has just read as RECOMMENDED. A calendar event that it has created
is referred to by that row, or deleted again, or reported. -/

namespace InterviewScheduler.Booking

open InterviewScheduler.Engine InterviewScheduler.Core InterviewScheduler.Effects
open InterviewScheduler.Lifecycle
open InterviewScheduler.Calendar (accessTokenOf)

variable {alone : Prop} {may : May} {P : Interviews → Id → Prop} {s s' : Session} {T : Interviews}
  {pf : Platform} {actor : User} {r : Id} {row : InterviewRequest} {slot : RecommendedSlot}
  {hosted : Hosted} {α : Type}

/-! ### The check for conflicts -/

/-- Everyone who takes part is in the join with the users. -/
theorem mem_partsOf (hT : WellFormed T) {u : Id} (h : TakesPart T u r) :
    ∃ p ∈ partsOf T r, p.2.id = u := by
  obtain ⟨p, hp, rfl⟩ := h
  obtain ⟨user, huser⟩ := Option.ne_none_iff_exists'.mp (hT.participant_user r p hp)
  exact ⟨(p, user), List.mem_filterMap.mpr ⟨p, hp, by simp [huser]⟩, hT.user_id _ _ huser⟩

/-- **No conflict was found, so there is none.** -/
theorem noClash_of_confirmedFor {users : List Id} {tmin tmax : Instant}
    (husers : ∀ u, TakesPart T u r → u ∈ users) (hnone : confirmedFor T users r tmin tmax = [])
    {e : InterviewEvent} (he : e.ConfirmedFor r) (hstart : e.startTime = tmin)
    (hend : e.endTime = tmax) : NoClash T e := by
  rintro e' he' hc hne ⟨u, hu, hu'⟩ ⟨h1, h2⟩
  rw [he.1] at hne hu
  rw [hstart] at h1
  rw [hend] at h2
  have hnil := List.flatMap_eq_nil_iff.mp hnone e' he'
  rw [if_pos ⟨hc, hne, h2, h1⟩, List.map_eq_nil_iff, List.filter_eq_nil_iff] at hnil
  obtain ⟨p, hp, rfl⟩ := hu'
  exact hnil p hp (by simpa using husers _ hu)

/-- What a handler that runs alone knows when the check has found nothing. -/
def Free (alone : Prop) (T : Interviews) (r : Id) (slot : RecommendedSlot) : Prop :=
  alone → WellFormed T → ∀ e : InterviewEvent, e.ConfirmedFor r → e.startTime = slot.startTime →
    e.endTime = slot.endTime → NoClash T e

theorem free_of_clashes {pick pick' : ℕ} {T₁ T₂ : Interviews} (h₁ : alone → T₁ = T)
    (h₂ : alone → T₂ = T)
    (hnone : inSomeOrder pick' (confirmedFor T₂ ((inSomeOrder pick (partsOf T₁ r)).map (·.2.id)) r
      slot.startTime slot.endTime) = []) : Free alone T r slot := by
  intro ha hT e he hstart hend
  rw [h₁ ha, h₂ ha] at hnone
  refine noClash_of_confirmedFor (fun u hu => ?_) (inSomeOrder_eq_nil.mp hnone) he hstart hend
  obtain ⟨p, hp, rfl⟩ := mem_partsOf hT hu
  exact List.mem_map_of_mem ((inSomeOrder_perm _ _).mem_iff.mpr hp)

theorem confirmedFor_nil {tmin tmax : Instant} : confirmedFor T [] r tmin tmax = [] := by
  simp [confirmedFor]

theorem wp_confirmedEventsForUsers (hs : s.Calm) {users : List Id} {tmin tmax : Instant}
    {Q : Except Exc (List (Id × Instant × Instant)) → Session × Interviews → Prop}
    (herr : ∀ e s', s.Ended s' → Q (.error e) (s', T))
    (hok : ∀ pick T₁ s', (alone → T₁ = T) → s.Same s' →
      Q (.ok (inSomeOrder pick (confirmedFor T₁ users r tmin tmax))) (s', T)) :
    wp (lifecycle alone may P) (confirmedEventsForUsers users r tmin tmax) Q (s, T) := by
  unfold confirmedEventsForUsers
  split
  · next h =>
    subst h
    have h := hok 0 T s (fun _ => rfl) (.refl s)
    rw [inSomeOrder_eq_nil.mpr confirmedFor_nil] at h
    exact wp_pure h
  · exact wp_dbSelect (fun e _ => herr e _ (s.ended_fail hs.owed)) fun pick w hT =>
      hok pick w.db.toInterviews _ hT (s.same_touch w)

/-! ### The choice of the slot -/

/-- What a handler that runs alone knows of the slot when its run is the latest. -/
def Taken (alone : Prop) (T : Interviews) (r : Id) (slot : RecommendedSlot) : Prop :=
  alone → WellFormed T → ∀ e : InterviewEvent, e.interviewRequestId = r →
    e.startTime = slot.startTime → e.endTime = slot.endTime → Takes T e slot.id

theorem of_slotWithRun {slotId : Id} {run : RecommendationRun}
    (h : slotWithRun T slotId = some (slot, run)) :
    run ∈ T.runs ∧ slot ∈ run.slots ∧ slot.id = slotId := by
  obtain ⟨x, hx, hslot⟩ := List.exists_of_findSome?_eq_some h
  obtain ⟨s₁, hs₁, heq⟩ := Option.map_eq_some_iff.mp hslot
  simp only [Prod.mk.injEq] at heq
  obtain ⟨rfl, rfl⟩ := heq
  exact ⟨hx, List.mem_of_find?_eq_some hs₁, by simpa using List.find?_some hs₁⟩

/-- The row that a query for the latest one answers. -/
theorem of_latestBy {α : Type} {key : α → Instant} {pick : ℕ} {rows : List α} {x : α}
    (h : latestBy key pick rows = some x) : x ∈ rows ∧ ∀ y ∈ rows, key y ≤ key x := by
  have hmem := List.mem_of_getElem? h
  obtain ⟨hx, hall⟩ := List.mem_filter.mp hmem
  exact ⟨hx, fun y hy => of_decide_eq_true (List.all_eq_true.mp hall y hy)⟩

theorem mem_runsOf {run : RecommendationRun} :
    run ∈ runsOf T r ↔ run ∈ T.runs ∧ run.interviewRequestId = r := by
  simp [runsOf, List.mem_filter]

theorem of_latestRun {pick : ℕ} {run : RecommendationRun} (h : latestRun pick T r = some run) :
    IsLatest T run ∧ run.interviewRequestId = r := by
  obtain ⟨hmem, htop⟩ := of_latestBy h
  obtain ⟨hrun, hr⟩ := mem_runsOf.mp hmem
  refine ⟨⟨hrun, fun run' hrun' heq => htop run' (mem_runsOf.mpr ⟨hrun', heq.trans hr⟩)⟩, hr⟩

/-- The slot was found in the run that is the latest one. -/
theorem taken_of_latest {T₁ T₂ : Interviews} (h₁ : alone → T₁ = T) (h₂ : alone → T₂ = T)
    {slotId : Id} {run latest : RecommendationRun} (hfound : slotWithRun T₁ slotId = some (slot, run))
    {pick : ℕ} (hlatest : latestRun pick T₂ r = some latest) (hid : run.id = latest.id) :
    Taken alone T r slot := by
  intro ha hT e he hstart hend
  rw [h₁ ha] at hfound
  rw [h₂ ha] at hlatest
  obtain ⟨hrun, hslot, -⟩ := of_slotWithRun hfound
  obtain ⟨htop, hr⟩ := of_latestRun hlatest
  obtain rfl := hT.runs.run run hrun latest htop.1 hid
  exact ⟨run, htop, hr.trans he.symm, slot, hslot, rfl, hstart, hend⟩

theorem wp_latestRunId {Q : Except Exc (Option Id) → Session × Interviews → Prop}
    (hfail : ∀ e : Exc, e.isApp = false → Q (.error e) (s.fail, T))
    (hok : ∀ (w : World) pick run, run = latestRun pick w.db.toInterviews r →
      (alone → w.db.toInterviews = T) →
      Q (.ok (run.map (·.id))) ((s.touch w).rank w r run, T)) :
    wp (lifecycle alone may P) (latestRunId r) Q (s, T) := by
  refine wp_bind (wp_latestRun hfail fun w pick run hrun hT => ?_)
  exact hok w pick run hrun hT

/-! ### Hosting -/

/-- The calendar event that a call is answerable for. -/
def Hosted.owed (hosted : Hosted) : List String :=
  match hosted.organiserToken with
  | some _ => [hosted.calEventId]
  | none => []

/-- What `hostEvent` leaves. -/
structure Hosting (s : Session) (hosted : Hosted) (s' : Session) : Prop where
  copies : s'.copies = s.copies
  pending : s'.pending = []
  reported : s'.reported = []
  trace : s'.trace = { s.trace with owed := hosted.owed }
  google : hosted.provider = .google → hosted.calEventId ∈ hosted.owed

theorem wp_hostEvent (hs : s.Calm) (hmay : may r .booked) {panelists : Parts} {email : String}
    {Q : Except Exc Hosted → Session × Interviews → Prop}
    (herr : ∀ e s', s.Ended s' → Q (.error e) (s', T))
    (hok : ∀ hosted s', Hosting s hosted s' → Q (.ok hosted) (s', T)) :
    wp (lifecycle alone may P) (hostEvent pf row slot panelists email) Q (s, T) := by
  have hask : ∀ {e s₁ s'}, s.Same s₁ → (s₁.Same s' ∨ e.isApp = false ∧ s₁.Broken s') →
      Q (.error e) (s', T) := fun h₁ h =>
    herr _ _ ((ended_of_asked (h₁.calm hs) h).of_same h₁)
  have hsim : ∀ s', s.Same s' → Hosting s ⟨none, "", none, .simulated⟩ s' := fun s' h =>
    { copies := h.copies, pending := (h.calm hs).pending, reported := (h.calm hs).reported
      trace := by rw [h.trace, Hosted.owed, ← hs.owed]
      google := by simp }
  unfold hostEvent
  split
  · refine wp_bind_asked asked_uuid4 (fun _ _ => hask (.refl s)) fun id s₁ h₁ => wp_pure ?_
    obtain ⟨hc, hp, hr, ht, -⟩ := hsim s₁ h₁
    exact hok _ _ ⟨hc, hp, hr, ht, by simp⟩
  · have horganiser : wp (lifecycle alone may P) (organiserConnection pf panelists) (Asked s T)
        (s, T) := asked_bind hs asked_orRaise fun _ _ h => Calendar.asked_usableConnection h
    refine wp_bind_asked horganiser (fun _ _ => hask (.refl s)) fun conn s₁ h₁ => ?_
    refine wp_bind_asked asked_orRaise (fun _ _ => hask h₁) fun token s₂ h₂ => ?_
    have h₀₂ := h₁.trans h₂
    have hs₂ := h₀₂.calm hs
    refine wp_bind (wp_tryCatch (wp_createEvent ⟨r, hmay⟩ ?_ fun ev => hok _ _ ?_))
    · rintro e (rfl | rfl)
      · exact herr _ _ ((h₀₂.ended hs))
      · exact herr _ _ ((h₀₂.ended hs))
    · refine ⟨h₀₂.copies, hs₂.pending, hs₂.reported, ?_, by simp [Hosted.owed]⟩
      simp [h₀₂.trace, Hosted.owed, hs.owed]

/-! ### The transaction -/

/-- The writes of a booking. -/
def bookWrites (e : InterviewEvent) (slotId : Id) : List Write :=
  [.insertEvent e, .setStatus e.interviewRequestId .booked, .selectSlot slotId]

/-- The session has committed one booking. -/
def HasBooked (r : Id) (s s' : Session) : Prop :=
  ∃ e slotId, e.ConfirmedFor r ∧ s'.trace.journal = s.trace.journal ++ bookWrites e slotId

/-- What the session holds when the transaction begins. -/
structure Ready (alone : Prop) (r : Id) (row : InterviewRequest) (slot : RecommendedSlot)
    (hosted : Hosted) (s : Session) (T : Interviews) : Prop where
  copy : s.copies r = some row
  pending : s.pending = []
  reported : s.reported = []
  owed : s.trace.owed = hosted.owed
  dropped : s.trace.dropped = []
  recommended : row.status = .recommended
  read : s.LastRead r .recommended
  decided : s.Decided (.booking r) .recommended
  reread : s.Reread (.booking r) .recommended
  chosen : s.Chosen r slot.id
  truth : alone → T.requests r = some row
  free : Free alone T r slot
  takes : Taken alone T r slot
  google : hosted.provider = .google → hosted.calEventId ∈ hosted.owed

/-- The transaction has failed: the calendar event is still owed. -/
structure Failed (s : Session) (hosted : Hosted) (s' : Session) : Prop where
  side : s'.side = []
  owed : s'.trace.owed = hosted.owed
  dropped : s'.trace.dropped = []
  journal : s'.trace.journal = s.trace.journal

theorem failed_of_fail (hr : s'.reported = []) (ho : s'.trace.owed = hosted.owed)
    (hj : s'.trace.journal = s.trace.journal) : Failed s hosted s'.fail where
  side := rfl
  owed := by
    change s'.trace.owed.filter (fun id => id ∉ s'.reported) = _
    simp [hr, ho]
  dropped := rfl
  journal := hj

/-- The session with the rows of a booking. -/
structure Staged (s : Session) (e : InterviewEvent) (slotId : Id) (s' : Session) : Prop where
  pending : s'.pending = bookWrites e slotId
  reported : s'.reported = []
  trace : s'.trace = s.trace

theorem Failed.reported (h : Failed s hosted s') : s'.reported = [] := by
  rw [Session.reported, h.side]
  rfl

theorem transacts_book (hmay : may r .booked) (h : Ready alone r row slot hosted s T)
    {e : InterviewEvent} (he : e.ConfirmedFor r) (hstart : e.startTime = slot.startTime)
    (hend : e.endTime = slot.endTime) (hcal : e.calendarEventId = hosted.calEventId)
    (hprovider : e.provider = hosted.provider) (hb : Staged s e slot.id s') :
    Transacts alone may P s' T := by
  have hpending : s'.pending = [.insertEvent e, .setStatus r .booked, .selectSlot slot.id] := by
    rw [hb.pending, bookWrites, he.1]
  exact
    { legal := fun ha hT => by
        rw [hpending]
        exact .book (h.truth ha) h.recommended he (h.free ha hT e he hstart hend)
          (h.takes ha hT e he.1 hstart hend)
      disciplined := fun _ => .book hmay hpending he (by rw [Session.LastRead, hb.trace]; exact h.read)
        (by rw [Session.Decided, hb.trace]; exact h.decided)
        (by rw [Session.Chosen, hb.trace]; exact h.chosen)
        (by rw [Session.Reread, hb.trace]; exact h.reread)
      hosted := fun e' he' hgoogle => by
        obtain rfl : e' = e := by simpa [hpending] using he'
        rw [hb.trace, h.owed, hcal]
        exact h.google (hprovider ▸ hgoogle)
      dropped := by simp [hb.trace, h.dropped] }

/-- The rows of a booking, one after the other. -/
theorem staged_of_ready (h : Ready alone r row slot hosted s T) {e : InterviewEvent}
    (he : e.ConfirmedFor r) (slotId : Id) (w : World) :
    Staged s e slotId
      ((((s.stage (.insertEvent e)).touch w).stage (.setStatus r .booked)).stage
        (.selectSlot slotId)) := by
  have hcopy : ((s.stage (.insertEvent e)).touch w).copies r = some row := h.copy
  rw [Session.stage_setStatus hcopy (by simp [h.recommended])]
  refine ⟨?_, h.reported, rfl⟩
  simp [Session.stage, Session.modifyCopy, h.pending, bookWrites, he.1]

/-- After the commit the row accounts for the calendar event. -/
theorem calm_of_staged {e : InterviewEvent} {slotId : Id} (hs : Staged s e slotId s')
    (howed : s.trace.owed = hosted.owed) (he : e.status = .confirmed)
    (hid : e.calendarEventId = hosted.calEventId) : s'.committed.Calm where
  pending := rfl
  reported := rfl
  owed := by
    have hrefs : e.calendarEventId ∈ s'.pending.flatMap Write.references := by
      simp [hs.pending, bookWrites, Write.references, he]
    have hall : ∀ id ∈ s'.trace.owed, id = e.calendarEventId := by
      rw [hs.trace, howed, Hosted.owed, hid]
      split <;> simp
    refine List.filter_eq_nil_iff.mpr fun id hmem => ?_
    simp [hall id hmem, hrefs]
  dropped := rfl

theorem hasBooked_of_staged {e : InterviewEvent} {slotId : Id} (hs : Staged s e slotId s')
    (he : e.ConfirmedFor r) : HasBooked r s s'.committed :=
  ⟨e, slotId, he, by simp [Session.committed, Trace.commit, hs.pending, hs.trace]⟩

theorem Staged.same {e : InterviewEvent} {slotId : Id} {s'' : Session} (h : Staged s e slotId s')
    (hs : s'.Same s'') : Staged s e slotId s'' :=
  ⟨hs.pending.trans h.pending, hs.reported.trans h.reported, hs.trace.trans h.trace⟩

theorem wp_persist (hmay : may r .booked) (h : Ready alone r row slot hosted s T)
    {Q : Except Exc InterviewEvent → Session × Interviews → Prop}
    (herr : ∀ e s', Failed s hosted s' → Q (.error e) (s', T))
    (hok : ∀ e s' T', s'.Calm → Notifications.Fresh s' → HasBooked r s s' → Q (.ok e) (s', T')) :
    wp (lifecycle alone may P) (persist actor r slot hosted) Q (s, T) := by
  refine wp_bind (wp_bind (wp_uuid4 fun id => wp_bind (wp_dbAdd (wp_bind (wp_dbFlush ?_ ?_)))))
  · exact fun e _ => herr e s.expire.fail (failed_of_fail h.reported h.owed rfl)
  intro w
  set event : InterviewEvent := ⟨id, r, slot.startTime, slot.endTime, hosted.calEventId,
    hosted.calMeetingLink, hosted.provider, .confirmed⟩
  have he : event.ConfirmedFor r := ⟨rfl, rfl⟩
  have hs := staged_of_ready h he slot.id w
  refine wp_bind (wp_dbAdd (wp_bind (wp_dbAdd (wp_recordAudit_commit ?_ ?_ ?_))))
  · exact transacts_book hmay h he rfl rfl rfl rfl hs
  · exact fun e s₁ h₁ => herr e _ (failed_of_fail (hs.same h₁).reported
      (by rw [(hs.same h₁).trace, h.owed]) (by rw [(hs.same h₁).trace]))
  · exact fun s₁ h₁ => hok event _ _ (calm_of_staged (hs.same h₁) h.owed rfl rfl) ⟨rfl, rfl⟩
      (hasBooked_of_staged (hs.same h₁) he)

/-! ### Compensation -/

/-- A task accounts for the calendar event, whether it is stored or refused. -/
theorem wp_reportOrphan (h : Failed s hosted s') (hp : s'.pending = [])
    {token : String} (htoken : hosted.organiserToken = some token) {e : Exc} :
    wp (lifecycle alone may P) (reportOrphan hosted.calEventId e) (fun r v =>
      s.Ended v.1 ∧ ∃ u, r = .ok u) (s', T) := by
  have howed : s'.trace.owed = [hosted.calEventId] := by rw [h.owed, Hosted.owed, htoken]
  refine wp_tryCatch (wp_bind (wp_dbAddSide (wp_dbCommit ?_ (fun _ _ _ => ?_) ?_)))
  · exact commits_quiet hp h.dropped fun _ => .inr (Session.renews_of_not_mem (by simp [h.side]))
  · refine ⟨⟨⟨?_, rfl⟩, h.journal⟩, _, rfl⟩
    simp [Session.fail, Trace.fail, howed, SideWrite.reports]
  · refine ⟨⟨⟨?_, rfl⟩, ?_⟩, _, rfl⟩
    · simp [Session.committed, Trace.commit, howed, SideWrite.reports]
    · simp [Session.committed, Trace.commit, hp, h.journal]

/-- **Compensation accounts for the calendar event.** -/
theorem wp_compensate (h : Failed s hosted s') (hp : s'.pending = [])
    {token : String} (htoken : hosted.organiserToken = some token) {e : Exc} :
    wp (lifecycle alone may P) (compensate token hosted.calEventId e) (fun r v =>
      s.Ended v.1 ∧ ∃ u, r = .ok u) (s', T) := by
  have howed : s'.trace.owed = [hosted.calEventId] := by rw [h.owed, Hosted.owed, htoken]
  refine wp_bind (Calendar.wp_deleteEvent' ?_ ?_)
  · exact wp_reportOrphan h hp htoken
  · have hdelete : s'.trace.delete hosted.calEventId =
        { s'.trace with owed := [] } := by simp [Trace.delete, howed]
    rw [hdelete]
    exact ⟨⟨⟨rfl, h.dropped⟩, h.journal⟩, _, rfl⟩

theorem wp_persistFailed (h : Failed s hosted s') {e : Exc} :
    wp (lifecycle alone may P) (persistFailed hosted e) (fun r v =>
      s.Ended v.1 ∧ ∃ e', r = .error e') (s', T) := by
  have hroll : Failed s hosted s'.rollback :=
    ⟨rfl, (failed_of_fail h.reported h.owed h.journal).owed, rfl, h.journal⟩
  refine wp_bind (wp_dbRollback h.reported h.dropped ?_)
  have hthrow : ∀ v : Session × Interviews, s.Ended v.1 → wp (lifecycle alone may P)
      (if e = .integrityError then
        throw (slotNoLongerAvailable "this request was booked by someone else")
      else throw (.ofClass .bookingPersistenceFailedError) : M InterviewEvent) (fun r v =>
        s.Ended v.1 ∧ ∃ e', r = .error e') v := by
    intro v hv
    split
    · exact ⟨hv, _, rfl⟩
    · exact ⟨hv, _, rfl⟩
  cases htoken : hosted.organiserToken with
  | none =>
    refine hthrow _ ⟨⟨?_, hroll.dropped⟩, hroll.journal⟩
    rw [hroll.owed, Hosted.owed, htoken]
  | some token =>
    refine wp_bind (wp_mono (wp_compensate hroll rfl htoken) ?_)
    rintro r v ⟨hv, u, rfl⟩
    exact hthrow v hv

/-! ### Booking -/

section Uses

open Prog

variable {E : ∀ β : Type, Effect β → Prop}

section Internal

variable (hE : Internal E)

include hE

theorem uses_recordAudit {action : String} {metadata : List (String × String)} :
    (recordAudit actor action r metadata).Uses E :=
  uses_bind (uses_perform (hE _ rfl)) fun _ => uses_perform (hE _ rfl)

theorem uses_createReconciliationTask {id reason : String} {metadata : List (String × String)}
    {event : Option Id} {commit : Bool} :
    (createReconciliationTask id reason metadata event commit).Uses E := by
  refine uses_bind (uses_perform (hE _ rfl)) fun _ => ?_
  split
  · exact uses_perform (hE _ rfl)
  · exact uses_perform (hE _ rfl)

theorem uses_persist (hinsert : ∀ e : InterviewEvent, e.interviewRequestId = r →
      e.startTime = slot.startTime → e.endTime = slot.endTime → E _ (.stage (.insertEvent e)))
    (hst : E _ (.stage (.setStatus r .booked))) (hselect : E _ (.stage (.selectSlot slot.id))) :
    (persist actor r slot hosted).Uses E := by
  have hevent : (insertInterviewEvent r slot.startTime slot.endTime hosted.calEventId
      hosted.calMeetingLink hosted.provider).Uses E :=
    uses_bind (uses_perform (hE _ rfl)) fun _ => uses_bind (uses_perform (hinsert _ rfl rfl rfl)) fun _ =>
      uses_bind (uses_perform (hE _ rfl)) fun _ => uses_pure
  refine uses_bind hevent fun event => uses_bind (uses_perform hst) fun _ => ?_
  refine uses_bind (uses_perform hselect) fun _ => uses_bind (uses_recordAudit hE) fun _ => ?_
  exact uses_bind (uses_perform (hE _ rfl)) fun _ => uses_pure

theorem uses_confirmedEventsForUsers {users : List Id} {tmin tmax : Instant} :
    (confirmedEventsForUsers users r tmin tmax).Uses E := by
  unfold confirmedEventsForUsers
  split
  · exact uses_pure
  · exact uses_perform (hE _ rfl)

end Internal

variable (hE : Ordinary E)

include hE

theorem uses_organiserConnection {panelists : Parts} :
    (organiserConnection pf panelists).Uses E :=
  uses_bind uses_orRaise fun _ => Calendar.uses_usableConnection hE

theorem uses_hostEvent {panelists : Parts} {email : String}
    (hcreate : ∀ token draft, E _ (.createEvent token draft)) :
    (hostEvent pf row slot panelists email).Uses E := by
  unfold hostEvent
  split
  · exact uses_bind (uses_perform (hE _ rfl)) fun _ => uses_pure
  · refine uses_bind (uses_organiserConnection hE) fun conn => uses_bind uses_orRaise fun token => ?_
    exact uses_bind (Calendar.uses_googleError (uses_perform (hcreate _ _))) fun _ => uses_pure

theorem uses_persistFailed {e : Exc} (hdelete : ∀ token id, E _ (.deleteEvent token id)) :
    (persistFailed hosted e).Uses E := by
  have hcompensate : ∀ token, (compensate token hosted.calEventId e).Uses E := by
    intro token
    refine uses_bind (Calendar.uses_deleteEvent (hdelete _ _)) fun deleted => ?_
    split
    · exact uses_pure
    · exact uses_tryCatch (uses_createReconciliationTask hE.internal) fun _ => uses_pure
  have hthrow : (if e = .integrityError then
        throw (slotNoLongerAvailable "this request was booked by someone else")
      else throw (.ofClass .bookingPersistenceFailedError) : M InterviewEvent).Uses E := by
    split
    · exact uses_throw
    · exact uses_throw
  refine uses_bind (uses_perform (hE _ rfl)) fun _ => ?_
  cases hosted.organiserToken with
  | none => exact hthrow
  | some token => exact uses_bind (hcompensate token) fun _ => hthrow

theorem uses_bookLocked (hcreate : ∀ token draft, E _ (.createEvent token draft))
    (hdelete : ∀ token id, E _ (.deleteEvent token id))
    (hinsert : ∀ e : InterviewEvent, e.interviewRequestId = r → e.startTime = slot.startTime →
      e.endTime = slot.endTime → E _ (.stage (.insertEvent e)))
    (hst : E _ (.stage (.setStatus r .booked))) (hselect : E _ (.stage (.selectSlot slot.id))) :
    (bookLocked pf actor r slot).Uses E := by
  refine uses_bind (uses_perform (hE _ rfl)) fun request => uses_bind uses_raiseIf fun _ => ?_
  refine uses_bind (uses_perform (hE _ rfl)) fun event => uses_bind uses_raiseIf fun _ => ?_
  refine uses_bind (uses_perform (hE _ rfl)) fun parts => uses_bind uses_orRaise fun candidate => ?_
  refine uses_bind (uses_confirmedEventsForUsers hE.internal) fun clashes => uses_bind uses_raiseIf fun _ => ?_
  refine uses_bind (uses_hostEvent hE hcreate) fun hosted => ?_
  exact uses_bind (uses_tryCatch (uses_persist hE.internal hinsert hst hselect) fun _ =>
    uses_persistFailed hE hdelete) fun _ => uses_pure

end Uses

/-- How a booking ends: with one booking committed, or without a write. -/
def Books (r : Id) (s : Session) : Except Exc α → Session × Interviews → Prop
  | .ok _, v => v.1.Calm ∧ Notifications.Fresh v.1 ∧ HasBooked r s v.1
  | .error _, v => s.Ended v.1

theorem ready_of_hosting {s₀ : Session} (h : GuardedAnew alone (.booking r) r row s₀ s T)
    (hst : row.status = .recommended) (hfree : Free alone T r slot) (hchosen : s₀.Chosen r slot.id)
    (htaken : Taken alone T r slot) (hh : Hosting s hosted s') :
    Ready alone r row slot hosted s' T where
  copy := by rw [hh.copies]; exact h.copy
  pending := hh.pending
  reported := hh.reported
  owed := by rw [hh.trace]
  dropped := by rw [hh.trace]; exact h.dropped
  recommended := hst
  read := by rw [Session.LastRead, hh.trace, ← hst]; exact h.read
  decided := by rw [Session.Decided, hh.trace, ← hst]; exact h.decided
  reread := by rw [Session.Reread, hh.trace, ← hst]; exact h.reread
  chosen := by
    rw [Session.Chosen, hh.trace]
    change ∃ run n st, s.trace.found = _ ∧ s.trace.ranked = _
    rw [h.found, h.ranked]
    exact hchosen
  truth := h.truth
  free := hfree
  takes := htaken
  google := hh.google

/-- The transaction and its handlers. -/
theorem books_persist (hmay : may r .booked) (h : Ready alone r row slot hosted s T) :
    wp (lifecycle alone may P) (tryCatch (persist actor r slot hosted) (persistFailed hosted))
      (Books r s) (s, T) := by
  refine wp_tryCatch (wp_persist hmay h (fun e s₁ h₁ => ?_) fun e s₁ T₁ hcalm hfresh hbooked => ?_)
  · refine wp_mono (wp_persistFailed h₁) ?_
    rintro _ v ⟨hv, e', rfl⟩
    exact hv
  · exact ⟨hcalm, hfresh, hbooked⟩

theorem books_bookLocked (hs : s.Calm) {token : Option Id} (hcrit : s.Inside (.booking r) token)
    (hmay : may r .booked) (hchosen : s.Chosen r slot.id) (htaken : Taken alone T r slot) :
    wp (lifecycle alone may P) (bookLocked pf actor r slot) (Books r s) (s, T) := by
  refine wp_bind (wp_dbRefresh_calm hs (fun _ _ h => h) fun w row s₁ hs₁ hrow => ?_)
  have h : GuardedAnew alone (.booking r) r row s s₁ T :=
    ⟨⟨hrow, hs₁ ▸ Session.decided_load hcrit r row, hs₁ ▸ rfl, hs₁ ▸ rfl, hs₁ ▸ rfl⟩,
      hs₁ ▸ Session.reread_load hcrit row⟩
  refine wp_bind (wp_raiseIf (fun _ => h.ended) fun hst => ?_)
  replace hst : row.status = .recommended := by simpa using hst
  have hfail : ∀ {s₁}, GuardedAnew alone (.booking r) r row s s₁ T → s.Ended s₁.fail := fun h =>
    h.ended_of_ended (Session.ended_fail _ h.owed)
  refine wp_bind (wp_confirmedEvent (fun e _ => hfail h) fun w₂ event _ _ => ?_)
  replace h := h.look w₂ ⟨r, event.map (·.id), w₂.db.events.length⟩
  refine wp_bind (wp_raiseIf (fun _ => h.ended) fun _ => ?_)
  refine wp_bind (wp_dbSelect (fun e _ => hfail h) fun pick w₃ hT₃ => ?_)
  replace h := h.same (Session.same_touch _ w₃)
  refine wp_bind (wp_orRaise (fun _ => h.ended) fun candidate _ => ?_)
  refine wp_bind (wp_confirmedEventsForUsers h.toCalm
    (fun _ _ he => h.ended_of_ended he) fun pick' T₄ s₄ hT₄ h₄ => ?_)
  replace h := h.same h₄
  refine wp_bind (wp_raiseIf (fun _ => h.ended) fun hclash => ?_)
  have hfree : Free alone T r slot := free_of_clashes hT₃ hT₄ (not_not.mp hclash)
  refine wp_bind (wp_hostEvent h.toCalm hmay
    (fun _ _ he => h.ended_of_ended he) fun hosted s₅ h₅ => ?_)
  have hj : s₅.trace.journal = s.trace.journal := by rw [h₅.trace]; exact h.journal
  refine wp_bind (wp_mono (books_persist hmay (ready_of_hosting h hst hfree hchosen htaken h₅)) ?_)
  rintro (e | event) v hv
  · exact ⟨hv.toClosed, hv.journal.trans hj⟩
  · obtain ⟨hcalm, hfresh, e, slotId, he, hjournal⟩ := hv
    exact ⟨hcalm, hfresh, e, slotId, he, by rw [hjournal, hj]⟩

theorem Books.leave {x : Except Exc α} {v : Session × Interviews} (h : Books r s x v) :
    Books r s x (v.1.leave, v.2) := by
  cases x with
  | ok a =>
    obtain ⟨hcalm, hfresh, e, slotId, he, hj⟩ := h
    exact ⟨hcalm.leave, hfresh.leave, e, slotId, he, hj⟩
  | error e => exact ⟨h.toClosed.leave, h.journal⟩

/-- The critical section with its lock. -/
theorem books_lock (hs : s.Calm) (hmay : may r .booked) (hchosen : s.Chosen r slot.id)
    (htaken : Taken alone T r slot) :
    wp (lifecycle alone may P) (tryCatch (redisLock (.booking r) 10 (bookLocked pf actor r slot)) fun
      | .lockNotAcquired =>
        throw (slotNoLongerAvailable "a booking is already in progress for this request")
      | e => throw e) (Books r s) (s, T) := by
  refine wp_tryCatch (wp_mono (Q := Books r s) (wp_redisLock (uses_bookLocked ordinary_lockless
    (fun _ _ => trivial) (fun _ _ => trivial) (fun _ _ _ _ => trivial) trivial trivial) ?_
    fun w token _ => ?_) ?_)
  · exact (Session.Same.refl s).ended hs
  · refine wp_mono (books_bookLocked (hs.enter w _ token) (s.inside_enter w _ token) hmay hchosen htaken)
      fun x v h => ?_
    have h : Books r s x v := by
      cases x with
      | ok a => exact h
      | error e => exact ⟨h.toClosed, h.journal⟩
    exact ⟨h, h.leave⟩
  · rintro (e | a) v h
    · cases e <;> exact h
    · exact h

/-- The steps of `book` up to its commit: it raises without a write, or goes on to the confirmation. -/
theorem wp_book {K : ∀ β : Type, Effect β → Session × Interviews → Except Exc β → Session × Interviews → Prop}
    (hs : s.Calm) (hmay : may r .booked) {slotId : Id}
    {Q : Except Exc InterviewEvent → Session × Interviews → Prop}
    (herr : ∀ e v, s.Ended v.1 → Q (.error e) v)
    (hok : ∀ (booked : Booked) s' T', s'.Calm → Notifications.Fresh s' → HasBooked r s s' →
      wp ((lifecycle alone may P).restrict K) (do
        Notifications.logFailure (Notifications.sendBookingConfirmation pf booked.event
          booked.candidateEmail booked.panelistEmails booked.roundType booked.title booked.company)
        pure booked.event) Q (s', T')) :
    wp ((lifecycle alone may P).restrict K) (book pf actor r slotId) Q (s, T) := by
  refine wp_bind (wp_restrict (wp_slotWithRun (fun e _ => herr e _ (s.ended_fail hs.owed))
    fun w x hx hT => ?_))
  have hs₁ : ((s.touch w).find x).Calm := ⟨hs.pending, hs.reported, hs.owed, hs.dropped⟩
  refine wp_bind (wp_orRaise (fun _ => herr _ _ ⟨hs₁.closed, rfl⟩) fun ⟨slot, run⟩ hsome => ?_)
  rw [hsome] at hx hs₁ ⊢
  refine wp_bind (wp_raiseIf (fun _ => herr _ _ ⟨hs₁.closed, rfl⟩) fun _ => ?_)
  refine wp_bind (wp_restrict (wp_dbGet_calm hs₁ (fun e _ h => herr e _ ⟨h.toClosed, h.journal⟩)
    fun request s₂ hs₂ hk => ?_))
  have hend : ∀ {s'}, s₂.Ended s' → s.Ended s' := fun h => ⟨h.toClosed, h.journal.trans hk.journal⟩
  refine wp_bind (wp_orRaise (fun _ => herr _ _ ⟨hs₂.closed, hk.journal⟩) fun request _ => ?_)
  refine wp_bind (wp_restrict (wp_latestRunId (fun e _ => herr e _ (hend (s₂.ended_fail hs₂.owed)))
    fun w₃ pick latest hlatest hT₃ => ?_))
  have hs₃ : ((s₂.touch w₃).rank w₃ r latest).Calm := ⟨hs₂.pending, hs₂.reported, hs₂.owed, hs₂.dropped⟩
  have hend₃ : s.Ended ((s₂.touch w₃).rank w₃ r latest) := ⟨hs₃.closed, hk.journal⟩
  refine wp_bind (wp_raiseIf (fun _ => herr _ _ hend₃) fun hsame => ?_)
  obtain ⟨run', rfl, hid⟩ := Option.map_eq_some_iff.mp (not_not.mp hsame).symm
  have hchosen : ((s₂.touch w₃).rank w₃ r (some run')).Chosen r slot.id := by
    refine ⟨run', _, _, ?_, rfl⟩
    change s₂.trace.found = _
    rw [hk.found, hid]
    rfl
  have htaken : Taken alone T r slot := taken_of_latest hT hT₃ hx.symm hlatest.symm hid.symm
  refine wp_bind (wp_raiseIf (fun _ => herr _ _ hend₃) fun _ => ?_)
  refine wp_bind (wp_restrict (wp_mono (books_lock hs₃ hmay hchosen htaken) ?_))
  rintro (e | booked) ⟨s₄, T₄⟩ h₄
  · exact herr e _ ⟨h₄.toClosed, h₄.journal.trans hk.journal⟩
  · obtain ⟨hs₄, hfresh, e, slotId, he, hj₄⟩ := h₄
    exact hok booked s₄ T₄ hs₄ hfresh ⟨e, slotId, he, hj₄.trans (congrArg (· ++ _) hk.journal)⟩

theorem HasBooked.journal_ne_nil (h : HasBooked r s s') : s'.trace.journal ≠ [] := by
  obtain ⟨e, slotId, -, hj⟩ := h
  simp [hj, bookWrites]

/-- **`book` accounts for the calendar**, however it ends. -/
theorem closes_book (hs : s.Calm) (hmay : may r .booked) {slotId : Id} :
    wp (lifecycle alone may P) (book pf actor r slotId) Closes (s, T) := by
  refine wp_of_restrict (K := fun _ _ _ _ _ => True) (fun _ _ _ _ => trivial)
    (wp_book hs hmay (fun _ _ h => h.toClosed) fun booked s' T' hs' _ hbooked => wp_restrict ?_)
  refine wp_bind (Notifications.asked_logFailure hs'
    (Notifications.asked_sendBookingConfirmation hs' hbooked.journal_ne_nil) (fun s₁ h₁ => ?_)
    fun s₁ h₁ => h₁.toClosed)
  rcases h₁ with hsame | hbroken
  · exact (hsame.calm hs').closed
  · exact hbroken.toClosed

/-- How `book` ends when the row of its confirmation can be stored: it returns a booking that is committed,
or raises and has written nothing. -/
def Succeeds (r : Id) (s : Session) : Except Exc α → Session × Interviews → Prop
  | .ok _, v => v.1.Closed ∧ HasBooked r s v.1
  | .error _, v => s.Ended v.1

/-- **`book` commits one booking and returns, or raises without a write.** -/
theorem succeeds_book (hs : s.Calm) (hmay : may r .booked) {slotId : Id} :
    wp (Notifications.storing alone may P) (book pf actor r slotId) (Succeeds r s) (s, T) := by
  refine wp_book hs hmay (fun _ _ h => h) fun booked s' T' hs' hfresh hbooked => ?_
  refine wp_bind (wp_mono (Notifications.storing_logFailure
    (Notifications.storing_dispatch hs' hfresh hbooked.journal_ne_nil)) ?_)
  rintro _ v ⟨rfl, hended⟩
  obtain ⟨e, slotId, he, hj⟩ := hbooked
  exact ⟨hended.toClosed, e, slotId, he, hended.journal.trans hj⟩

end InterviewScheduler.Booking
