import InterviewScheduler.Calendar.Spec
import InterviewScheduler.Booking.Spec
import InterviewScheduler.Scheduling.Proposal

/-! # What the generation of recommendations does

From a calm session `generate` commits one transaction at most, on a request that it has read as
READY_FOR_SCHEDULING under its lock: a run with the status RECOMMENDED, or the status FAILED. It returns
the run that it has stored, or the latest one that it has found. -/

namespace InterviewScheduler.Scheduling

open InterviewScheduler.Engine InterviewScheduler.Core InterviewScheduler.Effects
open InterviewScheduler.Lifecycle
open InterviewScheduler.Booking (Part Parts partsOf participantsWithUsers confirmedFor
  confirmedEventsForUsers)

variable {alone : Prop} {may : May} {P : Interviews → Id → Prop} {s s' s₀ : Session} {T : Interviews}
  {pf : Platform} {actor : User} {r : Id} {row : InterviewRequest} {α β : Type}

/-! ### Gathering the input -/

theorem asked_calendarBusy (hs : s.Calm) {panelists : Parts} {tmin tmax : Instant} :
    wp (lifecycle alone may P) (calendarBusy pf panelists tmin tmax) (Asked s T) (s, T) := by
  unfold calendarBusy
  split
  · exact asked_pure
  · refine asked_bind hs (asked_forEach hs fun p s₁ h₁ => ?_) fun conns s₁ h₁ => ?_
    · exact asked_bind h₁ (Calendar.asked_usableConnection h₁) fun _ _ _ => asked_pure
    · refine asked_forEach h₁ fun conn s₂ h₂ => ?_
      refine asked_bind h₂ (wp_mono Calendar.unchanged_getFreeBusy fun _ _ h => h.asked) ?_
      exact fun _ _ _ => asked_pure

/-! ### The two transactions -/

/-- The status FAILED may be committed. -/
theorem transacts_fail (hfail : may r .failed) (h : GuardedAnew alone (.recommend r) r row s₀ s T)
    (hst : row.status = .readyForScheduling) :
    Transacts alone may P (s.stage (.setStatus r .failed)) T := by
  rw [Session.stage_setStatus h.copy (by simp [hst]), h.pending, List.nil_append]
  exact
    { legal := fun ha _ => .fail (h.truth ha) hst
      disciplined := fun _ => .fail hfail rfl (hst ▸ h.read) (hst ▸ h.reread)
      hosted := by simp
      dropped := by simp [Session.modifyCopy, h.dropped] }

/-- What `generate` may leave of the tables when it raises. -/
def Refused (r : Id) (T : Interviews) (v : Session × Interviews) : Prop :=
  v.1.Closed ∧ (v.2 = T ∨ v.2 = Write.force [.setStatus r .failed] T)

theorem refused_fail (hfail : may r .failed) (h : GuardedAnew alone (.recommend r) r row s₀ s T)
    (hst : row.status = .readyForScheduling) {reason : String} :
    wp (lifecycle alone may P) (fail actor r reason) (fun x v =>
      Refused r T v ∧ ∃ e, x = .error e) (s, T) := by
  have hne : row.status ≠ .failed := by simp [hst]
  have hstage := Session.stage_setStatus h.copy hne
  have howed : (s.stage (.setStatus r .failed)).trace.owed = [] := by
    rw [Session.stage_trace]
    exact h.owed
  refine wp_bind (wp_dbAdd (wp_recordAudit_commit (transacts_fail hfail h hst) ?_ ?_))
  · intro e s₁ h₁
    exact ⟨⟨(s₁.ended_fail (by rw [h₁.trace, howed])).toClosed, .inl rfl⟩, e, rfl⟩
  · intro s₁ h₁
    refine ⟨⟨(Session.calm_committed (by rw [h₁.trace, howed])).closed, .inr ?_⟩, _, rfl⟩
    rw [hstage, h.pending]
    rfl

/-- What a handler that runs alone knows of the rows of a run. -/
def Suits (alone : Prop) (T : Interviews) (run : RecommendationRun) : Prop :=
  alone → WellFormed T → Proposed T run

/-- The rows of the slots are those of the engine. -/
theorem wp_slotRows {slots : List ScoredSlot}
    {Q : Except Exc (List RecommendedSlot) → Session × Interviews → Prop}
    (hok : ∀ rows, List.Forall₂ (fun slot row => row.startTime = slot.startTime ∧
      row.endTime = slot.endTime ∧ row.scoreBreakdown = slot.scoreBreakdown) slots rows →
      Q (.ok rows) (s, T)) :
    wp (lifecycle alone may P) (Prog.forEach slotRow slots) Q (s, T) := by
  induction slots generalizing Q with
  | nil => exact hok [] .nil
  | cons slot slots ih =>
    refine wp_bind (wp_bind (wp_uuid4 fun id => ?_))
    refine wp_bind (ih fun rows hrows => ?_)
    exact hok _ (.cons ⟨rfl, rfl, rfl⟩ hrows)

/-- The session after a run was added. -/
structure WithRun (r : Id) (s : Session) (run : RecommendationRun) (s' : Session) : Prop where
  request : run.interviewRequestId = r
  staged : ∃ s₁, s.Same s₁ ∧ (s₁.stage (.insertRun run)).Same s'

theorem wp_createRun (hs : s.Calm) {version : String} {snap : InputSnapshot}
    {slots : List ScoredSlot} {Q : Except Exc RecommendationRun → Session × Interviews → Prop}
    (herr : ∀ e s', s'.Closed → Q (.error e) (s', T))
    (hok : ∀ run s', WithRun r s run s' → run.inputSnapshot = snap →
      (∀ slot ∈ run.slots, ∃ x ∈ slots, slot.startTime = x.startTime ∧ slot.endTime = x.endTime ∧
        slot.scoreBreakdown = x.scoreBreakdown) → Q (.ok run) (s', T)) :
    wp (lifecycle alone may P) (createRun r version snap slots) Q (s, T) := by
  refine wp_bind (wp_uuid4 fun id => wp_bind (wp_slotRows fun rows hrows => ?_))
  refine wp_bind (wp_transactionTime fun w => ?_)
  -- the run has the time of the transaction
  refine wp_bind (wp_dbAdd (wp_bind (wp_dbFlush (fun e _ => ?_) fun w₂ => ?_)) rfl)
  · refine herr e _ (Session.ended_fail _ ?_).toClosed
    exact hs.owed
  · refine hok _ _ ⟨rfl, _, s.same_touch w, Session.same_touch _ w₂⟩ rfl fun slot hslot => ?_
    obtain ⟨x, hx, h⟩ := Util.forall₂_exists_left hrows hslot
    exact ⟨x, hx, h⟩

/-- The run and the status RECOMMENDED may be committed. -/
theorem transacts_recommend (hrec : may r .recommended)
    (h : GuardedAnew alone (.recommend r) r row s₀ s T) (hst : row.status = .readyForScheduling)
    {run : RecommendationRun} (hrun : WithRun r s run s') (hsuits : Suits alone T run) :
    (s'.stage (.setStatus r .recommended)).pending = [.insertRun run, .setStatus r .recommended] ∧
      Transacts alone may P (s'.stage (.setStatus r .recommended)) T := by
  obtain ⟨hr, s₁, h₁, h₂⟩ := hrun
  have hold := h.same h₁
  have hcopy : s'.copies r = some row := by rw [h₂.copies]; exact hold.copy
  have hpending : s'.pending = [.insertRun run] := by
    rw [h₂.pending]
    simp [Session.stage, hold.pending]
  have htrace : s'.trace = s₁.trace := h₂.trace
  rw [Session.stage_setStatus hcopy (by simp [hst]), hpending]
  refine ⟨rfl, ?_⟩
  exact
    { legal := fun ha hT => .recommend (h.truth ha) hst hr (hsuits ha hT)
      disciplined := fun _ => by
        refine .recommend hrec rfl hr ?_ ?_
        · change ∃ n, s'.trace.reads r = _
          rw [htrace, ← hst]
          exact hold.read
        · change ∃ cr, s'.trace.critical = _ ∧ _
          rw [htrace, ← hst]
          exact hold.reread
      hosted := by simp
      dropped := by
        have hdropped : s'.trace.dropped = [] := by rw [htrace]; exact hold.dropped
        simp [Session.modifyCopy, hdropped] }

/-- The run was found, on a request that was read as one that has a run. -/
structure Found (alone : Prop) (r : Id) (run : RecommendationRun) (v : Session × Interviews) :
    Prop where
  ranked : ∃ n st, v.1.trace.ranked = some ⟨r, some run, n, some st⟩ ∧
    (st = .recommended ∨ st = .booked ∨ st = .completed)
  row : alone → ∃ row, v.2.requests r = some row ∧
    (row.status = .recommended ∨ row.status = .booked ∨ row.status = .completed)
  latest : alone → ∃ pick, latestRun pick v.2 r = some run

/-- What a handler knows of the run that it returns. -/
inductive Delivered (alone : Prop) (r : Id) (run : RecommendationRun) (s₀ : Session) (T : Interviews)
    (v : Session × Interviews) : Prop
  /-- it has stored the run -/
  | stored {row : InterviewRequest}
      (hjournal : v.1.trace.journal = s₀.trace.journal ++ [.insertRun run, .setStatus r .recommended])
      (hrun : run.interviewRequestId = r)
      (hT : v.2 = Write.force [.insertRun run, .setStatus r .recommended] T)
      (hrow : alone → T.requests r = some row) (hst : row.status = .readyForScheduling)
      (hsuits : Suits alone T run)
  /-- it has found the run, on a request that it has read as one that has a run -/
  | found (hT : v.2 = T ∨ v.2 = Write.force [.setStatus r .failed] T) (h : Found alone r run v)

/-- **What `generate` does**: it returns a run, or it raises and stores none. -/
def Generates (alone : Prop) (r : Id) (s₀ : Session) (T : Interviews) :
    Except Exc RecommendationResponse → Session × Interviews → Prop
  | .ok out, v => v.1.Closed ∧ ∃ run, out = runToResponse run ∧ Delivered alone r run s₀ T v
  | .error _, v => Refused r T v

theorem generates_persistRun (hrec : may r .recommended)
    (h : GuardedAnew alone (.recommend r) r row s₀ s T) (hst : row.status = .readyForScheduling)
    {inp : EngineInput} {result : EngineResult}
    (hsuits : ∀ run : RecommendationRun, run.interviewRequestId = r →
      run.inputSnapshot = snapshot inp pf.calendarSimulated →
      (∀ slot ∈ run.slots, ∃ x ∈ result.slots, slot.startTime = x.startTime ∧
        slot.endTime = x.endTime ∧ slot.scoreBreakdown = x.scoreBreakdown) → Suits alone T run) :
    wp (lifecycle alone may P) (persistRun pf actor r inp result) (Generates alone r s₀ T) (s, T) := by
  refine wp_bind (wp_createRun h.toCalm (fun _ _ h => ⟨h, .inl rfl⟩)
    fun run s₁ hrun hsnap hslots => ?_)
  have hrunSuits := hsuits run hrun.request hsnap hslots
  obtain ⟨hpending, htransacts⟩ := transacts_recommend (P := P) hrec h hst hrun hrunSuits
  have htrace : (s₁.stage (.setStatus r .recommended)).trace = s.trace := by
    obtain ⟨-, s₂, h₂, h₃⟩ := hrun
    rw [Session.stage_trace, h₃.trace, Session.stage_trace, h₂.trace]
  refine wp_bind (wp_dbAdd (wp_recordAudit_commit htransacts ?_ ?_))
  · intro e s₂ h₂
    exact ⟨(s₂.ended_fail (by rw [h₂.trace, htrace]; exact h.owed)).toClosed, .inl rfl⟩
  · intro s₂ h₂
    refine ⟨(Session.calm_committed (by rw [h₂.trace, htrace]; exact h.owed)).closed, run, rfl, ?_⟩
    refine .stored ?_ hrun.request (by rw [hpending]) h.truth hst hrunSuits
    rw [← h.journal, ← htrace, ← h₂.trace, ← hpending, ← h₂.pending]
    rfl

/-! ### Generation -/

section Uses

open Prog

variable {E : ∀ β : Type, Effect β → Prop}

/-- The row of a slot has what the engine says of it, with the total rounded. -/
structure RowOf (slot : ScoredSlot) (row : RecommendedSlot) : Prop where
  startTime : row.startTime = slot.startTime
  endTime : row.endTime = slot.endTime
  totalScore : row.totalScore = round3 slot.totalScore
  scoreBreakdown : row.scoreBreakdown = slot.scoreBreakdown
  explanation : row.explanation = slot.explanation
  rank : row.rank = slot.rank

/-- The engine has made the slots of the run, from an input that the service has built and that the
snapshot is of. -/
def Computed (pf : Platform) (run : RecommendationRun) : Prop :=
  ∃ (request : InterviewRequest) (avail : CandidateAvailability) (panelists : Parts) (ref : Instant)
    (windows : List AvailabilityWindow) (busyOf : Id → List BusyInterval) (result : EngineResult),
    run.inputSnapshot =
        snapshot (engineInput request avail panelists ref windows busyOf) pf.calendarSimulated ∧
      generateRecommendations pf.zones (engineInput request avail panelists ref windows busyOf) =
        .ok result ∧
      List.Forall₂ RowOf result.slots run.slots

/-- What `generate` stores. -/
structure Produced (pf : Platform) (run : RecommendationRun) : Prop where
  unselected : run.Unselected
  computed : Computed pf run

theorem gives_slotRow (slot : ScoredSlot) :
    (slotRow slot).Gives fun row => row.isSelected = false ∧ RowOf slot row :=
  gives_bind (R := fun _ => True) (gives_perform fun _ => trivial) fun _ _ =>
    ⟨rfl, rfl, rfl, rfl, rfl, rfl, rfl⟩

theorem gives_slotRows (slots : List ScoredSlot) : (Prog.forEach slotRow slots).Gives fun rows =>
    (∀ row ∈ rows, row.isSelected = false) ∧ List.Forall₂ RowOf slots rows := by
  have hrows : ∀ {slots rows}, List.Forall₂ (fun slot row => row.isSelected = false ∧ RowOf slot row)
      slots rows → (∀ row ∈ rows, row.isSelected = false) ∧ List.Forall₂ RowOf slots rows := by
    intro slots rows h
    refine ⟨fun row hrow => ?_, h.imp fun _ _ h => h.2⟩
    obtain ⟨slot, -, h⟩ := Util.forall₂_exists_left h hrow
    exact h.1
  exact gives_mono (gives_forEach_forall₂ gives_slotRow) fun _ h => hrows h

theorem gives_runEngine {inp : EngineInput} :
    (runEngine pf inp).Gives fun result => generateRecommendations pf.zones inp = .ok result := by
  unfold runEngine
  split
  · next result h => exact h
  · trivial
  · trivial
  · trivial

section Internal

variable (hE : Internal E)

include hE

theorem uses_fail {reason : String} (hst : E _ (.stage (.setStatus r .failed))) :
    (fail actor r reason).Uses E := by
  refine uses_bind (uses_perform hst) fun _ => uses_bind (Booking.uses_recordAudit hE) fun _ => ?_
  exact uses_bind (uses_perform (hE _ rfl)) fun _ => uses_throw

theorem uses_persistRun {inp : EngineInput} {result : EngineResult}
    (hrun : ∀ run, run.interviewRequestId = r → run.Unselected →
      run.inputSnapshot = snapshot inp pf.calendarSimulated →
      List.Forall₂ RowOf result.slots run.slots → E _ (.stage (.insertRun run)))
    (hst : E _ (.stage (.setStatus r .recommended))) :
    (persistRun pf actor r inp result).Uses E := by
  have hrow : ∀ slot, (slotRow slot).Uses E := fun slot =>
    uses_bind (uses_perform (hE _ rfl)) fun _ => uses_pure
  have hcreate : (createRun r result.algorithmVersion (snapshot inp pf.calendarSimulated)
      result.slots).Uses E := by
    refine uses_bind (uses_perform (hE _ rfl)) fun _ => ?_
    refine uses_bind_gives (uses_forEach hrow) (gives_slotRows _) fun slots hslots => ?_
    refine uses_bind (uses_perform (hE _ rfl)) fun _ => ?_
    refine uses_bind (uses_perform (hrun _ rfl hslots.1 rfl hslots.2)) fun _ => ?_
    exact uses_bind (uses_perform (hE _ rfl)) fun _ => uses_pure
  refine uses_bind hcreate fun _ => uses_bind (uses_perform hst) fun _ => ?_
  refine uses_bind (Booking.uses_recordAudit hE) fun _ => ?_
  exact uses_bind (uses_perform (hE _ rfl)) fun _ => uses_pure

theorem uses_existingRun {request : InterviewRequest} : (existingRun r request).Uses E := by
  unfold existingRun
  split
  · exact uses_perform (hE _ rfl)
  · exact uses_pure

end Internal

variable (hE : Ordinary E)

include hE

theorem uses_calendarBusy (hcache : ∀ key busy, E _ (.cacheSet key busy)) {panelists : Parts}
    {tmin tmax : Instant} : (calendarBusy pf panelists tmin tmax).Uses E := by
  unfold calendarBusy
  split
  · exact uses_pure
  · refine uses_bind (uses_forEach fun p => ?_) fun conns => uses_forEach fun conn => ?_
    · exact uses_bind (Calendar.uses_usableConnection hE) fun _ => uses_pure
    · exact uses_bind (Calendar.uses_getFreeBusy hE hcache) fun _ => uses_pure

omit hE in
theorem uses_runEngine {inp : EngineInput} : (runEngine pf inp).Uses E := by
  unfold runEngine
  split
  · exact uses_pure
  · exact uses_throw
  · exact uses_throw
  · exact uses_throw

theorem uses_generateReady (hcache : ∀ key busy, E _ (.cacheSet key busy))
    (hrun : ∀ run, Produced pf run → E _ (.stage (.insertRun run)))
    (hst : ∀ st, st = .recommended ∨ st = .failed → E _ (.stage (.setStatus r st))) :
    (generateReady pf actor r row).Uses E := by
  refine uses_bind uses_raiseIf fun _ => uses_bind (uses_perform (hE _ rfl)) fun avail => ?_
  refine uses_bind uses_orRaise fun avail => uses_bind uses_raiseIf fun _ => ?_
  refine uses_bind (uses_perform (hE _ rfl)) fun parts => uses_bind uses_raiseIf fun _ => ?_
  refine uses_bind (uses_perform (hE _ rfl)) fun ref => ?_
  dsimp only
  split
  · exact uses_fail hE.internal (hst _ (.inr rfl))
  · refine uses_bind (uses_calendarBusy hE hcache) fun busy => ?_
    refine uses_bind (Booking.uses_confirmedEventsForUsers hE.internal) fun internal => ?_
    refine uses_bind_gives uses_runEngine gives_runEngine fun result hresult => ?_
    split
    · exact uses_fail hE.internal (hst _ (.inr rfl))
    · refine uses_persistRun hE.internal (fun run _ hnew hsnap hslots => hrun run ⟨hnew, ?_⟩) (hst _ (.inl rfl))
      exact ⟨_, _, _, _, _, _, result, hsnap, hresult, hslots⟩

theorem uses_generateLocked (hcache : ∀ key busy, E _ (.cacheSet key busy))
    (hrun : ∀ run, Produced pf run → E _ (.stage (.insertRun run)))
    (hst : ∀ st, st = .recommended ∨ st = .failed → E _ (.stage (.setStatus r st))) :
    (generateLocked pf actor r).Uses E := by
  refine uses_bind (uses_perform (hE _ rfl)) fun _ => uses_bind (uses_perform (hE _ rfl)) fun request => ?_
  refine uses_bind (uses_existingRun hE.internal) fun existing => ?_
  cases existing with
  | some run => exact uses_pure
  | none => exact uses_generateReady hE hcache hrun hst

end Uses

/-- A call outside, in the middle of a generation. -/
theorem generates_bind {p : M α} {f : α → M RecommendationResponse}
    (hs : s.Calm) (hp : wp (lifecycle alone may P) p (Asked s T) (s, T))
    (hf : ∀ a s', s.Same s' → wp (lifecycle alone may P) (f a) (Generates alone r s₀ T) (s', T)) :
    wp (lifecycle alone may P) (p >>= f) (Generates alone r s₀ T) (s, T) :=
  wp_bind_asked hp (fun _ _ h => ⟨(ended_of_asked hs h).toClosed, .inl rfl⟩) hf

theorem generates_of_refused {p : M RecommendationResponse}
    (h : wp (lifecycle alone may P) p (fun x v => Refused r T v ∧ ∃ e, x = .error e) (s, T)) :
    wp (lifecycle alone may P) p (Generates alone r s₀ T) (s, T) := by
  refine wp_mono h ?_
  rintro _ v ⟨hv, e, rfl⟩
  exact hv

theorem wp_runEngine {inp : EngineInput} {Q : Except Exc EngineResult → Session × Interviews → Prop}
    (herr : ∀ e, Q (.error e) (s, T))
    (hok : ∀ result, generateRecommendations pf.zones inp = .ok result → Q (.ok result) (s, T)) :
    wp (lifecycle alone may P) (runEngine pf inp) Q (s, T) := by
  unfold runEngine
  split
  · next result h => exact hok result h
  · exact herr _
  · exact herr _
  · exact herr _

theorem generates_recommend (hrec : may r .recommended) (hfail : may r .failed)
    (h : GuardedAnew alone (.recommend r) r row s₀ s T) (hst : row.status = .readyForScheduling)
    {avail : CandidateAvailability} {panelists : Parts} {ref : Instant}
    {windows : List AvailabilityWindow} {pick : ℕ}
    (hpanel : alone → panelists = (inSomeOrder pick (partsOf T r)).filter Part.isPanelist)
    (hne : panelists ≠ []) :
    wp (lifecycle alone may P) (recommend pf actor r row avail panelists ref windows)
      (Generates alone r s₀ T) (s, T) := by
  refine generates_bind h.toCalm (asked_calendarBusy h.toCalm) fun busy s₁ h₁ => ?_
  replace h := h.same h₁
  refine wp_bind (Booking.wp_confirmedEventsForUsers h.toCalm (fun _ _ he => ⟨he.toClosed, .inl rfl⟩)
    fun pick' T₁ s₂ hT₁ h₂ => ?_)
  replace h := h.same h₂
  refine wp_bind (wp_runEngine (fun _ => ⟨h.toCalm.closed, .inl rfl⟩) fun result hresult => ?_)
  change wp _ (if result.slots = [] then _ else _) _ _
  split
  · exact generates_of_refused (refused_fail hfail h hst)
  · refine generates_persistRun hrec h hst fun run hr hsnap hslots ha hT => ?_
    rw [hT₁ ha] at hresult hsnap
    exact proposed_of_engine hT (hpanel ha) hne rfl rfl hresult hr hsnap hslots

theorem generates_generateReady (hrec : may r .recommended) (hfail : may r .failed)
    (h : GuardedAnew alone (.recommend r) r row s₀ s T) :
    wp (lifecycle alone may P) (generateReady pf actor r row) (Generates alone r s₀ T) (s, T) := by
  refine wp_bind (wp_raiseIf (fun _ => ⟨h.toCalm.closed, .inl rfl⟩) fun hst => ?_)
  replace hst : row.status = .readyForScheduling := by simpa using hst
  refine generates_bind h.toCalm (asked_dbSelect h.owed) fun avail s₁ h₁ => ?_
  replace h := h.same h₁
  refine generates_bind h.toCalm asked_orRaise fun avail s₂ h₂ => ?_
  replace h := h.same h₂
  refine generates_bind h.toCalm asked_raiseIf fun _ s₃ h₃ => ?_
  replace h := h.same h₃
  refine wp_bind (wp_dbSelect (fun e _ => ⟨(s₃.ended_fail h.owed).toClosed, .inl rfl⟩)
    fun pick w₄ hT₄ => ?_)
  replace h := h.same (s₃.same_touch w₄)
  refine wp_bind (wp_raiseIf (fun _ => ⟨h.toCalm.closed, .inl rfl⟩) fun hne => ?_)
  refine generates_bind h.toCalm asked_now fun ref s₆ h₆ => ?_
  replace h := h.same h₆
  dsimp only
  split
  · exact generates_of_refused (refused_fail hfail h hst)
  · exact generates_recommend hrec hfail h hst (fun ha => by rw [← hT₄ ha]) hne

/-- The latest run of a request whose row was just read. -/
theorem wp_existingRun (h : Holds alone r row s T)
    {Q : Except Exc (Option RecommendationRun) → Session × Interviews → Prop}
    (herr : ∀ e s', s'.Closed → Q (.error e) (s', T))
    (hnone : ∀ s', Holds alone r row s' T → s'.trace.critical = s.trace.critical →
      s'.trace.journal = s.trace.journal → Q (.ok none) (s', T))
    (hsome : ∀ run s', s'.Closed → Found alone r run (s', T) → Q (.ok (some run)) (s', T)) :
    wp (lifecycle alone may P) (existingRun r row) Q (s, T) := by
  unfold existingRun
  split
  · next hst =>
    refine wp_latestRun (fun e _ => herr e _ (s.ended_fail h.owed).toClosed) ?_
    intro w pick run hrun hT
    cases run with
    | none =>
      refine hnone _ ⟨⟨h.pending, h.reported, h.owed, h.dropped⟩, h.copy, h.read, h.truth⟩ rfl rfl
    | some run =>
      refine hsome run _ ⟨h.owed, h.dropped⟩ ⟨?_, fun ha => ?_, fun ha => ?_⟩
      · obtain ⟨n, hn⟩ := h.read
        refine ⟨(runsOf w.db.toInterviews r).length, row.status, ?_, .inl hst⟩
        simp only [Session.rank, Session.touch_trace, hn, Option.map_some]
      · exact ⟨row, h.truth ha, .inl hst⟩
      · exact ⟨pick, by rw [hrun, hT ha]⟩
  · exact hnone s h rfl rfl

theorem Generates.of_journal {s₁ : Session} {x : Except Exc RecommendationResponse}
    {v : Session × Interviews} (h : Generates alone r s₁ T x v)
    (hj : s₁.trace.journal = s₀.trace.journal) : Generates alone r s₀ T x v := by
  cases x with
  | error e => exact h
  | ok out =>
    obtain ⟨hclosed, run, hout, hrun⟩ := h
    refine ⟨hclosed, run, hout, ?_⟩
    cases hrun with
    | stored hjournal hr hT hrow hst hsuits => exact .stored (hj ▸ hjournal) hr hT hrow hst hsuits
    | found hT h => exact .found hT h

theorem Generates.leave {x : Except Exc RecommendationResponse} {v : Session × Interviews}
    (h : Generates alone r s₀ T x v) : Generates alone r s₀ T x (v.1.leave, v.2) := by
  cases x with
  | error e => exact ⟨h.1.leave, h.2⟩
  | ok out =>
    obtain ⟨hclosed, run, hout, hrun⟩ := h
    refine ⟨hclosed.leave, run, hout, ?_⟩
    cases hrun with
    | stored hjournal hr hT hrow hst hsuits => exact .stored hjournal hr hT hrow hst hsuits
    | found hT h => exact .found hT ⟨h.ranked, h.row, h.latest⟩

theorem generates_generateLocked (hs : s.Calm) {token : Option Id}
    (hcrit : s.Inside (.recommend r) token) (hrec : may r .recommended) (hfail : may r .failed) :
    wp (lifecycle alone may P) (generateLocked pf actor r) (Generates alone r s T) (s, T) := by
  refine wp_bind (wp_dbGet_calm hs (fun _ _ h => ⟨h.toClosed, .inl rfl⟩) fun _ s₁ h₁ hk₁ => ?_)
  refine wp_bind (wp_dbRefresh_calm h₁ (fun _ _ h => ⟨h.toClosed, .inl rfl⟩) fun w row s₂ hs₂ h => ?_)
  have hin := hk₁.inside _ _ hcrit
  have hdec : s₂.Decided (.recommend r) row.status := hs₂ ▸ Session.decided_load hin r row
  have hreread : s₂.Reread (.recommend r) row.status := hs₂ ▸ Session.reread_load hin row
  have hj₂ : s₂.trace.journal = s.trace.journal := hs₂ ▸ hk₁.journal
  refine wp_bind (wp_existingRun h (fun _ _ h => ⟨h, .inl rfl⟩) (fun s₃ h₃ hc₃ hj₃ => ?_)
    fun run s₃ h₃ hfound => ?_)
  · have h : GuardedAnew alone (.recommend r) r row s₃ s₃ T :=
      ⟨⟨h₃, by rwa [Session.Decided, hc₃], rfl, rfl, rfl⟩, by rwa [Session.Reread, hc₃]⟩
    refine wp_mono (generates_generateReady hrec hfail h) ?_
    exact fun _ _ hg => hg.of_journal (hj₃.trans hj₂)
  · exact ⟨h₃, run, rfl, .found (.inl rfl) hfound⟩

/-- What the waiting for another caller's run leaves. -/
def Waits (alone : Prop) (r : Id) (T : Interviews) :
    Except Exc RecommendationResponse → Session × Interviews → Prop
  | .ok out, v => v.1.Closed ∧ v.2 = T ∧ ∃ run, out = runToResponse run ∧ Found alone r run v
  | .error _, v => v.1.Closed ∧ v.2 = T

/-- Waiting for another caller's run writes nothing. -/
theorem waits_waitForRun (hs : s.Closed) (n : ℕ) :
    wp (lifecycle alone may P) (waitForRun r n) (Waits alone r T) (s, T) := by
  induction n generalizing s with
  | zero => exact ⟨hs, rfl⟩
  | succ n ih =>
    refine wp_bind (wp_asyncioSleep (wp_bind (wp_mono (closes_dbGet hs) ?_)))
    rintro (e | row₀) ⟨s₁, T₁⟩ ⟨h₁, rfl⟩
    · exact ⟨h₁, rfl⟩
    refine wp_bind (wp_dbRefresh (fun _ _ => ⟨(s₁.ended_fail h₁.owed).toClosed, rfl⟩) ⟨h₁, rfl⟩
      fun w row hrow hT => ?_)
    have h₂ : ((s₁.touch w).load w r (some row)).Closed := ⟨h₁.owed, h₁.dropped⟩
    have hread : ((s₁.touch w).load w r (some row)).trace.reads r = some ⟨row.status, w.log.length⟩ := by
      simp [Session.load, Trace.read, Trace.reread, Trace.decide]
    generalize (s₁.touch w).load w r (some row) = s₂ at h₂ hread ⊢
    refine wp_bind (wp_raiseIf (fun _ => ⟨h₂, rfl⟩) fun _ => ?_)
    split
    · next hst =>
      refine wp_bind (wp_latestRun (fun _ _ => ⟨(s₂.ended_fail h₂.owed).toClosed, rfl⟩) ?_)
      intro w₃ pick run hrun hT₃
      have h₃ : ((s₂.touch w₃).rank w₃ r run).Closed := ⟨h₂.owed, h₂.dropped⟩
      cases run with
      | none => exact ih h₃
      | some run =>
        refine ⟨h₃, rfl, run, rfl,
          ⟨(runsOf w₃.db.toInterviews r).length, row.status, ?_, hst⟩, fun ha => ⟨row, ?_, hst⟩, fun ha => ?_⟩
        · simp only [Session.rank, Session.touch_trace, hread, Option.map_some]
        · rw [← hT ha]
          exact hrow
        · exact ⟨pick, by rw [hrun, hT₃ ha]⟩
    · exact ih h₂

/-- What follows when there is no run yet: the lock, or the waiting when another caller holds it. -/
theorem generates_lock {s₁ : Session} (hs : s₁.Calm) (hj : s₁.trace.journal = s.trace.journal)
    (hrec : may r .recommended) (hfail : may r .failed) {hd : Exc → M RecommendationResponse}
    (hheld : hd .lockNotAcquired = waitForRun r 50)
    (hother : ∀ e, e ≠ .lockNotAcquired → hd e = throw e) :
    wp (lifecycle alone may P) (tryCatch (redisLock (.recommend r) 30 (generateLocked pf actor r)) hd)
      (Generates alone r s T) (s₁, T) := by
  have huses : (generateLocked pf actor r).Uses Effect.Lockless :=
    uses_generateLocked ordinary_lockless (fun _ _ => trivial) (fun _ _ => trivial) fun _ _ => trivial
  refine wp_tryCatch (wp_mono (Q := Generates alone r s T) (wp_redisLock huses
    ⟨hs.closed, .inl rfl⟩ fun w token _ => ?_) ?_)
  · refine wp_mono (generates_generateLocked (hs.enter w _ token) (s₁.inside_enter w _ token) hrec
      hfail) fun x v h => ?_
    have h : Generates alone r s T x v := h.of_journal hj
    exact ⟨h, h.leave⟩
  · rintro (e | out) ⟨s₂, T₂⟩ h
    · change wp _ (hd e) _ _
      by_cases he : e = .lockNotAcquired
      · rw [he, hheld]
        refine wp_mono (waits_waitForRun h.1 50) ?_
        rintro (e | out) v hv
        · exact ⟨hv.1, by rw [hv.2]; exact h.2⟩
        · obtain ⟨hclosed, hT, run, hout, hfound⟩ := hv
          exact ⟨hclosed, run, hout, .found (by rw [hT]; exact h.2) hfound⟩
      · rw [hother e he]
        exact h
    · exact h

/-- **`generate` returns a run that it has stored, or the latest one that it has found.** The session
holds no instance of the request, or one that is not RECOMMENDED. -/
theorem generates_generate (hs : s.Calm)
    (hcopy : ∀ row, s.copies r = some row → row.status ≠ .recommended) (hrec : may r .recommended)
    (hfail : may r .failed) :
    wp (lifecycle alone may P) (generate pf actor r) (Generates alone r s T) (s, T) := by
  cases hrow : s.copies r with
  | some row =>
    refine wp_bind (wp_dbGet_hit hrow (wp_bind (wp_pure ?_)))
    have hnone : existingRun r row = pure none := by rw [existingRun, if_neg (hcopy row hrow)]
    change wp _ (existingRun r row >>= _) _ _
    rw [hnone]
    change wp _ (tryCatch _ _) _ _
    refine generates_lock (s := s) (hs.decide _) rfl hrec hfail ?_ fun e he => ?_
    · rfl
    · cases e <;> first | rfl | exact absurd rfl he
  | none =>
    refine wp_bind (wp_dbGet_miss hrow (fun _ _ => ⟨(s.ended_fail hs.owed).toClosed, .inl rfl⟩)
      fun _ w hT => ?_)
    cases hdb : w.db.requests r with
    | none => exact ⟨(hs.load w r none).closed, .inl rfl⟩
    | some row =>
      have h := holds_load hs hdb hT
      change wp _ (existingRun r row >>= _) _ _
      refine wp_bind (wp_existingRun h (fun _ _ h => ⟨h, .inl rfl⟩) (fun s₃ h₃ _ hj₃ => ?_)
        fun run s₃ h₃ hfound => ?_)
      · change wp _ (tryCatch _ _) _ _
        refine generates_lock (s := s) h₃.toCalm ?_ hrec hfail ?_ fun e he => ?_
        · exact hj₃
        · rfl
        · cases e <;> first | rfl | exact absurd rfl he
      · exact ⟨h₃, run, rfl, .found (.inl rfl) hfound⟩

/-- **`generate` accounts for the calendar and meets its obligations.** -/
theorem closes_generate (hs : s.Calm)
    (hcopy : ∀ row, s.copies r = some row → row.status ≠ .recommended) (hrec : may r .recommended)
    (hfail : may r .failed) :
    wp (lifecycle alone may P) (generate pf actor r) Closes (s, T) := by
  refine wp_mono (generates_generate hs hcopy hrec hfail) ?_
  rintro (e | out) v hv
  · exact hv.1
  · exact hv.1

end InterviewScheduler.Scheduling
