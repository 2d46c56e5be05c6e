import Mathlib.Data.List.Dedup
import InterviewScheduler.Core.Transaction
import InterviewScheduler.Interviews.Service

/-! # An edit

`update_request` when nothing runs beside it and the database answers. It stages the new panel and the new
details, and the schema decides: an edit that it takes is committed as it was asked for, and any other one
ends in an exception that is not the application's own. -/

namespace InterviewScheduler.Core.Patch

variable {α : Type} {p : Patch α}

/-- The field goes from `old` to `new` as the body says. -/
def Sets (old new : α) : Patch α → Prop
  | .unset => new = old
  | .null => False
  | .value a => new = a

theorem sets_column (h : p ≠ .null) (old : α) :
    p.Sets old (p.column old) := by
  cases p with
  | unset => rfl
  | null => exact h rfl
  | value a => rfl

theorem isSet_eq_false : p.isSet = false ↔ p = .unset := by
  cases p <;> simp [Patch.isSet]

theorem isNull_eq_false : p.isNull = false ↔ p ≠ .null := by
  cases p <;> simp [Patch.isNull]

theorem lacks_eq_false {P : α → Bool} :
    p.lacks P = false ↔ ∀ a, p = .value a → P a := by
  cases p <;> simp [Patch.lacks]

end InterviewScheduler.Core.Patch

namespace InterviewScheduler.Interviews

open InterviewScheduler.Core InterviewScheduler.Effects

/-! ### What an edit is -/

/-- The row has the new values, and is the same otherwise. -/
structure RowPatched (data : UpdateInterviewRequest) (row row' : InterviewRequest) : Prop where
  roundType : data.roundType.Sets row.roundType row'.roundType
  durationMinutes : data.durationMinutes.Sets row.durationMinutes row'.durationMinutes
  bufferMinutes : data.bufferMinutes.Sets row.bufferMinutes row'.bufferMinutes
  rest : { row' with
    roundType := row.roundType, durationMinutes := row.durationMinutes,
    bufferMinutes := row.bufferMinutes } = row

/-- The participants of a request with the candidate and the panel. -/
def seats (candidateId : Id) (panel : List Id) : List InterviewParticipant :=
  ⟨candidateId, .candidate⟩ :: panel.map (⟨·, .panelist⟩)

/-- The entry of the audit log. -/
def editEntry (actor : User) (r : Id) (data : UpdateInterviewRequest) : AuditLog where
  actorId := actor.id
  actorRole := actor.role
  action := "INTERVIEW_REQUEST_UPDATED"
  entityType := "interview_request"
  entityId := r
  metadata := [("changed", String.intercalate ", " data.changed)]

/-- **The database after the requested change**, and nothing but it. -/
structure Patched (actor : User) (r : Id) (data : UpdateInterviewRequest) (row : InterviewRequest)
    (panel : List Id) (db db' : Db) (out : InterviewRequestOut) : Prop where
  request : ∃ row', RowPatched data row row' ∧ out.request = row' ∧
    db'.requests = Function.update db.requests r (some row')
  participants : ∃ panel', data.panelistIds.Sets panel panel' ∧
    db'.participants = Function.update db.participants r (seats row.candidateId panel')
  tables : db'.users = db.users ∧ db'.availability = db.availability ∧ db'.runs = db.runs ∧
    db'.events = db.events
  /-- a new panel has not answered yet -/
  responses : ∀ x u, db'.responses x u =
    if x = r ∧ u ∈ data.panelistIds.column [] then .pending else db.responses x u
  audits : db'.audits = db.audits ++ if data.changed = [] then [] else [editEntry actor r data]
  others : db'.connections = db.connections ∧ db'.tasks = db.tasks ∧
    db'.notifications = db.notifications
  answer : out.participants = (db'.participants r).map fun p => (p, db'.responses r p.userId)

/-- The schema takes the edit: no field is null, the numbers fit their columns, and nobody of the new
panel is a participant already. -/
structure Patchable (T : Interviews) (r : Id) (data : UpdateInterviewRequest) : Prop where
  roundType : data.roundType ≠ .null
  durationMinutes : data.durationMinutes ≠ .null
  bufferMinutes : data.bufferMinutes ≠ .null
  panelistIds : data.panelistIds ≠ .null
  duration_fits : ∀ n, data.durationMinutes = .value n → fitsInteger n
  buffer_fits : ∀ n, data.bufferMinutes = .value n → fitsInteger n
  new_panel : ∀ ids, data.panelistIds = .value ids → ∀ p ∈ T.participants r, p.userId ∉ ids

/-! ### What it writes -/

def panelWrites (r : Id) : Patch (List Id) → List Write
  | .value ids => [.replacePanelists r ids]
  | _ => []

def detailWrites (r : Id) (data : UpdateInterviewRequest) : List Write :=
  if data.roundType.isSet || data.durationMinutes.isSet || data.bufferMinutes.isSet then
    [.setDetails r data.roundType data.durationMinutes data.bufferMinutes]
  else []

def panelSide (r : Id) : Patch (List Id) → List SideWrite
  | .value ids => ids.map (.setResponse r · .pending)
  | _ => []

/-- The row after the edit. -/
def UpdateInterviewRequest.edit (data : UpdateInterviewRequest) (row : InterviewRequest) :
    InterviewRequest :=
  { row with
    roundType := data.roundType.column row.roundType
    durationMinutes := data.durationMinutes.column row.durationMinutes
    bufferMinutes := data.bufferMinutes.column row.bufferMinutes }

variable {T T' : Interviews} {r : Id} {data : UpdateInterviewRequest} {row : InterviewRequest}
  {panel : List Id}

theorem rowPatched_edit (h : Patchable T r data) : RowPatched data row (data.edit row) :=
  ⟨Patch.sets_column h.roundType _, Patch.sets_column h.durationMinutes _,
    Patch.sets_column h.bufferMinutes _, rfl⟩

/-- Nothing is given. -/
theorem changed_eq_nil : data.changed = [] ↔ data.bufferMinutes = .unset ∧
    data.durationMinutes = .unset ∧ data.panelistIds = .unset ∧ data.roundType = .unset := by
  have hif : ∀ (b : Bool) (x : String), (if b then [x] else []) = [] ↔ b = false := by simp
  unfold UpdateInterviewRequest.changed
  rw [List.append_eq_nil_iff, List.append_eq_nil_iff, List.append_eq_nil_iff, hif, hif, hif, hif]
  simp only [Patch.isSet_eq_false, and_assoc]

/-- No detail is given. -/
theorem detailWrites_eq_nil : detailWrites r data = [] ↔ data.roundType = .unset ∧
    data.durationMinutes = .unset ∧ data.bufferMinutes = .unset := by
  unfold detailWrites
  split_ifs with h
  · simp only [Bool.or_eq_true] at h
    refine ⟨fun h => by simp at h, ?_⟩
    rintro ⟨h1, h2, h3⟩
    simp [h1, h2, h3, Patch.isSet] at h
  · simp only [Bool.not_eq_true, Bool.or_eq_false_iff, Patch.isSet_eq_false, and_assoc] at h
    exact ⟨fun _ => h, fun _ => rfl⟩

theorem seats_filter (c : Id) : (seats c panel).filter (·.roleInInterview = .candidate) = [⟨c, .candidate⟩] := by
  unfold seats
  rw [List.filter_cons_of_pos (by simp), List.filter_map]
  simp [Function.comp_def]

/-- The panel is replaced unless someone in it is a participant already. -/
theorem violates_replacePanelists {ids : List Id} (hnodup : ids.Nodup)
    (hknown : ∀ u ∈ ids, T.users u ≠ none) :
    (Write.replacePanelists r ids).violates T = false ↔ ∀ p ∈ T.participants r, p.userId ∉ ids := by
  have hany : (ids.any fun u => (T.users u).isNone) = false := by
    simp only [List.any_eq_false, Option.isNone_iff_eq_none]
    exact hknown
  simp only [Write.violates, hany, hnodup, decide_true, Bool.not_true, Bool.false_or, List.any_eq_false,
    decide_eq_true_eq]

theorem violates_setDetails {rt : Patch RoundType} {d b : Patch ℤ} :
    (Write.setDetails r rt d b).violates T = false ↔ rt ≠ .null ∧ d ≠ .null ∧ b ≠ .null ∧
      (∀ n, d = .value n → fitsInteger n) ∧ ∀ n, b = .value n → fitsInteger n := by
  simp only [Write.violates, Bool.or_eq_false_iff, Patch.isNull_eq_false, Patch.lacks_eq_false,
    and_assoc]

/-- The new panel can be staged. -/
theorem applyAll_panelWrites (hnull : data.panelistIds ≠ .null)
    (hknown : ∀ ids, data.panelistIds = .value ids → ∀ u ∈ ids, T.users u ≠ none) :
    (∃ T', Write.applyAll (panelWrites r data.panelistIds) T = some T') ↔
      ∀ ids, data.panelistIds = .value ids → ∀ p ∈ T.participants r, p.userId ∉ ids := by
  cases hids : data.panelistIds with
  | unset => simp [panelWrites, Write.applyAll]
  | null => exact absurd hids hnull
  | value ids =>
    have hv := violates_replacePanelists (r := r) (data.panelistIds_valid ids hids).2 (hknown ids hids)
    simp only [panelWrites, Patch.value.injEq, forall_eq']
    rw [← hv]
    constructor
    · rintro ⟨T', h⟩
      exact (Write.applyAll_cons_eq_some.mp h).1
    · exact fun h => ⟨_, Write.applyAll_cons_eq_some.mpr ⟨h, rfl⟩⟩

/-- **The schema takes the edit, or not.** -/
theorem applyAll_edit (hnull : data.panelistIds ≠ .null)
    (hknown : ∀ ids, data.panelistIds = .value ids → ∀ u ∈ ids, T.users u ≠ none) :
    (∃ T', Write.applyAll (panelWrites r data.panelistIds ++ detailWrites r data) T = some T') ↔
      Patchable T r data := by
  have hpanel := applyAll_panelWrites (r := r) hnull hknown
  have hsplit : (∃ T', Write.applyAll (panelWrites r data.panelistIds ++ detailWrites r data) T = some T') ↔
      (∃ T₁, Write.applyAll (panelWrites r data.panelistIds) T = some T₁) ∧
        ∀ y ∈ detailWrites r data, y.violates T = false := by
    unfold detailWrites
    split_ifs with h
    · constructor
      · rintro ⟨T', h⟩
        obtain ⟨T₁, h₁, h₂⟩ := Write.applyAll_append_eq_some.mp h
        refine ⟨⟨T₁, h₁⟩, fun y hy => ?_⟩
        obtain rfl := List.mem_singleton.mp hy
        have hv := (Write.applyAll_cons_eq_some.mp h₂).1
        exact violates_setDetails.mpr (violates_setDetails.mp hv)
      · rintro ⟨⟨T₁, h₁⟩, hv⟩
        have hv' := violates_setDetails.mp (hv _ List.mem_cons_self)
        refine ⟨_, Write.applyAll_append_eq_some.mpr ⟨T₁, h₁, Write.applyAll_cons_eq_some.mpr ⟨?_, rfl⟩⟩⟩
        exact violates_setDetails.mpr hv'
    · simp
  rw [hsplit, hpanel]
  constructor
  · rintro ⟨hnew, hv⟩
    by_cases hnil : detailWrites r data = []
    · obtain ⟨h1, h2, h3⟩ := detailWrites_eq_nil.mp hnil
      exact ⟨by simp [h1], by simp [h2], by simp [h3], hnull, by simp [h2], by simp [h3], hnew⟩
    · have hmem : .setDetails r data.roundType data.durationMinutes data.bufferMinutes ∈ detailWrites r data := by
        unfold detailWrites at hnil ⊢
        split_ifs at hnil ⊢ with h
        · exact List.mem_cons_self
        · exact absurd rfl hnil
      obtain ⟨h1, h2, h3, h4, h5⟩ := violates_setDetails.mp (hv _ hmem)
      exact ⟨h1, h2, h3, hnull, h4, h5, hnew⟩
  · intro h
    refine ⟨h.new_panel, fun y hy => ?_⟩
    unfold detailWrites at hy
    split_ifs at hy
    · obtain rfl := List.mem_singleton.mp hy
      exact violates_setDetails.mpr
        ⟨h.roundType, h.durationMinutes, h.bufferMinutes, h.duration_fits, h.buffer_fits⟩
    · simp at hy

/-! ### What it leaves -/

/-- The tables after an edit that the schema takes. -/
theorem force_edit (hrow : T.requests r = some row) (hseats : T.participants r = seats row.candidateId panel) :
    Write.force (panelWrites r data.panelistIds ++ detailWrites r data) T =
      { T with
        requests := Function.update T.requests r (some (data.edit row))
        participants := Function.update T.participants r
          (seats row.candidateId (data.panelistIds.column panel)) } := by
  have hdetails : ∀ T₁ : Interviews, T₁.requests r = some row →
      Write.force (detailWrites r data) T₁ =
        { T₁ with requests := Function.update T₁.requests r (some (data.edit row)) } := by
    intro T₁ h₁
    by_cases hnil : detailWrites r data = []
    · obtain ⟨h2, h3, h4⟩ := detailWrites_eq_nil.mp hnil
      have hsame : data.edit row = row := by
        unfold UpdateInterviewRequest.edit
        rw [h2, h3, h4]
        rfl
      rw [hnil, Write.force_nil, hsame, ← h₁, Function.update_eq_self]
    · unfold detailWrites at hnil ⊢
      split_ifs at hnil ⊢ with h
      · rw [Write.force_cons, Write.force_nil, Write.apply, Interviews.modifyRequest, h₁]
        rfl
      · exact absurd rfl hnil
  have hpanel : Write.force (panelWrites r data.panelistIds) T =
      { T with
        participants := Function.update T.participants r
          (seats row.candidateId (data.panelistIds.column panel)) } := by
    have hsame :
        { T with participants := Function.update T.participants r (seats row.candidateId panel) } = T := by
      rw [← hseats, Function.update_eq_self]
    cases data.panelistIds with
    | unset => exact hsame.symm
    | null => exact hsame.symm
    | value ids =>
      rw [panelWrites, Write.force_cons, Write.force_nil, Write.apply, hseats, seats_filter]
      rfl
  have hforce : Write.force (panelWrites r data.panelistIds ++ detailWrites r data) T =
      Write.force (detailWrites r data) (Write.force (panelWrites r data.panelistIds) T) :=
    List.foldl_append
  rw [hforce, hpanel]
  exact hdetails _ hrow

/-- The responses of a new panel. -/
theorem foldl_setResponse (r : Id) (ids : List Id) (db : Db) :
    (ids.map (SideWrite.setResponse r · .pending)).foldl SideWrite.apply db =
      { db with responses := fun x u => if x = r ∧ u ∈ ids then .pending else db.responses x u } := by
  induction ids generalizing db with
  | nil => simp
  | cons v ids ih =>
    rw [List.map_cons, List.foldl_cons, ih, SideWrite.apply]
    congr 1
    funext x u
    simp only [Function.update_apply, List.mem_cons]
    by_cases hx : x = r
    · by_cases hu : u = v
      · simp [hx, hu]
      · simp [hx, hu]
    · simp [hx]

/-- The side writes of an edit. -/
def editSide (actor : User) (r : Id) (data : UpdateInterviewRequest) : List SideWrite :=
  panelSide r data.panelistIds ++ [.insertAudit (editEntry actor r data)]

theorem foldl_editSide (actor : User) (r : Id) (data : UpdateInterviewRequest) (db : Db) :
    (editSide actor r data).foldl SideWrite.apply db =
      { db with
        responses := fun x u =>
          if x = r ∧ u ∈ data.panelistIds.column [] then .pending else db.responses x u
        audits := db.audits ++ [editEntry actor r data] } := by
  have hpanel : (panelSide r data.panelistIds).foldl SideWrite.apply db =
      { db with
        responses := fun x u =>
          if x = r ∧ u ∈ data.panelistIds.column [] then .pending else db.responses x u } := by
    cases data.panelistIds with
    | value ids => exact foldl_setResponse r ids db
    | _ => simp [panelSide, Patch.column]
  rw [editSide, List.foldl_append, hpanel]
  rfl

variable {actor : User} {db : Db}

/-- What is committed is what was asked for. -/
theorem patched_commit (hrow : db.requests r = some row)
    (hseats : db.participants r = seats row.candidateId panel) (hne : data.changed ≠ [])
    (hpatchable : Patchable db.toInterviews r data)
    (happ : Write.applyAll (panelWrites r data.panelistIds ++ detailWrites r data) db.toInterviews = some T')
    {db' : Db} (hdb' : db' = (editSide actor r data).foldl SideWrite.apply { db with toInterviews := T' })
    {out : InterviewRequestOut} (hrequest : out.request = data.edit row)
    (hanswer : out.participants = (db'.participants r).map fun p => (p, db'.responses r p.userId)) :
    Patched actor r data row panel db db' out := by
  have hT' := Write.applyAll_eq_force happ
  rw [force_edit hrow hseats] at hT'
  rw [foldl_editSide, hT'] at hdb'
  subst hdb'
  refine ⟨⟨_, rowPatched_edit hpatchable, hrequest, rfl⟩, ⟨_, Patch.sets_column hpatchable.panelistIds _, rfl⟩,
    ⟨rfl, rfl, rfl, rfl⟩, fun x u => rfl, ?_, ⟨rfl, rfl, rfl⟩, hanswer⟩
  rw [if_neg hne]

/-- Nothing is asked for. -/
theorem patched_nothing (hrow : db.requests r = some row)
    (hseats : db.participants r = seats row.candidateId panel) (hnil : data.changed = []) :
    Patched actor r data row panel db db
      ⟨row, (db.participants r).map fun p => (p, db.responses r p.userId)⟩ := by
  obtain ⟨h1, h2, h3, h4⟩ := changed_eq_nil.mp hnil
  refine ⟨⟨row, ⟨by simp [h4, Patch.Sets], by simp [h2, Patch.Sets], by simp [h1, Patch.Sets], rfl⟩, rfl, ?_⟩,
    ⟨panel, by simp [h3, Patch.Sets], ?_⟩, ⟨rfl, rfl, rfl, rfl⟩, fun x u => ?_, ?_, ⟨rfl, rfl, rfl⟩, rfl⟩
  · rw [← hrow, Function.update_eq_self]
  · rw [← hseats, Function.update_eq_self]
  · simp [h3, Patch.column]
  · rw [if_pos hnil, List.append_nil]

theorem patchable_nothing (hnil : data.changed = []) : Patchable T r data := by
  obtain ⟨h1, h2, h3, h4⟩ := changed_eq_nil.mp hnil
  exact ⟨by simp [h4], by simp [h2], by simp [h1], by simp [h3], by simp [h2], by simp [h1], by simp [h3]⟩

/-! ### What the call does -/

section Calls

variable {s : Session} {w : World} {copy : Option InterviewRequest} {ws : List Write}
  {side : List SideWrite} {Free : Demand Effect Session World}
  (hD : ∀ {β : Type} (o : Effect β) s w, Free β o s w)

include hD

/-- Users that are all panelists resolve. -/
theorem wp_resolvePanel (h : Open db r copy ws side s w) {ids : List Id}
    (hpanel : ∀ u ∈ ids, ∃ user, db.users u = some user ∧ user.id = u ∧ user.role = .panelist)
    {Q : Except Exc Unit → Session × World → Prop}
    (hQ : ∀ s' w', Open db r copy ws side s' w' → Q (.ok ()) (s', w')) :
    wp (demanding DatabaseUp Free) (resolveRoles none ids) Q (s, w) := by
  have hfound : ∀ s' w', Open db r copy ws side s' w' →
      wp (demanding DatabaseUp Free) (do
        Prog.raiseIf (missingIds ids (ids.filterMap db.users) ≠ [])
          (notFoundError ("unknown user id(s): " ++ idList (missingIds ids (ids.filterMap db.users))))
        Prog.raiseIf ((none : Option Id).any fun c =>
            (ids.filterMap db.users).any fun row => row.id = c ∧ row.role ≠ .candidate)
          (invalidParticipantError "candidate_id must reference a CANDIDATE user")
        Prog.raiseIf (wrongRole ids (ids.filterMap db.users) ≠ [])
          (invalidParticipantError ("not a PANELIST: " ++ idList (wrongRole ids (ids.filterMap db.users)))))
        Q (s', w') := by
    intro s' w' h'
    have hmissing : missingIds ids (ids.filterMap db.users) = [] := by
      unfold missingIds
      have hnone : (ids.dedup.filter fun u => (ids.filterMap db.users).all fun row => row.id ≠ u) = [] := by
        rw [List.filter_eq_nil_iff]
        intro u hu hall
        obtain ⟨user, huser, hid, -⟩ := hpanel u (List.mem_dedup.mp hu)
        have := List.all_eq_true.mp hall user (List.mem_filterMap.mpr ⟨u, List.mem_dedup.mp hu, huser⟩)
        simp [hid] at this
      rw [hnone]
      simp
    have hwrong : wrongRole ids (ids.filterMap db.users) = [] := by
      unfold wrongRole
      rw [List.filter_eq_nil_iff]
      intro u hu hany
      obtain ⟨user, huser, hrow⟩ := List.any_eq_true.mp hany
      obtain ⟨v, hv, hv'⟩ := List.mem_filterMap.mp huser
      obtain ⟨user', huser', -, hrole⟩ := hpanel v hv
      rw [hv', Option.some.injEq] at huser'
      simp [huser', hrole] at hrow
    refine wp_bind (wp_raiseIf (fun hc => absurd hmissing hc) fun _ => ?_)
    refine wp_bind (wp_raiseIf (fun hc => by simp at hc) fun _ => ?_)
    exact wp_raiseIf (fun hc => absurd hwrong hc) fun _ => hQ s' w' h'
  refine wp_bind ?_
  change wp (demanding DatabaseUp Free) (getUsers ids) _ (s, w)
  unfold getUsers
  apply wp_ite
  · rintro rfl
    exact wp_pure (hfound s w h)
  · exact fun _ => wp_open_select hD h fun n s' w' h' => hfound s' w' h'

theorem wp_open_updatePanel (h : Open db r copy [] [] s w)
    (hpanel : ∀ ids, data.panelistIds = .value ids → ∀ u ∈ ids,
      ∃ user, db.users u = some user ∧ user.id = u ∧ user.role = .panelist)
    {Q : Except Exc Unit → Session × World → Prop}
    (herr : ∀ e : Exc, e.isApp = false → ∀ s' w', w'.db = db → ¬ Patchable db.toInterviews r data →
      Q (.error e) (s', w'))
    (hok : data.panelistIds ≠ .null → ∀ s' w', Open db r copy (panelWrites r data.panelistIds)
      (panelSide r data.panelistIds) s' w' → Q (.ok ()) (s', w')) :
    wp (demanding DatabaseUp Free) (updatePanel r data.panelistIds) Q (s, w) := by
  have hknown : ∀ ids, data.panelistIds = .value ids → ∀ u ∈ ids, db.users u ≠ none := by
    intro ids hids u hu
    obtain ⟨user, huser, -⟩ := hpanel ids hids u hu
    rw [huser]
    simp
  have happly := @applyAll_panelWrites db.toInterviews r data
  cases hids : data.panelistIds with
  | unset =>
    rw [hids] at hok
    exact wp_pure (hok (by simp) s w h)
  | null => exact wp_throw (herr _ rfl s w h.db fun ht => ht.panelistIds hids)
  | value ids =>
    rw [hids] at hok happly
    refine wp_bind (wp_resolvePanel hD h (hpanel ids hids) fun s₁ w₁ h₁ => ?_)
    have hstage : (s₁.stage (.replacePanelists r ids)).copies r = copy ∧
        (s₁.stage (.replacePanelists r ids)).pending = [] ++ [.replacePanelists r ids] :=
      ⟨h₁.copy, by simp [Session.stage, h₁.pending]⟩
    refine wp_bind (wp_open_add hD h₁ hstage fun s₂ w₂ h₂ => ?_)
    refine wp_bind (wp_open_addSides hD h₂ fun _ s₃ w₃ h₃ => ?_)
    refine wp_open_flush hD h₃ (fun hnone s₄ w₄ hdb => ?_) fun T' _ s₄ w₄ h₄ => ?_
    · refine herr _ rfl s₄ w₄ hdb fun ht => ?_
      obtain ⟨T', hT'⟩ := (happly (by simp) fun ids' h' => hknown ids' (hids.trans h')).mpr
        fun ids' h' => ht.new_panel ids' (hids.trans h')
      rw [panelWrites] at hT'
      rw [List.nil_append, hT'] at hnone
      simp at hnone
    · exact hok (by simp) s₄ w₄ h₄

theorem wp_open_updateDetails (h : Open db r (some row) ws side s w)
    {Q : Except Exc Unit → Session × World → Prop}
    (hok : ∀ s' w', Open db r (some (data.edit row)) (ws ++ detailWrites r data) side s' w' →
      Q (.ok ()) (s', w')) : wp (demanding DatabaseUp Free) (updateDetails r data) Q (s, w) := by
  unfold updateDetails
  split
  · next hset =>
    have hwrites : detailWrites r data =
        [.setDetails r data.roundType data.durationMinutes data.bufferMinutes] := if_pos hset
    rw [hwrites] at hok
    refine wp_open_add hD h ⟨?_, by simp [Session.stage, h.pending]⟩ hok
    have hcopy := h.copy
    simp [Session.stage, Session.modifyCopy, hcopy, UpdateInterviewRequest.edit]
  · next hset =>
    have hwrites : detailWrites r data = [] := if_neg hset
    obtain ⟨h1, h2, h3⟩ := detailWrites_eq_nil.mp hwrites
    have hsame : data.edit row = row := by
      unfold UpdateInterviewRequest.edit
      rw [h1, h2, h3]
      rfl
    refine wp_pure (hok s w ?_)
    rw [hwrites, hsame, List.append_nil]
    exact h

/-- The end of an edit: what was asked for, or an exception of the database with nothing changed. -/
def PatchEnds (actor : User) (r : Id) (data : UpdateInterviewRequest) (row : InterviewRequest)
    (panel : List Id) (db : Db) : Except Exc InterviewRequestOut → Session × World → Prop
  | .ok out, v => Patchable db.toInterviews r data ∧ Patched actor r data row panel db v.2.db out
  | .error e, v => ¬ Patchable db.toInterviews r data ∧ e.isApp = false ∧ v.2.db = db

/-- **An edit of a request that may be edited.** -/
theorem patchEnds_updateRequest (h : Open db r none [] [] s w) (hrow : db.requests r = some row)
    (hseats : db.participants r = seats row.candidateId panel) (hst : row.status ∈ editableStatuses)
    (hpanel : ∀ ids, data.panelistIds = .value ids → ∀ u ∈ ids,
      ∃ user, db.users u = some user ∧ user.id = u ∧ user.role = .panelist) :
    wp (demanding DatabaseUp Free) (updateRequest actor r data) (PatchEnds actor r data row panel db) (s, w) := by
  have hknown : ∀ ids, data.panelistIds = .value ids → ∀ u ∈ ids, db.users u ≠ none := by
    intro ids hids u hu
    obtain ⟨user, huser, -⟩ := hpanel ids hids u hu
    rw [huser]
    simp
  refine wp_bind (wp_bind (wp_open_miss hD h fun s₁ w₁ h₁ => ?_))
  rw [hrow] at h₁ ⊢
  refine wp_bind (wp_open_select hD h₁ fun _ s₂ w₂ h₂ => ?_)
  refine wp_bind (wp_orRaise nofun ?_)
  rintro _ ⟨rfl⟩
  refine wp_bind (wp_raiseIf (fun hnot => absurd hst hnot) fun _ => ?_)
  apply wp_ite
  · intro hnil
    refine wp_pure ⟨patchable_nothing hnil, ?_⟩
    rw [h₂.db]
    exact patched_nothing hrow hseats hnil
  intro hne
  refine wp_bind (wp_open_updatePanel hD h₂ hpanel (fun e he s' w' hdb hnot => ⟨hnot, he, hdb⟩)
    fun hnull s₃ w₃ h₃ => ?_)
  have happly := applyAll_edit (T := db.toInterviews) (r := r) hnull hknown
  have hrefused : Write.applyAll (panelWrites r data.panelistIds ++ detailWrites r data) db.toInterviews =
      none → ¬ Patchable db.toInterviews r data := by
    intro hnone ht
    obtain ⟨T', hT'⟩ := happly.mpr ht
    rw [hT'] at hnone
    simp at hnone
  refine wp_bind (wp_open_updateDetails hD h₃ fun s₄ w₄ h₄ => ?_)
  refine wp_bind (wp_bind (wp_open_addSide hD h₄ fun s₅ w₅ h₅ => ?_))
  refine wp_open_flush hD h₅ (fun hnone s' w' hdb => ⟨hrefused hnone, rfl, hdb⟩) fun _ _ s₆ w₆ h₆ => ?_
  refine wp_bind (wp_open_commit hD h₆ (fun hnone s' w' hdb => ⟨hrefused hnone, rfl, hdb⟩)
    fun T' happ s₇ w₇ h₇ => ?_)
  have hpatchable := happly.mp ⟨T', happ⟩
  generalize hdb' : List.foldl SideWrite.apply { db with toInterviews := T' } _ = db' at h₇
  refine wp_bind (wp_bind (wp_open_hit hD h₇ fun s₈ w₈ h₈ => ?_))
  refine wp_bind (wp_open_select hD h₈ fun _ s₉ w₉ h₉ => ?_)
  refine wp_orRaise nofun ?_
  rintro _ ⟨rfl⟩
  refine ⟨hpatchable, ?_⟩
  rw [h₉.db]
  exact patched_commit hrow hseats hne hpatchable happ hdb'.symm rfl rfl

end Calls

end InterviewScheduler.Interviews
