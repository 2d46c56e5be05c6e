import InterviewScheduler.Interviews.Bookkept
import InterviewScheduler.System.History

/-! # The audit trail

The audit log and the tables are changed in the same transactions, so that at every time the one agrees
with the others (`audit_trail`): for every row that is stored there is one entry, for an outcome there is
one, and no request has more cancelled interviews than entries of a release. -/

namespace InterviewScheduler.System

open InterviewScheduler.Engine InterviewScheduler.Core InterviewScheduler.Effects
open InterviewScheduler.Interviews

variable {ι : Type} {pf : Platform} {B : BusyInterval → Prop} {calls : ι → Call} {w w' w₀ : World}
  {T T' : Interviews} {D : Db} {r : Id} {about : Option Id}

/-! ### What is stored -/

/-- The rows that are stored for a deed. -/
def stored (T : Interviews) (r : Id) : Deed → ℕ
  | .created => (T.requests r).toList.countP fun row => createdAs row = .created
  | .continued => (T.requests r).toList.countP fun row => createdAs row = .continued
  | .submitted => T.availability.countP fun a => a.interviewRequestId = r
  | .generated => T.runs.countP fun run => run.interviewRequestId = r
  | .booked => T.events.countP fun e => e.interviewRequestId = r

/-- The interviews of a request that were cancelled. -/
def cancelledOf (T : Interviews) (r : Id) : ℕ :=
  T.events.countP fun e => e.interviewRequestId = r ∧ e.status = .cancelled

/-- One if it is so. -/
def tally (p : Prop) [Decidable p] : ℕ := if p then 1 else 0

theorem countP_snoc {α : Type} (key : α → Id) {l : List α} {a : α} :
    ((l ++ [a]).countP fun b => key b = r) = (l.countP fun b => key b = r) + tally (key a = r) := by
  simp [List.countP_append, List.countP_singleton, tally]

theorem countP_map_key {α : Type} (key : α → Id) {f : α → α} {l : List α} (hf : ∀ a, key (f a) = key a) :
    ((l.map f).countP fun b => key b = r) = l.countP fun b => key b = r := by
  simp [List.countP_map, Function.comp_def, hf]

/-- What does not change where a request comes from changes no count. -/
theorem stored_modifyRequest {x : Id} {f : InterviewRequest → InterviewRequest}
    (hf : ∀ row, createdAs (f row) = createdAs row) (d : Deed) :
    stored (T.modifyRequest x f) r d = stored T r d := by
  have hrequests : ∀ d, (((T.modifyRequest x f).requests r).toList.countP fun row => createdAs row = d) =
      (T.requests r).toList.countP fun row => createdAs row = d := by
    intro d
    rw [Interviews.modifyRequest_requests]
    by_cases hr : r = x
    · rw [if_pos hr, ← hr]
      cases T.requests r with
      | none => rfl
      | some row => simp [hf]
    · rw [if_neg hr]
  cases d with
  | created => exact hrequests _
  | continued => exact hrequests _
  | _ => rfl

/-- A new request is one of its kind. -/
theorem stored_insertRequest {row : InterviewRequest} {ps : List InterviewParticipant}
    (hnew : T.requests row.id = none) (d : Deed) :
    stored ((Write.insertRequest row ps).apply T) r d =
      stored T r d + tally (deedOf (.insertRequest row ps) = some (d, r)) := by
  have hrequests : ∀ d, (((Function.update T.requests row.id (some row)) r).toList.countP fun row' =>
      createdAs row' = d) = ((T.requests r).toList.countP fun row' => createdAs row' = d) +
        tally (some (createdAs row, row.id) = some (d, r)) := by
    intro d
    by_cases hr : r = row.id
    · subst hr
      rw [Function.update_self, hnew]
      simp [List.countP_singleton, tally]
    · rw [Function.update_of_ne hr]
      have hne : row.id ≠ r := fun h => hr h.symm
      simp [tally, hne]
  have hkind : ∀ d, createdAs row ≠ d → tally (some (createdAs row, row.id) = some (d, r)) = 0 := by
    intro d hd
    simp [tally, hd]
  have hrow : createdAs row = .created ∨ createdAs row = .continued := by
    unfold createdAs
    split
    · exact .inl rfl
    · exact .inr rfl
  cases d with
  | created => exact hrequests _
  | continued => exact hrequests _
  | _ =>
    refine (Nat.add_zero _).symm.trans (congrArg _ (hkind _ ?_).symm)
    rcases hrow with h | h <;> simp [h]

/-- **A write adds the row of its deed and no other.** -/
theorem stored_apply {y : Write} (hv : y.violates T = false) (d : Deed) :
    stored (y.apply T) r d = stored T r d + tally (deedOf y = some (d, r)) := by
  have hkeep : deedOf y = none → stored (y.apply T) r d = stored T r d →
      stored (y.apply T) r d = stored T r d + tally (deedOf y = some (d, r)) := by
    intro hnone h
    rw [h, hnone]
    rfl
  have hadd : ∀ d' x, deedOf y = some (d', x) →
      stored (y.apply T) r d' = stored T r d' + tally (x = r) →
      (d ≠ d' → stored (y.apply T) r d = stored T r d) →
      stored (y.apply T) r d = stored T r d + tally (deedOf y = some (d, r)) := by
    intro d' x hy hself hrest
    by_cases hd : d = d'
    · subst hd
      rw [hself, hy]
      simp [tally]
    · have hne : d' ≠ d := fun h => hd h.symm
      rw [hrest hd, hy]
      simp [tally, hne]
  cases y with
  | insertRequest row ps => exact stored_insertRequest (Write.violates_insertRequest.mp hv).fresh d
  | setStatus x st => exact hkeep rfl (stored_modifyRequest (x := x) (fun _ => by rfl) d)
  | setOutcome x o notes => exact hkeep rfl (stored_modifyRequest (x := x) (fun _ => by rfl) d)
  | setDetails x rt dur b => exact hkeep rfl (stored_modifyRequest (x := x) (fun _ => by rfl) d)
  | replacePanelists x ids => exact hkeep rfl (by cases d <;> rfl)
  | insertAvailability a =>
    refine hadd .submitted _ rfl (countP_snoc CandidateAvailability.interviewRequestId) fun hd => ?_
    cases d with
    | submitted => exact absurd rfl hd
    | _ => rfl
  | insertRun run =>
    refine hadd .generated _ rfl (countP_snoc RecommendationRun.interviewRequestId) fun hd => ?_
    cases d with
    | generated => exact absurd rfl hd
    | _ => rfl
  | selectSlot s =>
    refine hkeep rfl ?_
    cases d with
    | generated => exact countP_map_key RecommendationRun.interviewRequestId fun _ => rfl
    | _ => rfl
  | insertEvent e =>
    refine hadd .booked _ rfl (countP_snoc InterviewEvent.interviewRequestId) fun hd => ?_
    cases d with
    | booked => exact absurd rfl hd
    | _ => rfl
  | cancelEvent i =>
    refine hkeep rfl ?_
    cases d with
    | booked => exact countP_map_key InterviewEvent.interviewRequestId fun e => e.cancel_requestId i
    | _ => rfl

theorem stored_applyAll {ys : List Write} (h : Write.applyAll ys T = some T') (d : Deed) :
    stored T' r d = stored T r d + ys.countP fun y => deedOf y = some (d, r) := by
  induction ys generalizing T with
  | nil =>
    obtain rfl := Option.some.inj h
    rfl
  | cons y ys ih =>
    obtain ⟨hv, hys⟩ := Write.applyAll_cons_eq_some.mp h
    rw [ih hys, stored_apply hv, List.countP_cons]
    simp only [tally, decide_eq_true_eq]
    omega

/-! ### Cancelled interviews -/

/-- No two interviews have one id. -/
abbrev EventKeys (T : Interviews) : Prop := (T.events.map (·.id)).Nodup

theorem EventKeys.apply {y : Write} (h : EventKeys T) (hv : y.violates T = false) : EventKeys (y.apply T) := by
  cases y with
  | insertEvent e =>
    have hnew : ∀ e' ∈ T.events, e'.id ≠ e.id := by
      simp only [Write.violates, Bool.or_eq_false_iff, List.any_eq_false, beq_iff_eq] at hv
      exact hv.1.2
    have happend : (T.events ++ [e]).map (·.id) = T.events.map (·.id) ++ [e.id] := by simp
    change ((T.events ++ [e]).map (·.id)).Nodup
    rw [happend, List.nodup_append]
    refine ⟨h, List.nodup_singleton _, fun x hx z hz => ?_⟩
    obtain ⟨e', he', rfl⟩ := List.mem_map.mp hx
    rw [List.mem_singleton.mp hz]
    exact hnew e' he'
  | cancelEvent i =>
    change ((T.events.map (InterviewEvent.cancel i)).map (·.id)).Nodup
    rw [List.map_map]
    have hid : ((·.id) ∘ InterviewEvent.cancel i) = (·.id) := funext fun e => e.cancel_id i
    rw [hid]
    exact h
  | _ => exact h

/-- The interviews of the request that have the id. -/
def addressed (T : Interviews) (i r : Id) : ℕ := T.events.countP fun e => e.interviewRequestId = r ∧ e.id = i

theorem addressed_le_one {i : Id} (h : EventKeys T) : addressed T i r ≤ 1 := by
  have hids : (T.events.map (·.id)).count i ≤ 1 := List.nodup_iff_count_le_one.mp h i
  have hcount : (T.events.map (·.id)).count i = T.events.countP fun e => e.id = i := by
    simp [List.count, List.countP_map, Function.comp_def, beq_eq_decide]
  rw [hcount] at hids
  refine (List.countP_mono_left fun e _ he => ?_).trans hids
  simp only [decide_eq_true_eq] at he ⊢
  exact he.2

theorem addressed_eq_zero {i : Id} (h : ∀ e ∈ T.events, e.id = i → e.interviewRequestId ≠ r) :
    addressed T i r = 0 := by
  refine List.countP_eq_zero.mpr fun e he heq => ?_
  rw [decide_eq_true_eq] at heq
  exact h e he heq.2 heq.1

/-- Only what has the id is cancelled. -/
theorem cancelledOf_cancel (i : Id) :
    cancelledOf ((Write.cancelEvent i).apply T) r ≤ cancelledOf T r + addressed T i r := by
  unfold cancelledOf addressed
  change List.countP _ (T.events.map (InterviewEvent.cancel i)) ≤ _
  induction T.events with
  | nil => rfl
  | cons e l ih =>
    have hcancel : ((e.cancel i).interviewRequestId = r ∧ (e.cancel i).status = .cancelled) →
        (e.interviewRequestId = r ∧ e.status = .cancelled) ∨ (e.interviewRequestId = r ∧ e.id = i) := by
      rintro ⟨hr, hst⟩
      rw [InterviewEvent.cancel_requestId] at hr
      by_cases hi : e.id = i
      · exact .inr ⟨hr, hi⟩
      · unfold InterviewEvent.cancel at hst
        rw [if_neg hi] at hst
        exact .inl ⟨hr, hst⟩
    simp only [List.map_cons, List.countP_cons, decide_eq_true_eq]
    by_cases h : (e.cancel i).interviewRequestId = r ∧ (e.cancel i).status = .cancelled
    · rw [if_pos h]
      rcases hcancel h with hold | hnew
      · rw [if_pos hold]
        omega
      · rw [if_pos hnew]
        omega
    · rw [if_neg h]
      omega

/-- How many more cancelled interviews of the request there are after a write of a call about a request. -/
theorem cancelledOf_apply {y : Write} (hT : EventKeys T) (hopen : Opening y)
    (hy : (∃ row ps, y = .insertRequest row ps) ∨ ∃ x, about = some x ∧ Concerns T x y) :
    cancelledOf (y.apply T) r ≤ cancelledOf T r + tally (about = some r ∧ cancels y) := by
  cases y with
  | insertEvent e =>
    have hst : ¬ e.status = .cancelled := by
      have hconfirmed : e.status = .confirmed := hopen
      rw [hconfirmed]
      decide
    have hsame : cancelledOf ((Write.insertEvent e).apply T) r = cancelledOf T r := by
      change List.countP _ (T.events ++ [e]) = _
      rw [List.countP_append]
      simp [cancelledOf, hst]
    rw [hsame]
    omega
  | cancelEvent i =>
    refine (cancelledOf_cancel i).trans (Nat.add_le_add_left ?_ _)
    rcases hy with ⟨row, ps, hy⟩ | ⟨x, hx, e₀, he₀, hreq, hid⟩
    · cases hy
    by_cases hr : about = some r
    · have hone : addressed T i r ≤ 1 := addressed_le_one hT
      simpa [tally, hr, cancels] using hone
    · -- the interview is of the request of the call
      have hzero : addressed T i r = 0 := by
        refine addressed_eq_zero fun e he hi heq => hr ?_
        have hsame : e = e₀ := List.inj_on_of_nodup_map hT he he₀ (hi.trans hid.symm)
        rw [hx, ← hreq, ← hsame, heq]
      omega
  | _ => exact Nat.le_add_right _ _

theorem cancelledOf_applyAll {J : Interviews → Prop} {call : Call} {ys : List Write}
    (h : Write.applyAll ys T = some T') (hT : EventKeys T) (hopen : ∀ y ∈ ys, Opening y)
    (hys : ∀ y ∈ ys, Warranted pf J call T y) :
    EventKeys T' ∧ cancelledOf T' r ≤ cancelledOf T r +
      if call.about = some r then ys.countP cancels else 0 := by
  induction ys generalizing T with
  | nil =>
    obtain rfl := Option.some.inj h
    exact ⟨hT, Nat.le_add_right _ _⟩
  | cons y ys ih =>
    obtain ⟨hv, hys'⟩ := Write.applyAll_cons_eq_some.mp h
    have hy := hys y List.mem_cons_self
    have hgrows : Grows T (y.apply T) := grows_apply hv
    have hfirst : cancelledOf (y.apply T) r ≤ cancelledOf T r + tally (call.about = some r ∧ cancels y) :=
      cancelledOf_apply hT (hopen y List.mem_cons_self) hy.concerns
    obtain ⟨hkeys, hrest⟩ := ih hys' (hT.apply hv) (fun z hz => hopen z (List.mem_cons_of_mem _ hz))
      fun z hz => (hys z (List.mem_cons_of_mem _ hz)).grows hgrows
    refine ⟨hkeys, hrest.trans ?_⟩
    rw [List.countP_cons]
    by_cases hr : call.about = some r
    · simp only [tally, hr, true_and, if_true] at hfirst ⊢
      omega
    · simp only [tally, hr, false_and, if_false] at hfirst ⊢
      omega

/-! ### Outcomes -/

/-- An outcome is recorded by the write of one. -/
theorem outcome_apply {y : Write} (hopen : Opening y) {row' : InterviewRequest}
    (hrow' : (y.apply T).requests r = some row') (ho : row'.outcome ≠ none) :
    (∃ row, T.requests r = some row ∧ row.outcome ≠ none) ∨ ∃ o notes, y = .setOutcome r o notes := by
  have hmodify : ∀ {x : Id} {f : InterviewRequest → InterviewRequest},
      (T.modifyRequest x f).requests r = some row' → (∀ row, (f row).outcome = row.outcome) →
      ∃ row, T.requests r = some row ∧ row.outcome ≠ none := by
    intro x f h hf
    rw [Interviews.modifyRequest_requests] at h
    split_ifs at h with heq
    · obtain ⟨row, hrow, rfl⟩ := Option.map_eq_some_iff.mp h
      rw [hf] at ho
      exact ⟨row, heq ▸ hrow, ho⟩
    · exact ⟨row', h, ho⟩
  cases y with
  | insertRequest row ps =>
    simp only [Write.apply, Function.update_apply] at hrow'
    split_ifs at hrow' with heq
    · obtain rfl := Option.some.inj hrow'
      exact absurd hopen ho
    · exact .inl ⟨row', hrow', ho⟩
  | setStatus x st => exact .inl (hmodify hrow' fun _ => rfl)
  | setDetails x rt dur b => exact .inl (hmodify hrow' fun _ => rfl)
  | setOutcome x o notes =>
    by_cases hx : x = r
    · subst hx
      exact .inr ⟨o, notes, rfl⟩
    · have hsame : ((Write.setOutcome x o notes).apply T).requests r = T.requests r := by
        have hne : r ≠ x := fun h => hx h.symm
        simp [Write.apply, hne]
      exact .inl ⟨row', hsame.symm.trans hrow', ho⟩
  | _ => exact .inl ⟨row', hrow', ho⟩

theorem outcome_applyAll {ys : List Write} (h : Write.applyAll ys T = some T') (hopen : ∀ y ∈ ys, Opening y)
    {row' : InterviewRequest} (hrow' : T'.requests r = some row') (ho : row'.outcome ≠ none) :
    (∃ row, T.requests r = some row ∧ row.outcome ≠ none) ∨ ∃ o notes, .setOutcome r o notes ∈ ys := by
  induction ys generalizing T with
  | nil =>
    obtain rfl := Option.some.inj h
    exact .inl ⟨row', hrow', ho⟩
  | cons y ys ih =>
    obtain ⟨-, hys⟩ := Write.applyAll_cons_eq_some.mp h
    rcases ih hys fun z hz => hopen z (List.mem_cons_of_mem _ hz) with ⟨row, hrow, ho'⟩ | ⟨o, notes, hy⟩
    · refine (outcome_apply (hopen y List.mem_cons_self) hrow ho').imp_right ?_
      rintro ⟨o, notes, rfl⟩
      exact ⟨o, notes, List.mem_cons_self⟩
    · exact .inr ⟨o, notes, List.mem_cons_of_mem _ hy⟩

/-! ### The log -/

/-- The entry that is staged. -/
def auditOf : SideWrite → Option AuditLog
  | .insertAudit a => some a
  | _ => none

theorem audits_foldl (ys : List SideWrite) (D : Db) :
    (ys.foldl SideWrite.apply D).audits = D.audits ++ ys.filterMap auditOf := by
  induction ys generalizing D with
  | nil => simp
  | cons y ys ih =>
    rw [List.foldl_cons, ih]
    cases y with
    | insertAudit a => simp [SideWrite.apply, auditOf]
    | _ => rfl

/-- **The log agrees with the tables.** -/
structure Trail (D : Db) : Prop where
  keys : EventKeys D.toInterviews
  deeds : ∀ d r, entries D.audits d.action r = stored D.toInterviews r d
  outcomes : ∀ r row, D.requests r = some row → row.outcome ≠ none →
    ∃ a ∈ D.audits, Entry outcomeAction r a
  releases : ∀ r, cancelledOf D.toInterviews r ≤ releaseEntries D.audits r

/-- The transaction of a call about a request, with what it has staged. -/
theorem Trail.commit {J : Interviews → Prop} {call : Call} {s : Session} {v : Draft} (h : Trail w.db)
    (hwrites : v.writes = s.pending.filter fun y => logged y) (haudits : v.audits = s.side.filterMap auditOf)
    (hv : v.Complete call.about)
    (hpending : ∀ y ∈ s.pending, Warranted pf J call w.db.toInterviews y)
    (hT : Write.applyAll s.pending w.db.toInterviews = some T) : Trail (w.commit s T).db := by
  have haudits' : (w.commit s T).db.audits = w.db.audits ++ v.audits := by
    rw [haudits]
    exact audits_foldl s.side { w.db with toInterviews := T }
  have htables : (w.commit s T).db.toInterviews = T := World.commit_toInterviews w s T
  have hlogged : ∀ y ∈ s.pending, logged y = true → y ∈ v.writes := by
    intro y hy hl
    rw [hwrites]
    exact List.mem_filter.mpr ⟨hy, hl⟩
  have hopen : ∀ y ∈ s.pending, Opening y := by
    intro y hy
    cases hl : logged y with
    | true => exact hv.opening y (hlogged y hy hl)
    | false =>
      cases y with
      | insertRequest row ps => simp [logged, deedOf] at hl
      | insertEvent e => simp [logged, deedOf] at hl
      | _ => trivial
  -- what goes with no entry does not count
  have hcount : ∀ p : Write → Bool, (∀ y, p y = true → logged y = true) →
      s.pending.countP p = v.writes.countP p := by
    intro p hp
    rw [hwrites, List.countP_filter]
    refine List.countP_congr fun y _ => ?_
    simp only [Bool.and_eq_true]
    exact ⟨fun h => ⟨h, hp y h⟩, fun h => h.1⟩
  obtain ⟨hkeys, -⟩ := cancelledOf_applyAll (r := 0) hT h.keys hopen hpending
  refine ⟨by rwa [htables], fun d r => ?_, fun r row hrow ho => ?_, fun r => ?_⟩
  · rw [haudits', htables, stored_applyAll hT d]
    have hold := h.deeds d r
    have hnew := hv.deeds d r
    have hsame : (s.pending.countP fun y => deedOf y = some (d, r)) =
        v.writes.countP fun y => deedOf y = some (d, r) :=
      hcount _ fun y hy => logged_of_deed (of_decide_eq_true hy)
    rw [entries, List.countP_append, hsame]
    unfold entries at hold hnew
    omega
  · rw [haudits']
    have hrow' : T.requests r = some row := by rwa [← htables]
    rcases outcome_applyAll hT hopen hrow' ho with ⟨row₀, hrow₀, ho₀⟩ | ⟨o, notes, hy⟩
    · obtain ⟨a, ha, hentry⟩ := h.outcomes r row₀ hrow₀ ho₀
      exact ⟨a, List.mem_append_left _ ha, hentry⟩
    · obtain ⟨a, ha, hentry⟩ := hv.outcomes r o notes (hlogged _ hy rfl)
      exact ⟨a, List.mem_append_right _ ha, hentry⟩
  · obtain ⟨-, hcancelled⟩ := cancelledOf_applyAll (r := r) hT h.keys hopen hpending
    rw [htables, haudits', releaseEntries, List.countP_append]
    have hold := h.releases r
    unfold releaseEntries at hold
    by_cases hr : call.about = some r
    · have hnew := hv.releases r hr
      rw [if_pos hr, hcount _ fun y hy => by cases y <;> simp_all [cancels, logged]] at hcancelled
      unfold releaseEntries at hnew
      omega
    · rw [if_neg hr] at hcancelled
      omega

/-! ### Calls -/

/-- What a session has staged is the draft. -/
def Drafts (v : Draft) (s : Session) : Prop :=
  v.writes = (s.pending.filter fun y => logged y) ∧ v.audits = s.side.filterMap auditOf

theorem stage_logged {s : Session} (y : Write) :
    ((s.stage y).pending.filter fun z => logged z) =
      (s.pending.filter fun z => logged z) ++ [y].filter fun z => logged z := by
  cases y with
  | setStatus x st =>
    have hnot : logged (.setStatus x st) = false := rfl
    simp only [Session.stage]
    split
    · simp [hnot]
    · simp [hnot]
  | _ => exact List.filter_append _ _

theorem faithful_bookkeeping (about : Option Id) : Pool.Faithful machine (bookkeeping about) Drafts := by
  intro β o c s w x s' w' v hv h
  obtain ⟨writes, audits⟩ := v
  obtain ⟨rfl, rfl⟩ : writes = (s.pending.filter fun y => logged y) ∧ audits = s.side.filterMap auditOf := hv
  change respond o c.answer s (w.elapse c) = _ at h
  generalize w.elapse c = w₁ at h
  refine ⟨⟨s'.pending.filter fun y => logged y, s'.side.filterMap auditOf⟩, ?_, rfl, rfl⟩
  cases o <;> simp only [respond, dbCall, outerCall, googleCall] at h
  all_goals repeat' split at h
  all_goals simp only [Option.some.injEq, Prod.mk.injEq, reduceCtorEq] at h
  all_goals obtain ⟨rfl, rfl, rfl⟩ := h
  all_goals try rfl
  -- a call that fails changes nothing, or loses what was staged
  all_goals try exact .inl rfl
  all_goals try exact .inr rfl
  · change Draft.mk _ _ = Draft.mk _ _
    rw [stage_logged, Session.stage_side]
  · next y =>
    cases y with
    | insertAudit a =>
      change Draft.mk _ ((s.side ++ [_]).filterMap auditOf) = Draft.mk _ _
      rw [List.filterMap_append]
      rfl
    | _ =>
      change Draft.mk _ ((s.side ++ [_]).filterMap auditOf) = Draft.mk _ _
      rw [List.filterMap_append]
      exact congrArg _ (List.append_nil _)

/-- The log agrees with the tables, and every call will keep it so. -/
structure Audited (calls : ι → Call) (P : Pool Effect Exc Response Session World ι) : Prop where
  trail : Trail P.shared.db
  proved : Pool.Proved (fun i => bookkeeping (calls i).about) Drafts (fun _ _ _ => True) P

theorem audited_started (h : Trail w.db) : Audited calls (started pf calls w) where
  trail := h
  proved i := ⟨{}, ⟨rfl, rfl⟩, bookkept_handle (calls i)⟩

variable [DecidableEq ι]

theorem Audited.call {P P' : Pool Effect Exc Response Session World ι} {J : Interviews → Prop}
    (hP : Audited calls P) (hlicit : Licit pf J calls P)
    (h : Pool.Step machine (fun _ => Blocked B) P P') : Audited calls P' := by
  have hreach : Pool.Reaches machine (fun _ => Blocked B) P P' := .single h
  refine ⟨?_, (Pool.sound (I := fun _ _ => True) (fun i => faithful_bookkeeping (calls i).about)
    (fun _ _ _ _ _ _ _ _ _ _ _ _ _ _ _ => trivial) hreach hP.proved trivial).1⟩
  cases h with
  | @op i β o k c x s' w' hprog hc hex =>
    obtain ⟨v, ⟨hwrites, haudits⟩, hwp⟩ := hP.proved i
    rw [hprog] at hwp
    rcases respond_cases (w := P.shared.elapse c) hex with ⟨ho, -, T, hT, -, rfl⟩ | ⟨-, hdb, -⟩
    · cases o with
      | commit => exact Trail.commit (w := P.shared.elapse c) hP.trail hwrites haudits hwp.1 (hlicit.pending i) hT
      | _ => exact ho.elim
    · change Trail w'.db
      rw [hdb]
      exact hP.trail

omit [DecidableEq ι] in
theorem Trail.register {user : User} (h : Trail w.db) : Trail (registered user w).db := by
  refine ⟨h.keys, fun d r => (h.deeds d r).trans ?_, h.outcomes, h.releases⟩
  cases d <;> rfl

omit [DecidableEq ι] in
/-- On the first day there is nothing to log. -/
theorem Installed.trail (h₀ : Installed w₀) (haudits : w₀.db.audits = []) : Trail w₀.db := by
  have hT : w₀.db.toInterviews = { users := w₀.db.users } := h₀.tables
  have hrequests : ∀ r, w₀.db.requests r = none := fun r => congrFun (congrArg Interviews.requests hT) r
  refine ⟨?_, fun d r => ?_, fun r row hrow => ?_, fun r => ?_⟩
  · rw [hT]
    exact List.nodup_nil
  · rw [hT, haudits]
    cases d <;> rfl
  · rw [hrequests r] at hrow
    cases hrow
  · rw [hT]
    exact Nat.zero_le _

/-- **The audit log agrees with the tables**, whatever the calls do in whatever order, and whatever fails:
there are as many entries of a creation, a next round, a submission, a run or a booking about a request as
there are rows of it, a request with an outcome has an entry of one, and there are at least as many entries
of a decline, a reschedule or a cancellation about a request as it has cancelled interviews. -/
theorem audit_trail (h₀ : Installed w₀) (haudits : w₀.db.audits = [])
    {P : Pool Effect Exc Response Session World ι} (h : Lives pf B (started pf calls w₀) P) :
    Trail P.shared.db := by
  have hall : Audited calls P := by
    induction h with
    | refl => exact audited_started (h₀.trail haudits)
    | tail hinit hlast ih =>
      cases hlast with
      | call hstep => exact ih.call (licit_traceable h₀ hinit) hstep
      | register hnew _ => exact ⟨ih.trail.register, ih.proved⟩
  exact hall.trail

/-- The booking of the interview is in the log. -/
theorem audit_trail_sample : ∃ P : Pool Effect Exc Response Session World ℕ,
    (∃ e ∈ P.shared.db.events, e.interviewRequestId = 10) ∧
      ∃ a ∈ P.shared.db.audits, a.action = "INTERVIEW_BOOKED" ∧ a.entityId = 10 := by
  obtain ⟨P, hP, -, e, he, hr⟩ := lives_booked (B := fun _ => True)
  have htrail : Trail P.shared.db := audit_trail installed_emptyWorld rfl hP
  have hstored : 0 < stored P.shared.db.toInterviews 10 .booked :=
    List.countP_pos_iff.mpr ⟨e, he, decide_eq_true hr⟩
  rw [← htrail.deeds] at hstored
  obtain ⟨a, ha, hentry⟩ := List.countP_pos_iff.mp hstored
  exact ⟨P, ⟨e, he, hr⟩, a, ha, of_decide_eq_true hentry⟩

end InterviewScheduler.System
