import InterviewScheduler.Interviews.Attested
import InterviewScheduler.System.History

/-! # Who has done what

What the calls change besides the interview tables is changed in the name of the caller, while everything
else goes on. So the audit log names for each entry a user who has made the call (`audits_attributed`), and
of these calls only a decline of the panelist and an edit of the panel change a response
(`responses_attributed`). -/

namespace InterviewScheduler.System

open InterviewScheduler.Engine InterviewScheduler.Core InterviewScheduler.Effects
open InterviewScheduler.Interviews
open InterviewScheduler.Lifecycle (WellFormed)

variable {ι : Type} {pf : Platform} {B : BusyInterval → Prop} {calls : ι → Call} {w w' w₀ : World}
  {D : Db} {J : Interviews → Prop} {K : Db → Prop}

/-! ### Throughout -/

/-- What is staged besides the interview tables was staged before, or is staged now. -/
theorem side_of_exec {β : Type} {o : Effect β} {c : Choice} {x : Except Exc β} {s s' : Session}
    (h : machine.exec o c s w = some (x, s', w')) : ∀ y ∈ s'.side, y ∈ s.side ∨ o.sideWrite = some y := by
  change respond o c.answer s (w.elapse c) = _ at h
  generalize w.elapse c = w₁ at h
  intro y hy
  cases o with
  | stage z =>
    simp only [respond, Option.some.injEq, Prod.mk.injEq] at h
    obtain ⟨-, rfl, -⟩ := h
    rw [Session.stage_side] at hy
    exact .inl hy
  | stageSide z =>
    simp only [respond, Option.some.injEq, Prod.mk.injEq] at h
    obtain ⟨-, rfl, -⟩ := h
    refine (List.mem_append.mp hy).imp_right fun hy => ?_
    rw [List.mem_singleton.mp hy]
    rfl
  | _ =>
    simp only [respond, dbCall, outerCall, googleCall] at h
    repeat' split at h
    all_goals simp only [Option.some.injEq, Prod.mk.injEq, reduceCtorEq] at h
    all_goals obtain ⟨-, rfl, -⟩ := h
    all_goals first | exact .inl hy | cases hy

theorem keeps_foldl {ys : List SideWrite} {call : Call}
    (hside : ∀ D y, K D → Attested D.toInterviews call y → K (y.apply D)) (hD : K D)
    (hys : ∀ y ∈ ys, Attested D.toInterviews call y) : K (ys.foldl SideWrite.apply D) := by
  induction ys generalizing D with
  | nil => exact hD
  | cons y ys ih =>
    refine ih (hside D y hD (hys y List.mem_cons_self)) fun z hz => ?_
    rw [SideWrite.apply_toInterviews]
    exact hys z (List.mem_cons_of_mem _ hz)

/-- The database has the property `K`, and whatever is staged or will be staged besides the interview
tables is attested. -/
structure Attests (J : Interviews → Prop) (K : Db → Prop) (calls : ι → Call)
    (P : Pool Effect Exc Response Session World ι) : Prop where
  holds : K P.shared.db
  staged : ∀ i, ∀ y ∈ (P.loc i).side, Attested P.shared.db.toInterviews (calls i) y
  proved : ∀ i, ∃ T, Grows T P.shared.db.toInterviews ∧ wp (attesting J (calls i)) (P.prog i) Anyway T

theorem attests_started (hJ : ∀ T, J T → WellFormed T) (h : K w.db) :
    Attests J K calls (started pf calls w) where
  holds := h
  staged i y hy := by simp [started] at hy
  proved i := ⟨_, .refl _, attested_handle hJ (calls i)⟩

variable [DecidableEq ι]

theorem Attests.call {P P' : Pool Effect Exc Response Session World ι} (hP : Attests J K calls P)
    (hlicit : Licit pf J calls P) (hlicit' : J P'.shared.db.toInterviews)
    (htables : ∀ D T, K D → Grows D.toInterviews T → K { D with toInterviews := T })
    (hside : ∀ i D y, K D → Attested D.toInterviews (calls i) y → K (y.apply D))
    (h : Pool.Step machine (fun _ => Blocked B) P P') : Attests J K calls P' := by
  cases h with
  | @op i β o k c x s' w' hprog hc hex =>
    obtain ⟨T₀, hT₀, hwp⟩ := hP.proved i
    rw [hprog] at hwp
    obtain ⟨hpre, hrest⟩ := hwp
    have hgrows : Grows P.shared.db.toInterviews w'.db.toInterviews := grows_of_exec hex
    obtain ⟨-, htells⟩ := reports_of_exec (hlicit.recalls i) hex
    refine ⟨?_, ?_, fun j => ?_⟩
    · change K w'.db
      rcases respond_cases (w := P.shared.elapse c) hex with ⟨-, -, T, hT, -, rfl⟩ | ⟨-, hdb, -⟩
      · have hT : Grows P.shared.db.toInterviews T := grows_applyAll hT
        exact keeps_foldl (hside i) (htables _ T hP.holds hT) fun y hy => (hP.staged i y hy).grows hT
      · rw [hdb]
        exact hP.holds
    · refine (Function.forall_update_iff P.loc fun j s => ∀ y ∈ s.side,
        Attested w'.db.toInterviews (calls j) y).mpr ⟨fun y hy => ?_, fun j _ y hy =>
          (hP.staged j y hy).grows hgrows⟩
      rcases side_of_exec hex y hy with hy | hy
      · exact (hP.staged i y hy).grows hgrows
      · exact (hpre y hy).grows (hT₀.trans hgrows)
    · change ∃ T, Grows T w'.db.toInterviews ∧ wp (attesting J (calls j))
        (Function.update P.prog i (k x) j) Anyway T
      by_cases hj : j = i
      · subst hj
        rw [Function.update_self]
        exact ⟨_, .refl _, hrest x _ ⟨hT₀.trans hgrows, hlicit', htells⟩⟩
      · rw [Function.update_of_ne hj]
        obtain ⟨T₁, hT₁, hwp'⟩ := hP.proved j
        exact ⟨T₁, hT₁.trans hgrows, hwp'⟩

/-- **What the tables and every attested change keep holds throughout.** -/
theorem attests_of_lives (h₀ : Installed w₀) (hK : K w₀.db)
    (htables : ∀ D T, K D → Grows D.toInterviews T → K { D with toInterviews := T })
    (hside : ∀ i D y, K D → Attested D.toInterviews (calls i) y → K (y.apply D))
    {P : Pool Effect Exc Response Session World ι} (h : Lives pf B (started pf calls w₀) P) :
    Attests (Traceable pf) K calls P := by
  induction h with
  | refl => exact attests_started (fun _ hT => hT.wellFormed) hK
  | tail hinit hlast ih =>
    have hnext := traceable_of_lives h₀ (hinit.tail hlast)
    cases hlast with
    | call hstep => exact ih.call (licit_traceable h₀ hinit) hnext htables hside hstep
    | register hnew _ =>
      have hgrows := grows_register hnew
      refine ⟨htables _ _ ih.holds hgrows, fun i y hy => (ih.staged i y hy).grows hgrows, fun i => ?_⟩
      obtain ⟨T, hT, hwp⟩ := ih.proved i
      exact ⟨T, hT.trans hgrows, hwp⟩

/-! ### A sample -/

/-- The calls that book the interview of the request 10, and its decline by the panelist 3. -/
def declinedCalls : ℕ → Call
  | 0 => (sampleCreate 10).1
  | 1 => (sampleSubmit 10 540).1
  | 2 => (sampleGenerate 10).1
  | 3 => (sampleBook 10).1
  | _ => (sampleDecline 10).1

abbrev declinedPool : Pool Effect Exc Response Session World ℕ :=
  started samplePlatform declinedCalls emptyWorld

theorem lives_declined : ∃ P : Pool Effect Exc Response Session World ℕ,
    Lives samplePlatform B declinedPool P ∧ (∃ a ∈ P.shared.db.audits, a.action = "INTERVIEW_DECLINED") ∧
      P.shared.db.responses 10 3 = .declined := by
  obtain ⟨P, hP, hp⟩ := reaches_of_schedule (registerAll firstUsers declinedPool)
    (A := fun _ => Blocked B) (fun _ _ _ _ _ _ => blocked_of_notAsked)
    (steps 0 (sampleCreate 10).2 ++ steps 1 ((sampleSubmit 10 540).2.take 12) ++
      steps 2 ((sampleGenerate 10).2.take 22) ++ steps 3 ((sampleBook 10).2.take 23) ++
      steps 4 ((sampleDecline 10).2.take 14))
    (p := fun P => (P.shared.db.audits.any fun a => decide (a.action = "INTERVIEW_DECLINED")) &&
      decide (P.shared.db.responses 10 3 = .declined))
    (by decide +kernel)
  obtain ⟨haudit, hdeclined⟩ := Bool.and_eq_true_iff.mp hp
  obtain ⟨a, ha, haction⟩ := List.any_eq_true.mp haudit
  exact ⟨P, (lives_registered installed_emptyWorld).trans (lives_of_reaches hP),
    ⟨a, ha, of_decide_eq_true haction⟩, of_decide_eq_true hdeclined⟩

/-! ### The audit log -/

/-- A user has made a call that his role admits, and the call logs such an entry. -/
def Authored (calls : ι → Call) (T : Interviews) (a : AuditLog) : Prop :=
  ∃ i user, T.users (calls i).caller = some user ∧ (user.id = a.actorId ∧ user.role = a.actorRole) ∧
    (calls i).Admits user.role ∧ (calls i).Logs a.action a.entityId

omit [DecidableEq ι] in
theorem Authored.grows {T T' : Interviews} {a : AuditLog} (h : Authored calls T a) (hT : Grows T T') :
    Authored calls T' a := by
  obtain ⟨i, user, huser, hrest⟩ := h
  exact ⟨i, user, hT.users _ _ huser, hrest⟩

/-- **Every entry of the audit log has its author**: the user with the id and the role of the entry is
there and has made a call that writes such an entry, about the request of the entry unless it is about a
new one, and the route of the call admits the role. -/
theorem audits_attributed (h₀ : Installed w₀) (haudits : w₀.db.audits = [])
    {P : Pool Effect Exc Response Session World ι} (h : Lives pf B (started pf calls w₀) P) :
    ∀ a ∈ P.shared.db.audits, Authored calls P.shared.db.toInterviews a := by
  refine (attests_of_lives (K := fun D => ∀ a ∈ D.audits, Authored calls D.toInterviews a) h₀ ?_ ?_ ?_ h).holds
  · rw [haudits]
    simp
  · exact fun D T hD hT a ha => (hD a ha).grows hT
  · rintro i D y hD ⟨user, huser, -, hadmits, hsigns⟩ a ha
    rw [SideWrite.apply_toInterviews]
    cases y with
    | insertAudit row =>
      rcases List.mem_append.mp ha with ha | ha
      · exact hD a ha
      · obtain rfl := List.mem_singleton.mp ha
        exact ⟨i, user, huser, ⟨hsigns.1.1.symm, hsigns.1.2.symm⟩, hadmits, hsigns.2⟩
    | _ => exact hD a ha

/-- The entry of the decline has an author. -/
theorem audits_attributed_sample : ∃ P : Pool Effect Exc Response Session World ℕ,
    ∃ a ∈ P.shared.db.audits, a.action = "INTERVIEW_DECLINED" ∧
      Authored declinedCalls P.shared.db.toInterviews a := by
  obtain ⟨P, hP, ⟨a, ha, haction⟩, -⟩ := lives_declined (B := fun _ => True)
  exact ⟨P, a, ha, haction, audits_attributed installed_emptyWorld rfl hP a ha⟩

/-! ### Responses -/

/-- The response was as it is, or the panelist has declined, or an administrator has edited the panel. -/
def Accountable (calls : ι → Call) (D₀ D : Db) (r u : Id) : Prop :=
  D.responses r u = D₀.responses r u ∨
    (D.responses r u = .declined ∧ HasRole D.toInterviews u .panelist ∧
      ∃ i reason, calls i = .decline u r reason) ∨
    (D.responses r u = .pending ∧ ∃ i admin data, HasRole D.toInterviews admin .admin ∧
      calls i = .updateRequest admin r data ∧ ∃ ids, data.panelistIds = .value ids ∧ u ∈ ids)

theorem responses_setResponse (D : Db) (r r' u u' : Id) (st : ResponseStatus) :
    ((SideWrite.setResponse r' u' st).apply D).responses r u =
      if r = r' ∧ u = u' then st else D.responses r u := by
  simp only [SideWrite.apply, Function.update_apply]
  by_cases hr : r = r'
  · subst hr
    by_cases hu : u = u'
    · simp [hu]
    · simp [hu]
  · simp [hr]

omit [DecidableEq ι] in
/-- Two of the calls set a response. -/
theorem answers_of_attested {T : Interviews} {i : ι} {r u : Id} {st : ResponseStatus}
    (h : Attested T (calls i) (.setResponse r u st)) :
    (st = .declined ∧ HasRole T u .panelist ∧ ∃ i reason, calls i = .decline u r reason) ∨
      (st = .pending ∧ ∃ i admin data, HasRole T admin .admin ∧ calls i = .updateRequest admin r data ∧
        ∃ ids, data.panelistIds = .value ids ∧ u ∈ ids) := by
  obtain ⟨user, huser, -, hadmits, hsigns⟩ := h
  cases hcall : calls i with
  | decline userId q reason =>
    rw [hcall] at huser hadmits hsigns
    obtain ⟨rfl, rfl, rfl⟩ := hsigns
    exact .inl ⟨rfl, ⟨user, huser, hadmits⟩, i, reason, hcall⟩
  | updateRequest admin q data =>
    rw [hcall] at huser hadmits hsigns
    obtain ⟨rfl, hids, rfl⟩ := hsigns
    exact .inr ⟨rfl, i, admin, data, ⟨user, huser, hadmits⟩, hcall, hids⟩
  | _ =>
    rw [hcall] at hsigns
    exact hsigns.elim

/-- **Nobody declines for another.** Of these calls only a decline of the panelist changes a response to
DECLINED, and only an edit of the panel, by an administrator, puts one back to PENDING. An answer through an
invitation link, which sets a response too, is not among the calls. -/
theorem responses_attributed (h₀ : Installed w₀) {P : Pool Effect Exc Response Session World ι}
    (h : Lives pf B (started pf calls w₀) P) (r u : Id) : Accountable calls w₀.db P.shared.db r u := by
  refine (attests_of_lives (K := fun D => ∀ r u, Accountable calls w₀.db D r u) h₀ ?_ ?_ ?_ h).holds r u
  · exact fun r u => .inl rfl
  · intro D T hD hT r u
    refine (hD r u).imp_right fun hchange => ?_
    rcases hchange with ⟨hst, hrole, hcall⟩ | ⟨hst, i, admin, data, hrole, hcall⟩
    · exact .inl ⟨hst, hrole.grows hT, hcall⟩
    · exact .inr ⟨hst, i, admin, data, hrole.grows hT, hcall⟩
  · intro i D y hD hy r u
    cases y with
    | setResponse r' u' st =>
      rw [Accountable, responses_setResponse]
      by_cases hru : r = r' ∧ u = u'
      · obtain ⟨rfl, rfl⟩ := hru
        rw [if_pos ⟨rfl, rfl⟩]
        exact .inr (answers_of_attested hy)
      · rw [if_neg hru]
        exact hD r u
    | _ => exact hD r u

/-- The panelist 3 has declined. -/
theorem responses_attributed_sample : ∃ P : Pool Effect Exc Response Session World ℕ,
    P.shared.db.responses 10 3 = .declined ∧
      Accountable declinedCalls emptyWorld.db P.shared.db 10 3 := by
  obtain ⟨P, hP, -, hdeclined⟩ := lives_declined (B := fun _ => True)
  exact ⟨P, hdeclined, responses_attributed installed_emptyWorld hP 10 3⟩

end InterviewScheduler.System
