import InterviewScheduler.Interviews.Editing
import InterviewScheduler.System.Bookable
import InterviewScheduler.System.Tables

/-! # Edits of reachable requests

Every request has its candidate and a panel as participants, whatever calls have run or are under way. An
edit of one, run alone, is exact when the schema takes it. It does not when a field is null or out of
range, or when somebody of the new panel is on the old one: then the call raises an exception that is not
the application's own. -/

namespace InterviewScheduler.System

open InterviewScheduler.Core InterviewScheduler.Effects InterviewScheduler.Interviews

/-! ### Who takes part -/

/-- The users are those of the start, and every request has its candidate and a panel. -/
structure Seating (U : Id → Option User) (T : Interviews) : Prop where
  users : T.users = U
  seated : ∀ r row, T.requests r = some row → ∃ panel, T.participants r = seats row.candidateId panel

/-- A change of a row that keeps its candidate. -/
theorem Seating.modifyRequest {U : Id → Option User} {T : Interviews} (h : Seating U T) {r : Id}
    {f : InterviewRequest → InterviewRequest} (hf : ∀ row, (f row).candidateId = row.candidateId) :
    Seating U (T.modifyRequest r f) := by
  refine ⟨h.users, fun x row hrow => ?_⟩
  rw [Interviews.modifyRequest_requests] at hrow
  split_ifs at hrow with hx
  · obtain ⟨row₀, hrow₀, rfl⟩ := Option.map_eq_some_iff.mp hrow
    rw [hf]
    exact h.seated x row₀ (hx ▸ hrow₀)
  · exact h.seated x row hrow

theorem Seating.apply {U : Id → Option User} {T : Interviews} (h : Seating U T) {y : Write}
    (hy : ∀ row ps, y = .insertRequest row ps → ∃ panel, ps = seats row.candidateId panel) :
    Seating U (y.apply T) := by
  cases y with
  | insertRequest new ps =>
    obtain ⟨panel, rfl⟩ := hy new ps rfl
    refine ⟨h.users, fun r row hrow => ?_⟩
    simp only [Write.apply, Function.update_apply] at hrow ⊢
    split_ifs at hrow ⊢ with hr
    · rw [← Option.some.inj hrow]
      exact ⟨panel, rfl⟩
    · exact h.seated r row hrow
  | replacePanelists r' ids =>
    refine ⟨h.users, fun r row hrow => ?_⟩
    obtain ⟨panel, hpanel⟩ := h.seated r row hrow
    simp only [Write.apply, Function.update_apply]
    split_ifs with hr
    · subst hr
      rw [hpanel, seats_filter]
      exact ⟨ids, rfl⟩
    · exact ⟨panel, hpanel⟩
  | setStatus r st => exact h.modifyRequest fun _ => rfl
  | setOutcome r o notes => exact h.modifyRequest fun _ => rfl
  | setDetails r rt d b => exact h.modifyRequest fun _ => rfl
  | _ => exact ⟨h.users, h.seated⟩

variable {ι : Type} [DecidableEq ι] {pf : Platform} {calls : ι → Call} {w₀ : World}

theorem seating_of_reaches (h₀ : Initial w₀) {P : Pool Effect Exc Response Session World ι}
    (h : Pool.Reaches machine (fun _ => Any) (started pf calls w₀) P) :
    Seating w₀.db.users P.shared.db.toInterviews := by
  refine keeps_of_reaches (W := fun y => ∀ row ps, y = .insertRequest row ps →
    ∃ panel, ps = seats row.candidateId panel) (fun T y hT hy _ => hT.apply hy) ?_ ?_ h
  · rintro i y hy row ps rfl
    exact (hy : Founded row ps).panel
  · rw [h₀.tables]
    exact ⟨rfl, fun r row hrow => by simp at hrow⟩

/-! ### The edit -/

/-- An edit is exact, or refused with an error of the application and nothing changed. -/
def ExactOrRefused (actor : User) (r : Id) (data : UpdateInterviewRequest) (row : InterviewRequest)
    (panel : List Id) (db db' : Db) (x : Except Exc InterviewRequestOut) : Prop :=
  (∃ out, x = .ok out ∧ Patched actor r data row panel db db' out) ∨
    (∃ e, x = .error e ∧ e.isApp = true) ∧ db' = db

/-- **When an edit is exact or refused.** A request that calls have led to may be edited; nothing runs
beside the edit, the database answers, and the new panel, if there is one, consists of panelists. -/
theorem patch_exact_or_refused (h₀ : Initial w₀) {P : Pool Effect Exc Response Session World ι}
    (h : Pool.Reaches machine (fun _ => Any) (started pf calls w₀) P) {actor : User} {r : Id}
    {data : UpdateInterviewRequest} {row : InterviewRequest} (hrow : P.shared.db.requests r = some row)
    (hst : row.status ∈ editableStatuses)
    (hpanel : ∀ ids, data.panelistIds = .value ids → ∀ u ∈ ids,
      ∃ user, P.shared.db.users u = some user ∧ user.role = .panelist)
    {x : Except Exc InterviewRequestOut} {s' : Session} {w' : World}
    (hrun : Runs machine DatabaseUp (updateRequest actor r data) {} P.shared x s' w') :
    ∃ panel, P.shared.db.participants r = seats row.candidateId panel ∧
      (ExactOrRefused actor r data row panel P.shared.db w'.db x ↔
        Patchable P.shared.db.toInterviews r data) := by
  have hseating := seating_of_reaches h₀ h
  obtain ⟨panel, hseats⟩ := hseating.seated r row hrow
  have hpanel' : ∀ ids, data.panelistIds = .value ids → ∀ u ∈ ids,
      ∃ user, P.shared.db.users u = some user ∧ user.id = u ∧ user.role = .panelist := by
    intro ids hids u hu
    obtain ⟨user, huser, hrole⟩ := hpanel ids hids u hu
    have hsame : P.shared.db.users u = w₀.db.users u := congrFun hseating.users u
    exact ⟨user, huser, h₀.user_id u user (hsame.symm.trans huser), hrole⟩
  have hends := hrun.meets (D := fun _ _ _ _ => True) (patchEnds_updateRequest (fun _ _ _ => trivial)
    (open_empty r P.shared) hrow hseats hst hpanel')
  refine ⟨panel, hseats, ?_⟩
  cases x with
  | ok out =>
    obtain ⟨hpatchable, hpatched⟩ := hends
    exact ⟨fun _ => hpatchable, fun _ => .inl ⟨out, rfl, hpatched⟩⟩
  | error e =>
    obtain ⟨hnot, happ, -⟩ := hends
    refine ⟨?_, fun hpatchable => absurd hpatchable hnot⟩
    rintro (⟨out, hout, -⟩ | ⟨⟨e', he', happ'⟩, -⟩)
    · simp at hout
    · obtain rfl := Except.error.inj he'
      rw [happ] at happ'
      simp at happ'

/-! ### Samples -/

/-- The panel is replaced by the user, and the interview shortened. -/
def samplePatch (u : Id) : UpdateInterviewRequest where
  durationMinutes := .value 45
  panelistIds := .value [u]
  duration_pos d hd := by
    obtain rfl := Patch.value.inj hd
    decide
  buffer_nonneg b hb := by simp at hb
  panelistIds_valid ids hids := by
    obtain rfl := Patch.value.inj hids
    simp

def sampleAdmin : User := { id := 1, email := "admin@example.com", role := .admin }

/-- The database answers. -/
def databaseUp (β : Type) (_ : Effect β) (c : Choice) (_ : Session) (_ : World) : Bool :=
  decide (c.answer ≠ .fail)

/-- The request 10 is created with the panelist 3, and then edited. -/
theorem patched_sample (u : Id) {p : Except Exc InterviewRequestOut → World → Bool}
    (h : (Pool.run machine (fun (_ : Unit) _ _ _ _ _ => true) (steps () (sampleCreate 10).2)
      (started samplePlatform (fun _ => (sampleCreate 10).1) largerWorld)).any fun P =>
        decide ((P.shared.db.requests 10).any fun row => row.status ∈ editableStatuses) &&
          (machine.run databaseUp (updateRequest sampleAdmin 10 (samplePatch u)) (answered 14) {}
            P.shared).any fun x => p x.1 x.2.2) :
    ∃ (P : Pool Effect Exc Response Session World Unit) (row : InterviewRequest)
      (x : Except Exc InterviewRequestOut) (s' : Session) (w' : World),
      Pool.Reaches machine (fun _ => Any)
        (started samplePlatform (fun _ => (sampleCreate 10).1) largerWorld) P ∧
      P.shared.db.requests 10 = some row ∧ row.status ∈ editableStatuses ∧
      Runs machine DatabaseUp (updateRequest sampleAdmin 10 (samplePatch u)) {} P.shared x s' w' ∧
      p x w' := by
  obtain ⟨P, hP, hp⟩ := reaches_any _ _ h
  simp only [Bool.and_eq_true, decide_eq_true_eq, Option.any_eq_true] at hp
  obtain ⟨⟨row, hrow, hst⟩, ⟨x, s', w'⟩, hrun, hx⟩ := hp
  exact ⟨P, row, x, s', w', hP, hrow, hst,
    (runs_of_run hrun).mono fun _ _ _ _ hc => of_decide_eq_true hc, hx⟩

/-- The user of the new panel is a panelist. -/
theorem samplePatch_panelists {u : Id} {user : User} (huser : moreUsers u = some user)
    (hrole : user.role = .panelist) {P : Pool Effect Exc Response Session World Unit}
    (hP : Pool.Reaches machine (fun _ => Any)
      (started samplePlatform (fun _ => (sampleCreate 10).1) largerWorld) P) :
    ∀ ids, (samplePatch u).panelistIds = .value ids → ∀ v ∈ ids,
      ∃ user, P.shared.db.users v = some user ∧ user.role = .panelist := by
  intro ids hids v hv
  obtain rfl : [u] = ids := Patch.value.inj hids
  obtain rfl := List.mem_singleton.mp hv
  have husers : P.shared.db.users = moreUsers := (seating_of_reaches initial_largerWorld hP).users
  exact ⟨user, by rw [husers, huser], hrole⟩

/-- Another panelist takes over. -/
theorem patch_exact_or_refused_sample : ∃ (P : Pool Effect Exc Response Session World Unit)
    (row : InterviewRequest) (panel : List Id) (x : Except Exc InterviewRequestOut) (w' : World),
    (w'.db.participants 10).map (·.userId) = [2, 4] ∧
      (ExactOrRefused sampleAdmin 10 (samplePatch 4) row panel P.shared.db w'.db x ↔
        Patchable P.shared.db.toInterviews 10 (samplePatch 4)) := by
  obtain ⟨P, row, x, s', w', hP, hrow, hst, hrun, hx⟩ := patched_sample 4
    (p := fun _ w' => decide ((w'.db.participants 10).map (·.userId) = [2, 4])) (by decide +kernel)
  obtain ⟨panel, -, hiff⟩ := patch_exact_or_refused initial_largerWorld hP hrow hst
    (samplePatch_panelists rfl rfl hP) hrun
  exact ⟨P, row, panel, x, w', of_decide_eq_true hx, hiff⟩

/-- The schema has refused the edit. -/
def isIntegrityError : Except Exc InterviewRequestOut → Bool
  | .error e => decide (e = .integrityError)
  | .ok _ => false

/-- **A panelist who stays is refused by the database.** The panel is to be the one that it is. -/
theorem same_panel_fails : ∃ (P : Pool Effect Exc Response Session World Unit) (row : InterviewRequest)
    (x : Except Exc InterviewRequestOut) (s' : Session) (w' : World), Initial largerWorld ∧
    Pool.Reaches machine (fun _ => Any)
      (started samplePlatform (fun _ => (sampleCreate 10).1) largerWorld) P ∧
    P.shared.db.requests 10 = some row ∧ row.status ∈ editableStatuses ∧
    (∀ ids, (samplePatch 3).panelistIds = .value ids → ∀ u ∈ ids,
      ∃ user, P.shared.db.users u = some user ∧ user.role = .panelist) ∧
    Runs machine DatabaseUp (updateRequest sampleAdmin 10 (samplePatch 3)) {} P.shared x s' w' ∧
    x = .error .integrityError ∧
    ∀ panel, ¬ ExactOrRefused sampleAdmin 10 (samplePatch 3) row panel P.shared.db w'.db x := by
  obtain ⟨P, row, x, s', w', hP, hrow, hst, hrun, hx⟩ := patched_sample 3
    (p := fun x _ => isIntegrityError x) (by decide +kernel)
  cases x with
  | ok out => simp [isIntegrityError] at hx
  | error e =>
    obtain rfl := of_decide_eq_true hx
    refine ⟨P, row, _, s', w', initial_largerWorld, hP, hrow, hst, samplePatch_panelists rfl rfl hP, hrun,
      rfl, fun panel => ?_⟩
    rintro (⟨out, hout, -⟩ | ⟨⟨e, he, happ⟩, -⟩)
    · simp at hout
    · obtain rfl := Except.error.inj he
      simp [Exc.isApp] at happ

end InterviewScheduler.System
