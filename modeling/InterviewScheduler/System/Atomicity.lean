import InterviewScheduler.System.Phantoms

/-! # Calls that are stopped

A call may raise, or the process may stop, at any point. Until its transaction is committed, with the
audit record in it, nothing of what it does may show. The transaction is not alone, however: a call
outside may find that the token of a calendar connection has lapsed, and commits that. All that is
pending in the session goes with it, and `decline` has a response pending by then. -/

namespace InterviewScheduler.System

open InterviewScheduler.Engine InterviewScheduler.Core InterviewScheduler.Effects
open InterviewScheduler.Lifecycle InterviewScheduler.Interviews

variable {pf : Platform} {w₀ w w' : World} {s s' : Session}

/-- What a call commits in one transaction is as it was: the interview tables, the responses and the
audit log. -/
structure Untouched (w₀ w : World) : Prop where
  tables : w.db.toInterviews = w₀.db.toInterviews
  responses : w.db.responses = w₀.db.responses
  audits : w.db.audits = w₀.db.audits

/-- The call's own transaction is not committed: the one with the audit record. -/
def BeforeFinal : Condition Effect Choice Session World := fun _ o c s w =>
  o.IsCommit → s.Audits → ∀ y s' w', machine.exec o c s w ≠ some (.ok y, s', w')

/-- A response of a participant is set. -/
def SetsResponse : SideWrite → Prop
  | .setResponse _ _ _ => True
  | _ => False

instance : DecidablePred SetsResponse
  | .setResponse _ _ _ => inferInstanceAs (Decidable True)
  | .setConnectionStatus _ _ | .setAccessToken _ _ _ | .insertTask _ | .insertAudit _
  | .insertNotification _ => inferInstanceAs (Decidable False)

/-- No calendar connection is changed while a response is pending. -/
def RenewsFirst : Condition Effect Choice Session World := fun _ o _ s _ =>
  ∀ x ∈ o.sideWrite, x.isRenewal = true → ∀ y ∈ s.side, ¬ SetsResponse y

/-- The runs that are stopped before the call's own transaction, and change connections first. -/
def Unfinished : Condition Effect Choice Session World := fun β o c s w =>
  BeforeFinal β o c s w ∧ RenewsFirst β o c s w

/-- Pending responses come after the changes of connections. -/
def Ordered (side : List SideWrite) : Prop :=
  side.Pairwise fun y x => SetsResponse y → x.isRenewal = false

/-! ### What is committed on the way -/

/-- A change that touches neither the responses nor the audit log. -/
theorem apply_of_not {x : SideWrite} (hx : ¬ SetsResponse x) (hax : ∀ row, x ≠ .insertAudit row)
    (db : Db) : (x.apply db).responses = db.responses ∧ (x.apply db).audits = db.audits := by
  cases x with
  | setResponse r u st => exact absurd trivial hx
  | insertAudit row => exact absurd rfl (hax row)
  | _ => exact ⟨rfl, rfl⟩

theorem foldl_of_not {side : List SideWrite} (hside : ∀ x ∈ side, ¬ SetsResponse x)
    (haudit : ∀ row, .insertAudit row ∉ side) (db : Db) :
    (side.foldl SideWrite.apply db).responses = db.responses ∧
      (side.foldl SideWrite.apply db).audits = db.audits := by
  induction side generalizing db with
  | nil => exact ⟨rfl, rfl⟩
  | cons x side ih =>
    obtain ⟨hr, ha⟩ := apply_of_not (hside x List.mem_cons_self)
      (fun row heq => haudit row (heq ▸ List.mem_cons_self)) db
    obtain ⟨hr', ha'⟩ := ih (fun y hy => hside y (List.mem_cons_of_mem _ hy))
      (fun row hrow => haudit row (List.mem_cons_of_mem _ hrow)) (x.apply db)
    exact ⟨hr'.trans hr, ha'.trans ha⟩

/-- When the responses come last, one that is followed by a renewal is not there. -/
theorem not_setsResponse_of_renews (hord : Ordered s.side) (hrenews : s.Renews) :
    ∀ x ∈ s.side, ¬ SetsResponse x := by
  intro x hx hset
  obtain ⟨before, after, hside⟩ := List.append_of_mem hx
  cases x with
  | setResponse r u st =>
    obtain ⟨y, hy, hrenewal⟩ := hrenews before after r u st hside
    rw [Ordered, hside, List.pairwise_append, List.pairwise_cons] at hord
    have hnot := hord.2.1.1 y hy trivial
    rw [hnot] at hrenewal
    exact absurd hrenewal (by simp)
  | _ => exact hset

/-! ### The run of a call -/

/-- What holds of a call that has not committed its transaction. -/
structure Uncommitted (w₀ : World) (s : Session) (w : World) : Prop where
  untouched : Untouched w₀ w
  journal : s.trace.journal = []
  ordered : Ordered s.side

theorem Uncommitted.init (w : World) : Uncommitted w {} w := ⟨⟨rfl, rfl, rfl⟩, rfl, .nil⟩

/-- **Every step before the call's own transaction leaves no trace of it.** -/
theorem Uncommitted.step {may : May} {creates : Prop} {β : Type} {o : Effect β} {c : Choice}
    {x : Except Exc β} (h : Uncommitted w₀ s w)
    (hduty : Duty creates (Commits True may fun _ _ => True) o s w.db.toInterviews)
    (hbefore : BeforeFinal β o c s w) (hfirst : RenewsFirst β o c s w)
    (hex : machine.exec o c s w = some (x, s', w')) : Uncommitted w₀ s' w' := by
  rcases respond_cases hex with ⟨ho, ⟨u, rfl⟩, T, hT, rfl, rfl⟩ | ⟨hn, hdb, -⟩
  · -- a commit without the audit record changes calendar connections only
    have hnot : ¬ s.Audits := fun haudits => hbefore ho haudits u _ _ hex
    have hC : Commits True may (fun _ _ => True) s w.db.toInterviews := by
      cases o <;> first | exact hduty | exact ho.elim
    obtain ⟨hp, hrenews⟩ := (hC.audited h.journal).resolve_left hnot
    rw [hp] at hT
    obtain rfl : w.db.toInterviews = T := Option.some.inj hT
    obtain ⟨hresponses, haudits⟩ := foldl_of_not (not_setsResponse_of_renews h.ordered hrenews)
      (not_exists.mp hnot) w.db
    refine ⟨⟨?_, ?_, ?_⟩, ?_, .nil⟩
    · rw [World.commit_toInterviews]
      exact h.untouched.tables
    · exact hresponses.trans h.untouched.responses
    · exact haudits.trans h.untouched.audits
    · change s.trace.journal ++ s.pending = []
      rw [h.journal, hp]
      rfl
  · obtain ⟨hjournal, hside⟩ := respond_idle hex hn
    refine ⟨?_, hjournal.trans h.journal, ?_⟩
    · have hdb : w'.db = w.db := hdb
      refine ⟨?_, ?_, ?_⟩
      · rw [hdb]
        exact h.untouched.tables
      · rw [hdb]
        exact h.untouched.responses
      · rw [hdb]
        exact h.untouched.audits
    · rcases hside with hside | hside | ⟨y, hy, hside⟩
      · rw [hside]
        exact h.ordered
      · rw [hside]
        exact .nil
      · rw [hside, Ordered, List.pairwise_append]
        refine ⟨h.ordered, List.pairwise_singleton _ _, fun z hz y' hy' hset => ?_⟩
        obtain rfl := List.mem_singleton.mp hy'
        by_contra hrenewal
        exact hfirst y' hy (by simpa using hrenewal) z hz hset

/-- **Lifecycle operations are atomic**, wherever they raise or are stopped, when no calendar connection
is changed while a response is pending. -/
theorem untouched_of_goes {call : Call} {p : M Response}
    (h : Goes machine Unfinished (handle pf call) {} w₀ p s w) : Untouched w₀ w := by
  have hp : wp (lifecycle True (fun _ _ => True) fun _ _ => True) (handle pf call) Closes
      ({}, w₀.db.toInterviews) :=
    closes_handle (fun _ _ _ => trivial) (fun h => absurd trivial h) fun _ _ _ _ _ _ => trivial
  refine (Goes.sound (faithful_alone _ _ Unfinished) (I := Uncommitted w₀)
    (fun o c s w x s' w' v hI hv hduty hcond hex => ?_) h rfl hp (.init w₀)).2.untouched
  subst hv
  obtain ⟨hbefore, hfirst⟩ := hcond
  exact hI.step hduty hbefore hfirst hex

/-! ### A sample -/

/-- No audit record is committed. -/
def beforeFinal (β : Type) (o : Effect β) (_ : Choice) (s : Session) (_ : World) : Bool :=
  match o with
  | .commit => s.side.all fun x => match x with
    | .insertAudit _ => false
    | _ => true
  | _ => true

theorem beforeFinal_of_check {β : Type} (o : Effect β) (c : Choice) (s : Session) (w : World)
    (h : beforeFinal β o c s w) : BeforeFinal β o c s w := by
  rintro ho ⟨row, hrow⟩
  cases o with
  | commit =>
    have hnot := List.all_eq_true.mp h _ hrow
    simp at hnot
  | _ => exact ho.elim

/-- The call is stopped after the choices, in a world that passes the test. -/
def stops (pf : Platform) (check : ∀ β : Type, Effect β → Choice → Session → World → Bool)
    (call : Call) (cs : List Choice) (p : World → Bool) (w₀ : World) : Bool :=
  (machine.go check (handle pf call) cs {} w₀).any fun x => p x.2.2

theorem goes_of_stops {check : ∀ β : Type, Effect β → Choice → Session → World → Bool}
    {C : Condition Effect Choice Session World} (hcheck : ∀ {β : Type} (o : Effect β) (c : Choice)
      (s : Session) (w : World), check β o c s w → C β o c s w) {call : Call} {cs : List Choice}
    {p : World → Bool} (h : stops pf check call cs p w₀) :
    ∃ q s w, Goes machine C (handle pf call) {} w₀ q s w ∧ p w := by
  obtain ⟨⟨q, s, w⟩, hgo, hp⟩ := (Option.any_eq_true _ _).mp h
  exact ⟨q, s, w, (goes_of_go hgo).mono hcheck, hp⟩

/-- The same, with the check of the other condition. -/
def unfinished (β : Type) (o : Effect β) (c : Choice) (s : Session) (w : World) : Bool :=
  beforeFinal β o c s w && match o with
  | .stageSide x => !x.isRenewal || s.side.all fun y => decide (¬ SetsResponse y)
  | _ => true

theorem unfinished_of_check {β : Type} (o : Effect β) (c : Choice) (s : Session) (w : World)
    (h : unfinished β o c s w) : Unfinished β o c s w := by
  obtain ⟨hbefore, hfirst⟩ := (Bool.and_eq_true _ _).mp h
  refine ⟨beforeFinal_of_check o c s w hbefore, fun x hx hrenewal y hy => ?_⟩
  cases o with
  | stageSide x' =>
    obtain rfl : x' = x := Option.some.inj hx
    simp only [hrenewal, Bool.not_true, Bool.false_or] at hfirst
    exact of_decide_eq_true (List.all_eq_true.mp hfirst y hy)
  | _ => simp [Effect.sideWrite] at hx

/-- A cancellation finds that the token has lapsed, which is recorded. Then the process stops. -/
theorem untouched_of_goes_sample : ∃ w₀ w : World, w₀.status 10 = some .booked ∧
    (w.db.connections 3).map (·.status) = some .expired ∧ Untouched w₀ w := by
  obtain ⟨w₀, -, hp⟩ := reaches_hosted (t := some (minutes 5)) (hostedBooked 10 540)
    (p := fun w₀ => w₀.status 10 = some .booked ∧
      stops googlePlatform unfinished (.cancel 1 10 none)
        (answered 3 ++ [pick 17] ++ answered 4 ++ [{ elapsed := 300000000 }] ++ answered 3)
        (fun w => (w.db.connections 3).map (·.status) = some .expired) w₀)
    (by decide +kernel)
  obtain ⟨hst, hgo⟩ := of_decide_eq_true hp
  obtain ⟨q, s, w, hgoes, hexpired⟩ := goes_of_stops unfinished_of_check hgo
  exact ⟨w₀, w, hst, of_decide_eq_true hexpired, untouched_of_goes hgoes⟩

/-- **A decline shows half.** The organiser's token has lapsed; the connection is set EXPIRED, and with
it the panelist's response is committed. The process stops there. -/
theorem decline_leaves_response : ∃ w₀ w : World, Initial (connectedWorld (some (minutes 5))) ∧
    Reaches googlePlatform Any (fun _ _ => True) (connectedWorld (some (minutes 5))) w₀ ∧
    (∃ q s, Goes machine BeforeFinal (handle googlePlatform (.decline 3 10 none)) {} w₀ q s w) ∧
    w₀.db.responses 10 3 = .pending ∧ w.db.responses 10 3 = .declined ∧
    w.status 10 = some .booked := by
  obtain ⟨w₀, hw₀, hp⟩ := reaches_hosted (t := some (minutes 5)) (hostedBooked 10 540)
    (p := fun w₀ => w₀.db.responses 10 3 = .pending ∧
      stops googlePlatform beforeFinal (.decline 3 10 none)
        (answered 4 ++ [pick 16] ++ answered 5 ++ [{ elapsed := 300000000 }] ++ answered 3)
        (fun w => w.db.responses 10 3 = .declined ∧ w.status 10 = some .booked) w₀)
    (by decide +kernel)
  obtain ⟨hpending, hgo⟩ := of_decide_eq_true hp
  obtain ⟨q, s, w, hgoes, hend⟩ := goes_of_stops beforeFinal_of_check hgo
  obtain ⟨hdeclined, hst⟩ := of_decide_eq_true hend
  exact ⟨w₀, w, initial_connectedWorld _, hw₀, ⟨q, s, hgoes⟩, hpending, hdeclined, hst⟩

end InterviewScheduler.System
