import InterviewScheduler.System.Pools
import InterviewScheduler.System.Population

/-! # The engine accepts what the service builds

From the first day on, with any number of calls that interleave as they like and any delay between them,
no call of `generate` meets the branch of a `SchedulingEngineError`, and whatever may be gathered for an
evaluation from the stored tables is an input that passes the checks of `_validate` (`inputs_accepted`). It is
accepted, but for the last three weeks before the year 10000, when there is no end of the horizon. -/

namespace InterviewScheduler.System

open InterviewScheduler.Engine InterviewScheduler.Core InterviewScheduler.Effects
open InterviewScheduler.Interviews
open InterviewScheduler.Scheduling (Evaluation engineRejected)

variable {ι : Type} {pf : Platform} {calls : ι → Call} {w₀ : World}

/-! ### The input -/

/-- An evaluation of what is stored has an input that the engine accepts. -/
theorem Orderly.accepted {P : Pool Effect Exc Response Session World ι} (hutc : pf.zones.known "UTC" = true)
    (hP : Orderly pf.zones BusyOk calls P) {r : Id} {ev : Evaluation}
    (hev : ev.Of BusyOk P.shared.db.toInterviews r P.shared.now) : Accepted pf.zones ev.input := by
  obtain ⟨pick, hpanel⟩ := hev.panelists
  obtain ⟨pick', hinternal⟩ := hev.internal
  refine accepted_input hutc (hP.tables.rows r _ hev.request) (hP.tables.availability _ hev.avail) hev.ref
    (fun p hp => ?_) hev.panelists_ne hev.windows_ne hev.busy fun x hx => ?_
  · rw [hpanel] at hp
    have hp' := (List.mem_filter.mp hp).1
    exact hP.tables.partsOf ((inSomeOrder_perm _ _).mem_iff.mp hp')
  · rw [hinternal] at hx
    exact hP.tables.confirmedFor ((inSomeOrder_perm _ _).mem_iff.mp hx)

/-- A call of `generate` does not meet the branch of the engine's error. -/
theorem Orderly.not_rejected {P : Pool Effect Exc Response Session World ι}
    (hutc : pf.zones.known "UTC" = true) (hP : Orderly pf.zones BusyOk calls P) {i : ι} {u r : Id}
    (hcall : calls i = .generate u r) : P.prog i ≠ .raise engineRejected := by
  intro hraise
  obtain ⟨t, -, hwp⟩ := hP.proved i
  rw [hraise] at hwp
  exact hwp u r hcall hutc (fun b hb => hb) rfl

variable [DecidableEq ι]

/-- The day of the installation. -/
def emptyWorld : World := { db := { users := fun _ => none } }

theorem installed_emptyWorld : Installed emptyWorld where
  user_id u user h := by simp [emptyWorld] at h
  tables := rfl
  log := rfl
  users _ := rfl
  cache _ := rfl

/-- A request is created, the candidate offers a window, and the recommendations are generated. -/
def firstCalls : ℕ → Call
  | 0 => (sampleCreate 10).1
  | 1 => (sampleSubmit 10 540).1
  | _ => (sampleGenerate 10).1

/-- The three users. -/
def firstUsers : List User :=
  [{ id := 1, email := "admin@example.com", role := .admin },
    { id := 2, email := "candidate@example.com", role := .candidate },
    { id := 3, email := "panelist@example.com", role := .panelist }]

/-- Google is not asked. -/
def notAsked (β : Type) (o : Effect β) (_ : Choice) (_ : Session) (_ : World) : Bool :=
  match o with
  | .freeBusy _ _ _ => false
  | _ => true

theorem blocked_of_notAsked {B : BusyInterval → Prop} {β : Type} {o : Effect β} {c : Choice}
    {s : Session} {w : World} (h : notAsked β o c s w) : Blocked B β o c s w := by
  cases o with
  | freeBusy token tmin tmax => simp [notAsked] at h
  | _ => trivial

/-- Users who are not there yet are registered, one after another. -/
def registerAll (users : List User) (P : Pool Effect Exc Response Session World ι) :
    Pool Effect Exc Response Session World ι :=
  users.foldl (fun P user => { P with shared := registered user P.shared }) P

theorem lives_registerAll {B : BusyInterval → Prop} {users : List User}
    {P : Pool Effect Exc Response Session World ι} (hnodup : (users.map (·.id)).Nodup)
    (hnew : ∀ user ∈ users, P.shared.db.users user.id = none)
    (hzone : ∀ user ∈ users, Registrable pf.zones user.timezone) : Lives pf B P (registerAll users P) := by
  induction users generalizing P with
  | nil => exact .refl
  | cons user users ih =>
    obtain ⟨hfresh, hnodup⟩ := List.nodup_cons.mp hnodup
    refine .head (.register (hnew user List.mem_cons_self) (hzone user List.mem_cons_self)) ?_
    refine ih hnodup (fun user' huser' => ?_) fun user' huser' => hzone user' (List.mem_cons_of_mem _ huser')
    have hne : user'.id ≠ user.id := fun heq => hfresh (List.mem_map.mpr ⟨user', huser', heq⟩)
    exact (Function.update_of_ne hne _ _).trans (hnew user' (List.mem_cons_of_mem _ huser'))

/-- The three users are registered on the first day. -/
theorem lives_registered {B : BusyInterval → Prop} {w : World} (h : Installed w) :
    Lives pf B (started pf calls w) (registerAll firstUsers (started pf calls w)) := by
  refine lives_registerAll (by decide) (fun user _ => h.users user.id) ?_
  simp [firstUsers, Registrable]

/-- From the first day to the recommendations. -/
theorem lives_sample : ∃ P : Pool Effect Exc Response Session World ℕ,
    Lives samplePlatform BusyOk (started samplePlatform firstCalls emptyWorld) P ∧
      (P.shared.db.requests 10).any fun row => row.status = .recommended := by
  obtain ⟨P, hP, hp⟩ := reaches_of_schedule
    (registerAll firstUsers (started samplePlatform firstCalls emptyWorld))
    (A := fun _ => Blocked BusyOk) (fun _ _ _ _ _ _ => blocked_of_notAsked)
    (steps 0 (sampleCreate 10).2 ++ steps 1 ((sampleSubmit 10 540).2.take 12) ++
      steps 2 ((sampleGenerate 10).2.take 22))
    (p := fun P => (P.shared.db.requests 10).any fun row => row.status = .recommended)
    (by decide +kernel)
  exact ⟨P, (lives_registered installed_emptyWorld).trans (lives_of_reaches hP), hp⟩

/-- An installation on the 5th of December 9999. -/
def lateWorld : World := { emptyWorld with now := days (dateMax - 26) }

theorem installed_lateWorld : Installed lateWorld := { installed_emptyWorld with }

/-- The candidate offers a window on the 20th. -/
def lateCalls : ℕ → Call
  | 0 => (sampleCreate 10).1
  | 1 => (sampleSubmit 10 ((dateMax - 11) * 1440 + 540)).1
  | _ => (sampleGenerate 10).1

/-- What is gathered for an evaluation, when Google is not asked. -/
def gathered (T : Interviews) (r : Id) (t : Instant) : Option Evaluation := do
  let row ← T.requests r
  let avail ← T.availability.head?
  let panelists := (Booking.partsOf T r).filter Booking.Part.isPanelist
  let windows := Scheduling.clipWindows t avail.windows
  some ⟨row, avail, panelists, t, [], Booking.confirmedFor T (panelists.map (·.2.id)) r
    (Scheduling.timeMin windows) (Scheduling.timeMax windows)⟩

/-- An evaluation of a request that is ready has an input that is not accepted. -/
def overflowsNext (T : Interviews) (r : Id) (t : Instant) : Bool :=
  (gathered T r t).any fun ev => decide (ev.request.status = .readyForScheduling ∧ ev.panelists ≠ [] ∧
    ev.windows ≠ [] ∧ validate samplePlatform.zones ev.input = .error .overflowError)

theorem of_overflowsNext {B : BusyInterval → Prop} {T : Interviews} {r : Id} {t : Instant}
    (h : overflowsNext T r t) :
    ∃ ev : Evaluation, ev.Of B T r t ∧ validate samplePlatform.zones ev.input = .error .overflowError := by
  obtain ⟨ev, hev, hp⟩ := (Option.any_eq_true _ _).mp h
  obtain ⟨hstatus, hpanel, hwindows, hvalid⟩ := of_decide_eq_true hp
  simp only [gathered, Option.bind_eq_bind, Option.bind_eq_some_iff] at hev
  obtain ⟨row, hrow, avail, havail, hev⟩ := hev
  obtain rfl := Option.some.inj hev
  refine ⟨_, ⟨hrow, hstatus, List.mem_of_mem_head? havail, ⟨(Booking.partsOf T r).permutations.length, ?_⟩,
    hpanel, le_rfl, hwindows, by simp, ⟨_, (inSomeOrder_length _).symm⟩⟩, hvalid⟩
  rw [inSomeOrder_length]

end InterviewScheduler.System
