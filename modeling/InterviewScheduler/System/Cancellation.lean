import InterviewScheduler.System.Pools

/-! # Cancellation among other calls

A request that was cancelled is to stay CANCELLED, and without a CONFIRMED event. Two things can undo
it: a call commits a status that follows from a reading made before the cancellation, or the
cancellation does not see an event that was stored after its lookup. Without these it is absorbing, in
every interleaving and with locks that expire. With them it is not: the re-recommendation of
`reschedule` sets READY_FOR_SCHEDULING after its lock is released, without a look at the status. -/

namespace InterviewScheduler.System

open InterviewScheduler.Engine InterviewScheduler.Core InterviewScheduler.Effects
open InterviewScheduler.Lifecycle InterviewScheduler.Interviews

variable {ι : Type} {pf : Platform} {calls : ι → Call} {r : Id} {w₀ w : World}

/-- **Cancellation is absorbing**: the status and the events after it. -/
def Absorbed (r : Id) (w : World) : Prop :=
  Logged (· = .cancelled) r w.log →
    w.status r = some .cancelled ∧ ∀ e ∈ w.db.events, ¬ e.ConfirmedFor r

/-- A call that commits a status of the request has read it since the last cancellation, and a
cancellation has looked up the last CONFIRMED event. -/
def UpToDate (r : Id) (s : Session) (w : World) : Prop :=
  (∃ x ∈ s.pending, x.statusTarget = some r) →
    (∀ rd ∈ s.trace.reads r, ¬ Logged (· = .cancelled) r (w.log.drop rd.logged)) ∧
    (.setStatus r .cancelled ∈ s.pending → ∀ l ∈ s.trace.looked, l.requestId = r →
      ∀ e ∈ w.db.events.drop l.stored, ¬ e.ConfirmedFor r)

instance (r : Id) (s : Session) (w : World) : Decidable (UpToDate r s w) :=
  inferInstanceAs (Decidable (_ → _ ∧ _))

/-! ### What the readings say -/

/-- A reading after the cancellation is CANCELLED. -/
def SeesCancelled (r : Id) (st : RequestStatus) (n : ℕ) (w : World) : Prop :=
  n ≤ w.log.length ∧ (Logged (· = .cancelled) r (w.log.take n) → st = .cancelled)

/-- A lookup has found the CONFIRMED event among the ones that were stored then. -/
def LookedUp (r : Id) (event : Option Id) (n : ℕ) (w : World) : Prop :=
  n ≤ w.db.events.length ∧ ∀ e ∈ w.db.events.take n, e.ConfirmedFor r → event = some e.id

structure Absorbing (r : Id) (loc : ι → Session) (w : World) : Prop where
  wellFormed : WellFormed w.db.toInterviews
  absorbed : Absorbed r w
  reads : ∀ j st n, (loc j).trace.reads r = some ⟨st, n⟩ → SeesCancelled r st n w
  looked : ∀ j event n, (loc j).trace.looked = some ⟨r, event, n⟩ → LookedUp r event n w

theorem Absorbed.sees (h : Absorbed r w) {st : RequestStatus} (hst : w.status r = some st) :
    SeesCancelled r st w.log.length w := by
  refine ⟨le_rfl, fun hlog => ?_⟩
  rw [List.take_length] at hlog
  have hcancelled := (h hlog).1
  rw [hst] at hcancelled
  simpa using hcancelled

theorem lookedUp_now (hT : WellFormed w.db.toInterviews) :
    LookedUp r ((w.db.events.find? fun e => e.ConfirmedFor r).map (·.id)) w.db.events.length w := by
  refine ⟨le_rfl, fun e he hc => ?_⟩
  rw [List.take_length] at he
  cases hfind : w.db.events.find? (fun e => e.ConfirmedFor r) with
  | none =>
    have hnone := List.find?_eq_none.mp hfind e he
    simp [hc] at hnone
  | some e' =>
    have hdec := List.find?_some hfind
    have hc' : e'.ConfirmedFor r := of_decide_eq_true hdec
    have heq := hT.one_confirmed r e he e' (List.mem_of_find?_eq_some hfind) hc hc'
    rw [heq]
    rfl

section Steps

variable {s s' : Session} {w' : World} {T : Interviews}

theorem SeesCancelled.of_log {st : RequestStatus} {n : ℕ} {log : List StatusChange}
    (h : SeesCancelled r st n w) (hlog : w'.log = w.log ++ log) : SeesCancelled r st n w' := by
  obtain ⟨hn, hst⟩ := h
  refine ⟨?_, fun hl => ?_⟩
  · rw [hlog, List.length_append]
    omega
  · rw [hlog, List.take_append_of_le_length hn] at hl
    exact hst hl

theorem LookedUp.idle {event : Option Id} {n : ℕ} (h : LookedUp r event n w) (hw : Idle w w') :
    LookedUp r event n w' := by
  have hevents : w'.db.events = w.db.events := by rw [hw.tables]
  unfold LookedUp
  rw [hevents]
  exact h

theorem LookedUp.transaction {event : Option Id} {n : ℕ} (h : LookedUp r event n w)
    (htx : Transaction s w s' w' T) : LookedUp r event n w' := by
  obtain ⟨hn, hevent⟩ := h
  have hevents : w'.db.events = (Write.force s.pending w.db.toInterviews).events := by rw [htx.force]
  refine ⟨?_, fun e he hc => ?_⟩
  · rw [hevents]
    exact hn.trans (Write.length_events_force _ _)
  · rw [hevents] at he
    exact hevent e (Write.mem_take_force hn he hc.2) hc

/-- A transaction that sets no status of the request leaves a cancellation as it is. -/
theorem Absorbed.of_not_set {may : May} (h : Absorbed r w) (hd : Disciplined may s)
    (htx : Transaction s w s' w' T) (hset : ∀ st, .setStatus r st ∉ s.pending) : Absorbed r w' := by
  intro hlog
  rw [htx.log, logged_append] at hlog
  rcases hlog with hlog | ⟨ch, hch, rfl, -⟩
  · obtain ⟨hst, hnone⟩ := h hlog
    refine ⟨htx.status_of_not_set hset hst, fun e he hc => ?_⟩
    rw [htx.force] at he
    rcases Write.confirmed_force he hc.2 with ⟨hmem, -⟩ | hins
    · exact hnone e hmem hc
    · have hbooked := hd.of_insertEvent hins
      rw [hc.1] at hbooked
      exact hset _ hbooked
  · exact absurd (htx.of_mem hch).2 (hset _)

/-- A transaction that sets the status has read it since the last cancellation: there was none. -/
theorem Absorbed.of_set {may : May} {st : RequestStatus} (hd : Disciplined may s)
    (htx : Transaction s w s' w' T) (hset : .setStatus r st ∈ s.pending)
    (hreads : ∀ st n, s.trace.reads r = some ⟨st, n⟩ → SeesCancelled r st n w)
    (hlooked : ∀ event n, s.trace.looked = some ⟨r, event, n⟩ → LookedUp r event n w)
    (hcur : UpToDate r s w) : Absorbed r w' := by
  obtain ⟨hread, hlook⟩ := hcur ⟨_, hset, rfl⟩
  obtain ⟨⟨st₀, ⟨n, hn⟩, hfollows⟩, -, huniq⟩ := hd.of_setStatus hset
  have hnever : ¬ Logged (· = .cancelled) r w.log := by
    rw [logged_take_or_drop n, not_or]
    refine ⟨fun htake => ?_, hread _ hn⟩
    exact hfollows.not_terminal.1 ((hreads _ _ hn).2 htake)
  intro hlog
  rw [htx.log, logged_append] at hlog
  obtain ⟨ch, hch, rfl, hafter⟩ := hlog.resolve_left hnever
  obtain ⟨hst', hmem⟩ := htx.of_mem hch
  rw [hafter] at hst' hmem
  refine ⟨hst', fun e he hc => ?_⟩
  -- the cancellation has cancelled the event that it has looked up
  obtain ⟨event, m, hm, hpending⟩ := hd.of_released hmem (.inl rfl)
  rw [htx.force] at he
  rcases Write.confirmed_force he hc.2 with ⟨hold, hnot⟩ | hins
  · rw [← List.take_append_drop m w.db.events, List.mem_append] at hold
    rcases hold with hold | hold
    · have hevent := (hlooked _ _ hm).2 e hold hc
      rw [hpending, hevent] at hnot
      exact hnot (by simp [cancelLooked])
    · exact hlook hmem _ hm rfl e hold hc
  · rw [hpending] at hins
    cases event <;> simp [cancelLooked] at hins

end Steps

theorem absorbing_step [DecidableEq ι] :
    Preserves calls (fun _ => AtCommit (UpToDate r)) (Absorbing (ι := ι) r) := by
  intro loc i β o c x w s' w' T hI hcur hm
  rcases hm.tables with hidle | ⟨ho, hC, T', htx⟩
  · have hevents : w'.db.events = w.db.events := by rw [hidle.tables]
    refine ⟨?_, ?_, readings_step hm hI.reads (fun _ => hI.absorbed.sees) fun st n h => ?_,
      lookups_step hm hI.looked (lookedUp_now hI.wellFormed) fun _ _ h => h.idle hidle⟩
    · rw [hidle.tables]
      exact hI.wellFormed
    · unfold Absorbed
      rw [hidle.log, hidle.status, hevents]
      exact hI.absorbed
    · have hlog : w'.log = w.log ++ [] := by rw [hidle.log, List.append_nil]
      exact h.of_log hlog
  · refine ⟨wellFormed_of_transaction htx hI.wellFormed, ?_,
      readings_step hm hI.reads (fun _ => hI.absorbed.sees) fun st n h => h.of_log htx.log,
      lookups_step hm hI.looked (lookedUp_now hI.wellFormed) fun _ _ h => h.transaction htx⟩
    have hd := hC.disciplined not_false
    by_cases hset : ∃ st, .setStatus r st ∈ (loc i).pending
    · obtain ⟨st, hset⟩ := hset
      exact Absorbed.of_set hd htx hset (hI.reads i) (hI.looked i) (hcur ho)
    · exact hI.absorbed.of_not_set hd htx (not_exists.mp hset)

/-- **Cancellation is absorbing** in every interleaving in which no call commits a status that follows
from a reading made before it, and it has looked up the CONFIRMED event that there is. -/
theorem absorbed_of_reaches [DecidableEq ι] (hcalls : ∀ i, (calls i).Guarded r)
    (hT : WellFormed w₀.db.toInterviews) {P : Pool Effect Exc Response Session World ι}
    (h : Pool.Reaches machine (fun _ => AtCommit (UpToDate r)) (started pf calls w₀) P) :
    Absorbed r P.shared := by
  refine (invariant_of_reaches hcalls absorbing_step h
    ⟨hT, fun h => absurd h not_logged_nil, ?_, ?_⟩).absorbed
  · intro j st n hj
    simp at hj
  · intro j event n hj
    simp at hj

/-! ### A sample -/

/-- The request 10 with a booking that is not held in Google Calendar. -/
def bookedWorld : World := googleWorld .booked [{ sampleEvent with provider := .simulated }]

theorem wellFormed_bookedWorld : WellFormed bookedWorld.db.toInterviews where
  user_id := initial_sampleWorld.user_id
  events_nodup := by simp [bookedWorld, googleWorld]
  one_confirmed := by simp [bookedWorld, googleWorld]
  event_request := by simp [bookedWorld, googleWorld, sampleEvent]
  participant_user := wellFormed_googleWorld.participant_user
  runs := wellFormed_googleWorld.runs

/-- A reschedule and a cancellation of the request 10. -/
def rescheduleAndCancel : Bool → Call := pair (.reschedule 1 10 none) (.cancel 1 10 none)

theorem guarded_rescheduleAndCancel (i : Bool) : (rescheduleAndCancel i).Guarded 10 := by
  cases i with
  | true => exact .reschedule 1 10 none
  | false => exact .cancel 1 10 none

/-- The request is cancelled after the reschedule has read it. -/
theorem absorbed_of_reaches_sample : ∃ P : Pool Effect Exc Response Session World Bool,
    Logged (· = .cancelled) 10 P.shared.log ∧ Absorbed 10 P.shared := by
  obtain ⟨P, hP, hp⟩ := reaches_atCommit (started samplePlatform rescheduleAndCancel bookedWorld)
    (fun _ => UpToDate 10)
    (steps true (answered 3) ++ steps false (answered 3 ++ [pick 7] ++ answered 9))
    (p := fun P => Logged (· = .cancelled) 10 P.shared.log) (by decide +kernel)
  exact ⟨P, of_decide_eq_true hp,
    absorbed_of_reaches guarded_rescheduleAndCancel wellFormed_bookedWorld hP⟩

/-- **A cancelled interview comes back.** It is cancelled while the reschedule, which has released its
lock, sends its notice; the reschedule then makes it READY_FOR_SCHEDULING. -/
theorem reschedule_resurrects : ∃ P : Pool Effect Exc Response Session World Bool,
    WellFormed bookedWorld.db.toInterviews ∧ Pool.Reaches machine (fun _ => Any)
      (started samplePlatform rescheduleAndCancel bookedWorld) P ∧ ¬ Absorbed 10 P.shared := by
  obtain ⟨P, hP, hp⟩ := reaches_any (started samplePlatform rescheduleAndCancel bookedWorld)
    (steps true (answered 3 ++ [pick 7] ++ answered 9) ++
      steps false (answered 3 ++ [pick 8] ++ answered 8) ++ steps true (answered 6))
    (p := fun P => Logged (· = .cancelled) 10 P.shared.log ∧
      P.shared.status 10 = some .readyForScheduling) (by decide +kernel)
  obtain ⟨hlog, hst⟩ := of_decide_eq_true hp
  refine ⟨P, wellFormed_bookedWorld, hP, fun h => ?_⟩
  have hcancelled := (h hlog).1
  rw [hst] at hcancelled
  simp at hcancelled

end InterviewScheduler.System
