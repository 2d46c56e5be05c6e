import Mathlib.Data.Fintype.Prod
import InterviewScheduler.Interviews.Grants
import InterviewScheduler.System.Organiser
import InterviewScheduler.System.Pools

/-! # Rejected grants over whole runs

Calls that run at the same time, and OAuth callbacks among them. A grant that Google has rejected is REVOKED
from then on, and not used again, when Google rejects refreshes only, and when a rejection overlaps with no
other call that has read the connection. The other three calls of the client answer an authorisation error
without a change of the connection; and a call that has found a connection usable uses its token, whatever
has become of the connection since. -/

namespace InterviewScheduler.System

open InterviewScheduler.Engine InterviewScheduler.Core InterviewScheduler.Effects
open InterviewScheduler.Interviews InterviewScheduler.Calendar

variable {pf : Platform} {ι : Type} {calls : ι → Call} {β : Type} {h : List Holder}
  {w₀ w : World}

/-- The calls in progress, each with its record. -/
abbrev Dealers (ι : Type) := Pool Effect Exc Response (Session × Dealings) World ι

/-- The calls, none of which has begun. -/
def admitted (pf : Platform) (calls : ι → Call) (w : World) : Dealers ι where
  prog i := handle pf (calls i)
  loc _ := ({}, {})
  shared := w

/-- `upsert_connected`, at the end of an OAuth callback. -/
def upsertConnected (X : Connections) (userId : Id) (accessTokenEncrypted : String)
    (refreshTokenEncrypted : Option String) (tokenExpiresAt : Instant) : Connections :=
  Function.update X userId (some
    { userId, status := .connected, accessTokenEncrypted := some accessTokenEncrypted
      refreshTokenEncrypted := refreshTokenEncrypted.or ((X userId).bind (·.refreshTokenEncrypted))
      tokenExpiresAt := some tokenExpiresAt })

/-- The callback of a user has connected the calendar. -/
def connect (w : World) (userId : Id) (accessTokenEncrypted : String)
    (refreshTokenEncrypted : Option String) (tokenExpiresAt : Instant) : World :=
  { w with db := { w.db with
    connections := upsertConnected w.db.connections userId accessTokenEncrypted refreshTokenEncrypted
      tokenExpiresAt } }

/-- A call that Google has rejected joins the rejections. -/
def reject (pf : Platform) (o : Effect β) (x : Except Exc β) (K : Connections) (h : List Holder) :
    List Holder :=
  if rejected o x then carries pf o K :: h else h

/-- A condition on the steps of the calls in progress. -/
abbrev Overlap (ι : Type) := Dealers ι → ι → ∀ β : Type, Effect β → Choice → Prop

/-- The interleavings of calls and callbacks, with the rejections that no callback of a user has answered. -/
inductive Served [DecidableEq ι] (pf : Platform) (C : Overlap ι) (P₀ : Dealers ι) :
    List Holder → Dealers ι → Prop
  | init : Served pf C P₀ [] P₀
  | step {h : List Holder} {P : Dealers ι} {i : ι} {β : Type} {o : Effect β} {k : Except Exc β → M Response}
      {c : Choice} {x : Except Exc β} {v : Session × Dealings} {w : World} (hs : Served pf C P₀ h P)
      (hprog : P.prog i = .op o k) (hc : C P i β o c)
      (hexec : (rejecting pf).exec o c (P.loc i) P.shared = some (x, v, w)) :
      Served pf C P₀ (reject pf o x (P.loc i).2.known h) (P.advance i (k x) v w)
  | callback {h : List Holder} {P : Dealers ι} (hs : Served pf C P₀ h P) (userId : Id)
      (accessTokenEncrypted : String) (refreshTokenEncrypted : Option String) (tokenExpiresAt : Instant) :
      Served pf C P₀ (h.filter fun holder => !holder userId)
        { P with shared :=
          connect P.shared userId accessTokenEncrypted refreshTokenEncrypted tokenExpiresAt }

/-- The call has not ended. -/
def underWay (p : M Response) : Bool :=
  match p with
  | .op _ _ => true
  | _ => false

/-- The user whose connection an effect reads. -/
def readsOf (o : Effect β) : Option Id :=
  match o with
  | .connectionOf u => some u
  | _ => none

/-- A rejection concerns one call. When a call is rejected, no other one under way has read the connection,
and none reads it while the rejection waits to be stored. -/
structure Isolated (pf : Platform) (P : Dealers ι) (i : ι) (o : Effect β) (c : Choice) : Prop where
  rejection : c.answer = .auth → ∀ j, j ≠ i → underWay (P.prog j) = true →
    ∀ u ∈ (P.loc j).2.read, carries pf o (P.loc i).2.known u = false
  reading : ∀ u ∈ readsOf o, ∀ j, j ≠ i → ∀ holder ∈ (P.loc j).2.waiting, holder u = false

/-- Google rejects refreshes only, the database takes the status that follows, and a rejection concerns one
call. -/
def Mild (pf : Platform) : Overlap ι := fun P i β o c =>
  RejectsRefreshes β o c (P.loc i) P.shared ∧ Isolated pf P i o c

/-- The user's connection is one of those with which the rejected call was made, and it is REVOKED or about
to be by the call that was rejected. -/
def Dealt (P : Dealers ι) (holder : Holder) (u : Id) : Prop :=
  holder u = true ∧ (Revoked u P.shared.db.connections ∨
    ∃ i, underWay (P.prog i) = true ∧ (P.loc i).2.waiting = some holder)

/-! ### What a step does -/

section Connections

variable {K X : Connections} {u : Id} {x : SideWrite} {side : List SideWrite} {conn : CalendarConnection}

theorem connections_apply (x : SideWrite) (db : Db) : (x.apply db).connections = renew db.connections x := by
  cases x <;> rfl

theorem connections_foldl_apply (side : List SideWrite) (db : Db) :
    (side.foldl SideWrite.apply db).connections = side.foldl renew db.connections := by
  induction side generalizing db with
  | nil => rfl
  | cons x side ih => rw [List.foldl_cons, List.foldl_cons, ih, connections_apply]

/-- A write about another user's connection. -/
theorem renew_of_ne (hne : renewed x ≠ some u) : renew K x u = K u := by
  cases x with
  | setConnectionStatus u' st =>
    have hu : u ≠ u' := fun h => hne (by rw [h]; rfl)
    exact Function.update_of_ne hu _ _
  | setAccessToken u' tok exp =>
    have hu : u ≠ u' := fun h => hne (by rw [h]; rfl)
    exact Function.update_of_ne hu _ _
  | _ => rfl

/-- A write keeps the status of a connection, or sets it to another one than REVOKED, or to REVOKED. -/
theorem renew_eq (u : Id) (x : SideWrite) :
    ∃ f : CalendarConnection → CalendarConnection, (∀ K, renew K x u = (K u).map f) ∧
      ((∀ conn, (f conn).status = conn.status) ∨ (∀ conn, (f conn).status ≠ .revoked) ∨
        x = .setConnectionStatus u .revoked ∧ ∀ conn, (f conn).status = .revoked) := by
  by_cases hx : renewed x = some u
  · cases x with
    | setConnectionStatus u' st =>
      obtain rfl : u' = u := Option.some.inj hx
      refine ⟨fun c => { c with status := st }, fun K => Function.update_self .., ?_⟩
      by_cases hst : st = .revoked
      · exact .inr (.inr ⟨by rw [hst], fun _ => hst⟩)
      · exact .inr (.inl fun _ => hst)
    | setAccessToken u' tok exp =>
      obtain rfl : u' = u := Option.some.inj hx
      exact ⟨fun c => { c with
        accessTokenEncrypted := some tok, tokenExpiresAt := some exp, status := .connected },
        fun K => Function.update_self .., .inr (.inl fun _ => by simp)⟩
    | _ => cases hx
  · exact ⟨id, fun K => by simp [renew_of_ne hx], .inl fun _ => rfl⟩

theorem isSome_foldl (side : List SideWrite) (u : Id) : (side.foldl renew K u).isSome = (K u).isSome := by
  induction side generalizing K with
  | nil => rfl
  | cons x side ih =>
    obtain ⟨f, hf, -⟩ := renew_eq u x
    rw [List.foldl_cons, ih, hf, Option.isSome_map]

/-- A connection that is known is stored, and REVOKED only if it is known to be. -/
def Agrees (K X : Connections) : Prop :=
  ∀ u conn, K u = some conn → ∃ row, X u = some row ∧ (row.status = .revoked → conn.status = .revoked)

/-- A connection is read. -/
theorem agrees_update {row : Option CalendarConnection} (h : Agrees K X) (hrow : X u = row) :
    Agrees (Function.update K u row) X := by
  intro u' conn hconn
  by_cases hu : u' = u
  · subst hu
    rw [Function.update_self] at hconn
    exact ⟨conn, hrow.trans hconn, id⟩
  · rw [Function.update_of_ne hu] at hconn
    exact h u' conn hconn

/-- The caller's own writes. -/
theorem agrees_renew (h : Agrees K X) (x : SideWrite) : Agrees (renew K x) (renew X x) := by
  intro u conn hconn
  obtain ⟨f, hf, hst⟩ := renew_eq u x
  rw [hf] at hconn
  obtain ⟨conn, hknown, rfl⟩ := Option.map_eq_some_iff.mp hconn
  obtain ⟨row, hrow, hagrees⟩ := h u conn hknown
  refine ⟨f row, by rw [hf, hrow, Option.map_some], fun hrevoked => ?_⟩
  rcases hst with hkeeps | hnever | ⟨-, halways⟩
  · rw [hkeeps] at hrevoked ⊢
    exact hagrees hrevoked
  · exact absurd hrevoked (hnever row)
  · exact halways conn

theorem agrees_foldl (h : Agrees K X) : Agrees (side.foldl renew K) (side.foldl renew X) := by
  induction side generalizing K X with
  | nil => exact h
  | cons x side ih => exact ih (agrees_renew h x)

/-- The writes of another call, which makes no connection REVOKED that is known. -/
theorem agrees_other (h : Agrees K X) (hnone : ∀ u, .setConnectionStatus u .revoked ∈ side → K u = none) :
    Agrees K (side.foldl renew X) := by
  induction side generalizing X with
  | nil => exact h
  | cons x side ih =>
    refine ih (fun u conn hconn => ?_) fun u hu => hnone u (List.mem_cons_of_mem _ hu)
    obtain ⟨f, hf, hst⟩ := renew_eq u x
    obtain ⟨row, hrow, hagrees⟩ := h u conn hconn
    refine ⟨f row, by rw [hf, hrow, Option.map_some], fun hrevoked => ?_⟩
    rcases hst with hkeeps | hnever | ⟨rfl, -⟩
    · rw [hkeeps] at hrevoked
      exact hagrees hrevoked
    · exact absurd hrevoked (hnever row)
    · rw [hnone u List.mem_cons_self] at hconn
      cases hconn

theorem not_revoked (h : Agrees K X) (hu : Unrevoked u K) : ¬ Revoked u X := by
  obtain ⟨conn, hconn, hst⟩ := hu
  obtain ⟨row, hrow, hagrees⟩ := h u conn hconn
  rintro ⟨row', hrow', hrevoked⟩
  rw [hrow, Option.some.injEq] at hrow'
  exact hst (hagrees (hrow' ▸ hrevoked))

/-- A REVOKED connection stays so while others are changed. -/
theorem revoked_foldl (h : Revoked u X) (hne : ∀ x ∈ side, renewed x ≠ some u) :
    Revoked u (side.foldl renew X) := by
  induction side generalizing X with
  | nil => exact h
  | cons x side ih =>
    refine ih ?_ fun y hy => hne y (List.mem_cons_of_mem _ hy)
    unfold Revoked
    rw [renew_of_ne (hne x List.mem_cons_self)]
    exact h

/-- The last write makes it REVOKED. -/
theorem revoked_of_stored (h : (X u).isSome) :
    Revoked u ((side ++ [SideWrite.setConnectionStatus u .revoked]).foldl renew X) := by
  rw [List.foldl_append]
  obtain ⟨row, hrow⟩ := Option.isSome_iff_exists.mp ((isSome_foldl side u).trans h)
  exact ⟨{ row with status := .revoked }, by simp [Calendar.renew, hrow], rfl⟩

end Connections

/-- What a step does to the record of the call and to the connections. -/
inductive Dealing (pf : Platform) (o : Effect β) (c : Choice) (x : Except Exc β)
    (v : Session × Dealings) (w : World) (d : Dealings) (w' : World) : Prop
  | quiet (hx : rejected o x = false) (hd : d = v.2) (hw : w'.db.connections = w.db.connections)
  | read {u : Id} {row : Option CalendarConnection} (hx : rejected o x = false) (hu : readsOf o = some u)
      (hrow : w.db.connections u = row)
      (hd : d = { v.2 with read := u :: v.2.read, known := Function.update v.2.known u row })
      (hw : w'.db.connections = w.db.connections)
  | committed (hx : rejected o x = false) (ho : o.IsCommit)
      (hd : d = { v.2 with known := v.1.side.foldl renew v.2.known, waiting := none })
      (hw : w'.db.connections = v.1.side.foldl renew w.db.connections)
  | rejected (hx : rejected o x = true) (hc : c.answer = .auth) (ho : isGoogle o = true)
      (hd : d = { v.2 with waiting := some (carries pf o v.2.known) })
      (hw : w'.db.connections = w.db.connections)

theorem isGoogle_of_rejected {o : Effect β} {x : Except Exc β} (hx : rejected o x = true) :
    isGoogle o = true := by
  unfold rejected at hx
  split at hx
  · exact hx
  · cases hx

theorem auth_of_rejected {o : Effect β} {a : Answer} {x : Except Exc β} {s s' : Session} {w w' : World}
    (hx : rejected o x = true) (hex : respond o a s w = some (x, s', w')) : a = .auth := by
  have ho : isGoogle o = true := isGoogle_of_rejected hx
  cases o with
  | createEvent | deleteEvent | freeBusy | refreshToken =>
    simp only [respond, googleCall] at hex
    repeat' split at hex
    all_goals simp only [Option.some.injEq, Prod.mk.injEq, reduceCtorEq] at hex
    all_goals obtain ⟨rfl, rfl, rfl⟩ := hex
    all_goals first
      | rfl
      | simp [rejected] at hx
  | _ => simp [isGoogle] at ho

theorem dealing_of_exec {o : Effect β} {c : Choice} {x : Except Exc β} {v v' : Session × Dealings}
    {w w' : World} (hex : (rejecting pf).exec o c v w = some (x, v', w')) :
    Dealing pf o c x v w v'.2 w' := by
  obtain ⟨s', d⟩ := v'
  obtain ⟨hex, hd⟩ := of_exec_recording (s := v.1) (h := v.2) hex
  have hcases := respond_cases (w := w.elapse c) hex
  have hquiet : (¬ o.IsCommit ∨ ∃ e, x = .error e) → w'.db.connections = w.db.connections := by
    intro hn
    rcases hcases with ⟨ho, ⟨u, rfl⟩, -⟩ | ⟨-, hdb, -⟩
    · rcases hn with hn | ⟨e, he⟩
      · exact absurd ho hn
      · cases he
    · rw [hdb]
      rfl
  by_cases hx : rejected o x = true
  · have ha : c.answer = .auth := auth_of_rejected hx hex
    have ho : isGoogle o = true := isGoogle_of_rejected hx
    refine .rejected hx ha ho ?_ (hquiet (.inl fun hc => ?_))
    · cases o with
      | createEvent | deleteEvent | freeBusy | refreshToken => simpa [note, hx] using hd
      | _ => simp [isGoogle] at ho
    · cases o <;> simp_all [isGoogle, Effect.IsCommit]
  · rw [Bool.not_eq_true] at hx
    cases o with
    | connectionOf u =>
      cases x with
      | error e => exact .quiet hx (hd.trans (note_error rfl e)) (hquiet (.inl id))
      | ok row =>
        change respond (.connectionOf u) c.answer v.1 (w.elapse c) = _ at hex
        simp only [respond] at hex
        rcases dbCall_cases hex with ⟨e, -, hok, -⟩ | ⟨-, n, hex⟩
        · cases hok
        · simp only [Option.some.injEq, Prod.mk.injEq, Except.ok.injEq] at hex
          exact .read hx rfl hex.1 hd (hquiet (.inl id))
    | commit =>
      cases x with
      | error e => exact .quiet hx (hd.trans (note_error rfl e)) (hquiet (.inr ⟨e, rfl⟩))
      | ok a =>
        rcases hcases with ⟨-, -, T, -, -, rfl⟩ | ⟨hn, -, -⟩
        · exact .committed hx trivial hd (connections_foldl_apply _ _)
        · simp [Effect.IsCommit] at hn
    | _ => exact .quiet hx (by simpa [note, hx] using hd) (hquiet (.inl id))

/-! ### What holds between the steps -/

theorem seated_of_initial (h₀ : Initial w₀) : Seated w₀.db.toInterviews := by
  refine ⟨h₀.user_id, fun r => ?_⟩
  rw [h₀.tables]
  simp

/-- What the calls rely on, and the rejections that are stored or about to be. -/
structure Upheld (pf : Platform) (h : List Holder) (P : Dealers ι) : Prop where
  proved : ∀ i, wp (granting pf) (P.prog i) (fun _ v => InOrder v) (P.loc i)
  keyed : Keyed P.shared
  seated : Seated P.shared.db.toInterviews
  agrees : ∀ i, underWay (P.prog i) = true → Agrees (P.loc i).2.known P.shared.db.connections
  /-- only a call that has read a connection knows it -/
  read : ∀ i u, (P.loc i).2.known u ≠ none → u ∈ (P.loc i).2.read
  /-- while a rejection waits, no other call knows the connection -/
  apart : ∀ i j, j ≠ i → underWay (P.prog j) = true → ∀ holder ∈ (P.loc i).2.waiting,
    ∀ u, holder u = true → (P.loc j).2.known u = none
  heeded : ∀ holder ∈ h, ∃ u, Dealt P holder u

section Steps

variable {P P' : Dealers ι} {i j : ι} {o : Effect β} {k : Except Exc β → M Response} {c : Choice}
  {x : Except Exc β} {v : Session × Dealings} {holder : Holder} {u : Id}

theorem underWay_of_op (hprog : P.prog i = .op o k) : underWay (P.prog i) = true := by
  rw [hprog]
  rfl

/-- A call that has ended has stored its rejections. -/
theorem underWay_of_waiting {p : M Response} (hp : wp (granting pf) p (fun _ v => InOrder v) v)
    (hw : v.2.waiting = some holder) : underWay p = true := by
  have hended : ¬ InOrder v := fun ⟨K, hK⟩ => by
    rw [hK.waiting] at hw
    cases hw
  cases p with
  | op o k => rfl
  | ret a => exact absurd hp hended
  | raise e => exact absurd hp hended

/-- A rejection stays dealt with when the connections stay, and the calls that have yet to store it do. -/
theorem Dealt.mono (h : Dealt P holder u) (hX : P'.shared.db.connections = P.shared.db.connections)
    (hproved : ∀ j, wp (granting pf) (P'.prog j) (fun _ v => InOrder v) (P'.loc j))
    (hwait : ∀ j, (P.loc j).2.waiting = some holder → (P'.loc j).2.waiting = some holder) :
    Dealt P' holder u := by
  obtain ⟨hu, hr | ⟨j, -, hw⟩⟩ := h
  · exact ⟨hu, .inl (hX ▸ hr)⟩
  · exact ⟨hu, .inr ⟨j, underWay_of_waiting (hproved j) (hwait j hw), hwait j hw⟩⟩

/-- A callback connects its user's calendar only. -/
theorem Upheld.callback (hU : Upheld pf h P) (userId : Id) (accessTokenEncrypted : String)
    (refreshTokenEncrypted : Option String) (tokenExpiresAt : Instant) :
    Upheld pf (h.filter fun holder => !holder userId)
      { P with shared :=
        connect P.shared userId accessTokenEncrypted refreshTokenEncrypted tokenExpiresAt } := by
  refine
    { hU with
      keyed := fun u conn hconn => ?_
      agrees := fun i hi u conn hconn => ?_
      heeded := fun holder hmem => ?_ }
  · change upsertConnected P.shared.db.connections userId accessTokenEncrypted refreshTokenEncrypted
      tokenExpiresAt u = some conn at hconn
    by_cases hu : u = userId
    · subst hu
      simp only [upsertConnected, Function.update_self, Option.some.injEq] at hconn
      rw [← hconn]
    · simp only [upsertConnected, Function.update_of_ne hu] at hconn
      exact hU.keyed u conn hconn
  · by_cases hu : u = userId
    · subst hu
      exact ⟨_, Function.update_self .., fun hrevoked => by simp at hrevoked⟩
    · obtain ⟨row, hrow, hagrees⟩ := hU.agrees i hi u conn hconn
      exact ⟨row, (Function.update_of_ne hu ..).trans hrow, hagrees⟩
  · obtain ⟨hmem, hnot⟩ := List.mem_filter.mp hmem
    obtain ⟨u, hu, hrev | hwait⟩ := hU.heeded holder hmem
    · have hne : u ≠ userId := by
        rintro rfl
        simp [hu] at hnot
      obtain ⟨conn, hconn, hst⟩ := hrev
      exact ⟨u, hu, .inl ⟨conn, (Function.update_of_ne hne ..).trans hconn, hst⟩⟩
    · exact ⟨u, hu, .inr hwait⟩

section Fields

variable (hU : Upheld pf h P) (hprog : P.prog i = .op o k)
  (hd : Dealing pf o c x (P.loc i) P.shared v.2 w)

include hU hd in
/-- A rejection that now waits concerns no connection that another call knows. -/
theorem Upheld.apart_own (hisolated : Isolated pf P i o c) (hji : j ≠ i)
    (hj : underWay (P.prog j) = true) (hw : v.2.waiting = some holder) (hu : holder u = true) :
    (P.loc j).2.known u = none := by
  cases hd with
  | quiet _ hd _ => exact hU.apart i j hji hj holder (by rw [hd] at hw; exact hw) u hu
  | read _ _ _ hd _ => exact hU.apart i j hji hj holder (by rw [hd] at hw; exact hw) u hu
  | committed _ _ hd _ => simp [hd] at hw
  | rejected _ hc _ hd _ =>
    rw [hd, Option.some.injEq] at hw
    by_contra hknown
    have hcarries := hisolated.rejection hc j hji hj u (hU.read j u hknown)
    rw [← hw, hcarries] at hu
    cases hu

include hU hprog hd in
/-- The caller comes to know no connection that another one's rejection concerns. -/
theorem Upheld.apart_other (hisolated : Isolated pf P i o c) (hji : j ≠ i)
    (hw : (P.loc j).2.waiting = some holder) (hu : holder u = true) : v.2.known u = none := by
  have hnone : (P.loc i).2.known u = none := hU.apart j i hji.symm (underWay_of_op hprog) holder hw u hu
  cases hd with
  | quiet _ hd _ => rwa [hd]
  | @read u' row _ hread _ hd _ =>
    rw [hd]
    have hne : u ≠ u' := by
      rintro rfl
      rw [hisolated.reading u hread j hji holder hw] at hu
      cases hu
    exact (Function.update_of_ne hne ..).trans hnone
  | committed _ _ hd _ =>
    rw [hd, ← Option.not_isSome_iff_eq_none, isSome_foldl, hnone]
    simp
  | rejected _ _ _ hd _ => rwa [hd]

variable [DecidableEq ι]

include hU hprog hd in
theorem Upheld.agrees_step (hheeds : Heeds pf β o (P.loc i))
    (hj : underWay ((P.advance i (k x) v w).prog j) = true) :
    Agrees ((P.advance i (k x) v w).loc j).2.known w.db.connections := by
  by_cases hji : j = i
  · subst hji
    have ha := hU.agrees j (underWay_of_op hprog)
    simp only [Pool.advance, Function.update_self]
    cases hd with
    | quiet _ hd hw => rwa [hd, hw]
    | read _ _ hrow hd hw =>
      rw [hd, hw]
      exact agrees_update ha hrow
    | committed _ _ hd hw =>
      rw [hd, hw]
      exact agrees_foldl ha
    | rejected _ _ _ hd hw => rwa [hd, hw]
  · simp only [Pool.advance, Function.update_of_ne hji] at hj ⊢
    have ha := hU.agrees j hj
    cases hd with
    | quiet _ _ hw => rwa [hw]
    | read _ _ _ _ hw => rwa [hw]
    | committed _ ho _ hw =>
      rw [hw]
      refine agrees_other ha fun u hu => ?_
      obtain ⟨holder, hmem, hholder⟩ := (hheeds.2 ho).rejected u hu
      exact hU.apart i j hji hj holder hmem u hholder
    | rejected _ _ _ _ hw => rwa [hw]

include hU hd in
theorem Upheld.read_step (hknown : ((P.advance i (k x) v w).loc j).2.known u ≠ none) :
    u ∈ ((P.advance i (k x) v w).loc j).2.read := by
  by_cases hji : j = i
  · subst hji
    simp only [Pool.advance, Function.update_self] at hknown ⊢
    cases hd with
    | quiet _ hd _ =>
      rw [hd] at hknown ⊢
      exact hU.read j u hknown
    | @read u' row _ _ _ hd _ =>
      rw [hd] at hknown ⊢
      by_cases hu : u = u'
      · simp [hu]
      · refine List.mem_cons_of_mem _ (hU.read j u ?_)
        simpa only [Function.update_of_ne hu] using hknown
    | committed _ _ hd _ =>
      rw [hd] at hknown ⊢
      refine hU.read j u fun hnone => hknown ?_
      rw [← Option.not_isSome_iff_eq_none, isSome_foldl, hnone]
      simp
    | rejected _ _ _ hd _ =>
      rw [hd] at hknown ⊢
      exact hU.read j u hknown
  · simp only [Pool.advance, Function.update_of_ne hji] at hknown ⊢
    exact hU.read j u hknown

include hU hprog hd in
theorem Upheld.apart_step (hisolated : Isolated pf P i o c) {l : ι} (hlj : l ≠ j)
    (hl : underWay ((P.advance i (k x) v w).prog l) = true)
    (hw : ((P.advance i (k x) v w).loc j).2.waiting = some holder) (hu : holder u = true) :
    ((P.advance i (k x) v w).loc l).2.known u = none := by
  by_cases hji : j = i
  · subst hji
    simp only [Pool.advance, Function.update_self, Function.update_of_ne hlj] at hl hw ⊢
    exact hU.apart_own hd hisolated hlj hl hw hu
  · simp only [Pool.advance, Function.update_of_ne hji] at hw
    by_cases hli : l = i
    · subst hli
      simp only [Pool.advance, Function.update_self]
      exact hU.apart_other hprog hd hisolated hji hw hu
    · simp only [Pool.advance, Function.update_of_ne hli] at hl ⊢
      exact hU.apart j l hlj hl holder hw u hu

include hU hprog hd in
/-- **A rejection is stored, or waits to be.** -/
theorem Upheld.heeded_step (hheeds : Heeds pf β o (P.loc i))
    (hproved : ∀ j, wp (granting pf) ((P.advance i (k x) v w).prog j) (fun _ v => InOrder v)
      ((P.advance i (k x) v w).loc j))
    (hmem : holder ∈ reject pf o x (P.loc i).2.known h) : ∃ u, Dealt (P.advance i (k x) v w) holder u := by
  -- the rejections that wait, when the caller's own does
  have hwaits : ∀ j, (j = i → v.2.waiting = (P.loc i).2.waiting) → (P.loc j).2.waiting = some holder →
      ((P.advance i (k x) v w).loc j).2.waiting = some holder := by
    intro j hown hw
    by_cases hji : j = i
    · subst hji
      simpa only [Pool.advance, Function.update_self] using (hown rfl).trans hw
    · simpa only [Pool.advance, Function.update_of_ne hji] using hw
  cases hd with
  | quiet hx hd hw =>
    obtain ⟨u, hu⟩ := hU.heeded holder (by simpa [reject, hx] using hmem)
    exact ⟨u, hu.mono hw hproved fun j => hwaits j fun _ => by rw [hd]⟩
  | read hx _ _ hd hw =>
    obtain ⟨u, hu⟩ := hU.heeded holder (by simpa [reject, hx] using hmem)
    exact ⟨u, hu.mono hw hproved fun j => hwaits j fun _ => by rw [hd]⟩
  | committed hx ho hd hw =>
    have hcovered : Covered (P.loc i) := hheeds.2 ho
    have hagrees := hU.agrees i (underWay_of_op hprog)
    obtain ⟨u, hu, hrev | ⟨j, hj, hwait⟩⟩ := hU.heeded holder (by simpa [reject, hx] using hmem)
    · -- what is REVOKED is not written to
      refine ⟨u, hu, .inl ?_⟩
      change Revoked u w.db.connections
      rw [hw]
      exact revoked_foldl hrev fun y hy hyu => not_revoked hagrees (hcovered.usable y hy u hyu) hrev
    · by_cases hji : j = i
      · -- the caller stores it
        subst hji
        obtain ⟨u', side, hu', hside⟩ := hcovered.stored holder hwait
        refine ⟨u', hu', .inl ?_⟩
        change Revoked u' w.db.connections
        rw [hw, hside]
        obtain ⟨conn, hconn, -⟩ := hcovered.usable (.setConnectionStatus u' .revoked) (by simp [hside]) u' rfl
        obtain ⟨row, hrow, -⟩ := hagrees u' conn hconn
        exact revoked_of_stored (by simp [hrow])
      · have hwait' := hwaits j (fun h => absurd h hji) hwait
        exact ⟨u, hu, .inr ⟨j, underWay_of_waiting (hproved j) hwait', hwait'⟩⟩
  | rejected hx _ ho hd hw =>
    have hgranted : Granted pf o (P.loc i).2 := hheeds.1 ho
    simp only [reject, hx, if_true, List.mem_cons] at hmem
    rcases hmem with rfl | hmem
    · obtain ⟨u, hu, -⟩ := hgranted.token
      have hwait : ((P.advance i (k x) v w).loc i).2.waiting = some (carries pf o (P.loc i).2.known) := by
        simp only [Pool.advance, Function.update_self, hd]
      exact ⟨u, hu, .inr ⟨i, underWay_of_waiting (hproved i) hwait, hwait⟩⟩
    · obtain ⟨u, hu⟩ := hU.heeded holder hmem
      refine ⟨u, hu.mono hw hproved fun j hwait => hwaits j (fun hji => ?_) hwait⟩
      rw [hji, hgranted.stored] at hwait
      cases hwait

end Fields

variable [DecidableEq ι]

/-- **Every step keeps it.** -/
theorem Upheld.step (hU : Upheld pf h P) (hprog : P.prog i = .op o k) (hc : Mild pf P i β o c)
    (hexec : (rejecting pf).exec o c (P.loc i) P.shared = some (x, v, w)) :
    Upheld pf (reject pf o x (P.loc i).2.known h) (P.advance i (k x) v w) := by
  have hknows : Knows (P.loc i) P.shared := ⟨hU.keyed, hU.seated⟩
  obtain ⟨hheeds, hproved⟩ := Pool.amid_advance hU.proved hprog hknows hc.1 hexec
  have hd : Dealing pf o c x (P.loc i) P.shared v.2 w := dealing_of_exec hexec
  have hex : machine.exec o c (P.loc i).1 P.shared = some (x, v.1, w) := (of_exec_recording hexec).1
  exact
    { proved := hproved
      keyed := hU.keyed.step hex
      seated := hU.seated.step hex
      agrees := fun j hj => hU.agrees_step hprog hd hheeds hj
      read := fun j u hknown => hU.read_step hd hknown
      apart := fun j l hlj hl holder hw u hu => hU.apart_step hprog hd hc.2 hlj hl hw hu
      heeded := fun holder hmem => hU.heeded_step hprog hd hheeds hproved hmem }

theorem upheld_of_served (h₀ : Initial w₀) (hk : Keyed w₀)
    (hs : Served pf (Mild pf) (admitted pf calls w₀) h P) : Upheld pf h P := by
  induction hs with
  | init =>
    have hrest : AtRest (({}, {}) : Session × Dealings) :=
      ⟨fun _ => none, ⟨rfl, rfl, by simp, by simp⟩, rfl⟩
    exact
      { proved := fun i => inOrder_handle hrest (calls i)
        keyed := hk
        seated := seated_of_initial h₀
        agrees := fun _ _ u conn hconn => by simp [admitted] at hconn
        read := fun _ u hknown => absurd rfl hknown
        apart := fun _ _ _ _ _ hw => by simp [admitted] at hw
        heeded := by simp }
  | step _ hprog hc hexec ih => exact ih.step hprog hc hexec
  | callback _ userId accessTokenEncrypted refreshTokenEncrypted tokenExpiresAt ih =>
    exact ih.callback userId accessTokenEncrypted refreshTokenEncrypted tokenExpiresAt

/-- **A rejected grant is not used again.** Whenever Google rejects refreshes only, the database takes the
status that follows, and a rejection concerns one call: at every point of the interleaving every rejected
grant is REVOKED, or is about to be by the call that was rejected. A call of Google carries the token of a
user's connection that is not REVOKED, and every grant that was rejected before is another user's. -/
theorem granted_of_served (h₀ : Initial w₀) (hk : Keyed w₀)
    (hs : Served pf (Mild pf) (admitted pf calls w₀) h P) :
    (∀ holder ∈ h, ∃ u, Dealt P holder u) ∧
      ∀ {β : Type} (i : ι) (o : Effect β) (k : Except Exc β → M Response), P.prog i = .op o k →
        isGoogle o = true → ∃ u, carries pf o (P.loc i).2.known u = true ∧
          ¬ Revoked u P.shared.db.connections ∧
            ∀ holder ∈ h, ∃ u', u' ≠ u ∧ Dealt P holder u' := by
  have hU := upheld_of_served h₀ hk hs
  refine ⟨hU.heeded, fun {β} i o k hprog ho => ?_⟩
  have hway := underWay_of_op hprog
  have hi := hU.proved i
  rw [hprog] at hi
  obtain ⟨hstored, u, hu, hopen⟩ := hi.1.1 ho
  have hunrevoked := not_revoked (hU.agrees i hway) hopen
  refine ⟨u, hu, hunrevoked, fun holder hmem => ?_⟩
  obtain ⟨u', hdealt⟩ := hU.heeded holder hmem
  refine ⟨u', ?_, hdealt⟩
  rintro rfl
  obtain ⟨hu', hrev | ⟨j, -, hwait⟩⟩ := hdealt
  · exact hunrevoked hrev
  · have hij : i ≠ j := by
      rintro rfl
      rw [hstored] at hwait
      cases hwait
    obtain ⟨conn, hconn, -⟩ := hopen
    rw [hU.apart j i hij hway holder hwait u' hu'] at hconn
    cases hconn

end Steps

/-! ### A sample -/

/-- The interleaving along a schedule, as long as every step passes the check. -/
def serve [DecidableEq ι] (pf : Platform) (check : Dealers ι → ι → ∀ β : Type, Effect β → Choice → Bool) :
    List (ι × Choice) → List Holder → Dealers ι → Option (List Holder × Dealers ι)
  | [], h, P => some (h, P)
  | (i, c) :: sched, h, P =>
    match P.prog i with
    | .op o k =>
      if check P i _ o c then
        match (rejecting pf).exec o c (P.loc i) P.shared with
        | some (x, v, w) => serve pf check sched (reject pf o x (P.loc i).2.known h) (P.advance i (k x) v w)
        | none => none
      else none
    | _ => none

theorem served_of_serve [DecidableEq ι] {C : Overlap ι} {P₀ P P' : Dealers ι} {h' : List Holder}
    {check : Dealers ι → ι → ∀ β : Type, Effect β → Choice → Bool} {sched : List (ι × Choice)}
    (hcheck : ∀ P i {β : Type} (o : Effect β) c, check P i β o c → C P i β o c) (hs : Served pf C P₀ h P)
    (hrun : serve pf check sched h P = some (h', P')) : Served pf C P₀ h' P' := by
  induction sched generalizing h P with
  | nil =>
    simp only [serve, Option.some.injEq, Prod.mk.injEq] at hrun
    obtain ⟨rfl, rfl⟩ := hrun
    exact hs
  | cons ic sched ih =>
    obtain ⟨i, c⟩ := ic
    simp only [serve] at hrun
    split at hrun
    · next hprog =>
      split at hrun
      · next hc =>
        split at hrun
        · next hexec => exact ih (hs.step hprog (hcheck _ _ _ _ hc) hexec) hrun
        · simp at hrun
      · simp at hrun
    · simp at hrun

/-- The end of a schedule that passes a check. -/
theorem served_of_any [DecidableEq ι] (pf : Platform) {C : Overlap ι} (P₀ : Dealers ι) {P : Dealers ι}
    (check : Dealers ι → ι → ∀ β : Type, Effect β → Choice → Bool)
    (hcheck : ∀ P i {β : Type} (o : Effect β) c, check P i β o c → C P i β o c) (hs : Served pf C P₀ h P)
    (sched : List (ι × Choice)) {p : List Holder → Dealers ι → Bool}
    (hrun : ((serve pf check sched h P).any fun y => p y.1 y.2) = true) :
    ∃ h' P', Served pf C P₀ h' P' ∧ p h' P' = true := by
  obtain ⟨⟨h', P'⟩, hserve, hend⟩ := (Option.any_eq_true _ _).mp hrun
  exact ⟨h', P', served_of_serve hcheck hs hserve, hend⟩

instance [DecidableEq ι] [Fintype ι] (P : Dealers ι) (i : ι) (o : Effect β) (c : Choice) :
    Decidable (Isolated pf P i o c) :=
  decidable_of_iff
    ((c.answer = .auth → ∀ j, j ≠ i → underWay (P.prog j) = true →
        ∀ u ∈ (P.loc j).2.read, carries pf o (P.loc i).2.known u = false) ∧
      ∀ u ∈ readsOf o, ∀ j, j ≠ i → ∀ holder ∈ (P.loc j).2.waiting, holder u = false)
    ⟨fun h => ⟨h.1, h.2⟩, fun h => ⟨h.1, h.2⟩⟩

/-- Nothing fails, and Google rejects refreshes only. -/
def milder (β : Type) (o : Effect β) (c : Choice) : Bool :=
  match o with
  | .refreshToken _ => true
  | _ => decide (c.answer ≠ .fail ∧ c.answer ≠ .auth)

theorem rejectsRefreshes_of_milder {o : Effect β} {c : Choice} (hc : milder β o c)
    (v : Session × Dealings) (w : World) : RejectsRefreshes β o c v w := by
  cases o with
  | createEvent => exact (of_decide_eq_true hc).2
  | deleteEvent => exact (of_decide_eq_true hc).2
  | freeBusy => exact (of_decide_eq_true hc).2
  | flush => exact fun _ => (of_decide_eq_true hc).1
  | commit => exact fun _ => (of_decide_eq_true hc).1
  | _ => trivial

/-- The calls of the sample. -/
inductive Visit where
  | create
  | submit
  | generate
  deriving DecidableEq

instance : Fintype Visit := ⟨{.create, .submit, .generate}, fun v => by cases v <;> decide⟩

/-- Two interviews, the panel of each one panelist: the same one, or two. -/
def visits (apart : Bool) : Visit × Bool → Call
  | (.create, b) => if apart && !b then (secondCreate 20).1 else (sampleCreate 10).1
  | (.submit, b) => (sampleSubmit (if b then 10 else 20) 540).1
  | (.generate, b) => .generate 1 (if b then 10 else 20)

/-- Both interviews wait for their recommendations. -/
def prepared : List ((Visit × Bool) × Choice) :=
  steps (.create, true) (answered 2 ++ [pick 10] ++ answered 5) ++
    steps (.submit, true) (answered 3 ++ [pick 11] ++ answered 8) ++
    steps (.create, false) (answered 2 ++ [pick 20] ++ answered 5) ++
    steps (.submit, false) (answered 3 ++ [pick 21] ++ answered 8)

/-- The recommendations, up to a call of Google. -/
def upToGoogle (r : Id) (n : ℕ) : List Choice := answered 2 ++ [pick (r + 2)] ++ answered n

/-- The call is about to ask Google with a token of the user. -/
def asksAs (pf : Platform) (u : Id) (i : ι) (P : Dealers ι) : Bool :=
  match P.prog i with
  | .op o _ => isGoogle o && carries pf o (P.loc i).2.known u
  | _ => false

theorem of_asksAs {i : ι} {P : Dealers ι} {u : Id} (ha : asksAs pf u i P = true) :
    ∃ (β : Type) (o : Effect β) (k : Except Exc β → M Response), P.prog i = .op o k ∧ isGoogle o = true := by
  unfold asksAs at ha
  split at ha
  · next o k hprog => exact ⟨_, o, k, hprog, ((Bool.and_eq_true _ _).mp ha).1⟩
  · cases ha

/-- A panelist has connected a calendar whose token has lapsed; Google rejects the refresh, while the
recommendations of another interview are about to ask for the calendar of another panelist. -/
theorem granted_of_served_sample : ∃ (h : List Holder) (P : Dealers (Visit × Bool)),
    Served googlePlatform (Mild googlePlatform) (admitted googlePlatform (visits true) pairedWorld) h P ∧
    (∃ holder ∈ h, holder 3 = true ∧ ∃ u, Dealt P holder u) ∧
    asksAs googlePlatform 4 (.generate, false) P = true ∧
    ∃ u, ¬ Revoked u P.shared.db.connections ∧ ∀ holder ∈ h, ∃ u', u' ≠ u ∧ Dealt P holder u' := by
  obtain ⟨h, P, hs, hend⟩ := served_of_any googlePlatform (C := Mild googlePlatform)
    (admitted googlePlatform (visits true) pairedWorld)
    (fun P i β o c => milder β o c && decide (Isolated googlePlatform P i o c))
    (fun P i β o c hc => ⟨rejectsRefreshes_of_milder ((Bool.and_eq_true _ _).mp hc).1 _ _,
      of_decide_eq_true ((Bool.and_eq_true _ _).mp hc).2⟩)
    (.callback .init 3 "first" (some "refresh") 0)
    (prepared ++ steps (.generate, true) (upToGoogle 10 8) ++ steps (.generate, false) (upToGoogle 20 9) ++
      steps (.generate, true) ([{ answer := .auth }] ++ answered 3))
    (p := fun h P => h.any (· 3) ∧ asksAs googlePlatform 4 (.generate, false) P) (by decide +kernel)
  obtain ⟨hholder, hasks⟩ := of_decide_eq_true hend
  obtain ⟨holder, hmem, h3⟩ := List.any_eq_true.mp hholder
  have hgranted := granted_of_served initial_pairedWorld keyed_pairedWorld hs
  obtain ⟨β, o, k, hprog, ho⟩ := of_asksAs hasks
  obtain ⟨u, -, hst, hother⟩ := hgranted.2 _ o k hprog ho
  exact ⟨h, P, hs, ⟨holder, hmem, h3, hgranted.1 holder hmem⟩, hasks, u, hst, hother⟩

/-- **A rejected token is used again.** Google rejects the token of a panelist in the middle of a
generation; the connection stays CONNECTED, and the next generation uses the token. -/
theorem rejected_token_reused : ∃ (h : List Holder) (P : Dealers (Visit × Bool)),
    Initial (connectedWorld none) ∧
    Served googlePlatform (fun _ _ _ _ _ => True)
      (admitted googlePlatform (visits false) (connectedWorld none)) h P ∧
    underWay (P.prog (.generate, true)) = false ∧ (∃ holder ∈ h, holder 3 = true) ∧
    (P.shared.db.connections 3).map (·.status) = some .connected ∧
    asksAs googlePlatform 3 (.generate, false) P = true := by
  obtain ⟨h, P, hs, hend⟩ := served_of_any googlePlatform (C := fun _ _ _ _ _ => True)
    (admitted googlePlatform (visits false) (connectedWorld none))
    (fun _ _ _ _ _ => true) (fun _ _ _ _ _ _ => trivial) .init
    (prepared ++ steps (.generate, true) (upToGoogle 10 9 ++ [{ answer := .auth }] ++ answered 1) ++
      steps (.generate, false) (upToGoogle 20 9))
    (p := fun h P => underWay (P.prog (.generate, true)) = false ∧ h.any (· 3) ∧
      (P.shared.db.connections 3).map (·.status) = some .connected ∧
      asksAs googlePlatform 3 (.generate, false) P) (by decide +kernel)
  obtain ⟨hended, hholder, hst, hasks⟩ := of_decide_eq_true hend
  obtain ⟨holder, hmem, h3⟩ := List.any_eq_true.mp hholder
  exact ⟨h, P, initial_connectedWorld none, hs, hended, ⟨holder, hmem, h3⟩, hst, hasks⟩

/-- **A token is used after the connection has become REVOKED.** A generation has found the connection
usable; the token lapses, and Google rejects the refresh of another generation, which stores REVOKED; the
first one goes on to Google with the token. Only refreshes are rejected. -/
theorem revoked_token_used : ∃ (h : List Holder) (P : Dealers (Visit × Bool)),
    Initial (connectedWorld none) ∧
    Served googlePlatform (fun P i β o c => RejectsRefreshes β o c (P.loc i) P.shared)
      (admitted googlePlatform (visits false) (connectedWorld none)) h P ∧
    (∃ holder ∈ h, holder 3 = true) ∧
    (P.shared.db.connections 3).map (·.status) = some .revoked ∧
    asksAs googlePlatform 3 (.generate, true) P = true := by
  obtain ⟨h, P, hs, hend⟩ := served_of_any googlePlatform
    (C := fun P i β o c => RejectsRefreshes β o c (P.loc i) P.shared)
    (admitted googlePlatform (visits false) (connectedWorld none))
    (fun _ _ β o c => milder β o c) (fun _ _ _ _ _ hc => rejectsRefreshes_of_milder hc _ _)
    (.callback .init 3 "token" (some "refresh") (minutes 10))
    (prepared ++ steps (.generate, true) (upToGoogle 10 9) ++
      steps (.generate, false) (upToGoogle 20 7 ++ [{ elapsed := 1200000000 }, { answer := .auth }] ++
        answered 3))
    (p := fun h P => h.any (· 3) ∧ (P.shared.db.connections 3).map (·.status) = some .revoked ∧
      asksAs googlePlatform 3 (.generate, true) P) (by decide +kernel)
  obtain ⟨hholder, hst, hasks⟩ := of_decide_eq_true hend
  obtain ⟨holder, hmem, h3⟩ := List.any_eq_true.mp hholder
  exact ⟨h, P, initial_connectedWorld none, hs, ⟨holder, hmem, h3⟩, hst, hasks⟩

end InterviewScheduler.System
