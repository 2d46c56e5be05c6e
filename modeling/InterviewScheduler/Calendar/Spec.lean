import InterviewScheduler.Lifecycle.Discipline
import InterviewScheduler.Calendar.Service

/-! # What the calendar service leaves

The service commits on its own when it refreshes a token or finds a grant revoked. From a calm session
such a commit holds no write to the interview tables. -/

namespace InterviewScheduler.Calendar

open InterviewScheduler.Engine InterviewScheduler.Core InterviewScheduler.Effects
open InterviewScheduler.Lifecycle

variable {alone : Prop} {may : May} {P : Interviews → Id → Prop} {s : Session} {T : Interviews}
  {pf : Platform} {α : Type}

/-! ### The effects -/

section Uses

open Prog

variable {E : ∀ β : Type, Effect β → Prop} (hE : Ordinary E)

include hE in
theorem uses_refresh {conn : CalendarConnection} {email : String} :
    (refresh pf conn email).Uses E := by
  have hset : ∀ x : SideWrite, ∀ c : CalendarConnection,
      (do dbAddSide x; dbFlush; pure c : M CalendarConnection).Uses E := fun x c =>
    uses_bind (uses_perform (hE _ rfl)) fun _ => uses_bind (uses_perform (hE _ rfl)) fun _ => uses_pure
  unfold refresh
  split
  · exact uses_bind (hset _ _) fun _ => uses_bind (uses_perform (hE _ rfl)) fun _ => uses_throw
  · refine uses_bind (uses_tryCatch (uses_bind uses_orRaise fun _ => uses_perform (hE _ rfl)) ?_)
      fun bundle => ?_
    · intro e
      cases e with
      | calendarAuthError =>
        exact uses_bind (hset _ _) fun _ => uses_bind (uses_perform (hE _ rfl)) fun _ => uses_throw
      | _ => exact uses_throw
    · refine uses_bind uses_orRaise fun _ => uses_bind (uses_perform (hE _ rfl)) fun t => ?_
      exact uses_bind (hset _ _) fun _ => uses_bind (uses_perform (hE _ rfl)) fun _ => uses_pure

include hE in
theorem uses_usableConnection {user : User} :
    (usableConnection pf user).Uses E := by
  refine uses_bind (uses_perform (hE _ rfl)) fun conn => uses_bind uses_orRaise fun conn => ?_
  refine uses_bind uses_raiseIf fun _ => uses_bind uses_raiseIf fun _ => ?_
  refine uses_bind (uses_perform (hE _ rfl)) fun t => ?_
  split
  · exact uses_refresh hE
  · exact uses_pure

theorem uses_googleError {call : M α} {cls : ErrorClass} (h : call.Uses E) :
    (googleError call cls).Uses E := by
  refine uses_tryCatch h fun e => ?_
  cases e <;> exact uses_throw

include hE in
theorem uses_getFreeBusy (hcache : ∀ key busy, E _ (.cacheSet key busy)) {conn : CalendarConnection}
    {tmin tmax : Instant} : (getFreeBusy pf conn tmin tmax).Uses E := by
  refine uses_bind (uses_attempt (uses_perform (hE _ rfl))) fun cached => ?_
  split
  · exact uses_pure
  · refine uses_bind (uses_googleError (uses_bind uses_orRaise fun _ => uses_perform (hE _ rfl))) ?_
    exact fun _ => uses_bind (uses_attempt (uses_perform (hcache _ _))) fun _ => uses_pure

theorem uses_deleteEvent {token id : String} (hdelete : E _ (.deleteEvent token id)) :
    (deleteEvent token id).Uses E := by
  refine uses_tryCatch (uses_bind (uses_perform hdelete) fun _ => uses_pure) fun e => ?_
  cases e with
  | calendarAuthError => exact uses_pure
  | calendarTransportError => exact uses_pure
  | _ => exact uses_throw

end Uses

/-! ### What a connection costs -/

/-- The exchange of the refresh token changes nothing here. -/
theorem unchanged_exchange {ciphertext : String} :
    wp (lifecycle alone may P) (do
      let token ← decrypt pf ciphertext
      .perform (.refreshToken token)) (Unchanged s T) (s, T) := by
  refine wp_bind (wp_orRaise (fun _ => ⟨.refl s, rfl⟩) fun token _ => ?_)
  exact wp_refreshToken (fun _ _ => ⟨.refl s, rfl⟩) fun _ => ⟨.refl s, rfl⟩

theorem asked_refresh (hs : s.Calm) {conn : CalendarConnection} {email : String} :
    wp (lifecycle alone may P) (refresh pf conn email) (Asked s T) (s, T) := by
  unfold refresh
  split
  · exact asked_renew hs rfl fun _ _ => asked_throw
  · refine asked_bind hs (wp_tryCatch (wp_mono unchanged_exchange ?_)) fun bundle s₁ h₁ => ?_
    · rintro (e | bundle) ⟨s₁, T₁⟩ ⟨hsame, rfl⟩
      · -- a rejected grant is recorded, and committed, before the error
        have h₁ := hsame.calm hs
        refine wp_mono ?_ fun _ _ (h : Asked s₁ T₁ _ _) => h.of_same hsame
        cases e with
        | calendarAuthError => exact asked_renew h₁ rfl fun _ _ => asked_throw
        | _ => exact asked_throw
      · exact ⟨hsame, rfl⟩
    · refine asked_bind h₁ asked_orRaise fun token s₂ h₂ => ?_
      refine asked_bind h₂ asked_now fun t s₃ h₃ => ?_
      exact asked_renew h₃ rfl fun _ _ => asked_pure

theorem asked_ensureUsable (hs : s.Calm) {conn : CalendarConnection} {email : String} :
    wp (lifecycle alone may P) (ensureUsable pf conn email) (Asked s T) (s, T) := by
  refine asked_bind hs asked_raiseIf fun _ s₁ h₁ => ?_
  refine asked_bind h₁ asked_raiseIf fun _ s₂ h₂ => ?_
  refine asked_bind h₂ asked_now fun t s₃ h₃ => ?_
  split
  · exact asked_refresh h₃
  · exact asked_pure

theorem asked_getByUser (hs : s.trace.owed = []) {u : Id} :
    wp (lifecycle alone may P) (getByUser u) (Asked s T) (s, T) :=
  wp_connectionOf (fun _ he => ⟨.inr ⟨he, s.broken_fail hs⟩, rfl⟩) fun w => ⟨s.same_touch w, rfl⟩

/-- **A connection is checked, and its token refreshed, without a write to the interview tables.** -/
theorem asked_usableConnection (hs : s.Calm) {user : User} :
    wp (lifecycle alone may P) (usableConnection pf user) (Asked s T) (s, T) := by
  refine asked_bind hs (asked_getByUser hs.owed) fun conn s₁ h₁ => ?_
  refine asked_bind h₁ asked_orRaise fun conn s₂ h₂ => ?_
  exact asked_ensureUsable h₂

/-- The service raises its own error in place of the client's. -/
theorem unchanged_googleError {call : M α} {cls : ErrorClass}
    (h : wp (lifecycle alone may P) call (Unchanged s T) (s, T)) :
    wp (lifecycle alone may P) (googleError call cls) (Unchanged s T) (s, T) := by
  refine wp_tryCatch (wp_mono h ?_)
  rintro (e | a) v hv
  · cases e <;> exact hv
  · exact hv

theorem unchanged_getFreeBusy {conn : CalendarConnection} {tmin tmax : Instant} :
    wp (lifecycle alone may P) (getFreeBusy pf conn tmin tmax) (Unchanged s T) (s, T) := by
  refine wp_bind_attempt (wp_cacheGet fun cached => ?_)
  have hfetch : wp (lifecycle alone may P) (googleError (do
      let token ← accessTokenOf pf conn
      .perform (.freeBusy token tmin tmax)) .calendarSyncFailedError) (Unchanged s T) (s, T) := by
    refine unchanged_googleError (wp_bind (wp_orRaise (fun _ => ⟨.refl s, rfl⟩) fun token _ => ?_))
    exact wp_freeBusy (fun _ _ => ⟨.refl s, rfl⟩) fun _ => ⟨.refl s, rfl⟩
  split
  · exact wp_pure ⟨.refl s, rfl⟩
  · refine wp_bind (wp_mono hfetch ?_)
    rintro (e | busy) ⟨s₁, T₁⟩ ⟨hsame, rfl⟩
    · exact ⟨hsame, rfl⟩
    · exact wp_bind_attempt (wp_cacheSet fun _ => wp_pure ⟨hsame, rfl⟩)

/-- What a deletion leaves: the event is gone, or nothing has happened. -/
theorem wp_deleteEvent' {token id : String}
    {Q : Except Exc Bool → Session × Interviews → Prop} (hkept : Q (.ok false) (s, T))
    (hgone : Q (.ok true) ({ s with trace := s.trace.delete id }, T)) :
    wp (lifecycle alone may P) (deleteEvent token id) Q (s, T) := by
  refine wp_tryCatch (wp_bind (wp_deleteEvent ?_ hgone))
  rintro e (rfl | rfl)
  · exact hkept
  · exact hkept

end InterviewScheduler.Calendar
