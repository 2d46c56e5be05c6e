import InterviewScheduler.Core.Following
import InterviewScheduler.Interviews.Api

/-! # How a handler begins

What a handler knows after its first checks: who the caller is, and the row of the request. Nothing was
written yet. -/

namespace InterviewScheduler.Core

open InterviewScheduler.Effects

variable {C : Condition Effect Choice Session World} {D : Demand Effect Session World}
  {T : Interviews} {t : Engine.Instant} {α β : Type} {s : Session} {w : World} {user : User} {r u : Id}

section Lenient

variable (hD : Lenient D)

include hD

theorem looking_getCurrentUser (h : Looks T t s w) :
    wp (demanding C D) (getCurrentUser u) (Looking T t fun user => T.users u = some user) (s, w) := by
  refine wp_bind_looking (looking_plain hD h rfl) (fun _ _ _ h => h) fun user s₁ w₁ h₁ huser => ?_
  obtain ⟨n, db, rfl, rfl⟩ := huser
  exact looking_orRaise h₁

theorem looking_adminOrOwningCandidate (h : Looks T t s w) :
    wp (demanding C D) (adminOrOwningCandidate user r)
      (Looking T t fun _ => user.role ≠ .panelist) (s, w) := by
  unfold adminOrOwningCandidate
  split
  · next hrole => exact wp_pure ⟨h, by simp [hrole]⟩
  · next hrole =>
    refine wp_bind_looking (looking_plain hD h rfl) (fun _ _ _ h => h) fun row s₁ w₁ h₁ _ => ?_
    refine wp_bind_looking (looking_plain hD h₁ rfl) (fun _ _ _ h => h) fun _ s₂ w₂ h₂ _ => ?_
    exact wp_raiseIf (fun _ => h₂) fun _ => ⟨h₂, by simp [hrole]⟩
  · exact wp_throw h

/-- A route that admits one role. -/
theorem wp_roleRoute {role : Role} {f : User → M β} {Q : Except Exc β → Session × World → Prop}
    (h : Looks T t s w) (herr : ∀ e s' w', Looks T t s' w' → Q (.error e) (s', w'))
    (hf : ∀ user s' w', Looks T t s' w' → T.users u = some user → user.role = role →
      wp (demanding C D) (f user) Q (s', w')) :
    wp (demanding C D) (getCurrentUser u >>= fun user => requireRole user role >>= fun _ => f user) Q
      (s, w) := by
  refine wp_bind_looking (looking_getCurrentUser hD h) herr fun user s₁ w₁ h₁ huser => ?_
  refine wp_bind_looking (looking_raiseIf h₁) herr fun _ s₂ w₂ h₂ hrole => ?_
  exact hf user s₂ w₂ h₂ huser (not_not.mp hrole)

/-- A route that admits an administrator and the candidate of the request. -/
theorem wp_ownerRoute {f : User → M β} {Q : Except Exc β → Session × World → Prop}
    (h : Looks T t s w) (herr : ∀ e s' w', Looks T t s' w' → Q (.error e) (s', w'))
    (hf : ∀ user s' w', Looks T t s' w' → T.users u = some user → user.role ≠ .panelist →
      wp (demanding C D) (f user) Q (s', w')) :
    wp (demanding C D)
      (getCurrentUser u >>= fun user => adminOrOwningCandidate user r >>= fun _ => f user) Q (s, w) := by
  refine wp_bind_looking (looking_getCurrentUser hD h) herr fun user s₁ w₁ h₁ huser => ?_
  refine wp_bind_looking (looking_adminOrOwningCandidate hD h₁) herr fun _ s₂ w₂ h₂ hrole => ?_
  exact hf user s₂ w₂ h₂ huser hrole

theorem looking_load (h : Looks T t s w) :
    wp (demanding C D) (Interviews.load r) (Looking T t fun row => T.requests r = some row) (s, w) := by
  refine wp_bind_looking (looking_plain hD h rfl) (fun _ _ _ h => h) fun row s₁ w₁ h₁ hrow => ?_
  obtain rfl : row = T.requests r := hrow
  exact looking_orRaise h₁

end Lenient

end InterviewScheduler.Core
