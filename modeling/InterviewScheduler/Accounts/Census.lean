import InterviewScheduler.Accounts.Archive
import InterviewScheduler.Accounts.Directory

/-! # Who is in the user table

A user keeps what it was created with, and is never deleted (`Outlives`). A handler is followed with the
users that it has seen, with what it has staged, and with the ids that it has drawn, which no stored user
has: so an insertion fails for an e-mail address that is taken, and for nothing else (`taken_of_clash`). -/

namespace InterviewScheduler.Accounts

open InterviewScheduler.Engine InterviewScheduler.Effects
open InterviewScheduler.Core (Id Role)

variable {T T' T'' : Tables}

/-! ### Users -/

/-- What a user is created with and keeps. -/
structure Identity where
  id : Id
  email : String
  name : String
  role : Role
  authProvider : AuthProvider
  timezone : String
  tokenVersion : ℕ
  deriving DecidableEq, Repr

def User.identity (u : User) : Identity :=
  ⟨u.id, u.email, u.name, u.role, u.authProvider, u.timezone, u.tokenVersion⟩

theorem User.of_identity {u u' : User} (h : u'.identity = u.identity) :
    u'.id = u.id ∧ u'.email = u.email ∧ u'.role = u.role ∧ u'.tokenVersion = u.tokenVersion := by
  simp only [identity, Identity.mk.injEq] at h
  exact ⟨h.1, h.2.1, h.2.2.2.1, h.2.2.2.2.2.2⟩

/-- The tokens are made of what the user keeps. -/
theorem tokenPair_of_identity {u u' : User} (h : u'.identity = u.identity) : tokenPair u' = tokenPair u := by
  obtain ⟨hid, -, hrole, hversion⟩ := User.of_identity h
  unfold tokenPair
  rw [hid, hrole, hversion]

/-- There is a user with this identity. -/
def Tables.Has (T : Tables) (x : Identity) : Prop := ∃ u ∈ T.users, u.identity = x

/-- Every user of `T` is still there. -/
def Outlives (T T' : Tables) : Prop := ∀ u ∈ T.users, T'.Has u.identity

theorem Outlives.refl (T : Tables) : Outlives T T := fun u hu => ⟨u, hu, rfl⟩

theorem Tables.Has.outlives {x : Identity} (h : T.Has x) (hT : Outlives T T') : T'.Has x := by
  obtain ⟨u, hu, rfl⟩ := h
  exact hT u hu

theorem Outlives.trans (h : Outlives T T') (h' : Outlives T' T'') : Outlives T T'' :=
  fun u hu => (h u hu).outlives h'

/-- A user of the table after a write was there before, or is inserted. -/
theorem identity_apply (T : Tables) (y : Write) :
    Outlives T (y.apply T) ∧ ∀ u ∈ (y.apply T).users, T.Has u.identity ∨ y = .insertUser u := by
  have hmap : ∀ f : User → User, (∀ u, (f u).identity = u.identity) →
      (∀ u ∈ T.users, ∃ u' ∈ T.users.map f, u'.identity = u.identity) ∧
        ∀ u ∈ T.users.map f, T.Has u.identity := by
    intro f hf
    refine ⟨fun u hu => ⟨f u, List.mem_map_of_mem hu, hf u⟩, fun u hu => ?_⟩
    obtain ⟨u₀, hu₀, rfl⟩ := List.mem_map.mp hu
    exact ⟨u₀, hu₀, (hf u₀).symm⟩
  cases y with
  | insertUser row =>
    refine ⟨fun u hu => ⟨u, List.mem_append_left _ hu, rfl⟩, fun u hu => ?_⟩
    rcases List.mem_append.mp hu with hu | hu
    · exact .inl ⟨u, hu, rfl⟩
    · exact .inr (by rw [List.mem_singleton.mp hu])
  | setPasswordHash x loaded h =>
    obtain ⟨hout, hin⟩ := hmap (fun u =>
      if u.id = x then { u with passwordHash := changed loaded (some h) u.passwordHash } else u) fun u => by
        split_ifs <;> rfl
    exact ⟨hout, fun u hu => .inl (hin u hu)⟩
  | setArchivedAt x t =>
    obtain ⟨hout, hin⟩ := hmap (fun u => if u.id = x then { u with archivedAt := t } else u) fun u => by
      split_ifs <;> rfl
    exact ⟨hout, fun u hu => .inl (hin u hu)⟩
  | _ => exact ⟨fun u hu => ⟨u, hu, rfl⟩, fun u hu => .inl ⟨u, hu, rfl⟩⟩

/-- The same of a transaction. -/
theorem identity_applyAll : ∀ {ys : List Write} {T T' : Tables}, Write.applyAll ys T = some T' →
    Outlives T T' ∧ (∀ u ∈ T'.users, T.Has u.identity ∨ ∃ row, .insertUser row ∈ ys ∧ u.identity = row.identity) ∧
      ∀ row, .insertUser row ∈ ys → T'.Has row.identity
  | [], T, T', h => by
    obtain rfl := Option.some.inj h
    exact ⟨.refl T, fun u hu => .inl ⟨u, hu, rfl⟩, by simp⟩
  | y :: ys, T, T', h => by
    unfold Write.applyAll at h
    split_ifs at h
    obtain ⟨hout, hin⟩ := identity_apply T y
    obtain ⟨hout', hin', hnew⟩ := identity_applyAll h
    refine ⟨hout.trans hout', fun u hu => ?_, fun row hrow => ?_⟩
    · rcases hin' u hu with ⟨u₁, hu₁, heq⟩ | ⟨row, hrow, heq⟩
      · rcases hin u₁ hu₁ with hold | rfl
        · exact .inl (heq ▸ hold)
        · exact .inr ⟨u₁, List.mem_cons_self, heq.symm⟩
      · exact .inr ⟨row, List.mem_cons_of_mem _ hrow, heq⟩
    · rcases List.mem_cons.mp hrow with rfl | hrow
      · exact hout' row (List.mem_append_right _ (List.mem_singleton.mpr rfl))
      · exact hnew row hrow

/-- Only an insertion with an id or an e-mail address that is taken fails, with audit entries beside it. -/
theorem taken_of_clash {row : User} {ys : List Write} (hys : ∀ y ∈ ys, ∃ a, y = .insertAudit a)
    (h : Write.applyAll (.insertUser row :: ys) T = none) (hid : ∀ u ∈ T.users, u.id ≠ row.id) :
    ∃ u ∈ T.users, u.email = row.email := by
  have haudits : ∀ {ys : List Write} {T : Tables}, (∀ y ∈ ys, ∃ a, y = Write.insertAudit a) →
      Write.applyAll ys T ≠ none := by
    intro ys
    induction ys with
    | nil => simp [Write.applyAll]
    | cons y ys ih =>
      intro T hys
      obtain ⟨a, rfl⟩ := hys y List.mem_cons_self
      exact ih fun z hz => hys z (List.mem_cons_of_mem _ hz)
  unfold Write.applyAll at h
  split_ifs at h with hviolates
  · obtain ⟨u, hu, htaken⟩ := List.any_eq_true.mp hviolates
    rcases of_decide_eq_true htaken with h₁ | h₁
    · exact absurd h₁ (hid u hu)
    · exact ⟨u, hu, h₁⟩
  · exact absurd h (haudits hys)

end InterviewScheduler.Accounts
