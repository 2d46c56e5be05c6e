import InterviewScheduler.Accounts.Models

/-! # The rows of the invitation table

What one write does to the set of invitations, under the constraints of the table, which every write that
does not break them keeps. `Rotated` is what an issuance does for one participant: it leaves one row for
the pair, with the new token, and touches no other. -/

namespace InterviewScheduler.Accounts

open InterviewScheduler.Core (Id)

/-! ### Overwriting a row -/

theorem changed_self {α : Type} [DecidableEq α] (loaded new : α) : changed loaded new loaded = new := by
  unfold changed
  split_ifs with h
  · exact h.symm
  · rfl

namespace ParticipantInvitation

/-- Two rows that differ in what an UPDATE may change. -/
structure SamePlace (loaded row : ParticipantInvitation) : Prop where
  id : row.id = loaded.id
  requestId : row.interviewRequestId = loaded.interviewRequestId
  userId : row.userId = loaded.userId
  role : row.role = loaded.role

theorem overwrite_self {loaded row : ParticipantInvitation} (h : loaded.SamePlace row) :
    loaded.overwrite loaded row = row := by
  unfold overwrite
  simp only [changed_self, ← h.id, ← h.requestId, ← h.userId, ← h.role]

@[simp] theorem overwrite_id (x loaded row : ParticipantInvitation) :
    (x.overwrite loaded row).id = x.id := rfl

@[simp] theorem overwrite_for (x loaded row : ParticipantInvitation) (r u : Id) :
    (x.overwrite loaded row).For r u ↔ x.For r u := Iff.rfl

theorem overwrite_tokenHash (x loaded row : ParticipantInvitation) :
    (x.overwrite loaded row).tokenHash = x.tokenHash ∨
      row.tokenHash ≠ loaded.tokenHash ∧ (x.overwrite loaded row).tokenHash = row.tokenHash := by
  unfold overwrite changed
  dsimp only
  split_ifs with h
  · exact Or.inl rfl
  · exact Or.inr ⟨h, rfl⟩

theorem For.pair {x y : ParticipantInvitation} {r u : Id} (hx : x.For r u) (hy : y.For r u) :
    x.For y.interviewRequestId y.userId :=
  ⟨hx.1.trans hy.1.symm, hx.2.trans hy.2.symm⟩

end ParticipantInvitation

/-! ### The constraints -/

namespace Tables

/-- The primary key, `uq_participant_invitations_request_user` and
`uq_participant_invitations_token_hash`. -/
structure Proper (T : Tables) : Prop where
  ids : ∀ x ∈ T.invitations, ∀ y ∈ T.invitations, x.id = y.id → x = y
  pairs : ∀ x ∈ T.invitations, ∀ y ∈ T.invitations, x.For y.interviewRequestId y.userId → x = y
  hashes : ∀ x ∈ T.invitations, ∀ y ∈ T.invitations, x.tokenHash = y.tokenHash → x = y

variable {T T' : Tables}

theorem Proper.congr (h : T.Proper) (heq : T'.invitations = T.invitations) : T'.Proper := by
  constructor
  · rw [heq]
    exact h.ids
  · rw [heq]
    exact h.pairs
  · rw [heq]
    exact h.hashes

theorem mem_of_invitationFor {r u : Id} {row : ParticipantInvitation}
    (h : T.invitationFor r u = some row) : row ∈ T.invitations ∧ row.For r u :=
  ⟨List.mem_of_find?_eq_some h, by simpa using List.find?_some h⟩

theorem invitationFor_eq_none {r u : Id} :
    T.invitationFor r u = none ↔ ∀ x ∈ T.invitations, ¬ x.For r u := by
  unfold invitationFor
  rw [List.find?_eq_none]
  simp

theorem Proper.invitationFor_eq (h : T.Proper) {r u : Id} {row : ParticipantInvitation}
    (hrow : row ∈ T.invitations) (hfor : row.For r u) : T.invitationFor r u = some row := by
  cases hfound : T.invitationFor r u with
  | none => exact absurd hfor (invitationFor_eq_none.mp hfound row hrow)
  | some found =>
    obtain ⟨hmem, hfor'⟩ := mem_of_invitationFor hfound
    rw [h.pairs found hmem row hrow (hfor'.pair hfor)]

theorem mem_of_invitationByTokenHash {tokenHash : String} {row : ParticipantInvitation}
    (h : T.invitationByTokenHash tokenHash = some row) :
    row ∈ T.invitations ∧ row.tokenHash = tokenHash :=
  ⟨List.mem_of_find?_eq_some h, by simpa using List.find?_some h⟩

theorem Proper.invitationByTokenHash_eq (h : T.Proper) {row : ParticipantInvitation}
    (hrow : row ∈ T.invitations) : T.invitationByTokenHash row.tokenHash = some row := by
  cases hfound : T.invitationByTokenHash row.tokenHash with
  | none =>
    unfold invitationByTokenHash at hfound
    rw [List.find?_eq_none] at hfound
    simpa using hfound row hrow
  | some found =>
    obtain ⟨hmem, hhash⟩ := mem_of_invitationByTokenHash hfound
    rw [h.hashes found hmem row hrow hhash]

end Tables

/-! ### Inserting a row -/

section Insert

variable {T : Tables} {row : ParticipantInvitation}

theorem mem_insertInvitation {x : ParticipantInvitation} :
    x ∈ ((Write.insertInvitation row).apply T).invitations ↔ x ∈ T.invitations ∨ x = row := by
  simp [Write.apply]

/-- What an insertion that breaks no constraint finds. -/
theorem fresh_of_violates (h : (Write.insertInvitation row).violates T = false) :
    ∀ x ∈ T.invitations,
      x.id ≠ row.id ∧ x.tokenHash ≠ row.tokenHash ∧ ¬ x.For row.interviewRequestId row.userId := by
  intro x hx
  unfold Write.violates at h
  simp only [Bool.or_eq_false_iff, List.any_eq_false] at h
  simpa using h.2 x hx

theorem proper_insertInvitation (hT : T.Proper)
    (h : (Write.insertInvitation row).violates T = false) :
    ((Write.insertInvitation row).apply T).Proper := by
  have hfresh := fresh_of_violates h
  constructor
  · intro x hx y hy hid
    rcases mem_insertInvitation.mp hx with hx' | rfl <;>
      rcases mem_insertInvitation.mp hy with hy' | rfl
    · exact hT.ids x hx' y hy' hid
    · exact absurd hid (hfresh x hx').1
    · exact absurd hid.symm (hfresh y hy').1
    · rfl
  · intro x hx y hy hpair
    rcases mem_insertInvitation.mp hx with hx' | rfl <;>
      rcases mem_insertInvitation.mp hy with hy' | rfl
    · exact hT.pairs x hx' y hy' hpair
    · exact absurd hpair (hfresh x hx').2.2
    · exact absurd ⟨hpair.1.symm, hpair.2.symm⟩ (hfresh y hy').2.2
    · rfl
  · intro x hx y hy hhash
    rcases mem_insertInvitation.mp hx with hx' | rfl <;>
      rcases mem_insertInvitation.mp hy with hy' | rfl
    · exact hT.hashes x hx' y hy' hhash
    · exact absurd hhash (hfresh x hx').2.1
    · exact absurd hhash.symm (hfresh y hy').2.1
    · rfl

end Insert

/-! ### Updating a row -/

section Update

variable {T : Tables} {loaded row : ParticipantInvitation}

theorem mem_updateInvitation {x : ParticipantInvitation} :
    x ∈ ((Write.updateInvitation loaded row).apply T).invitations ↔
      (x ∈ T.invitations ∧ x.id ≠ loaded.id) ∨
        ∃ y ∈ T.invitations, y.id = loaded.id ∧ x = y.overwrite loaded row := by
  simp only [Write.apply, List.mem_map]
  constructor
  · rintro ⟨y, hy, rfl⟩
    by_cases h : y.id = loaded.id
    · rw [if_pos h]
      exact Or.inr ⟨y, hy, h, rfl⟩
    · rw [if_neg h]
      exact Or.inl ⟨hy, h⟩
  · rintro (⟨hx, h⟩ | ⟨y, hy, h, rfl⟩)
    · exact ⟨x, hx, if_neg h⟩
    · exact ⟨y, hy, if_pos h⟩

/-- The row that was loaded gives way to the new one; the others stay. -/
theorem mem_update_loaded (hT : T.Proper) (hloaded : loaded ∈ T.invitations)
    (hplace : loaded.SamePlace row) {x : ParticipantInvitation} :
    x ∈ ((Write.updateInvitation loaded row).apply T).invitations ↔
      x = row ∨ x ∈ T.invitations ∧ x.id ≠ loaded.id := by
  rw [mem_updateInvitation]
  constructor
  · rintro (h | ⟨y, hy, hid, rfl⟩)
    · exact Or.inr h
    · obtain rfl := hT.ids y hy loaded hloaded hid
      exact Or.inl (ParticipantInvitation.overwrite_self hplace)
  · rintro (rfl | h)
    · exact Or.inr ⟨loaded, hloaded, rfl, (ParticipantInvitation.overwrite_self hplace).symm⟩
    · exact Or.inl h

theorem proper_updateInvitation (hT : T.Proper)
    (h : (Write.updateInvitation loaded row).violates T = false) :
    ((Write.updateInvitation loaded row).apply T).Proper := by
  have hother : row.tokenHash ≠ loaded.tokenHash → ∀ x ∈ T.invitations, x.id ≠ loaded.id →
      x.tokenHash ≠ row.tokenHash := by
    intro hne x hx hid
    unfold Write.violates at h
    rw [List.any_eq_false] at h
    have := h x hx
    simp only [decide_eq_true_eq, not_and] at this
    exact this hid hne
  constructor
  · intro x hx y hy hid
    rcases mem_updateInvitation.mp hx with ⟨hx, hxid⟩ | ⟨x₀, hx₀, hxid, rfl⟩ <;>
      rcases mem_updateInvitation.mp hy with ⟨hy, hyid⟩ | ⟨y₀, hy₀, hyid, rfl⟩
    · exact hT.ids x hx y hy hid
    · exact absurd (hid.trans hyid) hxid
    · exact absurd (hid.symm.trans hxid) hyid
    · rw [hT.ids x₀ hx₀ y₀ hy₀ (hxid.trans hyid.symm)]
  · intro x hx y hy hpair
    rcases mem_updateInvitation.mp hx with ⟨hx, hxid⟩ | ⟨x₀, hx₀, hxid, rfl⟩ <;>
      rcases mem_updateInvitation.mp hy with ⟨hy, hyid⟩ | ⟨y₀, hy₀, hyid, rfl⟩
    · exact hT.pairs x hx y hy hpair
    · have := hT.pairs x hx y₀ hy₀ hpair
      exact absurd (this ▸ hyid) hxid
    · have := hT.pairs x₀ hx₀ y hy hpair
      exact absurd (this ▸ hxid) hyid
    · rw [hT.pairs x₀ hx₀ y₀ hy₀ hpair]
  · intro x hx y hy hhash
    rcases mem_updateInvitation.mp hx with ⟨hx, hxid⟩ | ⟨x₀, hx₀, hxid, rfl⟩ <;>
      rcases mem_updateInvitation.mp hy with ⟨hy, hyid⟩ | ⟨y₀, hy₀, hyid, rfl⟩
    · exact hT.hashes x hx y hy hhash
    · rcases y₀.overwrite_tokenHash loaded row with hsame | ⟨hne, hnew⟩
      · have := hT.hashes x hx y₀ hy₀ (hhash.trans hsame)
        exact absurd (this ▸ hyid) hxid
      · exact absurd (hhash.trans hnew) (hother hne x hx hxid)
    · rcases x₀.overwrite_tokenHash loaded row with hsame | ⟨hne, hnew⟩
      · have := hT.hashes x₀ hx₀ y hy (hsame.symm.trans hhash)
        exact absurd (this ▸ hxid) hyid
      · exact absurd (hhash.symm.trans hnew) (hother hne y hy hyid)
    · rw [hT.ids x₀ hx₀ y₀ hy₀ (hxid.trans hyid.symm)]

end Update

/-! ### All writes -/

theorem proper_apply {T : Tables} {y : Write} (hT : T.Proper) (h : y.violates T = false) :
    (y.apply T).Proper := by
  cases y with
  | insertInvitation row => exact proper_insertInvitation hT h
  | updateInvitation loaded row => exact proper_updateInvitation hT h
  | insertUser row => exact hT.congr rfl
  | setPasswordHash u loaded p => exact hT.congr rfl
  | setArchivedAt u t => exact hT.congr rfl
  | setResponse r u st => exact hT.congr rfl
  | insertAudit row => exact hT.congr rfl

/-! ### Rotations -/

/-- The participant's row has become `sent`; the other rows are those of before. -/
structure Rotated (T T' : Tables) (r u : Id) (sent : ParticipantInvitation) : Prop where
  place : sent.For r u
  mem : ∀ x, x ∈ T'.invitations ↔ x = sent ∨ x ∈ T.invitations ∧ ¬ x.For r u

section Rotated

variable {T T' : Tables} {r u : Id} {loaded row sent : ParticipantInvitation}

theorem ParticipantInvitation.SamePlace.for (h : loaded.SamePlace row) (hfor : loaded.For r u) :
    row.For r u :=
  ⟨h.requestId.trans hfor.1, h.userId.trans hfor.2⟩

theorem rotated_insert (hviolates : (Write.insertInvitation row).violates T = false)
    (hfor : row.For r u) : Rotated T ((Write.insertInvitation row).apply T) r u row := by
  have hfresh := fresh_of_violates hviolates
  refine ⟨hfor, fun x => ?_⟩
  rw [mem_insertInvitation]
  constructor
  · rintro (hx | rfl)
    · exact Or.inr ⟨hx, fun h => (hfresh x hx).2.2 (h.pair hfor)⟩
    · exact Or.inl rfl
  · rintro (rfl | ⟨hx, -⟩)
    · exact Or.inr rfl
    · exact Or.inl hx

theorem rotated_update (hT : T.Proper) (hloaded : loaded ∈ T.invitations) (hfor : loaded.For r u)
    (hplace : loaded.SamePlace row) :
    Rotated T ((Write.updateInvitation loaded row).apply T) r u row := by
  refine ⟨hplace.for hfor, fun x => ?_⟩
  rw [mem_update_loaded hT hloaded hplace]
  constructor
  · rintro (h | ⟨hx, hid⟩)
    · exact Or.inl h
    · refine Or.inr ⟨hx, fun hxfor => hid ?_⟩
      rw [hT.pairs x hx loaded hloaded (hxfor.pair hfor)]
  · rintro (h | ⟨hx, hnotfor⟩)
    · exact Or.inl h
    · refine Or.inr ⟨hx, fun hid => hnotfor ?_⟩
      rw [hT.ids x hx loaded hloaded hid]
      exact hfor

theorem Rotated.trans {T'' : Tables} (h : Rotated T T' r u row) (h' : Rotated T' T'' r u sent) :
    Rotated T T'' r u sent := by
  refine ⟨h'.place, fun x => ?_⟩
  rw [h'.mem, h.mem]
  constructor
  · rintro (h | ⟨rfl | hx, hnotfor⟩)
    · exact Or.inl h
    · exact absurd h.place hnotfor
    · exact Or.inr hx
  · rintro (h | hx)
    · exact Or.inl h
    · exact Or.inr ⟨Or.inr hx, hx.2⟩

theorem Rotated.congr {T'' : Tables} (h : Rotated T T' r u sent)
    (heq : T''.invitations = T'.invitations) : Rotated T T'' r u sent :=
  ⟨h.place, fun x => by rw [heq]; exact h.mem x⟩

theorem Rotated.invitationFor (h : Rotated T T' r u sent) (hT' : T'.Proper) {r' u' : Id}
    (hne : ¬ (r' = r ∧ u' = u)) : T'.invitationFor r' u' = T.invitationFor r' u' := by
  cases hfound : T.invitationFor r' u' with
  | none =>
    rw [Tables.invitationFor_eq_none] at hfound ⊢
    intro x hx hfor
    rcases (h.mem x).mp hx with rfl | ⟨hx, -⟩
    · exact hne ⟨hfor.1.symm.trans h.place.1, hfor.2.symm.trans h.place.2⟩
    · exact hfound x hx hfor
  | some row =>
    obtain ⟨hmem, hfor⟩ := Tables.mem_of_invitationFor hfound
    apply hT'.invitationFor_eq _ hfor
    refine (h.mem row).mpr (Or.inr ⟨hmem, fun hfor' => hne ?_⟩)
    exact ⟨hfor.1.symm.trans hfor'.1, hfor.2.symm.trans hfor'.2⟩

end Rotated

end InterviewScheduler.Accounts
