import InterviewScheduler.Effects.Follow
import InterviewScheduler.Accounts.Invitations

/-! # Following a handler

The rules of the following logic (`Effects.Follow`) for the calls that the account handlers are written
with: what each may answer, and what the session and the world are then. -/

namespace InterviewScheduler.Accounts

open InterviewScheduler.Intervals InterviewScheduler.Engine InterviewScheduler.Effects
open InterviewScheduler.Core (Id)

/-! ### Applying writes -/

theorem Write.applyAll_append (xs ys : List Write) (T : Tables) :
    Write.applyAll (xs ++ ys) T = (Write.applyAll xs T).bind (Write.applyAll ys) := by
  induction xs generalizing T with
  | nil => rfl
  | cons x xs ih =>
    simp only [List.cons_append, Write.applyAll]
    by_cases h : x.violates T = true
    · rw [if_pos h, if_pos h]
      rfl
    · rw [if_neg h, if_neg h]
      exact ih _

/-- The tables as they would be after a commit. -/
def Session.virtual (s : Session) (w : World) : Option Tables := Write.applyAll s.pending w.db

theorem virtual_stage {s : Session} {w : World} {T : Tables} (h : s.virtual w = some T) (y : Write) :
    (s.stage y).virtual w = if y.violates T then none else some (y.apply T) := by
  unfold Session.virtual Session.stage at *
  dsimp only
  rw [Write.applyAll_append, h, Option.bind_some]
  rfl

theorem virtual_stage_of {s : Session} {w : World} {T : Tables} {y : Write}
    (h : s.virtual w = some T) (hy : y.violates T = false) :
    (s.stage y).virtual w = some (y.apply T) := by
  rw [virtual_stage h, hy]
  rfl

/-! ### The passing of time -/

/-- Only time has passed. -/
structure Later (w w' : World) : Prop where
  db : w'.db = w.db
  now : w.now ≤ w'.now
  minted : w'.minted = w.minted
  drawn : w'.drawn = w.drawn
  outbox : w'.outbox = w.outbox

theorem later_elapse (w : World) (c : Choice) : Later w (w.elapse c) := by
  refine ⟨rfl, ?_, rfl, rfl, rfl⟩
  change w.now ≤ w.now + c.elapsed
  lia

theorem Later.trans {w w' w'' : World} (h : Later w w') (h' : Later w' w'') : Later w w'' :=
  ⟨h'.db.trans h.db, h.now.trans h'.now, h'.minted.trans h.minted, h'.drawn.trans h.drawn,
    h'.outbox.trans h.outbox⟩

theorem Later.virtual {w w' : World} (h : Later w w') (s : Session) : s.virtual w' = s.virtual w := by
  unfold Session.virtual
  rw [h.db]

/-! ### The rules -/

/-- A postcondition: what holds after an exception, and what holds of a result. -/
def Post {α : Type} (E : Session → World → Prop) (G : α → Session → World → Prop) :
    Except Exc α → Session × World → Prop
  | .ok a, v => G a v.1 v.2
  | .error _, v => E v.1 v.2

/-- The logic that follows the handlers through the steps that meet `C`. -/
abbrev follow (C : Condition Effect Choice Session World) : Logic Effect Exc (Session × World) :=
  .following machine C fun _ _ _ _ => True

section Rules

variable {C : Condition Effect Choice Session World} {α β : Type} {s : Session} {w : World}
  {E : Session → World → Prop} {Q : Except Exc α → Session × World → Prop}

/-- A database call fails, or its answer counts. -/
theorem wp_dbCall {o : Effect α} (answer : World → ℕ → Result α) (hs : s.invalid = false)
    (ho : ∀ c, machine.exec o c s w = dbCall c.answer s (w.elapse c) (answer (w.elapse c)))
    (hok : ∀ c n r s' w', C α o c s w → c.answer ≠ .fail →
      answer (w.elapse c) n = some (r, s', w') → Q r (s', w'))
    (herr : ∀ c, C α o c s w → c.answer = .fail → Q (.error .databaseError) (s.fail, w.elapse c)) :
    wp (follow C) (.perform o) Q (s, w) := by
  apply wp_follow trivial
  intro c r s' w' hc hex
  rw [ho c] at hex
  unfold dbCall at hex
  rw [hs] at hex
  cases ha : c.answer with
  | ok =>
    rw [ha] at hex
    exact hok c 0 r s' w' hc (fun h => by rw [ha] at h; cases h) hex
  | pick n =>
    rw [ha] at hex
    exact hok c n r s' w' hc (fun h => by rw [ha] at h; cases h) hex
  | fail =>
    rw [ha] at hex
    obtain ⟨rfl, rfl, rfl⟩ : .error .databaseError = r ∧ s.fail = s' ∧ w.elapse c = w' := by
      simpa using hex
    exact herr c hc ha
  | text t =>
    rw [ha] at hex
    cases hex
  | conflict row =>
    rw [ha] at hex
    cases hex

theorem wp_select {query : ℕ → Tables → α} (hs : s.invalid = false)
    (hok : ∀ n w', Later w w' → Q (.ok (query n w.db)) (s, w'))
    (herr : ∀ c, C α (.select query) c s w → c.answer = .fail →
      Q (.error .databaseError) (s.fail, w.elapse c)) :
    wp (follow C) (dbSelect query) Q (s, w) := by
  refine wp_dbCall (fun w n => some (.ok (query n w.db), s, w)) hs (fun _ => rfl) ?_ herr
  intro c n r s' w' _ _ h
  cases h
  exact hok n _ (later_elapse w c)

theorem wp_invitationFor {r u : Id}
    {Q : Except Exc (Option ParticipantInvitation) → Session × World → Prop} (hs : s.invalid = false)
    (hok : ∀ c w', C _ (.invitationFor r u) c s w → Later w w' →
      Q (.ok (w.db.invitationFor r u)) (s, w'))
    (herr : ∀ c, C _ (.invitationFor r u) c s w → c.answer = .fail →
      Q (.error .databaseError) (s.fail, w.elapse c)) :
    wp (follow C) (.perform (.invitationFor r u)) Q (s, w) := by
  refine wp_dbCall (fun w _ => some (.ok (w.db.invitationFor r u), s, w)) hs (fun _ => rfl) ?_ herr
  intro c n r' s' w' hc _ h
  cases h
  exact hok c _ hc (later_elapse w c)

theorem wp_stage {y : Write} {Q : Except Exc Unit → Session × World → Prop}
    (h : ∀ w', Later w w' → Q (.ok ()) (s.stage y, w')) : wp (follow C) (dbAdd y) Q (s, w) := by
  apply wp_follow trivial
  intro c r s' w' _ hex
  cases hex
  exact h _ (later_elapse w c)

theorem wp_now {Q : Except Exc Instant → Session × World → Prop}
    (h : ∀ w', Later w w' → Q (.ok w'.now) (s, w')) : wp (follow C) now Q (s, w) := by
  apply wp_follow trivial
  intro c r s' w' _ hex
  cases hex
  exact h _ (later_elapse w c)

theorem wp_rollback {Q : Except Exc Unit → Session × World → Prop}
    (h : ∀ w', Later w w' → Q (.ok ()) (s.rollback, w')) : wp (follow C) dbRollback Q (s, w) := by
  apply wp_follow trivial
  intro c r s' w' _ hex
  cases hex
  exact h _ (later_elapse w c)

theorem wp_loadExpired {Q : Except Exc Unit → Session × World → Prop}
    (hok : ∀ w', Later w w' → Q (.ok ()) (s, w'))
    (herr : ∀ c, C _ .loadExpired c s w → c.answer = .fail →
      Q (.error .missingGreenlet) (s, w.elapse c)) :
    wp (follow C) (.perform .loadExpired) Q (s, w) := by
  apply wp_follow trivial
  intro c r s' w' hc hex
  change respond .loadExpired c.answer s (w.elapse c) = _ at hex
  unfold respond at hex
  dsimp only at hex
  split at hex
  · cases hex
    exact hok _ (later_elapse w c)
  · next ha =>
    cases hex
    exact herr c hc ha
  · cases hex

theorem wp_newId {Q : Except Exc Id → Session × World → Prop}
    (h : ∀ n w', n ∉ w.drawn → Later w w' → Q (.ok n) (s, { w' with drawn := n :: w.drawn })) :
    wp (follow C) newId Q (s, w) := by
  apply wp_follow trivial
  intro c r s' w' _ hex
  change respond .newId c.answer s (w.elapse c) = _ at hex
  unfold respond at hex
  dsimp only at hex
  split at hex
  · next n _ =>
    split_ifs at hex with hn
    cases hex
    exact h n _ hn (later_elapse w c)
  · cases hex

theorem wp_tokenUrlsafe {Q : Except Exc String → Session × World → Prop}
    (h : ∀ raw w', raw ∉ w.minted → Later w w' →
      Q (.ok raw) (s, { w' with minted := raw :: w.minted })) :
    wp (follow C) (.perform .tokenUrlsafe) Q (s, w) := by
  apply wp_follow trivial
  intro c r s' w' _ hex
  change respond .tokenUrlsafe c.answer s (w.elapse c) = _ at hex
  unfold respond at hex
  dsimp only at hex
  split at hex
  · next raw _ =>
    split_ifs at hex with hn
    cases hex
    exact h raw _ hn (later_elapse w c)
  · cases hex

theorem wp_gensalt {Q : Except Exc String → Session × World → Prop}
    (h : ∀ salt w', Later w w' → Q (.ok salt) (s, w')) :
    wp (follow C) (.perform .gensalt) Q (s, w) := by
  apply wp_follow trivial
  intro c r s' w' _ hex
  change respond .gensalt c.answer s (w.elapse c) = _ at hex
  unfold respond at hex
  dsimp only at hex
  split at hex
  · next salt _ =>
    cases hex
    exact h salt _ (later_elapse w c)
  · cases hex

theorem wp_sendMail {msg : InviteEmail} {Q : Except Exc Unit → Session × World → Prop}
    (hok : ∀ w', Later w w' → Q (.ok ()) (s, { w' with outbox := w.outbox ++ [msg] }))
    (herr : ∀ w', Later w w' → Q (.error .sendGridError) (s, w')) :
    wp (follow C) (.perform (.sendMail msg)) Q (s, w) := by
  apply wp_follow trivial
  intro c r s' w' _ hex
  change respond (.sendMail msg) c.answer s (w.elapse c) = _ at hex
  unfold respond at hex
  dsimp only at hex
  split at hex
  · cases hex
    exact hok _ (later_elapse w c)
  · cases hex
    exact herr _ (later_elapse w c)
  · cases hex

theorem wp_verifyIdToken {pf : Platform} {idToken : String}
    {Q : Except Exc GoogleIdentity → Session × World → Prop}
    (hok : ∀ w', Later w w' → Q (.ok (pf.googleIdentity idToken)) (s, w'))
    (herr : ∀ w', Later w w' → Q (.error (.ofClass .invalidGoogleTokenError)) (s, w')) :
    wp (follow C) (verifyIdToken pf idToken) Q (s, w) := by
  apply wp_bind
  apply wp_follow trivial
  intro c r s' w' _ hex
  change respond (.verifyOauth2Token idToken) c.answer s (w.elapse c) = _ at hex
  unfold respond at hex
  dsimp only at hex
  split at hex
  · cases hex
    exact hok _ (later_elapse w c)
  · cases hex
    exact herr _ (later_elapse w c)
  · cases hex

theorem wp_commit {Q : Except Exc Unit → Session × World → Prop} (hs : s.invalid = false)
    (hok : ∀ c T w', C _ .commit c s w → c.answer ≠ .fail → s.virtual w = some T → Later w w' →
      Q (.ok ()) (s.committed, { w' with db := T }))
    (herr : ∀ c, C _ .commit c s w → c.answer = .fail →
      Q (.error .databaseError) (s.fail, w.elapse c))
    (hviolates : ∀ c, C _ .commit c s w → s.virtual w = none →
      Q (.error .integrityError) (s.fail, w.elapse c)) :
    wp (follow C) dbCommit Q (s, w) := by
  refine wp_dbCall (fun w _ => commitPending s w) hs (fun _ => rfl) ?_ herr
  intro c n r s' w' hc ha h
  unfold commitPending at h
  split at h
  · next T hT =>
    cases h
    exact hok c T _ hc ha hT (later_elapse w c)
  · next hT =>
    cases h
    exact hviolates c hc hT

/-- A flush succeeds, fails, finds a constraint broken, or comes after a conflicting commit. -/
theorem wp_flush {Q : Except Exc Unit → Session × World → Prop} (hs : s.invalid = false)
    (hok : ∀ c T, C _ .flush c s w → s.virtual w = some T → Q (.ok ()) (s.flushed, w.elapse c))
    (herr : ∀ c, C _ .flush c s w → c.answer = .fail → Q (.error .databaseError) (s.fail, w.elapse c))
    (hviolates : ∀ c, C _ .flush c s w → s.virtual w = none →
      Q (.error .integrityError) (s.fail, w.elapse c))
    (hconflict : ∀ c row, C _ .flush c s w → c.answer = .conflict row →
      (Write.insertInvitation row).violates w.db = false →
      s.virtual { w with db := (Write.insertInvitation row).apply w.db } = none →
      Q (.error .integrityError)
        (s.fail, { w.elapse c with db := (Write.insertInvitation row).apply w.db })) :
    wp (follow C) dbFlush Q (s, w) := by
  apply wp_follow trivial
  intro c r s' w' hc hex
  change respond .flush c.answer s (w.elapse c) = _ at hex
  unfold respond at hex
  dsimp only at hex
  split at hex
  · next row ha =>
    unfold conflictingFlush at hex
    dsimp only at hex
    split_ifs at hex with h
    cases hex
    exact hconflict c row hc ha h.2.1 h.2.2
  · next ha =>
    unfold dbCall flushPending at hex
    rw [hs] at hex
    simp only [Bool.false_eq_true, if_false] at hex
    split at hex
    · split at hex
      · next T hT =>
        cases hex
        exact hok c T hc hT
      · next hT =>
        cases hex
        exact hviolates c hc hT
    · split at hex
      · next T hT =>
        cases hex
        exact hok c T hc hT
      · next hT =>
        cases hex
        exact hviolates c hc hT
    · next hfail =>
      cases hex
      exact herr c hc hfail
    · cases hex

end Rules

end InterviewScheduler.Accounts
