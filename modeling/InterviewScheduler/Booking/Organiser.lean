import InterviewScheduler.Booking.Spec
import InterviewScheduler.Calendar.Connections

/-! # Who hosts the event

The organiser is not stored: it is computed from the panel, the first panelist by user id. `book` creates
the calendar event with the token of that panelist's connection. -/

namespace InterviewScheduler.Booking

open InterviewScheduler.Engine InterviewScheduler.Core InterviewScheduler.Effects
open InterviewScheduler.Calendar

variable {pf : Platform} {C : Condition Effect Choice Session World} {D : Demand Effect Session World}
  {T : Interviews} {t : Instant} {s : Session} {w : World} {r : Id}

/-! ### The first panelist by id -/

theorem firstById_eq_some {ps : Parts} {p : Part} (h : firstById ps = some p) :
    p ∈ ps ∧ ∀ q ∈ ps, p.2.id ≤ q.2.id := by
  have hmin : ∀ (ps : Parts) (p : Part),
      let best := ps.foldl (fun best q => if q.2.id < best.2.id then q else best) p
      best ∈ p :: ps ∧ ∀ q ∈ p :: ps, best.2.id ≤ q.2.id := by
    intro ps
    induction ps with
    | nil => simp
    | cons x ps ih =>
      intro p
      by_cases hlt : x.2.id < p.2.id
      · obtain ⟨hmem, hle⟩ := ih x
        rw [List.foldl_cons, if_pos hlt]
        refine ⟨List.mem_cons_of_mem _ hmem, fun q hq => ?_⟩
        rcases List.mem_cons.mp hq with rfl | hq
        · exact (hle x List.mem_cons_self).trans hlt.le
        · exact hle q hq
      · obtain ⟨hmem, hle⟩ := ih p
        rw [List.foldl_cons, if_neg hlt]
        refine ⟨?_, fun q hq => ?_⟩
        · rcases List.mem_cons.mp hmem with hmem | hmem
          · exact List.mem_cons.mpr (.inl hmem)
          · exact List.mem_cons_of_mem _ (List.mem_cons_of_mem _ hmem)
        · rcases List.mem_cons.mp hq with rfl | hq
          · exact hle q List.mem_cons_self
          · rcases List.mem_cons.mp hq with rfl | hq
            · exact (hle p List.mem_cons_self).trans (not_lt.mp hlt)
            · exact hle q (List.mem_cons_of_mem _ hq)
  cases ps with
  | nil => simp [firstById] at h
  | cons x ps =>
    obtain rfl : ps.foldl (fun best q => if q.2.id < best.2.id then q else best) x = p :=
      Option.some.inj h
    exact hmin ps x

theorem firstById_eq_none {ps : Parts} : firstById ps = none ↔ ps = [] := by
  cases ps <;> simp [firstById]

/-- The order of the rows does not matter. -/
theorem firstById_perm {ps qs : Parts} (h : ps.Perm qs) :
    (firstById ps).map (·.2.id) = (firstById qs).map (·.2.id) := by
  cases hp : firstById ps with
  | none =>
    obtain rfl := firstById_eq_none.mp hp
    rw [← h.nil_eq]
    rfl
  | some p =>
    cases hq : firstById qs with
    | none =>
      obtain rfl := firstById_eq_none.mp hq
      rw [h.eq_nil] at hp
      simp [firstById] at hp
    | some q =>
      obtain ⟨hmem, hle⟩ := firstById_eq_some hp
      obtain ⟨hmem', hle'⟩ := firstById_eq_some hq
      have heq : p.2.id = q.2.id :=
        le_antisymm (hle q (h.mem_iff.mpr hmem')) (hle' p (h.mem_iff.mp hmem))
      simp [heq]

/-- The panelist on whose calendar the events of the request are. -/
def organiser (T : Interviews) (requestId : Id) : Option Id :=
  (firstById ((partsOf T requestId).filter Part.isPanelist)).map (·.2.id)

/-- The token is the one of the user's connection. -/
def TokenOf (pf : Platform) (u : Id) (token : String) (db : Db) : Prop :=
  ∃ accessTokenEncrypted, Linked u accessTokenEncrypted db ∧
    pf.decrypt (accessTokenEncrypted.getD "") = some token

/-- The token of the organiser. -/
def OrganiserToken (pf : Platform) (T : Interviews) (r : Id) (token : String) (db : Db) : Prop :=
  ∃ u, organiser T r = some u ∧ TokenOf pf u token db

/-- **The token is the organiser's**, in whatever order the panel was read. -/
theorem wp_organiserToken (hC : ∀ {β : Type} (o : Effect β) c s w, C β o c s w → Keyed w)
    (hD : Unhindered D) (h : Looks T t s w) {parts : Parts} (hparts : parts.Perm (partsOf T r))
    {α : Type} {f : String → M α} {Q : Except Exc α → Session × World → Prop}
    (herr : ∀ e s' w', Looks T t s' w' → Q (.error e) (s', w'))
    (hf : ∀ token s' w', Looks T t s' w' → OrganiserToken pf T r token w'.db →
      wp (demanding C D) (f token) Q (s', w')) :
    wp (demanding C D)
      (organiserConnection pf (parts.filter Part.isPanelist) >>= fun organiser =>
        accessTokenOf pf organiser >>= f) Q (s, w) := by
  refine wp_bind (wp_bind (wp_orRaise (fun _ => herr _ _ _ h) fun p hp => ?_))
  refine wp_mono (usable_usableConnection hC hD h) ?_
  rintro (e | conn) ⟨s₁, w₁⟩ h₁
  · exact herr e s₁ w₁ h₁
  obtain ⟨h₁, hlinked⟩ := h₁
  refine wp_bind (wp_orRaise (fun _ => herr _ _ _ h₁) fun token htoken => ?_)
  refine hf token s₁ w₁ h₁ ⟨p.2.id, ?_, _, hlinked, htoken⟩
  have hperm := firstById_perm (hparts.filter Part.isPanelist)
  rw [hp, Option.map_some] at hperm
  exact hperm.symm

/-! ### Booking -/

/-- What is demanded of the effects of `book`: the calendar event is created as the organiser, while
the request is RECOMMENDED. -/
def CreatesAsOrganiser (pf : Platform) (T : Interviews) (r : Id) : Demand Effect Session World :=
  fun _ o _ w => match o with
  | .createEvent token _ => (∃ row, T.requests r = some row ∧ row.status = .recommended) ∧
      OrganiserToken pf T r token w.db
  | _ => True

theorem ordinary_createsAsOrganiser : Ordinary (Anytime (CreatesAsOrganiser pf T r)) := by
  intro β o ho s w
  cases o with
  | createEvent => simp [Effect.ordinary] at ho
  | _ => trivial

theorem unhindered_createsAsOrganiser : Unhindered (CreatesAsOrganiser pf T r) where
  plain o s w ho := by
    cases o with
    | createEvent => simp [Effect.plain] at ho
    | _ => trivial
  commit _ _ := trivial
  refreshToken _ _ _ := trivial

theorem looking_confirmedEventsForUsers (hD : Lenient D) (h : Looks T t s w) {users : List Id}
    {tmin tmax : Instant} :
    wp (demanding C D) (confirmedEventsForUsers users r tmin tmax) (Looking T t fun _ => True) (s, w) := by
  unfold confirmedEventsForUsers
  split
  · exact wp_pure ⟨h, trivial⟩
  · refine wp_mono (looking_plain hD h rfl) ?_
    rintro (e | rows) ⟨s', w'⟩ h'
    · exact h'
    · exact ⟨h'.1, trivial⟩

/-- The client's exceptions are turned into one error. -/
theorem wp_googleError {α : Type} {call : M α} {cls : ErrorClass} {v : Session × World}
    (h : wp (demanding C D) call (fun _ _ => True) v) :
    wp (demanding C D) (googleError call cls) (fun _ _ => True) v := by
  refine wp_tryCatch_any h fun e v' => ?_
  cases e <;> exact True.intro

theorem createsAsOrganiser_hostEvent
    (hC : ∀ {β : Type} (o : Effect β) c s w, C β o c s w → Keyed w) (h : Looks T t s w)
    {row : InterviewRequest} (hrow : T.requests r = some row) (hst : row.status = .recommended)
    {slot : RecommendedSlot} {parts : Parts} (hparts : parts.Perm (partsOf T r)) {email : String} :
    wp (demanding C (CreatesAsOrganiser pf T r))
      (hostEvent pf row slot (parts.filter Part.isPanelist) email) (fun _ _ => True) (s, w) := by
  have hE : Ordinary (Anytime (CreatesAsOrganiser pf T r)) := ordinary_createsAsOrganiser
  unfold hostEvent
  split
  · exact wp_anytime (Prog.uses_bind (Prog.uses_perform (hE _ rfl)) fun _ => Prog.uses_pure)
  · refine wp_organiserToken hC unhindered_createsAsOrganiser h hparts (fun _ _ _ _ => trivial)
      fun token s₁ w₁ h₁ htoken => ?_
    have hcreate : CreatesAsOrganiser pf T r _ (.createEvent token (eventDraft row slot.startTime
        slot.endTime (email :: (parts.filter Part.isPanelist).map (·.2.email)))) s₁ w₁ :=
      ⟨⟨row, hrow, hst⟩, htoken⟩
    exact wp_bind_any (wp_googleError (wp_follow hcreate fun _ _ _ _ _ _ => trivial)) fun _ _ => trivial

theorem createsAsOrganiser_bookLocked
    (hC : ∀ {β : Type} (o : Effect β) c s w, C β o c s w → Keyed w) (h : Looks T t s w) {actor : User}
    {slot : RecommendedSlot} :
    wp (demanding C (CreatesAsOrganiser pf T r)) (bookLocked pf actor r slot) (fun _ _ => True)
      (s, w) := by
  have hD : Unhindered (CreatesAsOrganiser pf T r) := unhindered_createsAsOrganiser
  have hE : Ordinary (Anytime (CreatesAsOrganiser pf T r)) := ordinary_createsAsOrganiser
  refine wp_bind_looking (looking_plain hD.plain h rfl) (fun _ _ _ _ => trivial)
    fun request s₁ w₁ h₁ hrequest => ?_
  refine wp_bind_looking (looking_raiseIf h₁) (fun _ _ _ _ => trivial) fun _ s₂ w₂ h₂ hst => ?_
  refine wp_bind_looking (looking_effect h₂ rfl trivial) (fun _ _ _ _ => trivial)
    fun _ s₃ w₃ h₃ _ => ?_
  refine wp_bind_looking (looking_raiseIf h₃) (fun _ _ _ _ => trivial) fun _ s₄ w₄ h₄ _ => ?_
  refine wp_bind_looking (looking_plain hD.plain h₄ rfl) (fun _ _ _ _ => trivial)
    fun parts s₅ w₅ h₅ hparts => ?_
  obtain ⟨n, db, rfl, rfl⟩ := hparts
  refine wp_bind_looking (looking_orRaise h₅) (fun _ _ _ _ => trivial) fun _ s₆ w₆ h₆ _ => ?_
  refine wp_bind_looking (looking_confirmedEventsForUsers hD.plain h₆) (fun _ _ _ _ => trivial)
    fun _ s₇ w₇ h₇ _ => ?_
  refine wp_bind_looking (looking_raiseIf h₇) (fun _ _ _ _ => trivial) fun _ s₈ w₈ h₈ _ => ?_
  refine wp_bind_any (createsAsOrganiser_hostEvent hC h₈ hrequest (not_not.mp hst)
    (inSomeOrder_perm _ _)) fun hosted v => ?_
  have hpersist : (persist actor r slot hosted).Uses (Anytime (CreatesAsOrganiser pf
      db.toInterviews r)) :=
    uses_persist hE.internal (fun _ _ _ _ _ _ => trivial) (fun _ _ => trivial) fun _ _ => trivial
  have hfailed : ∀ e, (persistFailed hosted e).Uses (Anytime (CreatesAsOrganiser pf
      db.toInterviews r)) := fun e => uses_persistFailed hE fun _ _ _ _ => trivial
  exact wp_anytime (Prog.uses_bind (Prog.uses_tryCatch hpersist hfailed) fun _ => Prog.uses_pure)

end InterviewScheduler.Booking
