import Mathlib.Data.Set.Card
import InterviewScheduler.Interviews.Service
import InterviewScheduler.Util.Paging

/-! # The list and the detail of requests

`list_requests` with the query behind it, and `get_request`, over one state of the database. Who sees a
request is decided twice, by a subquery and by a predicate, and they agree (`mem_visibleRows`). The list
is sorted by `created_at` alone, so that what its pages have together depends on the ties
(`listing_exact`). -/

namespace InterviewScheduler.Interviews

open InterviewScheduler.Core InterviewScheduler.Engine InterviewScheduler.Paging

/-! ### The tables and the schemas -/

/-- A state of the database, with the rows of `interview_requests` and their column `created_at`. -/
structure Stored where
  db : Db
  requests : List InterviewRequest
  createdAt : Id → Instant
  pkey : (requests.map (·.id)).Nodup
  mem_requests : ∀ row, row ∈ requests ↔ db.requests row.id = some row
  keyed : ∀ r row, db.requests r = some row → row.id = r

structure PageParams where
  page : ℕ := 0
  size : ℕ := 20

structure Page (α : Type) where
  items : List α
  page : ℕ
  size : ℕ
  total : ℕ
  deriving Repr

structure ParticipantOut where
  participant : InterviewParticipant
  responseStatus : ResponseStatus
  calendarStatus : Option ConnectionStatus := none
  deriving DecidableEq, Repr

/-- `schemas.InterviewRequestOut`, with the fields of the detail. -/
structure RequestOut where
  request : InterviewRequest
  createdAt : Instant
  participants : List ParticipantOut
  recommendedSlots : Option (List RecommendedSlot) := none
  bookedEvent : Option InterviewEvent := none
  deriving DecidableEq, Repr

variable (s : Stored)

/-! ### The list -/

/-- `_to_out` -/
def toOut (request : InterviewRequest) : RequestOut where
  request
  createdAt := s.createdAt request.id
  participants := (s.db.participants request.id).map fun p => ⟨p, s.db.responses request.id p.userId, none⟩

/-- The requests that the subquery on `interview_participants` selects. -/
def visible (viewerId : Id) : List Id :=
  (s.requests.map (·.id)).filter fun r => (s.db.participants r).any fun p => p.userId = viewerId

/-- The rows that pass the filters of `list_for_viewer`. -/
def visibleRows (viewerId : Id) (isAdmin : Bool) (status : Option RequestStatus) :
    List InterviewRequest :=
  s.requests.filter fun row =>
    status.all (fun st => row.status = st) && (isAdmin || decide (row.id ∈ visible s viewerId))

/-- `list_for_viewer`: one query counts the rows, another selects them by `created_at`, newest first. -/
def listForViewer (order : Descending fun row : InterviewRequest => s.createdAt row.id) (viewerId : Id)
    (isAdmin : Bool) (status : Option RequestStatus) (offset limit : ℕ) : List InterviewRequest × ℕ :=
  let rows := visibleRows s viewerId isAdmin status
  (((order.sort rows).drop offset).take limit, rows.length)

def listRequests (order : Descending fun row : InterviewRequest => s.createdAt row.id) (viewer : User)
    (status : Option RequestStatus) (page : PageParams) : Page RequestOut :=
  let (rows, total) := listForViewer s order viewer.id (viewer.role = .admin) status
    (page.page * page.size) page.size
  ⟨rows.map (toOut s), page.page, page.size, total⟩

/-! ### The detail -/

/-- `_visible_to` -/
def visibleTo (request : InterviewRequest) (viewer : User) : Bool :=
  if viewer.role = .admin then true
  else (s.db.participants request.id).any fun p => p.userId = viewer.id

/-- `statuses_by_user`: who has no connection is not among the keys. -/
def statusesByUser (userIds : List Id) : List (Id × ConnectionStatus) :=
  userIds.filterMap fun u => (s.db.connections u).map fun c => (u, c.status)

/-- The participants with the calendar status of each panelist, for an administrator. -/
def withCalendarStatus (out : RequestOut) : List ParticipantOut :=
  let panelistIds := (out.participants.filter fun p =>
    p.participant.roleInInterview = .panelist).map (·.participant.userId)
  let statuses := statusesByUser s panelistIds
  out.participants.map fun p =>
    if p.participant.roleInInterview = .panelist then
      { p with calendarStatus := some ((statuses.lookup p.participant.userId).getD .disconnected) }
    else p

def getRequest (pick : ℕ) (viewer : User) (requestId : Id) : Except Exc RequestOut :=
  match s.db.requests requestId with
  | none => .error (notFoundError "interview request not found")
  | some request =>
    if visibleTo s request viewer then
      let out := toOut s request
      .ok { out with
        participants := if viewer.role = .admin then withCalendarStatus s out else out.participants
        -- the recommended slots are for administrators and the owning candidate
        recommendedSlots :=
          if viewer.role = .admin ∨ viewer.id = request.candidateId then
            (latestRun pick s.db.toInterviews requestId).map (·.slots)
          else none
        bookedEvent := s.db.events.find? fun e => e.ConfirmedFor requestId }
    else .error (notFoundError "interview request not found")

/-- `get_request` answers the viewer. -/
def Succeeds (viewer : User) (requestId : Id) : Prop :=
  ∃ pick out, getRequest s pick viewer requestId = .ok out

variable {s}

/-! ### The two notions of visibility -/

theorem succeeds_iff {viewer : User} {r : Id} :
    Succeeds s viewer r ↔ ∃ row, s.db.requests r = some row ∧ visibleTo s row viewer = true := by
  unfold Succeeds getRequest
  cases hrow : s.db.requests r with
  | none => simp
  | some row =>
    by_cases hvisible : visibleTo s row viewer = true
    · simp [hvisible]
    · simp [hvisible]

/-- **The list and the detail show a viewer the same requests.** -/
theorem mem_visibleRows {viewer : User} {row : InterviewRequest} :
    row ∈ visibleRows s viewer.id (viewer.role = .admin) none ↔
      row ∈ s.requests ∧ visibleTo s row viewer = true := by
  unfold visibleRows visible visibleTo
  rw [List.mem_filter]
  refine and_congr_right fun hrow => ?_
  by_cases hadmin : viewer.role = .admin
  · simp [hadmin]
  · have hmem : row.id ∈ s.requests.map (·.id) := List.mem_map_of_mem hrow
    simp [hadmin, List.mem_filter, hmem]

variable (s)

/-- The requests that a viewer may see. -/
def seen (viewer : User) : List InterviewRequest := s.requests.filter fun row => visibleTo s row viewer

variable {s} {viewer : User} {size : ℕ}

theorem visibleRows_eq_seen : visibleRows s viewer.id (viewer.role = .admin) none = seen s viewer := by
  refine List.filter_congr fun row hrow => ?_
  have h : row ∈ visibleRows s viewer.id _ none ↔ row ∈ s.requests ∧ visibleTo s row viewer = true :=
    mem_visibleRows
  unfold visibleRows at h
  rw [List.mem_filter, and_congr_right_iff] at h
  exact Bool.eq_iff_iff.mpr (h hrow)

theorem nodup_seen : (seen s viewer).Nodup := (List.Nodup.of_map _ s.pkey).filter _

theorem succeeds_of_mem {row : InterviewRequest} (h : row ∈ seen s viewer) :
    Succeeds s viewer row.id := by
  obtain ⟨hrow, hvisible⟩ := List.mem_filter.mp h
  exact succeeds_iff.mpr ⟨row, (s.mem_requests row).mp hrow, hvisible⟩

theorem exists_mem_seen {r : Id} (h : Succeeds s viewer r) : ∃ row ∈ seen s viewer, row.id = r := by
  obtain ⟨row, hrow, hvisible⟩ := succeeds_iff.mp h
  obtain rfl := s.keyed r row hrow
  exact ⟨row, List.mem_filter.mpr ⟨(s.mem_requests row).mpr hrow, hvisible⟩, rfl⟩

theorem setOf_succeeds : { r | Succeeds s viewer r } = ((seen s viewer).map (·.id)).toFinset := by
  ext r
  rw [List.coe_toFinset, Set.mem_ofPred_eq, Set.mem_ofPred_eq, List.mem_map]
  constructor
  · exact exists_mem_seen
  · rintro ⟨row, hrow, rfl⟩
    exact succeeds_of_mem hrow

theorem nodup_seen_ids : ((seen s viewer).map (·.id)).Nodup :=
  s.pkey.sublist (List.filter_sublist.map _)

/-! ### All pages -/

variable (s viewer size)

/-- The number of pages with an item. -/
def pageCount (total : ℕ) : ℕ := (total + size - 1) / size

/-- The ids on the pages of a viewer, one page after the other, each from its own query. -/
def listed (orders : ℕ → Descending fun row : InterviewRequest => s.createdAt row.id) : List Id :=
  (List.range (pageCount size (seen s viewer).length)).flatMap fun p =>
    (listRequests s (orders p) viewer none ⟨p, size⟩).items.map (·.request.id)

/-- The pages have the requests whose detail the viewer gets, each once, and say how many there are. -/
structure ListsExactly (orders : ℕ → Descending fun row : InterviewRequest => s.createdAt row.id) :
    Prop where
  once : ∀ r, Succeeds s viewer r → (listed s viewer size orders).count r = 1
  only : ∀ r ∈ listed s viewer size orders, Succeeds s viewer r
  total : ∀ p, (listRequests s (orders p) viewer none ⟨p, size⟩).total = { r | Succeeds s viewer r }.ncard

/-- The requests a viewer may see that were created at one instant all belong on one page: the first of
them comes after the newer ones, and the last before the older ones. -/
def OnOnePage : Prop := ∀ row ∈ seen s viewer,
  newer (fun row => s.createdAt row.id) (seen s viewer) row / size =
    (notOlder (fun row => s.createdAt row.id) (seen s viewer) row - 1) / size

instance : Decidable (OnOnePage s viewer size) := inferInstanceAs (Decidable (∀ _ ∈ _, _))

variable {s viewer size}

theorem le_pageCount_mul (hs : 0 < size) (total : ℕ) : total ≤ pageCount size total * size := by
  unfold pageCount
  have h := Nat.lt_div_mul_add hs (a := total + size - 1)
  omega

theorem listed_eq (orders : ℕ → Descending fun row : InterviewRequest => s.createdAt row.id) :
    listed s viewer size orders =
      (pages orders (seen s viewer) size (pageCount size (seen s viewer).length)).map (·.id) := by
  unfold listed pages
  rw [List.map_flatMap]
  refine List.flatMap_congr fun p _ => ?_
  show ((((orders p).sort (visibleRows s viewer.id _ none)).drop _).take _ |>.map (toOut s)).map _ = _
  rw [visibleRows_eq_seen, List.map_map]
  rfl

/-- The ids are on the pages as often as the rows. -/
theorem count_listed (orders : ℕ → Descending fun row : InterviewRequest => s.createdAt row.id)
    {row : InterviewRequest} (hrow : row ∈ seen s viewer) :
    (listed s viewer size orders).count row.id =
      (pages orders (seen s viewer) size (pageCount size (seen s viewer).length)).count row := by
  rw [listed_eq, List.count_eq_countP, List.countP_map, List.count_eq_countP]
  refine List.countP_congr fun x hx => ?_
  have hseen : x ∈ seen s viewer := by
    by_contra hnot
    exact absurd hx (List.count_eq_zero.mp (count_pages_of_notMem orders hnot _ _))
  simp only [Function.comp_apply, beq_iff_eq]
  constructor
  · exact fun hid => List.inj_on_of_nodup_map nodup_seen_ids hseen hrow hid
  · rintro rfl
    rfl

/-- **When list and detail agree, page by page.** -/
theorem listing_exact (s : Stored) (viewer : User) {size : ℕ} (hsize : 0 < size) :
    (∀ orders, ListsExactly s viewer size orders) ↔ OnOnePage s viewer size := by
  have hpages : (∀ orders : ℕ → Descending fun row : InterviewRequest => s.createdAt row.id,
      ∀ row ∈ seen s viewer,
        (pages orders (seen s viewer) size (pageCount size (seen s viewer).length)).count row = 1) ↔
      OnOnePage s viewer size := count_pages_iff nodup_seen hsize (le_pageCount_mul hsize _)
  constructor
  · intro h
    refine hpages.mp fun orders row hrow => ?_
    rw [← count_listed orders hrow]
    exact (h orders).once row.id (succeeds_of_mem hrow)
  · intro h orders
    refine ⟨?_, ?_, ?_⟩
    · intro r hr
      obtain ⟨row, hrow, rfl⟩ := exists_mem_seen hr
      rw [count_listed orders hrow]
      exact hpages.mpr h orders row hrow
    · intro r hr
      rw [listed_eq] at hr
      obtain ⟨row, hrow, rfl⟩ := List.mem_map.mp hr
      by_contra hnot
      have hseen : row ∉ seen s viewer := fun hmem => hnot (succeeds_of_mem hmem)
      exact absurd hrow (List.count_eq_zero.mp (count_pages_of_notMem orders hseen _ _))
    · intro p
      show (visibleRows s viewer.id _ none).length = _
      rw [visibleRows_eq_seen, setOf_succeeds, Set.ncard_coe_finset,
        List.toFinset_card_of_nodup nodup_seen_ids, List.length_map]

/-! ### Two requests -/

/-- An administrator, as `viewer`. -/
def someAdmin : User := ⟨8, "admin@example.com", .admin, "UTC"⟩

def someUsers : Id → Option User
  | 7 => some ⟨7, "candidate@example.com", .candidate, "UTC"⟩
  | 8 => some someAdmin
  | 9 => some ⟨9, "panelist@example.com", .panelist, "UTC"⟩
  | _ => none

def someRequest (r : Id) : InterviewRequest :=
  ⟨r, 7, 8, .technical, 60, 15, .awaitingCandidateAvailability, none, none, none, none, 1, none⟩

/-- Two requests of one candidate, created at the given instants. -/
def twoRequests (t₁ t₂ : Instant) : Stored where
  db :=
    { users := someUsers
      requests := fun r => if r = 1 ∨ r = 2 then some (someRequest r) else none
      participants := fun r => if r = 1 ∨ r = 2 then [⟨7, .candidate⟩, ⟨9, .panelist⟩] else [] }
  requests := [1, 2].map someRequest
  createdAt := fun r => if r = 1 then t₁ else t₂
  pkey := by decide
  mem_requests := by
    intro row
    constructor
    · intro h
      obtain ⟨r, hr, rfl⟩ := List.mem_map.mp h
      have hid : r = 1 ∨ r = 2 := by simpa using hr
      exact if_pos hid
    · intro h
      dsimp only at h
      split_ifs at h with hid
      rw [← Option.some.inj h]
      exact List.mem_map_of_mem (by simpa using hid)
  keyed := by
    intro r row h
    dsimp only at h
    split_ifs at h
    rw [← Option.some.inj h]
    rfl

theorem listing_exact_distinct : 0 < 1 ∧ ∀ orders, ListsExactly (twoRequests 5 6) someAdmin 1 orders :=
  ⟨by decide, (listing_exact (twoRequests 5 6) someAdmin (by decide)).mpr (by decide)⟩

/-- Two requests that were created at one instant, in two orders: the first is on both pages. -/
theorem listing_repeats : ∃ orders, ¬ ListsExactly (twoRequests 5 5) someAdmin 1 orders := by
  refine ⟨fun p => .breaking _ fun row => decide (row.id = p + 1), fun h => ?_⟩
  have honce := h.once 1 ⟨0, _, rfl⟩
  revert honce
  decide

end InterviewScheduler.Interviews
