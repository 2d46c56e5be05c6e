import InterviewScheduler.Core.Calls

/-! # Interview requests

`interviews/service.py` with its schemas and repository: the creation and the editing of a request. -/

namespace InterviewScheduler.Interviews

open InterviewScheduler.Core InterviewScheduler.Effects

/-! ### Schemas -/

/-- A string with at most `n` characters. -/
abbrev Text (n : ℕ) := { s : String // s.length ≤ n }

structure CreateInterviewRequest where
  candidateId : Id
  title : Option (Text 200) := none
  company : Option (Text 200) := none
  roundType : RoundType
  durationMinutes : ℤ
  bufferMinutes : ℤ := 15
  panelistIds : List Id := []
  duration_pos : 0 < durationMinutes
  buffer_nonneg : 0 ≤ bufferMinutes
  /-- `_dedupe` -/
  panelistIds_nodup : panelistIds.Nodup
  /-- `_candidate_not_panelist` -/
  candidate_not_panelist : candidateId ∉ panelistIds

structure UpdateInterviewRequest where
  roundType : Patch RoundType := .unset
  durationMinutes : Patch ℤ := .unset
  bufferMinutes : Patch ℤ := .unset
  panelistIds : Patch (List Id) := .unset
  duration_pos : ∀ d, durationMinutes = .value d → 0 < d
  buffer_nonneg : ∀ b, bufferMinutes = .value b → 0 ≤ b
  panelistIds_valid : ∀ ids, panelistIds = .value ids → ids ≠ [] ∧ ids.Nodup

/-- The names of the fields of the body. -/
def UpdateInterviewRequest.changed (data : UpdateInterviewRequest) : List String :=
  (if data.bufferMinutes.isSet then ["buffer_minutes"] else []) ++
    (if data.durationMinutes.isSet then ["duration_minutes"] else []) ++
    (if data.panelistIds.isSet then ["panelist_ids"] else []) ++
    (if data.roundType.isSet then ["round_type"] else [])

structure InterviewRequestOut where
  request : InterviewRequest
  participants : List (InterviewParticipant × ResponseStatus)
  deriving DecidableEq, Repr

/-! ### Repository -/

def getUsers (ids : List Id) : M (List User) :=
  if ids = [] then pure [] else dbSelect fun _ db => ids.filterMap db.users

/-- `selectinload(InterviewRequest.participants)` -/
def participantRows (requestId : Id) : M (List (InterviewParticipant × ResponseStatus)) :=
  dbSelect fun _ db => (db.participants requestId).map fun p => (p, db.responses requestId p.userId)

/-- `repository.get`: a request with its participants -/
def getWithParticipants (requestId : Id) : M (Option InterviewRequestOut) := do
  let request ← dbGet requestId
  match request with
  | none => pure none
  | some request => do
    let participants ← participantRows requestId
    pure (some ⟨request, participants⟩)

/-- `repository.create`, for a row whose id is still to be generated -/
def create (row : InterviewRequest) (panelistIds : List Id) : M InterviewRequest := do
  let id ← uuid4
  let row := { row with id }
  dbAdd (.insertRequest row
    (⟨row.candidateId, .candidate⟩ :: panelistIds.map (⟨·, .panelist⟩)))
  dbFlush
  pure row

/-- `replace_panelists`: new rows, whose response is PENDING -/
def replacePanelists (requestId : Id) (panelistIds : List Id) : M Unit := do
  dbAdd (.replacePanelists requestId panelistIds)
  let _ ← Prog.forEach (fun u => dbAddSide (.setResponse requestId u .pending)) panelistIds
  dbFlush

/-! ### Service -/

def invalidParticipantError (message : String) : Exc := .app .invalidParticipantError message

/-- `str(uuid)` of several, in order, separated by commas -/
def idList (ids : List Id) : String := String.intercalate ", " (ids.map toString)

/-- The ids that no user has. -/
def missingIds (wanted : List Id) (found : List User) : List Id :=
  (wanted.dedup.filter fun u => found.all fun row => row.id ≠ u).mergeSort (· ≤ ·)

/-- The panelists among `ids` whose user has another role. -/
def wrongRole (ids : List Id) (found : List User) : List Id :=
  ids.filter fun u => found.any fun row => row.id = u ∧ row.role ≠ .panelist

/-- `_resolve_roles` -/
def resolveRoles (candidateId : Option Id) (panelistIds : List Id) : M Unit := do
  let wanted := candidateId.toList ++ panelistIds
  let found ← getUsers wanted
  Prog.raiseIf (missingIds wanted found ≠ [])
    (notFoundError ("unknown user id(s): " ++ idList (missingIds wanted found)))
  Prog.raiseIf (candidateId.any fun c => found.any fun row => row.id = c ∧ row.role ≠ .candidate)
    (invalidParticipantError "candidate_id must reference a CANDIDATE user")
  Prog.raiseIf (wrongRole panelistIds found ≠ [])
    (invalidParticipantError ("not a PANELIST: " ++ idList (wrongRole panelistIds found)))

/-- `INITIAL_STATUS`: requests are created ready for the candidate, not DRAFT. -/
def initialStatus : RequestStatus := .awaitingCandidateAvailability

def createRequest (actor : User) (data : CreateInterviewRequest) : M InterviewRequestOut := do
  resolveRoles (some data.candidateId) data.panelistIds
  -- with no panelist selected the creating administrator runs the interview
  let effectivePanelists := if data.panelistIds = [] then [actor.id] else data.panelistIds
  let request ← create
    { id := 0, candidateId := data.candidateId, createdBy := actor.id, roundType := data.roundType,
      durationMinutes := data.durationMinutes, bufferMinutes := data.bufferMinutes,
      status := initialStatus, title := data.title.map (·.val), company := data.company.map (·.val) }
    effectivePanelists
  recordAudit actor "INTERVIEW_REQUEST_CREATED" request.id
    [("round_type", data.roundType.name), ("duration_minutes", toString data.durationMinutes),
      ("panelist_count", toString data.panelistIds.length)]
  dbCommit
  pure ⟨request, (⟨data.candidateId, .candidate⟩, .pending) ::
    effectivePanelists.map fun u => (⟨u, .panelist⟩, .pending)⟩

/-- `if "panelist_ids" in changed` -/
def updatePanel (requestId : Id) : Patch (List Id) → M Unit
  | .unset => pure ()
  -- `set(None)`
  | .null => throw (.builtin "TypeError")
  | .value ids => do
    resolveRoles none ids
    replacePanelists requestId ids

/-- `setattr` of the fields that are given. -/
def updateDetails (requestId : Id) (data : UpdateInterviewRequest) : M Unit :=
  if data.roundType.isSet || data.durationMinutes.isSet || data.bufferMinutes.isSet then
    dbAdd (.setDetails requestId data.roundType data.durationMinutes data.bufferMinutes)
  else pure ()

def updateRequest (actor : User) (requestId : Id) (data : UpdateInterviewRequest) :
    M InterviewRequestOut := do
  let found ← getWithParticipants requestId
  let out ← Prog.orRaise found (notFoundError "interview request not found")
  Prog.raiseIf (out.request.status ∉ editableStatuses) (.ofClass .requestLockedForEditingError)
  if data.changed = [] then pure out
  else do
    updatePanel requestId data.panelistIds
    updateDetails requestId data
    recordAudit actor "INTERVIEW_REQUEST_UPDATED" requestId
      [("changed", String.intercalate ", " data.changed)]
    dbCommit
    let stored ← getWithParticipants requestId
    Prog.orRaise stored (.builtin "AttributeError")

end InterviewScheduler.Interviews
