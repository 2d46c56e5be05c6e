import InterviewScheduler.Core.World
import InterviewScheduler.Python.Json

/-! # The Google client

`calendar/client.py`: the one place where HTTP is spoken. A request is retried, and what the last response
holds is taken for the documented JSON. The network is the list of the outcomes of the attempts, which may
be anything. -/

namespace InterviewScheduler.Calendar.Client

open InterviewScheduler.Engine InterviewScheduler.Core InterviewScheduler.Python

/-- What the client calls of Python's library, on strings of any form: `datetime.fromisoformat`, `int`,
and the text of a value in a message; and how far the parser of JSON gets where it is called. -/
structure Runtime where
  limits : Json.Limits
  fromisoformat : String → Option DateTime
  int : String → Option ℤ
  str : Json → String

inductive ClientError where
  /-- `CalendarAuthError`: Google rejected the grant itself -/
  | auth (argument : Json)
  /-- `CalendarTransportError`: a network, 5xx or 429 failure that survived all retries -/
  | transport (text : String)
  /-- an exception of Python itself -/
  | python (e : Python.Error)

inductive Body where
  | json (text : Json)
  | notJson

/-- What comes of one HTTP request. -/
inductive Outcome where
  | transportError (text : String)
  | timeout (text : String)
  | response (status : ℕ) (body : Body)

abbrev Http := Except ClientError

/-- An exception of Python is not caught. -/
def lift {α : Type} : Py α → Http α
  | .ok a => .ok a
  | .error e => .error (.python e)

/-- `resp.json()` -/
def Body.decode (rt : Runtime) : Body → Py Json
  | .json text => Json.loads rt.limits text
  | .notJson => .error .valueError

/-- `_safe_json`, which catches `ValueError` only -/
def safeJson (rt : Runtime) (body : Body) : Py Json :=
  match body.decode rt with
  | .error .valueError => .ok (.object [])
  | decoded => decoded

/-! ### The retry wrapper -/

/-- `_RETRY_ATTEMPTS` -/
def retryAttempts : ℕ := 3

/-- The errors of a 400 that mean that the grant is dead. -/
def deadGrant (error : Json) : Bool :=
  error.isStr "invalid_grant" || error.isStr "invalid_client" || error.isStr "unauthorized_client"

/-- What is raised for a 400 or a 401. -/
def refusal (rt : Runtime) (status : ℕ) (body : Json) : Py ClientError := do
  let dead ← if status = 401 then pure true else do
    let error ← body.get "error" .null
    pure (deadGrant error)
  if dead then do
    let argument ← body.get "error" (.str ("HTTP " ++ toString status))
    pure (.auth argument)
  else do
    let error ← body.get "error" .null
    pure (.transport ("HTTP " ++ toString status ++ ": " ++ rt.str error))

/-- How an attempt ends. -/
inductive Attempt where
  | returns (body : Body)
  | raises (e : ClientError)
  /-- the next attempt is made, if there is one; the text is that of `last_exc` -/
  | fails (text : String)

/-- The body of the loop. -/
def attempt (rt : Runtime) (okStatuses : List ℕ) : Outcome → Attempt
  | .transportError text => .fails text
  | .timeout text => .fails text
  | .response status body =>
    if status < 400 ∨ status ∈ okStatuses then .returns body
    else if status = 400 ∨ status = 401 then
      match safeJson rt body >>= refusal rt status with
      | .ok e => .raises e
      | .error e => .raises (.python e)
    else if status ≠ 429 ∧ status < 500 then .raises (.transport ("HTTP " ++ toString status))
    else .fails ("HTTP " ++ toString status)

/-- The loop, from attempt `i` on, with the text of the last exception; the number of attempts that were
made comes with the result. -/
def requestFrom (rt : Runtime) (okStatuses : List ℕ) (network : ℕ → Outcome) :
    ℕ → ℕ → Option String → Http Body × ℕ
  | 0, i, lastExc => (.error (.transport (lastExc.getD "request failed")), i)
  | n + 1, i, _ =>
    match attempt rt okStatuses (network i) with
    | .returns body => (.ok body, i + 1)
    | .raises e => (.error e, i + 1)
    | .fails text => requestFrom rt okStatuses network n (i + 1) (some text)

/-- `_request` -/
def request (rt : Runtime) (okStatuses : List ℕ) (network : ℕ → Outcome) : Http Body × ℕ :=
  requestFrom rt okStatuses network retryAttempts 0 none

/-! ### Token operations -/

structure TokenBundle where
  accessToken : Json
  refreshToken : Json
  expiresIn : ℤ
  scope : Json

/-- What `_token_request` makes of a body. -/
def tokenBundle (rt : Runtime) (body : Body) : Py TokenBundle := do
  let body ← body.decode rt
  let accessToken ← body.item "access_token"
  let refreshToken ← body.get "refresh_token" .null
  let expiresIn ← body.get "expires_in" (.int 3600)
  let expiresIn ← expiresIn.toInt rt.int
  let scope ← body.get "scope" (.str "")
  pure { accessToken, refreshToken, expiresIn, scope }

/-! ### Free/busy -/

def fromisoformat (rt : Runtime) (s : String) : Py DateTime :=
  match rt.fromisoformat s with
  | some t => .ok t
  | none => .error .valueError

/-- `datetime.fromisoformat(block[key].replace("Z", "+00:00"))` -/
def blockTime (rt : Runtime) (block : Json) (key : String) : Py DateTime := do
  let time ← block.item key
  let text ← time.replace "Z" "+00:00"
  fromisoformat rt text

def busyBlock (rt : Runtime) (block : Json) : Py BusyInterval := do
  let start ← blockTime rt block "start"
  let stop ← blockTime rt block "end"
  pure ⟨start, stop⟩

/-- The calendar in a free/busy body. -/
def primaryCalendar (rt : Runtime) (body : Body) : Py Json := do
  let body ← body.decode rt
  let calendars ← body.get "calendars" (.object [])
  calendars.get "primary" (.object [])

def busyBlocks (rt : Runtime) (cal : Json) : Py (List BusyInterval) := do
  let busy ← cal.get "busy" (.array [])
  let blocks ← busy.iter
  blocks.mapM (busyBlock rt)

/-- What `free_busy` makes of a body. -/
def freeBusyBlocks (rt : Runtime) (body : Body) : Http (List BusyInterval) := do
  let cal ← lift (primaryCalendar rt body)
  let errors ← lift (cal.get "errors" .null)
  if errors.truthy then throw (.transport ("freeBusy returned errors: " ++ rt.str errors))
  else lift (busyBlocks rt cal)

/-! ### Calendar operations -/

structure CalendarEvent where
  eventId : Json
  meetingLink : Json
  htmlLink : Json

/-- `ep.get("entryPointType") == "video" and ep.get("uri")` -/
def videoLink (ep : Json) : Py Bool := do
  let type ← ep.get "entryPointType" .null
  if type.isStr "video" then do
    let uri ← ep.get "uri" .null
    pure uri.truthy
  else pure false

/-- The loop over the entry points. -/
def findVideo (link : Json) : List Json → Py Json
  | [] => .ok link
  | ep :: rest => do
    let video ← videoLink ep
    if video then ep.item "uri" else findVideo link rest

def meetingLink (body : Json) : Py Json := do
  let link ← body.get "hangoutLink" .null
  if link.truthy then pure link
  else do
    let conference ← body.get "conferenceData" (.object [])
    let entryPoints ← conference.get "entryPoints" (.array [])
    let entryPoints ← entryPoints.iter
    findVideo link entryPoints

/-- What `create_event` makes of a body. -/
def calendarEvent (rt : Runtime) (body : Body) : Py CalendarEvent := do
  let body ← body.decode rt
  let link ← meetingLink body
  let eventId ← body.item "id"
  let htmlLink ← body.get "htmlLink" .null
  pure { eventId, meetingLink := link, htmlLink }

/-! ### The four operations -/

inductive Operation where
  | createEvent
  | freeBusy
  | refresh
  | deleteEvent
  deriving DecidableEq, Repr

/-- What an operation returns. -/
inductive Value where
  | event (e : CalendarEvent)
  | busy (blocks : List BusyInterval)
  | tokens (bundle : TokenBundle)
  | none

/-- 404 and 410 mean that the event is already gone. -/
def Operation.okStatuses : Operation → List ℕ
  | .deleteEvent => [404, 410]
  | _ => []

/-- What an operation makes of the body of a response. -/
def Operation.read (rt : Runtime) : Operation → Body → Http Value
  | .createEvent, body => .event <$> lift (calendarEvent rt body)
  | .freeBusy, body => .busy <$> freeBusyBlocks rt body
  | .refresh, body => .tokens <$> lift (tokenBundle rt body)
  | .deleteEvent, _ => .ok .none

/-- A call of the client, with the number of its attempts. -/
def call (rt : Runtime) (op : Operation) (network : ℕ → Outcome) : Http Value × ℕ :=
  let (resp, attempts) := request rt op.okStatuses network
  (resp >>= op.read rt, attempts)

end InterviewScheduler.Calendar.Client
