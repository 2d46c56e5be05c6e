import Mathlib.Data.List.Basic

/-! # The session of a browser tab

The tokens of a session lie in the tab's local storage. The functions of the API client write them from
between their awaits: a login stores a pair, a refresh stores a new access token, a failed refresh and a
logout clear the storage. An event is what the event loop runs next, one piece of a function from an await
to the next; a fetch that is under way may settle at any time and in any way.

`Tab` also carries the history of the session, which no piece of code reads. -/

namespace InterviewScheduler.Frontend

/-! ### Stored tokens -/

/-- The answer to a login. Absent fields are `undefined`. -/
structure AuthTokens where
  access_token : Option String
  refresh_token : Option String
  deriving DecidableEq, Repr

/-- The items `sis_access_token` and `sis_refresh_token` of the local storage. -/
structure Storage where
  access : Option String
  refresh : Option String
  deriving DecidableEq, Repr

/-- A string counts as true when it is there and not empty. -/
def truthy : Option String → Bool
  | none => false
  | some s => s != ""

namespace Storage

def storeTokens (tokens : AuthTokens) (storage : Storage) : Storage where
  access := some (tokens.access_token.getD "undefined")
  refresh := if truthy tokens.refresh_token then tokens.refresh_token else storage.refresh

def storeAccessToken (accessToken : String) (storage : Storage) : Storage :=
  { storage with access := some accessToken }

def clearStoredTokens (_ : Storage) : Storage where
  access := none
  refresh := none

end Storage

/-! ### Functions under way -/

/-- How a fetch settles. -/
inductive Fetched where
  | rejected
  | status (code : ℕ)
  deriving DecidableEq, Repr

def Fetched.ok : Fetched → Bool
  | rejected => false
  | status code => 200 ≤ code && code ≤ 299

inductive RefreshPhase where
  | fetching
  | reading
  /-- The promise has its result, and `finally` has not run. -/
  | settled (result : Option String)
  | done (result : Option String)
  deriving DecidableEq, Repr

/-- A call of `refreshAccessToken`: the refresh token it read, and how many logins came before it. -/
structure Refresh where
  token : Option String
  logins : ℕ
  phase : RefreshPhase
  deriving DecidableEq, Repr

inductive RequestPhase where
  | fetching
  /-- The `await` of what `refreshPromise` was. -/
  | awaiting (promise : Option ℕ)
  | reading
  | ended
  deriving DecidableEq, Repr

/-- A call of `request`, with the token that its header carries. The caller `stores` the tokens that it
returns where it is a login. -/
structure Request where
  path : String
  stores : Bool
  retry : Bool
  bearer : Option String
  phase : RequestPhase
  deriving DecidableEq, Repr

/-! ### The tab -/

/-- What has happened in the tab: how many logins have stored their tokens, whether a logout has come
since the last of them, and which login stored what an item holds. -/
structure History where
  logins : ℕ
  loggedOut : Bool
  accessFrom : Option ℕ
  refreshFrom : Option ℕ
  deriving DecidableEq, Repr

structure Tab where
  storage : Storage
  isRefreshing : Bool
  refreshPromise : Option ℕ
  refreshes : List Refresh
  requests : List Request
  history : History
  deriving DecidableEq, Repr

/-- A page that has just loaded. -/
def Tab.opened (storage : Storage) : Tab where
  storage := storage
  isRefreshing := false
  refreshPromise := none
  refreshes := []
  requests := []
  history := { logins := 0, loggedOut := false, accessFrom := none, refreshFrom := none }

namespace Tab

def storeTokens (tokens : AuthTokens) (tab : Tab) : Tab :=
  { tab with
    storage := tab.storage.storeTokens tokens
    history :=
      { logins := tab.history.logins + 1
        loggedOut := false
        accessFrom := some (tab.history.logins + 1)
        refreshFrom :=
          if truthy tokens.refresh_token then some (tab.history.logins + 1)
          else tab.history.refreshFrom } }

def storeAccessToken (accessToken : String) (tab : Tab) : Tab :=
  { tab with
    storage := tab.storage.storeAccessToken accessToken
    history := { tab.history with accessFrom := none } }

def clearStoredTokens (tab : Tab) : Tab :=
  { tab with
    storage := tab.storage.clearStoredTokens
    history := { tab.history with accessFrom := none, refreshFrom := none } }

def setRequest (i : ℕ) (q : Request) (tab : Tab) : Tab :=
  { tab with requests := tab.requests.set i q }

def setRefresh (r : ℕ) (job : Refresh) (tab : Tab) : Tab :=
  { tab with refreshes := tab.refreshes.set r job }

/-! ### `refreshAccessToken` -/

/-- Up to the first await. -/
def refreshAccessToken (tab : Tab) : Refresh :=
  let refreshToken := tab.storage.refresh
  if !truthy refreshToken || refreshToken == some "undefined" then
    { token := none, logins := tab.history.logins, phase := .settled none }
  else
    { token := refreshToken, logins := tab.history.logins, phase := .fetching }

/-- After the fetch. -/
def refreshFetched (r : ℕ) (job : Refresh) (res : Fetched) (tab : Tab) : Tab :=
  if res.ok then tab.setRefresh r { job with phase := .reading }
  else tab.clearStoredTokens.setRefresh r { job with phase := .settled none }

/-- After `res.json()`, which failed where there is no body. -/
def refreshRead (r : ℕ) (job : Refresh) (body : Option (Option String)) (tab : Tab) : Tab :=
  match body with
  | some (some accessToken) =>
    if truthy (some accessToken) then
      (tab.storeAccessToken accessToken).setRefresh r { job with phase := .settled (some accessToken) }
    else tab.clearStoredTokens.setRefresh r { job with phase := .settled none }
  | _ => tab.clearStoredTokens.setRefresh r { job with phase := .settled none }

/-- The callback of `finally`. -/
def refreshFinally (r : ℕ) (job : Refresh) (result : Option String) (tab : Tab) : Tab :=
  { tab.setRefresh r { job with phase := .done result } with
    isRefreshing := false, refreshPromise := none }

/-! ### `request` -/

def isAuthEndpoint (path : String) : Bool := "/auth/".toList.isPrefixOf path.toList

/-- Up to the first await. -/
def request (path : String) (stores retry : Bool) (tab : Tab) : Request :=
  let token := tab.storage.access
  { path, stores, retry, bearer := if truthy token then token else none, phase := .fetching }

/-- A 401: wait for the refresh under way, or for one that starts now. -/
def unauthorized (i : ℕ) (q : Request) (tab : Tab) : Tab :=
  if tab.isRefreshing then tab.setRequest i { q with phase := .awaiting tab.refreshPromise }
  else
    { tab.setRequest i { q with phase := .awaiting (some tab.refreshes.length) } with
      refreshes := tab.refreshes ++ [tab.refreshAccessToken]
      isRefreshing := true
      refreshPromise := some tab.refreshes.length }

/-- The call returns `tokens` to its caller. -/
def returned (i : ℕ) (q : Request) (tokens : AuthTokens) (tab : Tab) : Tab :=
  let tab := tab.setRequest i { q with phase := .ended }
  if q.stores then tab.storeTokens tokens else tab

/-- After the fetch. -/
def fetched (i : ℕ) (q : Request) (res : Fetched) (tab : Tab) : Tab :=
  if res = .status 401 ∧ q.retry = true ∧ isAuthEndpoint q.path = false then tab.unauthorized i q
  else if res.ok = false then tab.setRequest i { q with phase := .ended }
  else if res = .status 204 then tab.returned i q { access_token := none, refresh_token := none }
  else tab.setRequest i { q with phase := .reading }

/-- After `res.json()`, which failed where there is no body. -/
def read (i : ℕ) (q : Request) (body : Option AuthTokens) (tab : Tab) : Tab :=
  match body with
  | some tokens => tab.returned i q tokens
  | none => tab.setRequest i { q with phase := .ended }

/-- After the await of `refreshPromise`: try once more, or give the session up. -/
def resumed (i : ℕ) (q : Request) (newToken : Option String) (tab : Tab) : Tab :=
  if truthy newToken then tab.setRequest i (tab.request q.path q.stores false)
  else tab.clearStoredTokens.setRequest i { q with phase := .ended }

/-- What a promise that is awaited has resolved to, if it has. -/
def resolved (promise : Option ℕ) (tab : Tab) : Option (Option String) :=
  match promise with
  | none => some none
  | some r =>
    match tab.refreshes[r]? with
    | some job =>
      match job.phase with
      | .done result => some result
      | _ => none
    | none => none

/-! ### `logout` -/

def logout (tab : Tab) : Tab :=
  { tab.clearStoredTokens with
    history := { tab.clearStoredTokens.history with loggedOut := true } }

end Tab

/-! ### Events -/

inductive Event where
  | call (path : String) (stores : Bool)
  | fetched (i : ℕ) (res : Fetched)
  | read (i : ℕ) (body : Option AuthTokens)
  | resume (i : ℕ)
  | refreshFetched (r : ℕ) (res : Fetched)
  | refreshRead (r : ℕ) (body : Option (Option String))
  | refreshFinally (r : ℕ)
  | logout
  deriving DecidableEq, Repr

/-- The tab after an event, where the event can happen. -/
def step (tab : Tab) : Event → Option Tab
  | .call path stores => some { tab with requests := tab.requests ++ [tab.request path stores true] }
  | .fetched i res => do
    let q ← tab.requests[i]?
    if q.phase = .fetching then some (tab.fetched i q res) else none
  | .read i body => do
    let q ← tab.requests[i]?
    if q.phase = .reading then some (tab.read i q body) else none
  | .resume i => do
    let q ← tab.requests[i]?
    match q.phase with
    | .awaiting promise => do
      let newToken ← tab.resolved promise
      some (tab.resumed i q newToken)
    | _ => none
  | .refreshFetched r res => do
    let job ← tab.refreshes[r]?
    if job.phase = .fetching then some (tab.refreshFetched r job res) else none
  | .refreshRead r body => do
    let job ← tab.refreshes[r]?
    if job.phase = .reading then some (tab.refreshRead r job body) else none
  | .refreshFinally r => do
    let job ← tab.refreshes[r]?
    match job.phase with
    | .settled result => some (tab.refreshFinally r job result)
    | _ => none
  | .logout => some tab.logout

/-- The tab after a list of events. -/
def run (tab : Tab) : List Event → Option Tab
  | [] => some tab
  | e :: events => (step tab e).bind (run · events)

end InterviewScheduler.Frontend
