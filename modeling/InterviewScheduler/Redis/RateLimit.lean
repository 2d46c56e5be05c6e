import Mathlib.Logic.Function.Basic
import InterviewScheduler.Redis.Keys

/-! # The rate limiter

The middleware of `app/core/ratelimit.py`: a request is counted in a key of its identity and of the
bucket of its endpoint, and is let through as long as the count is within the limit of the bucket. -/

namespace InterviewScheduler.Redis

/-- What `settings` has for the middleware. -/
structure RateSettings where
  enabled : Bool
  trustForwardedFor : Bool
  windowSeconds : ℤ
  strictPerMinute : ℤ
  standardPerMinute : ℤ
  recommendationsPerMinute : ℤ
  bookingPerMinute : ℤ
  invitePerMinute : ℤ
  deriving DecidableEq, Repr

/-- The defaults of `config.py`. -/
def RateSettings.default : RateSettings :=
  { enabled := true, trustForwardedFor := true, windowSeconds := 60, strictPerMinute := 10,
    standardPerMinute := 60, recommendationsPerMinute := 5, bookingPerMinute := 10,
    invitePerMinute := 10 }

/-- The buckets, each with a counter of its own. -/
inductive Bucket
  | strict
  | standard
  | recommendations
  | book
  | invite
  deriving DecidableEq, Repr

def Bucket.name : Bucket → String
  | strict => "strict"
  | standard => "standard"
  | recommendations => "rec"
  | book => "book"
  | invite => "invite"

/-! ### The endpoint -/

/-- What a path has between two slashes, as a pattern has it: one of some words, or `[^/]+`. -/
inductive Segment
  | oneOf (words : List String)
  | any
  deriving DecidableEq, Repr

def Segment.accepts : Segment → List Char → Bool
  | oneOf words, s => words.any fun w => decide (w.toList = s)
  | any, s => decide (s ≠ [])

/-- An entry of `_RULES`. -/
structure Rule where
  method : String
  pattern : List Segment
  bucket : Bucket
  limit : RateSettings → ℤ

/-- The first match wins. -/
def rules : List Rule :=
  [⟨"POST", [.oneOf ["auth"], .oneOf ["login", "register", "google", "refresh", "bootstrap-admin"]],
      .strict, (·.strictPerMinute)⟩,
    ⟨"GET", [.oneOf ["calendar"], .oneOf ["callback"]], .strict, (·.strictPerMinute)⟩,
    ⟨"POST", [.oneOf ["interviews"], .any, .oneOf ["recommendations"]], .recommendations,
      (·.recommendationsPerMinute)⟩,
    ⟨"POST", [.oneOf ["interviews"], .any, .oneOf ["book", "reschedule", "decline", "cancel"]], .book,
      (·.bookingPerMinute)⟩,
    ⟨"POST", [.oneOf ["interviews"], .any, .oneOf ["invitations"]], .invite, (·.invitePerMinute)⟩,
    ⟨"GET", [.oneOf ["invitations"], .any], .strict, (·.strictPerMinute)⟩,
    ⟨"POST", [.oneOf ["invitations"], .any, .oneOf ["respond"]], .strict, (·.strictPerMinute)⟩,
    ⟨"POST", [.oneOf ["invitations"], .any, .oneOf ["claim-account"]], .strict, (·.strictPerMinute)⟩,
    ⟨"POST", [.oneOf ["interviews"], .any, .oneOf ["candidate-availability"]], .strict,
      (·.strictPerMinute)⟩]

/-- The path cut at its slashes. -/
def segments : List Char → List (List Char)
  | [] => [[]]
  | c :: cs =>
    if c = '/' then [] :: segments cs
    else
      match segments cs with
      | [] => [[c]]
      | s :: ss => (c :: s) :: ss

/-- `pattern.fullmatch(path)`. -/
def Rule.matches (r : Rule) (path : List Char) : Bool :=
  match segments path with
  | [] :: ss => decide (ss.length = r.pattern.length) && (r.pattern.zip ss).all fun p => p.1.accepts p.2
  | _ => false

/-- `_rule_for`. -/
def ruleFor (cfg : RateSettings) (method : String) (path : List Char) (isAuthenticated : Bool) :
    Bucket × ℤ :=
  match rules.find? fun r => decide (method = r.method) && r.matches path with
  | some r => (r.bucket, r.limit cfg)
  | none =>
    if isAuthenticated then (.standard, cfg.standardPerMinute) else (.strict, cfg.strictPerMinute)

/-- The limit of a bucket. -/
def Bucket.limit (cfg : RateSettings) : Bucket → ℤ
  | strict => cfg.strictPerMinute
  | standard => cfg.standardPerMinute
  | recommendations => cfg.recommendationsPerMinute
  | book => cfg.bookingPerMinute
  | invite => cfg.invitePerMinute

/-- A bucket has one limit, whatever rule has led to it. -/
theorem ruleFor_limit (cfg : RateSettings) (method : String) (path : List Char) (isAuthenticated : Bool) :
    (ruleFor cfg method path isAuthenticated).2 =
      (ruleFor cfg method path isAuthenticated).1.limit cfg := by
  have hrules : ∀ r ∈ rules, r.limit cfg = r.bucket.limit cfg := by
    simp [rules, Bucket.limit]
  unfold ruleFor
  split
  · next r hr => exact hrules r (List.mem_of_find?_eq_some hr)
  · split_ifs <;> rfl

/-- `_endpoint_path`. -/
def endpointPath (fullPath : List Char) : List Char :=
  match ["/api/v1".toList, "/api".toList].find? fun p => p.isPrefixOf fullPath with
  | some p => if fullPath.drop p.length = [] then ['/'] else fullPath.drop p.length
  | none => fullPath

/-! ### The identity -/

/-- What the middleware reads of a request. -/
structure Scope where
  kind : String
  method : String
  path : String
  authorization : String
  forwardedFor : Option String
  client : Option String
  deriving DecidableEq, Repr

/-- The characters that `str.strip` takes away. -/
def isSpace (c : Char) : Bool :=
  decide (c.toNat ∈ [9, 10, 11, 12, 13, 28, 29, 30, 31, 32, 0x85, 0xa0, 0x1680, 0x2028, 0x2029, 0x202f,
    0x205f, 0x3000] ∨ 0x2000 ≤ c.toNat ∧ c.toNat ≤ 0x200a)

/-- `str.strip`. -/
def strip (s : List Char) : List Char := ((s.dropWhile isSpace).reverse.dropWhile isSpace).reverse

/-- `_client_ip`. -/
def clientIp (cfg : RateSettings) (scope : Scope) : String :=
  match scope.forwardedFor with
  | some xff =>
    if cfg.trustForwardedFor ∧ xff ≠ "" then String.ofList (strip (xff.toList.takeWhile (· ≠ ',')))
    else scope.client.getD "unknown"
  | none => scope.client.getD "unknown"

/-- `_identity`. The subject of a token is `none` where `decode_token` or `payload['sub']` raises. -/
def identityOf (decodeToken : String → Option String) (cfg : RateSettings) (scope : Scope) :
    String × Bool :=
  if scope.authorization.toLower.startsWith "bearer " then
    match decodeToken (String.ofList ((scope.authorization.toList.dropWhile (· ≠ ' ')).drop 1)) with
    | some sub => ("user:" ++ sub, true)
    | none => ("ip:" ++ clientIp cfg scope, false)
  else ("ip:" ++ clientIp cfg scope, false)

/-! ### Counting -/

/-- `_LUA_FIXED_WINDOW`: the count and the time to live, and the key after it. -/
def fixedWindowLua (c : Cell ℤ) (now window : ℤ) : (ℤ × ℤ) × Cell ℤ :=
  let e := c.incr now
  let c' := if e.value = 1 then Cell.expire e now window else some e
  ((e.value, c'.ttl now), c')

/-- The `X-RateLimit` headers. -/
structure RateHeaders where
  limit : ℤ
  remaining : ℤ
  reset : ℤ
  deriving DecidableEq, Repr

/-- What becomes of a request: the application gets it, and its response these headers; or it is
rejected. -/
inductive Verdict
  | app (headers : Option RateHeaders)
  | rejected (statusCode : ℕ) (code message traceId : String) (retryAfter : ℤ) (headers : RateHeaders)
  deriving DecidableEq, Repr

/-- The application gets the request. -/
def Verdict.letThrough : Verdict → Bool
  | app _ => true
  | rejected _ _ _ _ _ _ => false

/-- `_rejected`, at the second `clock` of the backend. -/
def rejected (limit ttl clock : ℤ) (traceId : String) : Verdict :=
  .rejected 429 "RATE_LIMITED" "Too many requests. Please slow down and try again shortly." traceId ttl
    ⟨limit, 0, clock + ttl⟩

/-- `RateLimitMiddleware.__call__` after the counter has answered; `none` when Redis is down. -/
def verdict (limit window clock : ℤ) (traceId : String) (reply : Option (ℤ × ℤ)) : Verdict :=
  match reply with
  | none => .app none
  | some (count, t) =>
    let ttl := if t < 0 then window else t
    if limit < count then rejected limit ttl clock traceId
    else .app (some ⟨limit, max (limit - count) 0, clock + ttl⟩)

/-- A request that the middleware does not look at. -/
def Scope.exempt (cfg : RateSettings) (scope : Scope) : Bool :=
  decide (scope.kind ≠ "http" ∨ cfg.enabled = false) ||
    decide (scope.method = "OPTIONS" ∨ ¬ ("/api/".toList.isPrefixOf scope.path.toList = true))

/-- The bucket of a request and its limit. -/
def Scope.bucket (decodeToken : String → Option String) (cfg : RateSettings) (scope : Scope) :
    Bucket × ℤ :=
  ruleFor cfg scope.method (endpointPath scope.path.toList) (identityOf decodeToken cfg scope).2

/-- `ratelimit:{identity}:{bucket}`. -/
def rateKey (identity : String) (b : Bucket) : String := "ratelimit:" ++ identity ++ ":" ++ b.name

/-- A request: when its script is executed, whether Redis answers, and what the backend draws. -/
structure Arrival where
  time : ℤ
  answered : Bool
  clock : ℤ
  traceId : String
  scope : Scope
  deriving DecidableEq, Repr

/-- `RateLimitMiddleware.__call__`, with the keys of Redis. -/
def serve (decodeToken : String → Option String) (cfg : RateSettings) (store : String → Cell ℤ)
    (a : Arrival) : Verdict × (String → Cell ℤ) :=
  if a.scope.exempt cfg then (.app none, store)
  else
    let (bucket, limit) := a.scope.bucket decodeToken cfg
    let key := rateKey (identityOf decodeToken cfg a.scope).1 bucket
    if a.answered then
      let r := fixedWindowLua (store key) a.time cfg.windowSeconds
      (verdict limit cfg.windowSeconds a.clock a.traceId (some r.1), Function.update store key r.2)
    else (verdict limit cfg.windowSeconds a.clock a.traceId none, store)

end InterviewScheduler.Redis
