import InterviewScheduler.Accounts.Auth

/-! # Signed tokens

`core/security.py`: the claims that are signed for a refresh token, and `decode_token`. The JWT library is
a parameter. What is relied on is that a token decodes, with the key that has signed it, to the claims that
were signed, from the time of its `iat` on and until its `exp` (`JwtLibrary.Lawful`). -/

namespace InterviewScheduler.Accounts

open InterviewScheduler.Engine InterviewScheduler.Effects
open InterviewScheduler.Core (Id Role)

/-! ### Claims -/

inductive TokenType where
  | access
  | refresh
  | calendarState
  deriving DecidableEq, Repr

/-- The claims of a token; a claim that is absent or of another form is `none`. The times are in seconds. -/
structure Payload where
  /-- `uuid.UUID(payload["sub"])` -/
  sub : Option Id
  type : Option TokenType
  iat : ℤ
  exp : ℤ
  role : Option Role := none
  tokenVersion : Option ℕ := none
  deriving DecidableEq, Repr

/-- `timegm(t.utctimetuple())`, the whole seconds of a time. -/
def numericDate (t : Instant) : ℤ := t / 1000000

/-- At the time `t` the library accepts the `iat` and the `exp`. -/
def Payload.ValidAt (p : Payload) (t : Instant) : Prop := p.iat * 1000000 ≤ t ∧ t < p.exp * 1000000

instance (p : Payload) (t : Instant) : Decidable (p.ValidAt t) := inferInstanceAs (Decidable (_ ∧ _))

/-- `jwt.encode` and `jwt.decode` with the configured algorithm; `none` is an `InvalidTokenError`. -/
structure JwtLibrary (Token : Type) where
  encode : Payload → String → Token
  decode : Token → String → Instant → Option Payload

/-- What was signed with a key is what is decoded with it, in its time. -/
def JwtLibrary.Lawful {Token : Type} (jwt : JwtLibrary Token) : Prop :=
  ∀ (p : Payload) (key : String) (t : Instant),
    jwt.decode (jwt.encode p key) key t = if p.ValidAt t then some p else none

/-- The settings of the tokens. -/
structure TokenSettings (Token : Type) where
  jwt : JwtLibrary Token
  jwtSecret : String := "dev-insecure-change-me"
  jwtAccessTokenExpireMinutes : ℕ := 30
  jwtRefreshTokenExpireDays : ℕ := 7

variable {Token : Type} (cfg : TokenSettings Token)

/-! ### Issuing -/

/-- The claims that `_encode` signs at the time `now`. -/
def claimsOf (sub : Id) (tokenType : TokenType) (expiresDelta : ℤ) (now : Instant) : Payload where
  sub := some sub
  type := some tokenType
  iat := numericDate now
  exp := numericDate (now + expiresDelta)

def createRefreshToken (userId : Id) (tokenVersion : ℕ) (now : Instant) : Token :=
  cfg.jwt.encode
    { claimsOf userId .refresh (minutes (1440 * cfg.jwtRefreshTokenExpireDays)) now with
      tokenVersion := some tokenVersion }
    cfg.jwtSecret

/-! ### Decoding -/

/-- `decode_token` -/
def decodeToken (token : Token) (expectedType : TokenType) (now : Instant) : Option Payload :=
  (cfg.jwt.decode token cfg.jwtSecret now).filter fun p => p.type = some expectedType

/-- A token that `_encode` has signed, of whatever type. -/
def SignedAs (token : Token) (p : Payload) : Prop := token = cfg.jwt.encode p cfg.jwtSecret

variable {cfg}

/-- **A token is good for its own purpose, and in its time.** -/
theorem decodeToken_eq_some (hjwt : cfg.jwt.Lawful) {token : Token} {p q : Payload} (h : SignedAs cfg token p)
    {expectedType : TokenType} {t : Instant} :
    decodeToken cfg token expectedType t = some q ↔ q = p ∧ p.type = some expectedType ∧ p.ValidAt t := by
  unfold decodeToken
  rw [h, hjwt p cfg.jwtSecret t, Option.filter_eq_some_iff, decide_eq_true_eq]
  by_cases hvalid : p.ValidAt t
  · rw [if_pos hvalid, Option.some.injEq]
    constructor
    · rintro ⟨rfl, htype⟩
      exact ⟨rfl, htype, hvalid⟩
    · rintro ⟨rfl, htype, -⟩
      exact ⟨rfl, htype⟩
  · rw [if_neg hvalid]
    constructor
    · rintro ⟨hnone, -⟩
      simp at hnone
    · rintro ⟨-, -, hvalid'⟩
      exact absurd hvalid' hvalid

/-- A fresh token is valid for as long as its lifetime, up to the second in which that ends. -/
theorem validAt_claimsOf (sub : Id) (tokenType : TokenType) {expiresDelta : ℤ} {now t : Instant}
    (h : now ≤ t) : (claimsOf sub tokenType expiresDelta now).ValidAt t ↔
      t < numericDate (now + expiresDelta) * 1000000 := by
  have hiat : numericDate now * 1000000 ≤ t := by
    unfold numericDate
    lia
  exact ⟨fun h => h.2, fun h => ⟨hiat, h⟩⟩

end InterviewScheduler.Accounts
