import AikoIsland.Passkeys
import AikoIsland.SoloRun

/-!
# Session tokens

The JWTs of the gateway: what it signs, and what `decode_token` makes of a text.
An access token and a refresh token differ in their `type` only. The third kind
that is signed with the same secret carries a federated identity and no subject.

What the JWT library computes is a parameter: the compact text of a payload, of a
type that stays open, and the payload of a text whose signature verifies under the
island's secret and its one algorithm. The two checks on times that the library
makes are written out. Times of payloads are whole seconds.
-/
namespace AikoIsland.Security
open Tables Gateway Passkeys WriterLock

inductive TokenType where
  | access
  | refresh
  deriving DecidableEq, Repr

def TokenType.value : TokenType → String
  | .access => "access"
  | .refresh => "refresh"

/-- The `gen` of a payload; a bool is no int here. -/
inductive GenClaim where
  | absent
  | int (n : ℤ)
  | malformed
  deriving DecidableEq, Repr

structure Payload where
  sub : Option String
  type : Option String
  gen : GenClaim
  iat : Option ℤ
  exp : Option ℤ
  deriving DecidableEq, Repr

structure Jwt (Token : Type) where
  encode : Payload → Token
  verified : Token → Option Payload

structure TokenSettings where
  jwtAccessTtlSeconds : ℕ
  jwtRefreshTtlSeconds : ℕ
  deriving DecidableEq, Repr

variable {Token : Type}

/-! ## Issuing -/

/-- `int(now.timestamp())`. -/
def timestamp (now : Time) : ℤ := (now / 1000000 : ℕ)

/-- `_issue`, before the signature. -/
def issuePayload (userId : String) (tokenType : TokenType) (ttlSeconds gen : ℕ) (now : Time) :
    Payload where
  sub := some userId
  type := some tokenType.value
  gen := .int gen
  iat := some (timestamp now)
  exp := some (timestamp (now + ttlSeconds * 1000000))

def TokenSettings.ttl (settings : TokenSettings) : TokenType → ℕ
  | .access => settings.jwtAccessTtlSeconds
  | .refresh => settings.jwtRefreshTtlSeconds

/-- `issue_access` and `issue_refresh`. -/
def issue (jwt : Jwt Token) (settings : TokenSettings) (tokenType : TokenType) (claims : Claims)
    (now : Time) : Token :=
  jwt.encode (issuePayload claims.userId tokenType (settings.ttl tokenType) claims.generation now)

/-- The first instant at which a token that was issued at `now` has expired. -/
def expiry (settings : TokenSettings) (tokenType : TokenType) (now : Time) : ℤ :=
  timestamp (now + settings.ttl tokenType * 1000000) * 1000000

/-! ## Decoding -/

/-- The library refuses a token from the future and an expired one. -/
def timeValid (now : Time) (payload : Payload) : Bool :=
  payload.iat.all (fun iat => decide (iat * 1000000 ≤ (now : ℤ))) &&
    payload.exp.all fun exp => decide ((now : ℤ) < exp * 1000000)

/-- The checks on the claims of a verified payload. -/
def payloadClaims (expectedType : TokenType) (payload : Payload) : Option Claims :=
  if payload.type ≠ some expectedType.value then none
  else if payload.sub.getD "" = "" then none
  else
    match payload.gen with
    | .absent => some ⟨payload.sub.getD "", 0⟩
    | .int n => if n < 0 then none else some ⟨payload.sub.getD "", n.toNat⟩
    | .malformed => none

def decodeToken (jwt : Jwt Token) (token : Token) (expectedType : TokenType) (now : Time) :
    Option Claims :=
  ((jwt.verified token).filter (timeValid now)).bind (payloadClaims expectedType)

/-- What the resolver answers on a store to a token that is presented at `now`. -/
def sessionUser (jwt : Jwt Token) (db : Db) (token : Token) (expectedType : TokenType)
    (now : Time) : Except Exn User :=
  ((resolveSessionUser (decodeToken jwt token expectedType now)).run
    (⟨db, {}, none⟩ : Point Db Memory)).1

theorem sessionUser_eq (jwt : Jwt Token) (db : Db) (token : Token) (expectedType : TokenType)
    (now : Time) :
    sessionUser jwt db token expectedType now = gate (decodeToken jwt token expectedType now) db := by
  unfold sessionUser resolveSessionUser
  rw [Request.run_bind, select, Request.run_query]
  dsimp only [Point.view_mk_none]
  cases gate (decodeToken jwt token expectedType now) db <;> rfl

/-! ## What the island signs -/

/-- The payloads that are signed with the secret; tokens from before there were generations
carry none. -/
inductive Signed (settings : TokenSettings) : Payload → Prop
  | session (tokenType : TokenType) (claims : Claims) (now : Time) :
      Signed settings (issuePayload claims.userId tokenType (settings.ttl tokenType)
        claims.generation now)
  | legacy (tokenType : TokenType) (userId : String) (iat exp : ℤ) :
      Signed settings ⟨some userId, some tokenType.value, .absent, some iat, some exp⟩
  | provisioning (iat exp : ℤ) :
      Signed settings ⟨none, some "provisioning", .absent, some iat, some exp⟩

/-- A signed payload comes back from its text, and no text verifies but with a signed payload. -/
structure Unforgeable (jwt : Jwt Token) (settings : TokenSettings) : Prop where
  decodes : ∀ payload, Signed settings payload → jwt.verified (jwt.encode payload) = some payload
  signed : ∀ token payload, jwt.verified token = some payload → Signed settings payload

section
variable {jwt : Jwt Token} {settings : TokenSettings} {tokenType expectedType : TokenType}
  {claims : Claims} {issuedAt now : Time} {token : Token}

theorem TokenType.value_inj : tokenType.value = expectedType.value ↔ tokenType = expectedType := by
  cases tokenType <;> cases expectedType <;> decide

theorem verified_issue (h : Unforgeable jwt settings) :
    jwt.verified (issue jwt settings tokenType claims issuedAt) =
      some (issuePayload claims.userId tokenType (settings.ttl tokenType) claims.generation
        issuedAt) :=
  h.decodes _ (.session tokenType claims issuedAt)

theorem payloadClaims_issue (ttl : ℕ) (hid : claims.userId ≠ "") :
    payloadClaims expectedType (issuePayload claims.userId tokenType ttl claims.generation
      issuedAt) = if tokenType = expectedType then some claims else none := by
  unfold payloadClaims issuePayload
  by_cases htype : tokenType = expectedType
  · simp [htype, hid]
  · simp [htype, TokenType.value_inj]

theorem timeValid_iff {payload : Payload} {iat exp : ℤ} (hiat : payload.iat = some iat)
    (hexp : payload.exp = some exp) :
    timeValid now payload = true ↔ iat * 1000000 ≤ (now : ℤ) ∧ (now : ℤ) < exp * 1000000 := by
  rw [timeValid, hiat, hexp]
  simp

/-- Between issue and expiry a token of the expected type decodes to its claims. -/
theorem decode_issue (h : Unforgeable jwt settings) (hid : claims.userId ≠ "")
    (hissued : issuedAt ≤ now) (hlive : (now : ℤ) < expiry settings tokenType issuedAt) :
    decodeToken jwt (issue jwt settings tokenType claims issuedAt) tokenType now =
      some claims := by
  have hiat : timestamp issuedAt * 1000000 ≤ (now : ℤ) := by
    have hle : (issuedAt : ℤ) ≤ now := by exact_mod_cast hissued
    unfold timestamp
    omega
  have htime : timeValid now (issuePayload claims.userId tokenType (settings.ttl tokenType)
      claims.generation issuedAt) = true := (timeValid_iff rfl rfl).mpr ⟨hiat, hlive⟩
  rw [decodeToken, verified_issue h, Option.filter_some, if_pos htime, Option.bind_some,
    payloadClaims_issue _ hid, if_pos rfl]

/-- What a token decodes to, if anything, is what it was issued for, as the expected type. -/
theorem claims_of_decode_issue (h : Unforgeable jwt settings) (hid : claims.userId ≠ "")
    {found : Claims}
    (hd : decodeToken jwt (issue jwt settings tokenType claims issuedAt) expectedType now =
      some found) : tokenType = expectedType ∧ found = claims := by
  obtain ⟨payload, hpayload, hfound⟩ := Option.bind_eq_some_iff.mp hd
  have hverified := Option.eq_some_of_filter_eq_some hpayload
  rw [verified_issue h] at hverified
  obtain rfl := Option.some.inj hverified
  rw [payloadClaims_issue _ hid] at hfound
  split_ifs at hfound with htype
  exact ⟨htype, (Option.some.inj hfound).symm⟩

/-- What is accepted under a type was signed under that type. -/
theorem signed_of_decode (h : Unforgeable jwt settings)
    (hd : decodeToken jwt token expectedType now = some claims) :
    ∃ payload, jwt.verified token = some payload ∧ Signed settings payload ∧
      payload.type = some expectedType.value := by
  obtain ⟨payload, hpayload, hfound⟩ := Option.bind_eq_some_iff.mp hd
  have hverified := Option.eq_some_of_filter_eq_some hpayload
  unfold payloadClaims at hfound
  split_ifs at hfound with htype
  exact ⟨payload, hverified, h.signed token payload hverified, not_not.mp htype⟩

end

end AikoIsland.Security
