import AikoIsland.Realtime

/-!
# The token-minting routes

Password login, native social sign-in, the broker callback with its exchange,
passkey authentication, refresh and recovery finalize: every route that mints a
session for an account that exists. Each first checks its credential, then
resolves the user with one SELECT, then applies the ban gate and mints.

What argon2, the WebAuthn library and SHA-256 compute is a parameter; what the
identity provider answered arrives with the request, verified or refused. A
token stands for the claims it carries, so issuing one is a record. The route of
a recovery returns no user view here. `last_used_at` of a credential is left out.
-/
namespace AikoIsland.Auth
open Tables Gateway Passkeys Signing Realtime WriterLock Footprint

structure AuthSettings where
  socialSigninEnabled : Bool := true
  socialNonceRequired : Bool := false
  handoffTtl : Time := 120000000
  deriving DecidableEq, Repr

structure Assertion where
  credentialId : String
  response : String
  deriving DecidableEq, Repr

/-- The refusal of `verify_authentication`, or another exception by its type. -/
inductive AuthenticationError where
  | invalidAuthenticationResponse
  | raised (type : String)
  deriving DecidableEq, Repr

/-- The computations of the libraries behind the sign-in routes. -/
structure AuthLib where
  verifyPassword : String → String → Bool
  parseAssertion : String → Option Assertion
  verifyAuthentication : Bytes → Assertion → String → ℕ → Except AuthenticationError ℕ
  appChallengeFor : String → String

/-! ## Minting -/

structure Tokens where
  access : Claims
  refresh : Option Claims
  deriving DecidableEq, Repr

structure UserView where
  userId : String
  username : String
  displayName : String
  aikoUsername : String
  handleAuto : Bool
  deriving DecidableEq, Repr

structure Provisioning where
  provider : String
  providerSub : String
  suggestedName : Option String
  email : Option String
  deriving DecidableEq, Repr

/-- What a sign-in route answers; a redirect carries a handoff code or an error class. -/
inductive Outcome where
  | session (tokens : Tokens) (user : Option UserView)
  | provisioning (p : Provisioning)
  | redirect (code : Except String String)

def Outcome.tokens : Outcome → Option Tokens
  | .session tokens _ => some tokens
  | .provisioning _ => none
  | .redirect _ => none

def userView (u : User) : UserView where
  userId := u.id
  username := u.username
  displayName := u.displayName
  aikoUsername := u.aikoUsername
  handleAuto := u.handleAssigned

/-- `_tokens`. -/
def tokens (user : User) : Tokens where
  access := ⟨user.id, user.tokenGeneration⟩
  refresh := some ⟨user.id, user.tokenGeneration⟩

def accountSuspended : Exn := .http 403 "account suspended"

def denyIfBanned (user : User) : Body Unit :=
  if isBanned user then throwExn accountSuspended else return ()

/-- The ban gate, then the pair and the user view. -/
def mint (user : User) : Body Outcome := do
  denyIfBanned user
  return .session (tokens user) (some (userView user))

/-! ## Password login -/

def userByUsername (username : String) (db : Db) : Option User :=
  db.users.find? fun u => u.username = username

/-- A row without a password hash matches no password. -/
def passwordMatches (lib : AuthLib) (password : String) (user : User) : Bool :=
  match user.passwordHash with
  | none => false
  | some hash => lib.verifyPassword password hash

def authenticate (lib : AuthLib) (username password : String) (db : Db) : Option User :=
  (userByUsername username db).filter (passwordMatches lib password)

def login (lib : AuthLib) (username password : String) : Body Outcome := do
  match ← select (authenticate lib username password) with
  | none => throwExn (.http 401 "invalid credentials")
  | some user => mint user

/-! ## A verified federated identity -/

structure VerifiedIdentity where
  provider : String
  sub : String
  suggestedName : Option String := none
  email : Option String := none
  deriving DecidableEq, Repr

def identityRow (provider sub : String) (db : Db) : Option SocialIdentity :=
  db.identities.find? fun i => i.provider = provider && i.providerSub = sub

def getUserBySocial (provider sub : String) : Body (Option User) := do
  match ← select (identityRow provider sub) with
  | none => return none
  | some row => select fun db => db.userById row.userId

def identityOutcome (identity : VerifiedIdentity) : Option User → Body Outcome
  | some user => mint user
  | none => return .provisioning ⟨identity.provider, identity.sub, identity.suggestedName,
      identity.email⟩

/-- `_resolve_identity`. -/
def resolveIdentity (identity : VerifiedIdentity) : Body Outcome := do
  let user ← getUserBySocial identity.provider identity.sub
  identityOutcome identity user

/-! ## Native social sign-in -/

inductive ProviderError where
  | unknownProvider
  | providerUnavailable
  | invalidProviderToken
  deriving DecidableEq, Repr

/-- A request with what `verify_id_token` answered for its token and nonce. -/
structure SocialReq where
  nonce : Option String
  verified : Except ProviderError VerifiedIdentity

/-- The opportunistic cleanup of an issue. -/
def sweepNonces (now : Time) (db : Db) : Db :=
  { db with socialNonces := db.socialNonces.filter fun n => now < n.expiresAt }

/-- `nonce` is the random text; the two instants are read from the clock one after the other. -/
def issueNonce (nonce : String) (sweptAt now ttl : Time) : Body String := do
  execute (sweepNonces sweptAt) (fun _ => ()) .plain
  flushOrRaise (fun db => db.insertSocialNonce ⟨nonce, now + ttl, false⟩) .plain
  commit
  return nonce

def nonceWhere (nonce : String) (now : Time) (n : SocialNonce) : Bool :=
  n.nonce = nonce && !n.consumed && decide (now < n.expiresAt)

def burnNonce (nonce : String) (now : Time) (db : Db) : Db :=
  { db with socialNonces := db.socialNonces.map fun n =>
      if nonceWhere nonce now n then { n with consumed := true } else n }

/-- Claims the nonce without committing. -/
def consumeNonce (nonce : String) (now : Time) : Body Bool := do
  let rowcount ← execute (burnNonce nonce now)
    (fun db => (db.socialNonces.filter (nonceWhere nonce now)).length) .plain
  return decide (rowcount = 1)

/-- The checks of the route up to its verified identity. -/
def socialIdentity (settings : AuthSettings) (req : SocialReq) (now : Time) :
    Body VerifiedIdentity := do
  if !settings.socialSigninEnabled then
    throwExn (.http 403 "social sign-in is disabled")
  else
    let nonce := req.nonce.getD ""
    if settings.socialNonceRequired && nonce = "" then
      throwExn (.http 401 "nonce required")
    else
      match req.verified with
      | .error .unknownProvider => throwExn (.http 400 "unknown provider")
      | .error .providerUnavailable => throwExn (.http 503 "provider temporarily unavailable")
      | .error .invalidProviderToken => throwExn (.http 401 "invalid provider token")
      | .ok identity =>
          if settings.socialNonceRequired then
            if ← consumeNonce nonce now then
              return identity
            else
              rollback
              throwExn (.http 401 "invalid or expired nonce")
          else return identity

/-- The commit makes the nonce burn durable together with the outcome. -/
def social (settings : AuthSettings) (req : SocialReq) (now : Time) : Body Outcome := do
  let identity ← socialIdentity settings req now
  let outcome ← resolveIdentity identity
  commit
  return outcome

/-! ## The broker -/

inductive BrokerError where
  | invalidExchange
  | unavailable
  | other
  deriving DecidableEq, Repr

def BrokerError.errorClass : BrokerError → String
  | .invalidExchange => "exchange_failed"
  | .unavailable => "provider_unavailable"
  | .other => "oauth_failed"

/-- A callback of the provider, with what `exchange_code` answers for its code. -/
structure CallbackReq where
  configured : Bool
  slug : String
  code : Option String
  state : Option String
  error : Option String
  exchanged : Except BrokerError VerifiedIdentity
  consumedAt : Time
  handoffCode : String
  createdAt : Time

def createState (nonce provider : String) (codeVerifier appChallenge : Option String)
    (now ttl : Time) : Body String := do
  flushOrRaise (fun db => db.insertOAuthState
    ⟨nonce, provider, codeVerifier, appChallenge, now + ttl, false⟩) .plain
  commit
  return nonce

def stateWhere (nonce : String) (now : Time) (s : OAuthState) : Bool :=
  s.nonce = nonce && !s.consumed && decide (now < s.expiresAt)

def burnState (nonce : String) (now : Time) (db : Db) : Db :=
  { db with oauthStates := db.oauthStates.map fun s =>
      if stateWhere nonce now s then { s with consumed := true } else s }

/-- Burns the state and commits at once, whatever follows. -/
def consumeState (nonce : String) (now : Time) : Body (Option OAuthState) := do
  let rowcount ← execute (burnState nonce now)
    (fun db => (db.oauthStates.filter (stateWhere nonce now)).length) .plain
  if rowcount ≠ 1 then
    commit
    return none
  else
    let row ← select fun db => db.oauthStates.find? fun s => s.nonce = nonce
    commit
    return row

def createHandoff (payload : HandoffPayload) (code : String) (now ttl : Time) : Body Unit := do
  flushOrRaise (fun db => db.insertHandoff ⟨code, some payload, now + ttl, false⟩) .plain
  commit

/-- Only the user id of a known user is stored, never its tokens. -/
def handoffPayload (identity : VerifiedIdentity) (appChallenge : Option String) :
    Outcome → HandoffPayload
  | .session tokens _ =>
      { kind := some "authenticated", userId := some tokens.access.userId,
        appChallenge := appChallenge }
  | _ =>
      { kind := some "provisioning", provider := some identity.provider,
        providerSub := some identity.sub, suggestedName := identity.suggestedName,
        email := identity.email, appChallenge := appChallenge }

/-- The outcome is reduced to a handoff row and an opaque code. -/
def handOff (settings : AuthSettings) (req : CallbackReq) (identity : VerifiedIdentity)
    (appChallenge : Option String) (outcome : Outcome) : Body Outcome := do
  createHandoff (handoffPayload identity appChallenge outcome) req.handoffCode req.createdAt
    settings.handoffTtl
  return .redirect (.ok req.handoffCode)

/-- `oauth_callback`: every failure after the path is valid is a redirect. -/
def oauthCallback (settings : AuthSettings) (req : CallbackReq) : Body Outcome := do
  if !settings.socialSigninEnabled then
    throwExn (.http 403 "social sign-in is disabled")
  else if !req.configured then
    throwExn (.http 404 "unknown provider")
  else if (req.error.getD "") ≠ "" then
    return .redirect (.error "provider_denied")
  else if req.code.getD "" = "" || req.state.getD "" = "" then
    return .redirect (.error "missing_code")
  else
    match ← consumeState (req.state.getD "") req.consumedAt with
    | none => return .redirect (.error "bad_state")
    | some st =>
        if st.provider ≠ req.slug then
          return .redirect (.error "state_provider_mismatch")
        else if st.appChallenge.getD "" = "" then
          return .redirect (.error "bad_state")
        else
          match req.exchanged with
          | .error e => return .redirect (.error e.errorClass)
          | .ok identity => do
              let outcome ← resolveIdentity identity
              handOff settings req identity st.appChallenge outcome

/-! ## The exchange -/

structure ExchangeReq where
  code : String
  appVerifier : Option String
  consumedAt : Time
  deriving DecidableEq, Repr

def handoffWhere (code : String) (now : Time) (h : OAuthHandoff) : Bool :=
  h.code = code && !h.consumed && decide (now < h.expiresAt)

def burnHandoff (code : String) (now : Time) (db : Db) : Db :=
  { db with handoffs := db.handoffs.map fun h =>
      if handoffWhere code now h then { h with consumed := true } else h }

def consumeHandoff (code : String) (now : Time) : Body (Option HandoffPayload) := do
  let rowcount ← execute (burnHandoff code now)
    (fun db => (db.handoffs.filter (handoffWhere code now)).length) .plain
  if rowcount ≠ 1 then
    commit
    return none
  else
    let row ← select fun db => db.handoffs.find? fun h => h.code = code
    commit
    return row.bind (·.payload)

def isAscii (s : String) : Bool := s.toList.all fun c => decide (c.toNat < 128)

/-- `verify_app_challenge`: text that is not ASCII never matches. -/
def verifyAppChallenge (lib : AuthLib) (verifier challenge : String) : Bool :=
  isAscii verifier && isAscii challenge && lib.appChallengeFor verifier = challenge

def challengeMet (lib : AuthLib) (verifier challenge : Option String) : Bool :=
  let required := challenge.getD ""
  required = "" ||
    (verifier.getD "" ≠ "" && verifyAppChallenge lib (verifier.getD "") required)

def invalidHandoff : Exn := .http 401 "invalid or expired handoff code"

/-- What a redeemed handoff stands for. -/
inductive Redeemed where
  | authenticated (userId : String)
  | provisioning (p : Provisioning)
  deriving DecidableEq, Repr

/-- The binding to the app and the guards on the payload's kind and fields. -/
def checkPayload (lib : AuthLib) (verifier : Option String) (payload : HandoffPayload) :
    Option Redeemed :=
  if !challengeMet lib verifier payload.appChallenge then none
  else if payload.kind = some "authenticated" then
    if payload.userId.getD "" = "" then none
    else some (.authenticated (payload.userId.getD ""))
  else if payload.kind = some "provisioning" then
    if payload.provider.getD "" = "" || payload.providerSub.getD "" = "" then none
    else some (.provisioning ⟨payload.provider.getD "", payload.providerSub.getD "",
      payload.suggestedName, payload.email⟩)
  else none

def redeemHandoff (settings : AuthSettings) (lib : AuthLib) (req : ExchangeReq) :
    Body Redeemed := do
  if !settings.socialSigninEnabled then
    throwExn (.http 403 "social sign-in is disabled")
  else
    match ← consumeHandoff req.code req.consumedAt with
    | none => throwExn invalidHandoff
    | some payload =>
        match checkPayload lib req.appVerifier payload with
        | none => throwExn invalidHandoff
        | some redeemed => return redeemed

def exchangeOutcome : Option User → Body Outcome
  | none => throwExn invalidHandoff
  | some user => mint user

def oauthExchange (settings : AuthSettings) (lib : AuthLib) (req : ExchangeReq) :
    Body Outcome := do
  match ← redeemHandoff settings lib req with
  | .authenticated userId => do
      let user ← select fun db => db.userById userId
      exchangeOutcome user
  | .provisioning p => return .provisioning p

/-! ## Passkey authentication -/

structure AssertionReq where
  state : String
  credential : String
  now : Time
  deriving DecidableEq, Repr

def getCredential (credentialId : String) (db : Db) : Option PasskeyCredential :=
  db.credentials.find? fun c => c.credentialId = credentialId

/-- The stored credential whose assertion verified, with its new sign count. -/
def verifiedCredential (lib : AuthLib) (req : AssertionReq) : Body (PasskeyCredential × ℕ) := do
  match ← consumeChallenge req.state .authenticate req.now with
  | none =>
      rollback
      throwExn (.http 400 "invalid or expired passkey challenge")
  | some raw =>
      match lib.parseAssertion req.credential with
      | none =>
          rollback
          throwExn (.http 400 "malformed passkey credential")
      | some assertion =>
          match ← select (getCredential assertion.credentialId) with
          | none =>
              rollback
              throwExn (.http 401 "unknown passkey credential")
          | some cred =>
              match lib.verifyAuthentication raw assertion cred.publicKey cred.signCount with
              | .error .invalidAuthenticationResponse =>
                  rollback
                  throwExn (.http 401 "passkey authentication verification failed")
              | .error (.raised type) => throwExn (.raised type)
              | .ok newCount => return (cred, newCount)

def bumpSignCount (id : String) (newCount : ℕ) (db : Db) : Db :=
  { db with credentials := db.credentials.map fun c =>
      if c.id = id then { c with signCount := newCount } else c }

/-- The ORM flushes the changed row at the commit. -/
def flushSignCount (id : String) (newCount : ℕ) : Body Unit := do
  let rowcount ← execute (bumpSignCount id newCount)
    (fun db => (db.credentials.filter fun c => c.id = id).length) .plain
  if rowcount = 1 then return () else throwExn .staleDataError

def passkeyOutcome (cred : PasskeyCredential) (newCount : ℕ) : Option User → Body Outcome
  | none => do
      rollback
      -- the log line before the 401 reads `cred.user_id`, which the rollback has expired
      throwExn .missingGreenlet
  | some user => do
      let outcome ← mint user
      flushSignCount cred.id newCount
      commit
      return outcome

def passkeyAuthenticateFinish (lib : AuthLib) (req : AssertionReq) : Body Outcome := do
  let (cred, newCount) ← verifiedCredential lib req
  let user ← select fun db => db.userById cred.userId
  passkeyOutcome cred newCount user

/-! ## Refresh and recovery -/

/-- The shared session gate, rendered for this route; an access token only. -/
def refresh (token : Option Claims) : Body Outcome := do
  let user ← (resolveSessionUser token).handle fun e =>
    match e with
    | .invalidSession => throwExn (.http 401 "invalid refresh token")
    | .sessionBanned => throwExn accountSuspended
    | e => throwExn e
  return .session ⟨⟨user.id, user.tokenGeneration⟩, none⟩ none

def rekeyOutcome (s : Recovery.Session) : Outcome :=
  .session ⟨⟨s.userId, s.generation⟩, some ⟨s.userId, s.generation⟩⟩ none

/-- A token-minting request for an account that exists. -/
inductive MintRequest where
  | login (username password : String)
  | social (req : SocialReq) (now : Time)
  | oauthCallback (req : CallbackReq)
  | oauthExchange (req : ExchangeReq)
  | passkeyAuthenticateFinish (req : AssertionReq)
  | refresh (token : Option Claims)
  | recoverFinalize (recoveryId finalizeToken credentialRowId : String) (now : Time)

def MintRequest.body (settings : AuthSettings) (lib : AuthLib) (crypto : Crypto) :
    MintRequest → Body Outcome
  | .login username password => (Auth.login lib username password).session
  | .social req now => (Auth.social settings req now).session
  | .oauthCallback req => (Auth.oauthCallback settings req).session
  | .oauthExchange req => (Auth.oauthExchange settings lib req).session
  | .passkeyAuthenticateFinish req => (Auth.passkeyAuthenticateFinish lib req).session
  | .refresh token => (Auth.refresh token).session
  | .recoverFinalize recoveryId finalizeToken credentialRowId now => do
      let s ← Realtime.recoverFinalize crypto recoveryId finalizeToken credentialRowId now
      return rekeyOutcome s

/-! ## What the routes write -/

section
variable {W : Label → (Db → Option Db) → Prop} {A : Label → (Db → Memory → Memory) → Prop}

theorem uses_mint (user : User) : Uses W A (mint user) := by
  unfold mint denyIfBanned
  split_ifs
  · trivial
  · trivial

theorem uses_login {lib : AuthLib} {username password : String} :
    Uses W A (login lib username password).session := by
  apply Uses.session
  refine Uses.bind (Uses.query _) fun user => ?_
  cases user with
  | none => trivial
  | some user => exact uses_mint user

theorem uses_resolveIdentity (identity : VerifiedIdentity) :
    Uses W A (resolveIdentity identity) := by
  apply Uses.bind
  · intro db
    change Uses W A (match identityRow identity.provider identity.sub db with
      | none => Pure.pure none
      | some row => select fun db => db.userById row.userId)
    split
    · trivial
    · exact fun _ => trivial
  · intro user
    cases user with
    | none => trivial
    | some user => exact uses_mint user

theorem uses_consumeNonce {nonce : String} {now : Time}
    (h : W .plain fun db => some (burnNonce nonce now db)) : Uses W A (consumeNonce nonce now) :=
  Uses.bind (Uses.exec h) fun _ => Uses.pure _

theorem uses_consumeState {nonce : String} {now : Time}
    (h : W .plain fun db => some (burnState nonce now db)) : Uses W A (consumeState nonce now) := by
  refine Uses.bind (Uses.exec h) fun rowcount => ?_
  split_ifs
  · exact trivial
  · exact fun _ => trivial

theorem uses_consumeHandoff {code : String} {now : Time}
    (h : W .plain fun db => some (burnHandoff code now db)) :
    Uses W A (consumeHandoff code now) := by
  refine Uses.bind (Uses.exec h) fun rowcount => ?_
  split_ifs
  · exact trivial
  · exact fun _ => trivial

theorem uses_createHandoff {payload : HandoffPayload} {code : String} {now ttl : Time}
    (h : W .plain fun db => db.insertHandoff ⟨code, some payload, now + ttl, false⟩) :
    Uses W A (createHandoff payload code now ttl) :=
  Uses.bind (uses_flushOrRaise h) fun _ => Uses.commitNow _

theorem uses_social {settings : AuthSettings} {req : SocialReq} {now : Time}
    (h : W .plain fun db => some (burnNonce (req.nonce.getD "") now db)) :
    Uses W A (social settings req now).session := by
  apply Uses.session
  apply Uses.bind
  · unfold socialIdentity
    split
    · trivial
    · dsimp only
      split
      · trivial
      · split
        · trivial
        · trivial
        · trivial
        · split
          · refine Uses.bind (uses_consumeNonce h) fun won => ?_
            cases won <;> exact trivial
          · trivial
  · intro identity
    exact Uses.bind (uses_resolveIdentity identity) fun _ => trivial

theorem uses_oauthCallback {settings : AuthSettings} {req : CallbackReq}
    (hburn : W .plain fun db => some (burnState (req.state.getD "") req.consumedAt db))
    (hissue : ∀ payload, W .plain fun db => db.insertHandoff
      ⟨req.handoffCode, some payload, req.createdAt + settings.handoffTtl, false⟩) :
    Uses W A (oauthCallback settings req).session := by
  apply Uses.session
  unfold oauthCallback
  split_ifs
  · trivial
  · trivial
  · trivial
  · trivial
  · refine Uses.bind (uses_consumeState hburn) fun st => ?_
    cases st with
    | none => trivial
    | some st =>
        dsimp only
        split_ifs
        · trivial
        · trivial
        · split
          · trivial
          · rename_i identity _
            refine Uses.bind (uses_resolveIdentity identity) fun outcome => ?_
            exact Uses.bind (uses_createHandoff (hissue _)) fun _ => Uses.pure _

theorem uses_oauthExchange {settings : AuthSettings} {lib : AuthLib} {req : ExchangeReq}
    (h : W .plain fun db => some (burnHandoff req.code req.consumedAt db)) :
    Uses W A (oauthExchange settings lib req).session := by
  apply Uses.session
  apply Uses.bind
  · unfold redeemHandoff
    split_ifs
    · trivial
    · refine Uses.bind (uses_consumeHandoff h) fun payload => ?_
      cases payload with
      | none => trivial
      | some payload =>
          dsimp only
          split <;> exact trivial
  · intro redeemed
    cases redeemed with
    | provisioning p => trivial
    | authenticated userId =>
        refine Uses.bind (Uses.query _) fun user => ?_
        cases user with
        | none => trivial
        | some user => exact uses_mint user

theorem uses_passkeyAuthenticateFinish {lib : AuthLib} {req : AssertionReq}
    (hburn : W .plain fun db => some (burnChallenge req.state .authenticate req.now db))
    (hcount : ∀ id newCount, W .plain fun db => some (bumpSignCount id newCount db)) :
    Uses W A (passkeyAuthenticateFinish lib req).session := by
  apply Uses.session
  apply Uses.bind
  · refine Uses.bind (uses_consumeChallenge hburn) fun raw => ?_
    cases raw with
    | none => trivial
    | some raw =>
        dsimp only
        split
        · trivial
        · refine Uses.bind (Uses.query _) fun cred => ?_
          cases cred with
          | none => trivial
          | some cred =>
              dsimp only
              split <;> exact trivial
  · rintro ⟨cred, newCount⟩
    refine Uses.bind (Uses.query _) fun user => ?_
    cases user with
    | none => trivial
    | some user =>
        refine Uses.bind (uses_mint user) fun outcome => ?_
        refine Uses.bind ?_ fun _ => trivial
        refine Uses.bind (Uses.exec (hcount cred.id newCount)) fun rowcount => ?_
        split_ifs <;> exact trivial

theorem uses_refresh {token : Option Claims} : Uses W A (refresh token).session := by
  apply Uses.session
  apply Uses.bind
  · apply Uses.handle
    · intro db
      beta_reduce
      cases gate token db <;> trivial
    · intro e
      cases e <;> trivial
  · exact fun _ => trivial

end

end AikoIsland.Auth
