import AikoIsland.Auth
import AikoIsland.Profiles
import AikoIsland.JsonText

/-!
# The finish of a passkey ceremony

`register/finish`, `add/finish`, `authenticate/finish` and `recover/finish` take a
JSON object made by the caller. The service hands its text to py_webauthn, whose
every call may raise anything, and catches what it knows: `verify_registration`
folds all but two types into one, `parse_assertion` all but one, and
`verify_authentication` only the backup flags. Each handler then catches its own
set of types.

The object stands here for its serialised text, which the reader of JSON gives
back. The decoded key between the two calls of `_assert_can_verify` and the text
that `json.dumps` makes of the transports are parameters, and so are the handles
and ids drawn for a new account. Log lines are left out, but not the attributes
that they read.
-/
namespace AikoIsland.Ceremonies
open Tables Gateway Passkeys Signing Auth WriterLock JsonText

/-! ## The library -/

/-- The exception types that the service names, or another one. -/
inductive LibError where
  | invalidJsonStructure
  | invalidRegistrationResponse
  | invalidAuthenticationResponse
  | invalidBackupFlags
  | invalidSignature
  | other (type : String)
  deriving DecidableEq, Repr

def LibError.type : LibError → String
  | .invalidJsonStructure => "InvalidJSONStructure"
  | .invalidRegistrationResponse => "InvalidRegistrationResponse"
  | .invalidAuthenticationResponse => "InvalidAuthenticationResponse"
  | .invalidBackupFlags => "InvalidBackupFlags"
  | .invalidSignature => "InvalidSignature"
  | .other type => type

/-- A verified registration; ids and keys as the base64url text that is stored. -/
structure Verified where
  credentialId : String
  publicKey : String
  signCount : ℕ
  aaguid : Option String
  deriving DecidableEq, Repr

structure WebAuthn where
  verifyRegistrationResponse : String → Bytes → Except LibError Verified
  decodeCredentialPublicKey : String → Except LibError String
  verifySignature : String → Except LibError Unit
  parseAuthenticationCredential : String → Except LibError Assertion
  verifyAuthenticationResponse : Bytes → Assertion → String → ℕ → Except LibError ℕ
  dumps : List Json → String

/-! ## The service -/

/-- `_assert_can_verify`: the one acceptable answer is `InvalidSignature`. -/
def assertCanVerify (w : WebAuthn) (publicKey : String) : Except LibError Unit := do
  let decoded ← w.decodeCredentialPublicKey publicKey
  match w.verifySignature decoded with
  | .error .invalidSignature => return ()
  | .error e => throw e
  | .ok () => throw (.other "UnsupportedPublicKey")

/-- `credential.get(name)` of the object with this text. -/
def field (name credential : String) : Json :=
  match loads credential.length (codes credential) with
  | .ok (.obj items) => (OrderedDict.get items (codes name)).getD .null
  | _ => .null

def truthy : Json → Bool
  | .null => false
  | .bool b => b
  | .int n => n ≠ 0
  | .float x => x ≠ .finite 0
  | .str s => s ≠ []
  | .arr xs => !xs.isEmpty
  | .obj items => !items.isEmpty

/-- The transports of the response; `.get` of a value that is no object raises. -/
def transports (w : WebAuthn) (credential : String) : Except String (Option String) :=
  if !truthy (field "response" credential) then .ok none
  else
    match field "response" credential with
    | .obj items =>
        match OrderedDict.get items (codes "transports") with
        | some (.arr (x :: xs)) => .ok (some (w.dumps (x :: xs)))
        | _ => .ok none
    | _ => .error "AttributeError"

def verifyRegistration (w : WebAuthn) (rawChallenge : Bytes) (credential : String) :
    Except RegistrationError Material :=
  let verified := do
    let v ← w.verifyRegistrationResponse credential rawChallenge
    assertCanVerify w v.publicKey
    return v
  match verified with
  | .error .invalidJsonStructure => .error .invalidJsonStructure
  | .error _ => .error .invalidRegistrationResponse
  | .ok v =>
      match transports w credential with
      | .error type => .error (.raised type)
      | .ok transports => .ok ⟨v.credentialId, v.publicKey, v.signCount, transports, v.aaguid⟩

def parseAssertion (w : WebAuthn) (credential : String) : Option Assertion :=
  match w.parseAuthenticationCredential credential with
  | .ok assertion => some assertion
  | .error _ => none

def verifyAuthentication (w : WebAuthn) (rawChallenge : Bytes) (assertion : Assertion)
    (publicKey : String) (currentSignCount : ℕ) : Except AuthenticationError ℕ :=
  match w.verifyAuthenticationResponse rawChallenge assertion publicKey currentSignCount with
  | .ok newSignCount => .ok newSignCount
  | .error .invalidAuthenticationResponse => .error .invalidAuthenticationResponse
  | .error .invalidBackupFlags => .error .invalidAuthenticationResponse
  | .error e => .error (.raised e.type)

/-- What py_webauthn relies on: a registration response is an object. -/
def AcceptsObjects (w : WebAuthn) : Prop :=
  ∀ credential challenge v, w.verifyRegistrationResponse credential challenge = .ok v →
    ∃ items, field "response" credential = .obj items

/-- The caller can make `verify_registration` raise its two refusals only. -/
theorem verifyRegistration_ne_raised {w : WebAuthn} (hw : AcceptsObjects w) (raw : Bytes)
    (credential type : String) :
    verifyRegistration w raw credential ≠ .error (.raised type) := by
  intro h
  unfold verifyRegistration at h
  cases hv : w.verifyRegistrationResponse credential raw with
  | error e =>
      rw [hv] at h
      cases e <;> cases h
  | ok v =>
      obtain ⟨items, hitems⟩ := hw _ _ _ hv
      have htransports : ∃ t, transports w credential = .ok t := by
        unfold transports
        rw [hitems]
        split_ifs
        · exact ⟨_, rfl⟩
        · dsimp only
          split <;> exact ⟨_, rfl⟩
      obtain ⟨t, ht⟩ := htransports
      rw [hv, ht] at h
      cases hkey : assertCanVerify w v.publicKey with
      | error e =>
          simp only [hkey, bind, Except.bind] at h
          cases e <;> cases h
      | ok u =>
          simp only [hkey, bind, Except.bind, pure, Except.pure] at h
          cases h

/-! ## A new account -/

/-- The handle and the row ids drawn for one attempt. -/
structure Draw where
  handle : String
  userId : String
  rowId : String
  deriving DecidableEq, Repr

def accountRow (d : Draw) : User where
  id := d.userId
  username := d.handle
  displayName := d.handle
  aikoUsername := Profiles.sanitizeAikoUsername (codes d.handle)
  handleAssigned := true

def insertUser (db : Db) (u : User) : Option Db :=
  (insertRow (fun x => x.id = u.id || x.username = u.username || x.aikoUsername = u.aikoUsername)
    db.users u).map fun rows => { db with users := rows }

/-- One attempt: the account and its credential, which carries the account's first generation. -/
def insertAccount (material : Material) (d : Draw) (db : Db) : Option Db :=
  (insertUser db (accountRow d)).bind fun db =>
    db.insertCredential (passkeyCredentialRow d.rowId d.userId material (.session 0))

/-- `_is_credential_id_conflict`: the UNIQUE constraint that a refused attempt has hit. -/
def isCredentialIdConflict (material : Material) (d : Draw) (db : Db) : Bool :=
  (insertUser db (accountRow d)).isSome &&
    db.credentials.any fun c => c.credentialId = material.credentialId

def credentialOwner (credentialId : String) (db : Db) : Option String :=
  (getCredential credentialId db).map (·.userId)

def attemptAccount (material : Material) : List Draw → Body User
  | [] => throwExn .handleAllocationExhausted
  | d :: ds =>
      .write true .plain (insertAccount material d) (fun _ => .ret (accountRow d)) fun db =>
        if isCredentialIdConflict material d db then
          select (credentialOwner material.credentialId) >>= fun _ =>
            throwExn .credentialAlreadyRegistered
        else attemptAccount material ds

def createPasskeyAccount (material : Material) (draws : List Draw) : Body User := do
  match ← select (credentialOwner material.credentialId) with
  | some _ => throwExn .credentialAlreadyRegistered
  | none => attemptAccount material draws

/-! ## The handlers -/

def passkeyRegisterFinish (registrationOpen : Bool) (crypto : Crypto) (state credential : String)
    (draws : List Draw) (now : Time) : Body Outcome :=
  if !registrationOpen then throwExn (.http 403 "registration is closed")
  else do
    match ← consumeChallenge state .register now with
    | none =>
        rollback
        throwExn (.http 400 "invalid or expired passkey challenge")
    | some raw =>
        match crypto.verifyRegistration raw credential with
        | .error .invalidJsonStructure =>
            rollback
            throwExn (.http 400 "malformed passkey credential")
        | .error .invalidRegistrationResponse =>
            rollback
            throwExn (.http 401 "passkey registration verification failed")
        | .error (.raised type) => throwExn (.raised type)
        | .ok material =>
            let user ← (createPasskeyAccount material draws).handle fun e =>
              match e with
              | .credentialAlreadyRegistered => do
                  rollback
                  throwExn (.http 409 "passkey already registered")
              | .handleAllocationExhausted => do
                  rollback
                  throwExn (.http 503 "could not allocate an account handle")
              | e => throwExn e
            commit
            return .session (tokens user) (some (userView user))

/-- The service as the handlers see it. -/
structure Server where
  webauthn : WebAuthn
  crypto : Crypto
  auth : AuthLib
  recovery : Recovery.Settings
  registrationOpen : Bool

def Server.registration (s : Server) : Crypto :=
  { s.crypto with verifyRegistration := verifyRegistration s.webauthn }

def Server.authentication (s : Server) : AuthLib :=
  { s.auth with
    parseAssertion := parseAssertion s.webauthn
    verifyAuthentication := verifyAuthentication s.webauthn }

/-- A finish request; the credential or attestation is the caller's object. -/
inductive Finish where
  | register (state credential : String) (draws : List Draw) (now : Time)
  | add (token : Option Claims) (state credential rowId : String) (now : Time)
  | authenticate (req : AssertionReq)
  | recover (handle : String) (req : Recovery.FinishRequest)

def Finish.body (s : Server) : Finish → Body Unit
  | .register state credential draws now => do
      let _ ← passkeyRegisterFinish s.registrationOpen s.registration state credential draws now
      return ()
  | .add token state credential rowId now => do
      let user ← getCurrentUser token
      passkeyAddFinish s.registration user state credential rowId now
  | .authenticate req => do
      let _ ← passkeyAuthenticateFinish s.authentication req
      return ()
  | .recover handle req => do
      let _ ← Recovery.recoverFinish s.recovery s.registration handle req
      return ()

/-- The challenge that the request presents, its ceremony and the clock. -/
def Finish.challenge : Finish → String × PasskeyOperation × Time
  | .register state _ _ now => (state, .register, now)
  | .add _ state _ _ now => (state, .register, now)
  | .authenticate req => (req.state, .authenticate, req.now)
  | .recover _ req => (req.serverNonce, .recover, req.consumedAt)

end AikoIsland.Ceremonies
