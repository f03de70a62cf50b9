import AikoIsland.Gateway
import AikoIsland.Footprint
import AikoIsland.Signing

/-!
# Sessions, passkey challenges and the passkey door

The gate that every request with a session token passes, the single-use
challenge store, and the two statements that attach a verified credential to an
account. A token stands for what its decoder returned, `none` for a token it
refused. What py_webauthn, SHA-256 and Ed25519 compute is a parameter.

The challenge is claimed by one conditional UPDATE and nothing is committed
there: the caller commits the burn together with its outcome or rolls it back.
Rows that a session writes carry the generation it passed the gate with.
-/
namespace AikoIsland.Passkeys
open Tables Gateway Footprint Signing WriterLock RelyGuarantee

/-! ## The session gate -/

/-- The subject and generation of a decoded token of the expected type. -/
structure Claims where
  userId : String
  generation : ℕ
  deriving DecidableEq, Repr

def isBanned (user : User) : Bool := user.bannedAt.isSome

/-- The gate as a function of the store that its one SELECT reads. -/
def gate (token : Option Claims) (db : Db) : Except Exn User :=
  match token with
  | none => .error .invalidSession
  | some claims =>
      match db.userById claims.userId with
      | none => .error .invalidSession
      | some user =>
          if claims.generation ≠ user.tokenGeneration then .error .invalidSession
          else if isBanned user then .error .sessionBanned
          else .ok user

/-- `auth_session.resolve_session_user`. -/
def resolveSessionUser (token : Option Claims) : Body User := do
  match ← select (gate token) with
  | .error e => throwExn e
  | .ok user => return user

/-- The REST adapter `deps.get_current_user`. -/
def getCurrentUser (token : Option Claims) : Body User :=
  (resolveSessionUser token).handle fun e =>
    match e with
    | .sessionBanned => throwExn (.http 403 "account suspended")
    | .invalidSession => throwExn (.http 401 "invalid or expired token")
    | e => throwExn e

theorem gate_eq_ok {token : Option Claims} {db : Db} {user : User}
    (h : gate token db = .ok user) :
    ∃ claims, token = some claims ∧ db.userById claims.userId = some user ∧
      claims.generation = user.tokenGeneration ∧ user.bannedAt = none := by
  unfold gate at h
  split at h
  · cases h
  · rename_i claims
    split at h
    · cases h
    · rename_i found hfound
      split_ifs at h with hgen hban
      obtain rfl : found = user := by simpa using h
      exact ⟨claims, rfl, hfound, by simpa using hgen, by simpa [isBanned] using hban⟩

section
variable {π α : Type} {S : Spec π Db Memory Label} {p : π} {x : Point Db Memory}

/-- Behind the gate the user is the one that the gate's SELECT found. -/
theorem safe_getCurrentUser {token : Option Claims} {k : User → Body α}
    {Q : α → Point Db Memory → Prop} {E : Exn → Point Db Memory → Prop}
    (hok : ∀ y user, S.Env p x y → gate token y.view = .ok user → Safe S p (k user) Q E y)
    (hrefused : ∀ e y, S.Env p x y → E e y) : Safe S p (getCurrentUser token >>= k) Q E x := by
  intro y hy
  change Safe S p (Request.bind (Request.handle (match gate token y.view with
    | .error e => .raise e
    | .ok user => .ret user) _) k) Q E y
  cases hgate : gate token y.view with
  | ok user => exact hok y user hy hgate
  | error e => cases e <;> exact fun z hz => hrefused _ z (hy.trans hz)

end

/-! ## The challenge store -/

def consumeWhere (state : String) (operation : PasskeyOperation) (now : Time)
    (c : PasskeyChallenge) : Bool :=
  c.state = state && !c.consumed && decide (now < c.expiresAt) && c.operation = operation

def burnChallenge (state : String) (operation : PasskeyOperation) (now : Time) (db : Db) : Db :=
  { db with challenges := db.challenges.map fun c =>
      if consumeWhere state operation now c then { c with consumed := true } else c }

def burnRowcount (state : String) (operation : PasskeyOperation) (now : Time) (db : Db) : ℕ :=
  (db.challenges.filter (consumeWhere state operation now)).length

/-- Claims the challenge without committing; `none` when no row matched. -/
def consumeChallenge (state : String) (operation : PasskeyOperation) (now : Time) :
    Body (Option Bytes) := do
  let rowcount ← execute (burnChallenge state operation now) (burnRowcount state operation now)
    .plain
  if rowcount ≠ 1 then
    return none
  else
    match base64urlToBytes state with
    | some raw => return some raw
    | none => throwExn (.valueError "binascii.Error")

def sweepChallenges (now : Time) (db : Db) : Db :=
  { db with challenges := db.challenges.filter fun c => decide (now < c.expiresAt) }

/-- `_store_challenge`: drop the expired ones, add the new one, commit. -/
def storeChallenge (raw : Bytes) (operation : PasskeyOperation) (sweptAt now ttl : Time) :
    Body String := do
  let state := bytesToBase64url raw
  execute (sweepChallenges sweptAt) (fun _ => ()) .plain
  flushOrRaise (fun db => db.insertChallenge ⟨state, operation, now + ttl, false⟩) .plain
  commit
  return state

/-! ## Credentials -/

structure Material where
  credentialId : String
  publicKey : String
  signCount : ℕ := 0
  transports : Option String := none
  aaguid : Option String := none
  deriving DecidableEq, Repr

/-- The two refusals of `verify_registration`, or another exception by its type. -/
inductive RegistrationError where
  | invalidJsonStructure
  | invalidRegistrationResponse
  | raised (type : String)
  deriving DecidableEq, Repr

/-- The computations of the libraries: an attestation checked against a challenge, an Ed25519
signature checked under a raw key, a hexadecimal SHA-256. -/
structure Crypto where
  verifyRegistration : Bytes → String → Except RegistrationError Material
  ed25519Verify : Bytes → Bytes → Bytes → Bool
  sha256Hex : String → String

/-- The one place where a credential row is built from verified material. -/
def passkeyCredentialRow (rowId userId : String) (material : Material) (author : Author) :
    PasskeyCredential where
  id := rowId
  credentialId := material.credentialId
  userId := userId
  publicKey := material.publicKey
  signCount := material.signCount
  transports := material.transports
  aaguid := material.aaguid
  author := author

/-- `link_passkey_credential` for the user of a session of that generation. -/
def linkPasskeyCredential (rowId userId : String) (generation : ℕ) (material : Material) :
    Body Unit := do
  flushOrRaise (fun db => db.insertCredential
    (passkeyCredentialRow rowId userId material (.session generation)))
    (.sessionWrite userId generation)
  commit

def purgeUserCredentials (userId : String) (db : Db) : Db :=
  { db with credentials := db.credentials.filter fun c => c.userId ≠ userId }

/-- `POST /passkey/add/finish` for the user that the gate returned. -/
def passkeyAddFinish (crypto : Crypto) (user : User) (state credential rowId : String)
    (now : Time) : Body Unit := do
  match ← consumeChallenge state .register now with
  | none =>
      rollback
      throwExn (.http 400 "invalid or expired passkey challenge")
  | some raw =>
      match crypto.verifyRegistration raw credential with
      | .error .invalidJsonStructure =>
          rollback
          throwExn (.http 400 "malformed passkey credential")
      | .error .invalidRegistrationResponse =>
          rollback
          throwExn (.http 401 "passkey registration verification failed")
      | .error (.raised type) => throwExn (.raised type)
      | .ok material =>
          (linkPasskeyCredential rowId user.id user.tokenGeneration material).handle fun e =>
            if e = .integrityError then do
              rollback
              throwExn (.http 409 "passkey already registered")
            else throwExn e

/-- The writes of the passkey door: a challenge is burned, a credential attached. -/
inductive PasskeyWrite (user : User) : Label → (Db → Option Db) → Prop
  | burn (state : String) (now : Time) :
      PasskeyWrite user .plain fun db => some (burnChallenge state .register now db)
  | link (rowId : String) (material : Material) :
      PasskeyWrite user (.sessionWrite user.id user.tokenGeneration) fun db => db.insertCredential
        (passkeyCredentialRow rowId user.id material (.session user.tokenGeneration))

section
variable {A : Label → (Db → Memory → Memory) → Prop}

theorem uses_consumeChallenge {W : Label → (Db → Option Db) → Prop} {state : String}
    {operation : PasskeyOperation} {now : Time}
    (h : W .plain fun db => some (burnChallenge state operation now db)) :
    Uses W A (consumeChallenge state operation now) := by
  refine Uses.bind (Uses.exec h) fun rowcount => ?_
  split_ifs
  · exact trivial
  · cases base64urlToBytes state <;> exact trivial

theorem uses_passkeyAddFinish (crypto : Crypto) (user : User) (state credential rowId : String)
    (now : Time) :
    Uses (PasskeyWrite user) A (passkeyAddFinish crypto user state credential rowId now) := by
  refine Uses.bind (uses_consumeChallenge (.burn state now)) fun raw => ?_
  cases raw with
  | none => exact trivial
  | some raw =>
      dsimp only
      split
      · exact trivial
      · exact trivial
      · exact trivial
      · next material _ =>
          refine Uses.handle (Uses.bind (uses_flushOrRaise (.link rowId material))
            fun _ => Uses.commitNow _) fun e => ?_
          split_ifs <;> exact trivial

end

end AikoIsland.Passkeys
