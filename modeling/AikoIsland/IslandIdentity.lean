import AikoIsland.Multikeys
import AikoIsland.Reactions
import AikoIsland.SigningErrors

/-!
# The signed manifest of an island

`build_signed_manifest` signs the identity of the own island, `verify_manifest`
checks a manifest of any shape, and `admit_manifest` asks in addition for a recent
one. A manifest is a dynamic value; its errors are a template with the values that
fill it, and every other exception that a step can end in has a constructor.
Ed25519 is a parameter.
-/
namespace AikoIsland.IslandIdentity
open Tables Signing Actuation Multikeys OrderedDict Checks SigningErrors

structure Ed25519 where
  publicKey : Bytes → Bytes
  sign : Bytes → Bytes → Bytes
  verify : Bytes → Bytes → Bytes → Bool

structure IslandIdentityError where
  template : String
  values : List Value := []

inductive Exn where
  | islandIdentityError (e : IslandIdentityError)
  | originError (detail : String)
  | byteError (e : ByteError)
  | keyError

def fail {α : Type} (template : String) (values : List Value := []) : Except Exn α :=
  .error (.islandIdentityError ⟨template, values⟩)

def refuseUnless (ok : Bool) (template : String) (values : List Value := []) : Except Exn Unit :=
  if ok then .ok () else fail template values

/-- `except OriginError`, with the text in front of that of the error. -/
def onOriginError {α : Type} (prefixed : String) : Except Exn α → Except Exn α
  | .error (.originError detail) => fail (prefixed ++ detail)
  | x => x

def v : ℤ := 2

def alg : String := "EdDSA"

def seedLen : ℕ := 32

def maxIdStr : ℕ := 64

def maxNameStr : ℕ := 64

def maxUrlStr : ℕ := 255

def keyVersionMax : ℤ := 2 ^ 32 - 1

def maxSignedAtMs : ℤ := 2 ^ 62

def defaultMaxAgeMs : ℤ := 5 * 60 * 1000

def defaultClockSkewMs : ℤ := 60 * 1000

def validModes : List PyStr := [codes "moderator", codes "e2ee"]

def manifestKeys : List String :=
  ["v", "alg", "id", "display_name", "base_url", "mode", "key_version", "signed_at_ms",
    "island_pubkey", "signature"]

/-- The signed tuple. -/
structure Identity where
  id : PyStr
  displayName : PyStr
  baseUrl : PyStr
  mode : PyStr
  keyVersion : ℤ
  signedAtMs : ℤ
  deriving DecidableEq, Repr

structure Manifest where
  identity : Identity
  islandPubkey : PyStr
  signature : PyStr
  deriving DecidableEq, Repr

/-- The dict of a manifest. -/
def Manifest.items (m : Manifest) : List (PyStr × Value) :=
  [(codes "v", .int v), (codes "alg", .str (codes alg)), (codes "id", .str m.identity.id),
   (codes "display_name", .str m.identity.displayName),
   (codes "base_url", .str m.identity.baseUrl), (codes "mode", .str m.identity.mode),
   (codes "key_version", .int m.identity.keyVersion),
   (codes "signed_at_ms", .int m.identity.signedAtMs),
   (codes "island_pubkey", .str m.islandPubkey), (codes "signature", .str m.signature)]

/-! ## The tuple -/

/-- One turn of the loop over the texts. -/
def checkText (name : String) (cap : ℕ) : Value → Except Exn PyStr
  | .str s =>
      if cap < s.length then
        fail ("manifest " ++ name ++ " too long (%s > %s)") [.int s.length, .int cap]
      else if s = [] then fail ("manifest " ++ name ++ " must be non-empty")
      else .ok s
  | _ => fail ("manifest " ++ name ++ " must be a string")

/-- An int, no bool, between bounds. -/
def checkInt (message : String) (low high : ℤ) : Value → Except Exn ℤ
  | .int n => if low ≤ n ∧ n ≤ high then .ok n else fail message
  | _ => fail message

def checkMode (mode : PyStr) : Except Exn Unit :=
  if mode ∈ validModes then .ok ()
  else
    fail "manifest mode %r is not one of [<IslandMode.E2EE: 'e2ee'>, <IslandMode.MODERATOR: 'moderator'>]"
      [.str mode]

/-- `_check_identity_tuple`. -/
def checkIdentityTuple (id displayName baseUrl mode keyVersion signedAtMs : Value) :
    Except Exn Identity := do
  let id ← checkText "id" maxIdStr id
  let displayName ← checkText "display_name" maxNameStr displayName
  let baseUrl ← checkText "base_url" maxUrlStr baseUrl
  let mode ← checkText "mode" maxNameStr mode
  checkMode mode
  let keyVersion ← checkInt "manifest key_version must be an int in [1, 4294967295]" 1
    keyVersionMax keyVersion
  let signedAtMs ← checkInt "manifest signed_at_ms must be an int in [0, 4611686018427387904]" 0
    maxSignedAtMs signedAtMs
  return ⟨id, displayName, baseUrl, mode, keyVersion, signedAtMs⟩

def signingBytes (i : Identity) : Except Exn Bytes :=
  (islandBytes i.id i.displayName i.baseUrl i.mode i.keyVersion i.signedAtMs).mapError .byteError

/-! ## The three doors -/

def decodeSeed (seedB64url : PyStr) : Except Exn Bytes :=
  onOriginError "" ((b64urlRaw (plainText (Reactions.strip seedB64url)) seedLen
    "ISLAND_SIGNING_SEED").mapError .originError)

def publicMultikey (ed : Ed25519) (seed : Bytes) : Except Exn PyStr :=
  if (ed.publicKey seed).length = pubkeyRawLen then
    .ok (codes (encodeMultikey (ed.publicKey seed)))
  else .error (.originError "pubkey raw length != 32")

def buildSignedManifest (ed : Ed25519)
    (id displayName baseUrl mode keyVersion signedAtMs : Value) (seedB64url : PyStr) :
    Except Exn (List (PyStr × Value)) := do
  let identity ← checkIdentityTuple id displayName baseUrl mode keyVersion signedAtMs
  let seed ← decodeSeed seedB64url
  let msg ← signingBytes identity
  let pubkey ← publicMultikey ed seed
  return Manifest.items ⟨identity, pubkey, codes (bytesToBase64url (ed.sign seed msg))⟩

/-- `manifest[key]`. -/
def item (items : List (PyStr × Value)) (key : String) : Except Exn Value :=
  match get items (codes key) with
  | some w => .ok w
  | none => .error .keyError

/-- The dict, if its keys are the ten of a manifest. -/
def manifestItems : Value → Except Exn (List (PyStr × Value))
  | .dict items =>
      let required := manifestKeys.map codes
      let missing := required.filter fun k => k ∉ keys items
      let extra := ((keys items).filter fun k => k ∉ required).dedup
      if missing = [] ∧ extra = [] then .ok items
      else fail "manifest key set invalid (missing=%s, unexpected=%s)"
        [.list ((missing.insertionSort (· ≤ ·)).map .str),
          .list ((extra.insertionSort (· ≤ ·)).map .str)]
  | _ => fail "manifest must be a dict"

/-- The version and the algorithm, which the signature does not cover. -/
def checkEnvelope (items : List (PyStr × Value)) : Except Exn Unit := do
  let version ← item items "v"
  refuseUnless (isIntEq version v) "manifest v %r unsupported (expected int 2)" [version]
  let algorithm ← item items "alg"
  refuseUnless (isStrEq algorithm (codes alg)) "manifest alg %r not allowed (only 'EdDSA')"
    [algorithm]

/-- The checks of the `try`: the fields, the raw key and the raw signature. -/
def parseFields (items : List (PyStr × Value)) : Except Exn (Manifest × Bytes × Bytes) := do
  let identity ← checkIdentityTuple (← item items "id") (← item items "display_name")
    (← item items "base_url") (← item items "mode") (← item items "key_version")
    (← item items "signed_at_ms")
  match ← item items "island_pubkey", ← item items "signature" with
  | .str pub, .str sig => do
      refuseUnless (pub.length ≤ maxPubkeyStr) "island_pubkey too long"
      let pubRaw ← (decodeMultikey (plainText pub)).mapError .originError
      let sigRaw ← (b64urlRaw (plainText sig) sigRawLen "signature").mapError .originError
      return (⟨identity, pub, sig⟩, pubRaw, sigRaw)
  | _, _ => fail "island_pubkey and signature must be strings"

/-- The body of the `try`, which ends with the signed bytes. -/
def parseManifest (items : List (PyStr × Value)) : Except Exn (Bytes × Bytes × Bytes) := do
  let (m, pubRaw, sigRaw) ← parseFields items
  let msg ← signingBytes m.identity
  return (pubRaw, sigRaw, msg)

def verifyManifest (ed : Ed25519) (manifest : Value) : Except Exn Bool := do
  let items ← manifestItems manifest
  checkEnvelope items
  let (pubRaw, sig, msg) ← onOriginError "not a well-formed island manifest: "
    (parseManifest items)
  return ed.verify pubRaw sig msg

/-- One of the four integers of `is_fresh`. -/
def freshInput (name : String) : Value → Except Exn ℤ :=
  checkInt ("is_fresh " ++ name ++ " must be a non-negative int in [0, 4611686018427387904] " ++
    "(a bad freshness input must fail closed, not silently invert the replay boundary)")
    0 maxSignedAtMs

def isFresh (signedAtMs nowMs maxAgeMs skewMs : Value) : Except Exn Bool := do
  let signedAt ← freshInput "signed_at_ms" signedAtMs
  let now ← freshInput "now_ms" nowMs
  let maxAge ← freshInput "max_age_ms" maxAgeMs
  let skew ← freshInput "skew_ms" skewMs
  return -skew ≤ now - signedAt && now - signedAt ≤ maxAge

/-- A window that is an int is refused above its ceiling. -/
def checkCeiling (template : String) (ceiling : ℤ) : Value → Except Exn Unit
  | .int n => if ceiling < n then fail template [.int n] else .ok ()
  | _ => .ok ()

def admitManifest (ed : Ed25519) (manifest nowMs maxAgeMs skewMs : Value) :
    Except Exn (Option Value) := do
  checkCeiling "admit_manifest max_age_ms=%s exceeds the 300000ms semantic ceiling; the A4 door caps the replay window (tighten, never widen)"
    defaultMaxAgeMs maxAgeMs
  checkCeiling "admit_manifest skew_ms=%s exceeds the 60000ms clock-skew ceiling; the A4 door caps future-dating (tighten, never widen)"
    defaultClockSkewMs skewMs
  let verified ← verifyManifest ed manifest
  match manifest with
  | .dict items =>
      if verified then do
        let signedAtMs ← item items "signed_at_ms"
        let fresh ← isFresh signedAtMs nowMs maxAgeMs skewMs
        if fresh then some <$> item items "mode" else .ok none
      else .ok none
  | _ => .ok none

end AikoIsland.IslandIdentity
