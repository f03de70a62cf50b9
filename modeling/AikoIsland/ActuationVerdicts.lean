import AikoIsland.Actuation
import AikoIsland.SigningErrors

/-!
# When an actuation envelope is accepted

Each group of checks returns under one condition, and the verifier under all of
them. `verifyRaising` is the verifier with the exceptions that its steps can end
in: a missing key, an `OriginError` of the decoders, the two of the signing bytes
and a signature that does not verify. It raises `ActuationError` only, and returns
the eight fields as they came.

The cap on `max_age_ms` is one of the conditions: a caller that passes a wider or
a negative window is refused.
-/
namespace AikoIsland.ActuationVerdicts
open Tables Messages Signing Passkeys SignedBytes OrderedDict Actuation Checks SigningErrors

section
variable {crypto : Crypto} {req : Request}

/-! ## One group of checks at a time -/

theorem envelopeItems_eq_ok {v : Value} {items : List (PyStr × Value)} :
    envelopeItems v = .ok items ↔
      v = .dict items ∧ ∀ k, k ∈ keys items ↔ k ∈ requiredKeys.map codes := by
  unfold envelopeItems
  split
  · rename_i items'
    dsimp only
    split_ifs with h
    · constructor
      · intro hok
        cases hok
        exact ⟨rfl, (missing_extra_nil (by simp [keys]) (by simp)).mp h⟩
      · intro hok
        cases hok.1
        rfl
    · constructor
      · intro hok
        cases hok
      · intro hok
        cases hok.1
        exact absurd ((missing_extra_nil (by simp [keys]) (by simp)).mpr hok.2) h
  · rename_i hne
    constructor
    · intro hok
      cases hok
    · intro hok
      exact absurd hok.1 (hne items)

theorem checkArguments_eq_ok {now maxAge : ℤ} {pubkeys : List Value} :
    checkArguments req = .ok (now, pubkeys, maxAge) ↔
      req.nowMs = .int now ∧ req.allowedPubkeys = .set pubkeys ∧
        isSetOrNone req.allowedCommands = true ∧ req.maxAgeMs = .int maxAge ∧
        0 ≤ maxAge ∧ maxAge ≤ maxAllowedAgeMs := by
  constructor
  · intro h
    obtain ⟨now', hnow, h⟩ := bind_eq_ok.mp h
    obtain ⟨pubkeys', hpubkeys, h⟩ := bind_eq_ok.mp h
    obtain ⟨_, hcommands, h⟩ := bind_eq_ok.mp h
    obtain ⟨maxAge', hage, h⟩ := bind_eq_ok.mp h
    cases h
    exact ⟨anInt_eq_ok.mp hnow, aSet_eq_ok.mp hpubkeys, require_eq_ok.mp hcommands,
      boundedInt_eq_ok.mp hage⟩
  · intro h
    obtain ⟨hnow, hpubkeys, hcommands, hage⟩ := h
    apply bind_eq_ok.mpr
    refine ⟨now, anInt_eq_ok.mpr hnow, bind_eq_ok.mpr ⟨pubkeys, aSet_eq_ok.mpr hpubkeys, ?_⟩⟩
    apply bind_eq_ok.mpr
    refine ⟨(), require_eq_ok.mpr hcommands, bind_eq_ok.mpr ⟨maxAge, ?_, rfl⟩⟩
    exact boundedInt_eq_ok.mpr hage

/-- The values that the content checks let through. -/
structure Content (req : Request) (items : List (PyStr × Value)) (robotId command : PyStr)
    (seq ts : ℤ) : Prop where
  versionField : field items "v" = .int supportedV
  algField : field items "alg" = .str (codes alg)
  robotField : field items "robot_id" = .str robotId
  robotLength : 1 ≤ robotId.length ∧ robotId.length ≤ maxRobotId
  robot : mismatched req.expectedRobotId robotId = false
  commandField : field items "command" = .str command
  commandLength : 1 ≤ command.length ∧ command.length ≤ maxCommand
  allowed : commandAllowed req.allowedCommands command = true
  seqField : field items "seq" = .int seq
  seqRange : 0 ≤ seq ∧ seq ≤ maxSeq
  tsField : field items "signed_at_ms" = .int ts
  tsRange : 0 ≤ ts ∧ ts ≤ maxSignedAtMs

theorem checkContent_eq_ok {items : List (PyStr × Value)} {robotId command : PyStr} {seq ts : ℤ} :
    checkContent req items = .ok (robotId, command, seq, ts) ↔
      Content req items robotId command seq ts := by
  constructor
  · intro h
    obtain ⟨_, hversion, h⟩ := bind_eq_ok.mp h
    obtain ⟨_, halg, h⟩ := bind_eq_ok.mp h
    obtain ⟨robotId', hrobot, h⟩ := bind_eq_ok.mp h
    obtain ⟨_, hmatch, h⟩ := bind_eq_ok.mp h
    obtain ⟨command', hcommand, h⟩ := bind_eq_ok.mp h
    obtain ⟨_, hallowed, h⟩ := bind_eq_ok.mp h
    obtain ⟨seq', hseq, h⟩ := bind_eq_ok.mp h
    obtain ⟨ts', hts, h⟩ := bind_eq_ok.mp h
    cases h
    have hmatched : mismatched req.expectedRobotId robotId = false := by
      simpa using require_eq_ok.mp hmatch
    exact ⟨isIntEq_iff.mp (require_eq_ok.mp hversion), isStrEq_iff.mp (require_eq_ok.mp halg),
      (boundedText_eq_ok.mp hrobot).1, (boundedText_eq_ok.mp hrobot).2, hmatched,
      (boundedText_eq_ok.mp hcommand).1, (boundedText_eq_ok.mp hcommand).2,
      require_eq_ok.mp hallowed, (boundedInt_eq_ok.mp hseq).1, (boundedInt_eq_ok.mp hseq).2,
      (boundedInt_eq_ok.mp hts).1, (boundedInt_eq_ok.mp hts).2⟩
  · intro h
    have hmatched : (!mismatched req.expectedRobotId robotId) = true := by
      rw [h.robot]
      rfl
    apply bind_eq_ok.mpr
    refine ⟨(), require_eq_ok.mpr (isIntEq_iff.mpr h.versionField), bind_eq_ok.mpr ?_⟩
    refine ⟨(), require_eq_ok.mpr (isStrEq_iff.mpr h.algField), bind_eq_ok.mpr ?_⟩
    refine ⟨robotId, boundedText_eq_ok.mpr ⟨h.robotField, h.robotLength⟩, bind_eq_ok.mpr ?_⟩
    refine ⟨(), require_eq_ok.mpr hmatched, bind_eq_ok.mpr ?_⟩
    refine ⟨command, boundedText_eq_ok.mpr ⟨h.commandField, h.commandLength⟩, bind_eq_ok.mpr ?_⟩
    refine ⟨(), require_eq_ok.mpr h.allowed, bind_eq_ok.mpr ?_⟩
    refine ⟨seq, boundedInt_eq_ok.mpr ⟨h.seqField, h.seqRange⟩, bind_eq_ok.mpr ?_⟩
    exact ⟨ts, boundedInt_eq_ok.mpr ⟨h.tsField, h.tsRange⟩, rfl⟩

theorem checkSender_eq_ok {pubkeys : List Value} {items : List (PyStr × Value)} {pubkeyStr : PyStr}
    {key : Bytes} :
    checkSender pubkeys items = .ok (pubkeyStr, key) ↔
      field items "sender_pubkey" = .str pubkeyStr ∧ pubkeyStr.length ≤ maxPubkeyStr ∧
        decodeMultikey (plainText pubkeyStr) = .ok key ∧
        hasText pubkeys (codes (encodeMultikey key)) = true := by
  constructor
  · intro h
    obtain ⟨pubkeyStr', htext, h⟩ := bind_eq_ok.mp h
    obtain ⟨key', hkey, h⟩ := bind_eq_ok.mp h
    obtain ⟨_, hallowed, h⟩ := bind_eq_ok.mp h
    cases h
    obtain ⟨hfield, _, hlength⟩ := boundedText_eq_ok.mp htext
    exact ⟨hfield, hlength, normalized_eq_ok.mp hkey, require_eq_ok.mp hallowed⟩
  · intro h
    obtain ⟨hfield, hlength, hkey, hallowed⟩ := h
    apply bind_eq_ok.mpr
    refine ⟨pubkeyStr, boundedText_eq_ok.mpr ⟨hfield, Nat.zero_le _, hlength⟩,
      bind_eq_ok.mpr ?_⟩
    refine ⟨key, normalized_eq_ok.mpr hkey, bind_eq_ok.mpr ?_⟩
    exact ⟨(), require_eq_ok.mpr hallowed, rfl⟩

theorem checkSignature_eq_ok {items : List (PyStr × Value)} {key : Bytes}
    {robotId command sigStr : PyStr} {seq ts : ℤ} :
    checkSignature crypto items key robotId command seq ts = .ok sigStr ↔
      field items "sig" = .str sigStr ∧ sigStr.length ≤ maxSigStr ∧
        ∃ sig message, b64urlRaw (plainText sigStr) sigRawLen "sig" = .ok sig ∧
          actuationSigningBytes key robotId command seq ts = some message ∧
          crypto.ed25519Verify key sig message = true := by
  constructor
  · intro h
    obtain ⟨sigStr', htext, h⟩ := bind_eq_ok.mp h
    obtain ⟨sig, hsig, h⟩ := bind_eq_ok.mp h
    split at h
    · cases h
    · rename_i message hmessage
      obtain ⟨_, hverify, h⟩ := bind_eq_ok.mp h
      cases h
      obtain ⟨hfield, _, hlength⟩ := boundedText_eq_ok.mp htext
      exact ⟨hfield, hlength, sig, message, normalized_eq_ok.mp hsig, hmessage,
        require_eq_ok.mp hverify⟩
  · intro h
    obtain ⟨hfield, hlength, sig, message, hsig, hmessage, hverify⟩ := h
    apply bind_eq_ok.mpr
    refine ⟨sigStr, boundedText_eq_ok.mpr ⟨hfield, Nat.zero_le _, hlength⟩,
      bind_eq_ok.mpr ?_⟩
    refine ⟨sig, normalized_eq_ok.mpr hsig, ?_⟩
    rw [hmessage]
    exact bind_eq_ok.mpr ⟨(), require_eq_ok.mpr hverify, rfl⟩

theorem checkFresh_eq_ok {now maxAge ts : ℤ} {u : Unit} :
    checkFresh now maxAge ts = .ok u ↔ now - ts ≤ maxAge ∧ -maxFwdSkewMs ≤ now - ts := by
  constructor
  · intro h
    obtain ⟨_, hstale, h⟩ := bind_eq_ok.mp h
    exact ⟨by simpa using require_eq_ok.mp hstale, by simpa using require_eq_ok.mp h⟩
  · intro h
    apply bind_eq_ok.mpr
    exact ⟨(), require_eq_ok.mpr (by simpa using h.1), require_eq_ok.mpr (by simpa using h.2)⟩

end

/-! ## All of them -/

/-- The eight fields under their keys. -/
def fieldsOf (env : Envelope) : List (PyStr × Value) :=
  [(codes "v", .int env.v), (codes "alg", .str env.alg), (codes "robot_id", .str env.robotId),
   (codes "command", .str env.command), (codes "seq", .int env.seq),
   (codes "signed_at_ms", .int env.signedAtMs), (codes "sender_pubkey", .str env.senderPubkey),
   (codes "sig", .str env.sig)]

/-- `items` is a genuine v1 envelope for a bridge with these keys, commands and clock. -/
structure Genuine (crypto : Crypto) (pubkeys : List PyStr) (commands : Option (List PyStr))
    (expectedRobotId : Option PyStr) (now maxAge : ℤ) (items : List (PyStr × Value))
    (env : Envelope) : Prop where
  keys : ∀ k, k ∈ keys items ↔ k ∈ requiredKeys.map codes
  values : ∀ k, OrderedDict.get items k = OrderedDict.get (fieldsOf env) k
  version : env.v = 1
  algorithm : env.alg = codes "EdDSA"
  robotLength : 1 ≤ env.robotId.length ∧ env.robotId.length ≤ 128
  robot : ∀ robotId, expectedRobotId = some robotId → robotId = env.robotId
  commandLength : 1 ≤ env.command.length ∧ env.command.length ≤ 64
  command : ∀ allowed, commands = some allowed → env.command ∈ allowed
  seqRange : 0 ≤ env.seq ∧ env.seq ≤ 2 ^ 53 - 1
  signedAtRange : 0 ≤ env.signedAtMs ∧ env.signedAtMs ≤ 2 ^ 62
  pubkeyLength : env.senderPubkey.length ≤ 128
  sigLength : env.sig.length ≤ 128
  signed : ∃ key sig message, decodeMultikey (plainText env.senderPubkey) = .ok key ∧
    codes (encodeMultikey key) ∈ pubkeys ∧
    b64urlRaw (plainText env.sig) sigRawLen "sig" = .ok sig ∧
    actuationSigningBytes key env.robotId env.command env.seq env.signedAtMs = some message ∧
    crypto.ed25519Verify key sig message = true
  fresh : -1000 ≤ now - env.signedAtMs ∧ now - env.signedAtMs ≤ maxAge

def optional (v : Option Value) : Value := v.getD .none

/-- The arguments of a bridge whose sets hold texts and whose numbers are ints. -/
def bridgeRequest (pubkeys : List PyStr) (commands : Option (List PyStr))
    (expectedRobotId : Option PyStr) (now maxAge : ℤ) (raw : Value) : Request where
  raw := raw
  allowedPubkeys := .set (pubkeys.map .str)
  nowMs := .int now
  maxAgeMs := .int maxAge
  expectedRobotId := optional (expectedRobotId.map .str)
  allowedCommands := optional (commands.map fun xs => .set (xs.map .str))

section
variable {crypto : Crypto} {pubkeys : List PyStr} {commands : Option (List PyStr)}
  {expectedRobotId : Option PyStr} {now maxAge : ℤ} {raw : Value} {env : Envelope}
  {items : List (PyStr × Value)}

theorem hasText_map {xs : List PyStr} {s : PyStr} : hasText (xs.map .str) s = true ↔ s ∈ xs := by
  simp [hasText]

theorem field_eq {key : String} {v : Value} (hv : v ≠ .none) :
    field items key = v ↔ OrderedDict.get items (codes key) = some v := by
  unfold field
  cases OrderedDict.get items (codes key) with
  | none =>
      constructor
      · intro h
        exact absurd h.symm hv
      · intro h
        cases h
  | some w => simp

/-- The fields of the dict are those of the envelope once each of them is. -/
theorem values_of_fields (hkeys : ∀ k, k ∈ keys items ↔ k ∈ requiredKeys.map codes)
    (hv : field items "v" = .int env.v) (halg : field items "alg" = .str env.alg)
    (hrobot : field items "robot_id" = .str env.robotId)
    (hcommand : field items "command" = .str env.command)
    (hseq : field items "seq" = .int env.seq)
    (hts : field items "signed_at_ms" = .int env.signedAtMs)
    (hpubkey : field items "sender_pubkey" = .str env.senderPubkey)
    (hsig : field items "sig" = .str env.sig) (k : PyStr) :
    OrderedDict.get items k = OrderedDict.get (fieldsOf env) k := by
  by_cases hk : k ∈ requiredKeys.map codes
  · simp only [requiredKeys, List.map_cons, List.map_nil, List.mem_cons, List.not_mem_nil,
      or_false] at hk
    rcases hk with rfl | rfl | rfl | rfl | rfl | rfl | rfl | rfl
    · exact (field_eq (by simp)).mp hv
    · exact (field_eq (by simp)).mp halg
    · exact (field_eq (by simp)).mp hrobot
    · exact (field_eq (by simp)).mp hcommand
    · exact (field_eq (by simp)).mp hseq
    · exact (field_eq (by simp)).mp hts
    · exact (field_eq (by simp)).mp hpubkey
    · exact (field_eq (by simp)).mp hsig
  · have hitems : k ∉ keys items := fun hin => hk ((hkeys k).mp hin)
    have hfresh : k ∉ keys (fieldsOf env) := hk
    rw [get_of_notMem hitems, get_of_notMem hfresh]

/-- The verifier returns exactly on the genuine envelopes, for a window within its cap. -/
theorem verifyActuation_eq_ok :
    verifyActuation crypto (bridgeRequest pubkeys commands expectedRobotId now maxAge raw) =
        .ok env ↔
      (0 ≤ maxAge ∧ maxAge ≤ 30000) ∧ ∃ items, raw = .dict items ∧
        Genuine crypto pubkeys commands expectedRobotId now maxAge items env := by
  constructor
  · intro h
    obtain ⟨⟨now', pubkeys', maxAge'⟩, hargs, h⟩ := bind_eq_ok.mp h
    obtain ⟨items, hitems, h⟩ := bind_eq_ok.mp h
    obtain ⟨⟨robotId, command, seq, ts⟩, hcontent, h⟩ := bind_eq_ok.mp h
    obtain ⟨⟨pubkeyStr, key⟩, hsender, h⟩ := bind_eq_ok.mp h
    obtain ⟨sigStr, hsig, h⟩ := bind_eq_ok.mp h
    obtain ⟨_, hfresh, h⟩ := bind_eq_ok.mp h
    cases h
    obtain ⟨hnow, hpubkeys, _, hage, hcap⟩ := checkArguments_eq_ok.mp hargs
    cases hnow
    cases hage
    cases hpubkeys
    obtain ⟨hraw, hkeys⟩ := envelopeItems_eq_ok.mp hitems
    have hright := checkContent_eq_ok.mp hcontent
    obtain ⟨hpubkeyField, hpubkeyLength, hkey, hlisted⟩ := checkSender_eq_ok.mp hsender
    obtain ⟨hsigField, hsigLength, sig, message, hsig, hmessage, hverify⟩ :=
      checkSignature_eq_ok.mp hsig
    have hage := checkFresh_eq_ok.mp hfresh
    refine ⟨hcap, items, hraw, hkeys, ?_, rfl, rfl, hright.robotLength, ?_, hright.commandLength,
      ?_, hright.seqRange, hright.tsRange, hpubkeyLength, hsigLength, ?_, hage.2, hage.1⟩
    · exact values_of_fields hkeys hright.versionField hright.algField hright.robotField
        hright.commandField hright.seqField hright.tsField hpubkeyField hsigField
    · intro expected hexpected
      have hmatch := hright.robot
      subst hexpected
      simpa [bridgeRequest, optional, mismatched] using hmatch
    · intro allowed hcommands
      have hallowed := hright.allowed
      subst hcommands
      exact hasText_map.mp hallowed
    · exact ⟨key, sig, message, hkey, hasText_map.mp hlisted, hsig, hmessage, hverify⟩
  · intro h
    obtain ⟨hcap, items, hraw, hright⟩ := h
    obtain ⟨key, sig, message, hkey, hlisted, hsig, hmessage, hverify⟩ := hright.signed
    have hfield : ∀ {key : String} {v : Value}, v ≠ .none →
        OrderedDict.get (fieldsOf env) (codes key) = some v → field items key = v := by
      intro key v hv hget
      exact (field_eq hv).mpr ((hright.values _).trans hget)
    have hargs : checkArguments (bridgeRequest pubkeys commands expectedRobotId now maxAge raw) =
        .ok (now, pubkeys.map .str, maxAge) := by
      apply checkArguments_eq_ok.mpr
      refine ⟨rfl, rfl, ?_, rfl, hcap⟩
      cases commands <;> rfl
    have hcontent : checkContent (bridgeRequest pubkeys commands expectedRobotId now maxAge raw)
        items = .ok (env.robotId, env.command, env.seq, env.signedAtMs) := by
      apply checkContent_eq_ok.mpr
      constructor
      · rw [hfield (by simp) rfl, hright.version]
        rfl
      · rw [hfield (by simp) rfl, hright.algorithm]
        rfl
      · exact hfield (by simp) rfl
      · exact hright.robotLength
      · cases hexpected : expectedRobotId with
        | none => rfl
        | some robotId => simp [bridgeRequest, optional, mismatched, hright.robot _ hexpected]
      · exact hfield (by simp) rfl
      · exact hright.commandLength
      · cases hcommands : commands with
        | none => rfl
        | some allowed => exact hasText_map.mpr (hright.command _ hcommands)
      · exact hfield (by simp) rfl
      · exact hright.seqRange
      · exact hfield (by simp) rfl
      · exact hright.signedAtRange
    have hsender : checkSender (pubkeys.map .str) items = .ok (env.senderPubkey, key) :=
      checkSender_eq_ok.mpr ⟨hfield (by simp) rfl, hright.pubkeyLength, hkey,
        hasText_map.mpr hlisted⟩
    have hsignature : checkSignature crypto items key env.robotId env.command env.seq
        env.signedAtMs = .ok env.sig :=
      checkSignature_eq_ok.mpr ⟨hfield (by simp) rfl, hright.sigLength, sig, message, hsig,
        hmessage, hverify⟩
    have hfresh : checkFresh now maxAge env.signedAtMs = .ok () :=
      checkFresh_eq_ok.mpr ⟨hright.fresh.2, hright.fresh.1⟩
    have henv : env = ⟨supportedV, codes alg, env.robotId, env.command, env.seq, env.signedAtMs,
        env.senderPubkey, env.sig⟩ := by
      have hversion := hright.version
      have halgorithm := hright.algorithm
      cases env
      cases hversion
      cases halgorithm
      rfl
    apply bind_eq_ok.mpr
    refine ⟨_, hargs, bind_eq_ok.mpr ⟨items, ?_, bind_eq_ok.mpr ⟨_, hcontent, ?_⟩⟩⟩
    · exact envelopeItems_eq_ok.mpr ⟨hraw, hright.keys⟩
    · apply bind_eq_ok.mpr
      refine ⟨_, hsender, bind_eq_ok.mpr ⟨_, hsignature, bind_eq_ok.mpr ⟨(), hfresh, ?_⟩⟩⟩
      exact congrArg Except.ok henv.symm

end

/-! ## The verifier with its exceptions -/

inductive Exn where
  | actuationError (e : ActuationError)
  | originError (detail : String)
  | byteError (e : ByteError)
  | invalidSignature
  | keyError

/-- `raw[key]`. -/
def item (items : List (PyStr × Value)) (key : String) : Except Exn Value :=
  match OrderedDict.get items (codes key) with
  | some v => .ok v
  | none => .error .keyError

/-- `try` with a handler that raises an `ActuationError` for what it handles. -/
def handling {α : Type} (handler : Exn → Option ActuationError) : Except Exn α → Except Exn α
  | .ok a => .ok a
  | .error e =>
      match handler e with
      | some a => .error (.actuationError a)
      | none => .error e

def onOriginError (prefixed : String) : Exn → Option ActuationError
  | .originError detail => some { template := prefixed ++ detail }
  | _ => none

def onByteError : Exn → Option ActuationError
  | .byteError _ => some { template := "envelope fields are not canonically encodable: %s" }
  | _ => none

def onInvalidSignature : Exn → Option ActuationError
  | .invalidSignature => some { template := "signature does not verify" }
  | _ => none

def senderRaising (pubkeys : List Value) (items : List (PyStr × Value)) :
    Except Exn (PyStr × Bytes) := do
  let pubkeyStr ← (boundedText (field items "sender_pubkey") 0 maxPubkeyStr
    { template := "sender_pubkey must be a string within the size cap" }).mapError .actuationError
  let rawPubkey ← handling (onOriginError "sender_pubkey malformed: ")
    ((decodeMultikey (plainText pubkeyStr)).mapError .originError)
  (require (hasText pubkeys (codes (encodeMultikey rawPubkey)))
    { template := "sender_pubkey is not an allowlisted commander key" }).mapError .actuationError
  return (pubkeyStr, rawPubkey)

def signatureRaising (crypto : Crypto) (items : List (PyStr × Value)) (rawPubkey : Bytes)
    (robotId command : PyStr) (seq ts : ℤ) : Except Exn PyStr := do
  let sigStr ← (boundedText (field items "sig") 0 maxSigStr
    { template := "sig must be a string within the size cap" }).mapError .actuationError
  let sig ← handling (onOriginError "sig malformed: ")
    ((b64urlRaw (plainText sigStr) sigRawLen "sig").mapError .originError)
  let message ← handling onByteError
    ((actuationBytes rawPubkey robotId command seq ts).mapError .byteError)
  handling onInvalidSignature
    (if crypto.ed25519Verify rawPubkey sig message then .ok () else .error .invalidSignature)
  return sigStr

/-- `verify_actuation`; the lookups of the eight fields come first. -/
def verifyRaising (crypto : Crypto) (req : Request) : Except Exn (List (PyStr × Value)) := do
  let (now, pubkeys, maxAge) ← (checkArguments req).mapError .actuationError
  let items ← (envelopeItems req.raw).mapError .actuationError
  let fields ← requiredKeys.mapM fun key => (item items key).map fun v => (codes key, v)
  let (robotId, command, seq, ts) ← (checkContent req items).mapError .actuationError
  let (_, rawPubkey) ← senderRaising pubkeys items
  let _ ← signatureRaising crypto items rawPubkey robotId command seq ts
  (checkFresh now maxAge ts).mapError .actuationError
  return fields

section
variable {crypto : Crypto} {req : Request} {items : List (PyStr × Value)}

theorem handling_originError {α : Type} {p : String} {x : Except String α} :
    handling (onOriginError p) (x.mapError .originError) =
      (normalized p x).mapError .actuationError := by
  cases x <;> rfl

theorem senderRaising_eq (pubkeys : List Value) :
    senderRaising pubkeys items = (checkSender pubkeys items).mapError .actuationError := by
  unfold senderRaising checkSender
  simp only [mapError_bind, handling_originError]
  rfl

theorem signatureRaising_eq {rawPubkey : Bytes} {robotId command : PyStr} {seq ts : ℤ} :
    signatureRaising crypto items rawPubkey robotId command seq ts =
      (checkSignature crypto items rawPubkey robotId command seq ts).mapError
        .actuationError := by
  unfold signatureRaising checkSignature
  simp only [mapError_bind, handling_originError]
  apply bind_congr
  intro sigStr
  apply bind_congr
  intro sig
  have hbytes := toOption_actuationBytes rawPubkey robotId command seq ts
  cases hmessage : actuationBytes rawPubkey robotId command seq ts with
  | error e =>
      rw [hmessage] at hbytes
      rw [← hbytes]
      rfl
  | ok message =>
      rw [hmessage] at hbytes
      rw [← hbytes]
      change (handling onInvalidSignature (if crypto.ed25519Verify rawPubkey sig message then
          .ok () else .error .invalidSignature) >>= fun _ => pure sigStr) =
        (require (crypto.ed25519Verify rawPubkey sig message)
          { template := "signature does not verify" } >>= fun _ => pure sigStr).mapError
            .actuationError
      cases crypto.ed25519Verify rawPubkey sig message <;> rfl

/-- No lookup of the eight fields fails once the keys were compared. -/
theorem mapM_item (hkeys : ∀ k, k ∈ keys items ↔ k ∈ requiredKeys.map codes) :
    (requiredKeys.mapM fun key => (item items key).map fun v => (codes key, v)) =
      .ok (requiredKeys.map fun key => (codes key, field items key)) := by
  apply mapM_eq_ok.mpr
  rw [List.forall₂_map_right_iff, List.forall₂_same]
  intro key hkey
  obtain ⟨v, hv⟩ := get_of_mem_keys ((hkeys _).mpr (List.mem_map_of_mem hkey))
  simp [item, field, hv, Except.map]

/-- With its exceptions the verifier does what it does without them: they become errors of the
one type, and the fields come back as they are. -/
theorem verifyRaising_eq (crypto : Crypto) (req : Request) :
    verifyRaising crypto req =
      ((verifyActuation crypto req).map fieldsOf).mapError .actuationError := by
  unfold verifyRaising verifyActuation
  cases hargs : checkArguments req with
  | error e => rfl
  | ok args =>
      obtain ⟨now, pubkeys, maxAge⟩ := args
      rw [ok_bind, mapError_ok, ok_bind]
      dsimp only
      cases hitems : envelopeItems req.raw with
      | error e => rfl
      | ok items =>
          have hkeys := (envelopeItems_eq_ok.mp hitems).2
          rw [ok_bind, mapError_ok, ok_bind, mapM_item hkeys, ok_bind]
          cases hcontent : checkContent req items with
          | error e => rfl
          | ok content =>
              obtain ⟨robotId, command, seq, ts⟩ := content
              rw [ok_bind, mapError_ok, ok_bind, senderRaising_eq]
              dsimp only
              cases hsender : checkSender pubkeys items with
              | error e => rfl
              | ok sender =>
                  obtain ⟨pubkeyStr, key⟩ := sender
                  rw [ok_bind, mapError_ok, ok_bind, signatureRaising_eq]
                  dsimp only
                  cases hsig : checkSignature crypto items key robotId command seq ts with
                  | error e => rfl
                  | ok sigStr =>
                      rw [ok_bind, mapError_ok, ok_bind]
                      cases checkFresh now maxAge ts with
                      | error e => rfl
                      | ok u =>
                          have hright := checkContent_eq_ok.mp hcontent
                          have hpubkey := (checkSender_eq_ok.mp hsender).1
                          have hsigField := (checkSignature_eq_ok.mp hsig).1
                          have hfields : requiredKeys.map (fun key => (codes key, field items key)) =
                              fieldsOf ⟨supportedV, codes alg, robotId, command, seq, ts, pubkeyStr,
                                sigStr⟩ := by
                            simp [requiredKeys, fieldsOf, hright.versionField, hright.algField,
                              hright.robotField, hright.commandField, hright.seqField,
                              hright.tsField, hpubkey, hsigField]
                          rw [hfields]
                          rfl

end

section
variable {crypto : Crypto} {pubkeys : List PyStr} {commands : Option (List PyStr)}
  {expectedRobotId : Option PyStr} {now maxAge : ℤ} {raw : Value}

theorem verifyRaising_eq_ok {dict : List (PyStr × Value)} :
    verifyRaising crypto (bridgeRequest pubkeys commands expectedRobotId now maxAge raw) =
        .ok dict ↔
      (0 ≤ maxAge ∧ maxAge ≤ 30000) ∧ ∃ items env, raw = .dict items ∧
        Genuine crypto pubkeys commands expectedRobotId now maxAge items env ∧
        dict = fieldsOf env := by
  rw [verifyRaising_eq, mapError_eq_ok, map_eq_ok]
  constructor
  · intro h
    obtain ⟨env, henv, hdict⟩ := h
    obtain ⟨hcap, items, hraw, hright⟩ := verifyActuation_eq_ok.mp henv
    exact ⟨hcap, items, env, hraw, hright, hdict.symm⟩
  · intro h
    obtain ⟨hcap, items, env, hraw, hright, hdict⟩ := h
    exact ⟨env, verifyActuation_eq_ok.mpr ⟨hcap, items, hraw, hright⟩, hdict.symm⟩

end

/-- The verifier raises `ActuationError` only, and it returns exactly on the genuine envelopes,
with their eight fields, for a bridge whose window is within the cap. -/
theorem verified_exactly (crypto : Crypto) (pubkeys : List PyStr) (commands : Option (List PyStr))
    (expectedRobotId : Option PyStr) (now maxAge : ℤ) (raw : Value) :
    RaisesOnly (fun e => ∃ a, e = .actuationError a)
        (verifyRaising crypto
          (bridgeRequest pubkeys commands expectedRobotId now maxAge raw)) ∧
      ∀ dict, verifyRaising crypto
          (bridgeRequest pubkeys commands expectedRobotId now maxAge raw) = .ok dict ↔
        (0 ≤ maxAge ∧ maxAge ≤ 30000) ∧ ∃ items env, raw = .dict items ∧
          Genuine crypto pubkeys commands expectedRobotId now maxAge items env ∧
          dict = fieldsOf env := by
  constructor
  · rw [verifyRaising_eq]
    exact raisesOnly_mapError fun e => ⟨e, rfl⟩
  · intro dict
    exact verifyRaising_eq_ok

/-! ## The vector of the source -/

def commanderKey : Bytes :=
  [0x03, 0xa1, 0x07, 0xbf, 0xf3, 0xce, 0x10, 0xbe, 0x1d, 0x70, 0xdd, 0x18, 0xe7, 0x4b, 0xc0, 0x99,
    0x67, 0xe4, 0xd6, 0x30, 0x9b, 0xa5, 0x0d, 0x5f, 0x1d, 0xdc, 0x86, 0x64, 0x12, 0x55, 0x31, 0xb8]

def goldenSig : String :=
  "uUKhh2UsEeZAIJiIuAYLv4jUzFsOelIAejRdFnCEJ1s-prXU4GTQpEELhcQPvGz1UHwpONqrZId9MlICxFalCA"

/-- The one key, message and signature of the vector. -/
def goldenCrypto : Crypto where
  verifyRegistration := fun _ _ => .error .invalidRegistrationResponse
  ed25519Verify := fun key sig msg => key = commanderKey ∧
    b64urlRaw goldenSig sigRawLen "sig" = .ok sig ∧
    actuationSigningBytes commanderKey (codes "arm-1") (codes "wave") 7 1700000000000 = some msg
  sha256Hex := id

def goldenEnvelope : Envelope where
  v := 1
  alg := codes "EdDSA"
  robotId := codes "arm-1"
  command := codes "wave"
  seq := 7
  signedAtMs := 1700000000000
  senderPubkey := codes (encodeMultikey commanderKey)
  sig := codes goldenSig

def goldenRequest : Request where
  raw := .dict [(codes "v", .int 1), (codes "alg", .str (codes "EdDSA")),
    (codes "robot_id", .str (codes "arm-1")), (codes "command", .str (codes "wave")),
    (codes "seq", .int 7), (codes "signed_at_ms", .int 1700000000000),
    (codes "sender_pubkey", .str (codes (encodeMultikey commanderKey))),
    (codes "sig", .str (codes goldenSig))]
  allowedPubkeys := .set [.str (codes (encodeMultikey commanderKey))]
  nowMs := .int 1700000000500
  expectedRobotId := .str (codes "arm-1")
  allowedCommands := .set [.str (codes "wave")]

theorem golden_verifies : verifyActuation goldenCrypto goldenRequest = .ok goldenEnvelope := by
  have h : (match verifyActuation goldenCrypto goldenRequest with
      | .ok env => decide (env = goldenEnvelope)
      | .error _ => false) = true := by decide +kernel
  split at h
  · rename_i env heq
    rw [heq, of_decide_eq_true h]
  · cases h

/-- Without the cap the equivalence fails: a fresh envelope is refused under a wider window. -/
theorem a_wide_window_is_refused :
    ¬((∃ dict, verifyRaising goldenCrypto (bridgeRequest [codes (encodeMultikey commanderKey)]
          (some [codes "wave"]) (some (codes "arm-1")) 1700000000500 30001 goldenRequest.raw) =
            .ok dict) ↔
      ∃ items env, goldenRequest.raw = .dict items ∧
        Genuine goldenCrypto [codes (encodeMultikey commanderKey)] (some [codes "wave"])
          (some (codes "arm-1")) 1700000000500 30001 items env) := by
  intro hclaim
  have hgolden : verifyActuation goldenCrypto (bridgeRequest [codes (encodeMultikey commanderKey)]
      (some [codes "wave"]) (some (codes "arm-1")) 1700000000500 2000 goldenRequest.raw) =
        .ok goldenEnvelope := golden_verifies
  obtain ⟨_, items, hraw, hright⟩ := verifyActuation_eq_ok.mp hgolden
  have hwide : Genuine goldenCrypto [codes (encodeMultikey commanderKey)] (some [codes "wave"])
      (some (codes "arm-1")) 1700000000500 30001 items goldenEnvelope :=
    { hright with fresh := ⟨hright.fresh.1, hright.fresh.2.trans (by norm_num)⟩ }
  obtain ⟨dict, hdict⟩ := hclaim.mpr ⟨items, goldenEnvelope, hraw, hwide⟩
  have hcap := (verifyRaising_eq_ok.mp hdict).1.2
  exact absurd hcap (by decide)

end AikoIsland.ActuationVerdicts
