import AikoIsland.OrderedDict
import AikoIsland.SignedBytes

/-!
# Signed actuation envelopes

`verify_actuation` checks an envelope that came as JSON with arguments that came
from the bridge's code; `SeqHighWater` keeps the largest admitted `seq` of each
robot in memory and in one file; `verify_and_advance` runs the one and then the
other. A dynamic value is a `Value`, and an error is the template of its text
with the values that fill it.

The file holds the JSON value that was dumped last, or a text that is no JSON.
A persist may fail at any point before the rename, and then leaves the file as
it was; what follows the rename is swallowed and not modelled. The store's lock
makes an advance one step, so a run is a sequence of calls. Ed25519 is a
parameter.
-/
namespace AikoIsland.Actuation
open Tables Messages Signing Passkeys SignedBytes

/-! ## Values and errors -/

/-- A dict keeps its keys distinct; only the type of a float matters. -/
inductive Value where
  | none
  | bool (b : Bool)
  | int (n : ℤ)
  | float (repr : String)
  | str (s : PyStr)
  | list (xs : List Value)
  | dict (items : List (PyStr × Value))
  | set (xs : List Value)

/-- `template` with its holes filled by the representations of `values`. -/
structure ActuationError where
  template : String
  values : List Value := []

abbrev Checked (α : Type) := Except ActuationError α

/-- `s in xs` for a text. -/
def hasText (xs : List Value) (s : PyStr) : Bool :=
  xs.any fun x => match x with
    | .str t => t = s
    | _ => false

/-- Raise unless the condition holds. -/
def require (ok : Bool) (e : ActuationError) : Checked Unit :=
  if ok then .ok () else .error e

/-- A text within a range of lengths. -/
def boundedText (v : Value) (lo hi : ℕ) (e : ActuationError) : Checked PyStr :=
  match v with
  | .str s => if lo ≤ s.length && s.length ≤ hi then .ok s else .error e
  | _ => .error e

/-- An int within a range; a bool is none. -/
def boundedInt (v : Value) (lo hi : ℤ) (e : ActuationError) : Checked ℤ :=
  match v with
  | .int n => if lo ≤ n && n ≤ hi then .ok n else .error e
  | _ => .error e

def anInt (v : Value) (e : ActuationError) : Checked ℤ :=
  match v with
  | .int n => .ok n
  | _ => .error e

def aSet (v : Value) (e : ActuationError) : Checked (List Value) :=
  match v with
  | .set xs => .ok xs
  | _ => .error e

section
variable {v : Value} {e : ActuationError}

theorem require_eq_ok {ok : Bool} {u : Unit} : require ok e = .ok u ↔ ok = true := by
  unfold require
  split_ifs with h <;> simp [h]

theorem boundedText_eq_ok {lo hi : ℕ} {s : PyStr} :
    boundedText v lo hi e = .ok s ↔ v = .str s ∧ lo ≤ s.length ∧ s.length ≤ hi := by
  unfold boundedText
  split
  · rename_i t
    split_ifs with h
    · simp only [Bool.and_eq_true, decide_eq_true_eq] at h
      constructor
      · intro hs
        obtain rfl := Except.ok.inj hs
        exact ⟨rfl, h⟩
      · rintro ⟨ht, _⟩
        rw [Value.str.inj ht]
    · simp only [Bool.and_eq_true, decide_eq_true_eq] at h
      constructor
      · intro hs
        cases hs
      · rintro ⟨ht, hbound⟩
        rw [Value.str.inj ht] at h
        exact absurd hbound h
  · rename_i hne
    constructor
    · intro hs
      cases hs
    · rintro ⟨ht, _⟩
      exact absurd ht (hne s)

theorem boundedInt_eq_ok {lo hi n : ℤ} :
    boundedInt v lo hi e = .ok n ↔ v = .int n ∧ lo ≤ n ∧ n ≤ hi := by
  unfold boundedInt
  split
  · rename_i m
    split_ifs with h
    · simp only [Bool.and_eq_true, decide_eq_true_eq] at h
      constructor
      · intro hn
        obtain rfl := Except.ok.inj hn
        exact ⟨rfl, h⟩
      · rintro ⟨hm, _⟩
        rw [Value.int.inj hm]
    · simp only [Bool.and_eq_true, decide_eq_true_eq] at h
      constructor
      · intro hn
        cases hn
      · rintro ⟨hm, hbound⟩
        rw [Value.int.inj hm] at h
        exact absurd hbound h
  · rename_i hne
    constructor
    · intro hn
      cases hn
    · rintro ⟨hm, _⟩
      exact absurd hm (hne n)

theorem anInt_eq_ok {n : ℤ} : anInt v e = .ok n ↔ v = .int n := by
  cases v <;> simp [anInt]

theorem aSet_eq_ok {xs : List Value} : aSet v e = .ok xs ↔ v = .set xs := by
  cases v <;> simp [aSet]

end

/-! ## Keys -/

/-- The base58 digits of `n`, the least one first. -/
def b58Digits : ℕ → ℕ → List Char
  | 0, _ => []
  | fuel + 1, n => if n = 0 then [] else b58Alphabet.getD (n % 58) '1' :: b58Digits fuel (n / 58)

/-- `_b58encode`; two digits are enough for a byte. -/
def b58encode (b : Bytes) : List Char :=
  let num := b.foldl (fun n x => n * 256 + x.toNat) 0
  List.replicate (b.takeWhile (· = 0)).length '1' ++ (b58Digits (2 * b.length) num).reverse

/-- `encode_multikey` of a key that has the right length. -/
def encodeMultikey (raw : Bytes) : String :=
  String.ofList ('z' :: b58encode (multicodecEd25519 ++ raw))

/-- The text for the decoders: a surrogate becomes NUL, which neither alphabet has. -/
def plainText (s : PyStr) : String := String.ofList (s.map Char.ofNat)

/-- `OriginError` is passed on as an `ActuationError`. -/
def normalized {α : Type} (prefixed : String) : Except String α → Checked α
  | .ok a => .ok a
  | .error detail => .error { template := prefixed ++ detail }

theorem normalized_eq_ok {α : Type} {p : String} {x : Except String α} {a : α} :
    normalized p x = .ok a ↔ x = .ok a := by
  cases x <;> simp [normalized]

/-! ## `verify_actuation` -/

def alg : String := "EdDSA"

def supportedV : ℤ := 1

def maxRobotId : ℕ := 128

def maxCommand : ℕ := 64

def maxSigStr : ℕ := 128

def maxPubkeyStr : ℕ := 128

def maxSignedAtMs : ℤ := 2 ^ 62

def maxSeq : ℤ := 2 ^ 53 - 1

def defaultMaxAgeMs : ℤ := 2000

def maxAllowedAgeMs : ℤ := 30000

def maxFwdSkewMs : ℤ := 1000

def requiredKeys : List String :=
  ["v", "alg", "robot_id", "command", "seq", "signed_at_ms", "sender_pubkey", "sig"]

/-- The parsed envelope that is returned. -/
structure Envelope where
  v : ℤ
  alg : PyStr
  robotId : PyStr
  command : PyStr
  seq : ℤ
  signedAtMs : ℤ
  senderPubkey : PyStr
  sig : PyStr
  deriving DecidableEq, Repr

/-- The arguments of the two verifiers, apart from the store. -/
structure Request where
  raw : Value
  allowedPubkeys : Value
  nowMs : Value
  maxAgeMs : Value := .int defaultMaxAgeMs
  expectedRobotId : Value := .none
  allowedCommands : Value := .none

/-- `raw[key]`; `none` stands in for a key that was checked to be there. -/
def field (items : List (PyStr × Value)) (key : String) : Value :=
  (OrderedDict.get items (codes key)).getD .none

/-- The dict, if its keys are the required ones. -/
def envelopeItems : Value → Checked (List (PyStr × Value))
  | .dict items =>
      let keys := items.map Prod.fst
      let required := requiredKeys.map codes
      let missing := required.filter fun k => k ∉ keys
      let extra := (keys.filter fun k => k ∉ required).dedup
      if missing = [] ∧ extra = [] then .ok items
      else .error { template := "key set invalid (missing=%r, unexpected=%r)",
                    values := [.list ((missing.insertionSort (· ≤ ·)).map .str),
                      .list ((extra.insertionSort (· ≤ ·)).map .str)] }
  | _ => .error { template := "actuation envelope must be a JSON object" }

/-- Not `None` and different. -/
def mismatched (expected : Value) (robotId : PyStr) : Bool :=
  match expected with
  | .none => false
  | .str s => s ≠ robotId
  | _ => true

/-- `isinstance` and `==` of an int; a bool is none. -/
def isIntEq (v : Value) (n : ℤ) : Bool :=
  match v with
  | .int m => m = n
  | _ => false

def isStrEq (v : Value) (s : PyStr) : Bool :=
  match v with
  | .str t => t = s
  | _ => false

theorem isIntEq_iff {v : Value} {n : ℤ} : isIntEq v n = true ↔ v = .int n := by
  cases v <;> simp [isIntEq]

theorem isStrEq_iff {v : Value} {s : PyStr} : isStrEq v s = true ↔ v = .str s := by
  cases v <;> simp [isStrEq]

/-- `None`, or a set that must hold the command. -/
def commandAllowed (allowedCommands : Value) (command : PyStr) : Bool :=
  match allowedCommands with
  | .set xs => hasText xs command
  | _ => true

def isSetOrNone : Value → Bool
  | .none => true
  | .set _ => true
  | _ => false

def maxAgeError (v : Value) : ActuationError where
  template := "max_age_ms %r outside [0, 30000] — the servo freshness floor is not caller-optional"
  values := [v]

/-- The guards on what the caller passes. -/
def checkArguments (req : Request) : Checked (ℤ × List Value × ℤ) := do
  let now ← anInt req.nowMs { template := "now_ms must be an int (ms since epoch)" }
  let pubkeys ← aSet req.allowedPubkeys
    { template := "allowed_pubkeys must be a set of commander Multikey strings" }
  require (isSetOrNone req.allowedCommands)
    { template := "allowed_commands must be a set of command strings (or None)" }
  let maxAge ← boundedInt req.maxAgeMs 0 maxAllowedAgeMs (maxAgeError req.maxAgeMs)
  return (now, pubkeys, maxAge)

/-- The fields, in the order of the source, up to the timestamp. -/
def checkContent (req : Request) (items : List (PyStr × Value)) :
    Checked (PyStr × PyStr × ℤ × ℤ) := do
  require (isIntEq (field items "v") supportedV)
    { template := "v %r unsupported (expected int 1)", values := [field items "v"] }
  require (isStrEq (field items "alg") (codes alg))
    { template := "alg %r not allowed (only 'EdDSA')", values := [field items "alg"] }
  let robotId ← boundedText (field items "robot_id") 1 maxRobotId
    { template := "robot_id must be a non-empty string within the size cap" }
  require (!mismatched req.expectedRobotId robotId)
    { template := "robot_id %r does not match this bridge's %r",
      values := [.str robotId, req.expectedRobotId] }
  let command ← boundedText (field items "command") 1 maxCommand
    { template := "command must be a non-empty string within the size cap" }
  require (commandAllowed req.allowedCommands command)
    { template := "command %r is not in the allowed set — rejected at the boundary",
      values := [.str command] }
  let seq ← boundedInt (field items "seq") 0 maxSeq
    { template := "seq must be a non-negative integer <= 2**53-1 (9007199254740991) for JSON interop" }
  let ts ← boundedInt (field items "signed_at_ms") 0 maxSignedAtMs
    { template := "signed_at_ms must be a sane non-negative integer" }
  return (robotId, command, seq, ts)

/-- The key, decoded and looked up in its canonical spelling. -/
def checkSender (pubkeys : List Value) (items : List (PyStr × Value)) : Checked (PyStr × Bytes) := do
  let pubkeyStr ← boundedText (field items "sender_pubkey") 0 maxPubkeyStr
    { template := "sender_pubkey must be a string within the size cap" }
  let rawPubkey ← normalized "sender_pubkey malformed: " (decodeMultikey (plainText pubkeyStr))
  require (hasText pubkeys (codes (encodeMultikey rawPubkey)))
    { template := "sender_pubkey is not an allowlisted commander key" }
  return (pubkeyStr, rawPubkey)

def checkSignature (crypto : Crypto) (items : List (PyStr × Value)) (rawPubkey : Bytes)
    (robotId command : PyStr) (seq ts : ℤ) : Checked PyStr := do
  let sigStr ← boundedText (field items "sig") 0 maxSigStr
    { template := "sig must be a string within the size cap" }
  let sig ← normalized "sig malformed: " (b64urlRaw (plainText sigStr) sigRawLen "sig")
  match actuationSigningBytes rawPubkey robotId command seq ts with
  | none => .error { template := "envelope fields are not canonically encodable: %s" }
  | some message => do
      require (crypto.ed25519Verify rawPubkey sig message)
        { template := "signature does not verify" }
      return sigStr

def checkFresh (now maxAge ts : ℤ) : Checked Unit := do
  require (now - ts ≤ maxAge)
    { template := "stale: signed %sms ago > max_age %sms — check clocks",
      values := [.int (now - ts), .int maxAge] }
  require (-maxFwdSkewMs ≤ now - ts)
    { template := "from the future by %sms (> 1000ms skew) — check clocks",
      values := [.int (-(now - ts))] }

def verifyActuation (crypto : Crypto) (req : Request) : Checked Envelope := do
  let (now, pubkeys, maxAge) ← checkArguments req
  let items ← envelopeItems req.raw
  let (robotId, command, seq, ts) ← checkContent req items
  let (pubkeyStr, rawPubkey) ← checkSender pubkeys items
  let sigStr ← checkSignature crypto items rawPubkey robotId command seq ts
  checkFresh now maxAge ts
  return ⟨supportedV, codes alg, robotId, command, seq, ts, pubkeyStr, sigStr⟩

/-! ## `SeqHighWater` -/

/-- What is at the path of the store. -/
inductive File where
  | missing
  | corrupt
  | json (data : Value)

abbrev Marks := List (PyStr × ℤ)

/-- `type(data).__name__`. -/
def typeName : Value → String
  | .none => "NoneType"
  | .bool _ => "bool"
  | .int _ => "int"
  | .float _ => "float"
  | .str _ => "str"
  | .list _ => "list"
  | .dict _ => "dict"
  | .set _ => "set"

/-- The items of the loaded dict, one after the other. -/
def loadMarks (path : PyStr) : List (PyStr × Value) → Marks → Checked Marks
  | [], marks => .ok marks
  | (k, v) :: items, marks => do
      let robotId ← boundedText (.str k) 1 maxRobotId
        { template :=
            "seq high-water store at %s has an invalid robot_id key %r — refusing to start",
          values := [.str path, .str k] }
      let seq ← boundedInt v 0 maxSeq
        { template :=
            "seq high-water store at %s has a non-seq-range mark for %r (%r) — refusing to start",
          values := [.str path, .str k, v] }
      loadMarks path items (OrderedDict.set marks robotId seq)

/-- `SeqHighWater.__init__`: the marks of a store that starts. -/
def initMarks (path : Value) (file : File) : Checked Marks :=
  match path with
  | .str [] => .error { template := "SeqHighWater path must be a non-empty string" }
  | .str path =>
      match file with
      | .missing => .ok []
      | .corrupt => .error
          { template := "seq high-water store at %s is corrupt — refusing to start",
            values := [.str path] }
      | .json (.dict items) => loadMarks path items []
      | .json data => .error
          { template :=
              "seq high-water store at %s is not a JSON object (got %s) — refusing to start",
            values := [.str path, .str (codes (typeName data))] }
  | _ => .error { template := "SeqHighWater path must be a non-empty string" }

structure SeqHighWater where
  path : PyStr
  disk : File
  marks : Marks

/-- `json.dump` of the marks. -/
def dump (marks : Marks) : Value := .dict (marks.map fun m => (m.1, .int m.2))

/-- `_persist`: an `OSError` comes before the commit point only. -/
def persist (fails : Bool) (store : SeqHighWater) : Option SeqHighWater :=
  if fails then none else some { store with disk := .json (dump store.marks) }

/-- The mark of a robot, below every `seq` when there is none. -/
def mark (store : SeqHighWater) (robotId : PyStr) : ℤ := (OrderedDict.get store.marks robotId).getD (-1)

/-- The dict as it was before the failed persist. -/
def rollback (marks : Marks) (robotId : PyStr) : Option ℤ → Marks
  | none => OrderedDict.pop marks robotId
  | some prev => OrderedDict.set marks robotId prev

def checkAndAdvance (fails : Bool) (robotId : PyStr) (seq : ℤ) (store : SeqHighWater) :
    Checked Bool × SeqHighWater :=
  if robotId = [] then (.error { template := "robot_id must be a non-empty string" }, store)
  else if seq < 0 ∨ maxSeq < seq then
    (.error { template := "seq must be a non-negative integer <= 2**53-1 (9007199254740991)" }, store)
  else if seq ≤ mark store robotId then (.ok false, store)
  else
    let advanced := { store with marks := OrderedDict.set store.marks robotId seq }
    match persist fails advanced with
    | some store' => (.ok true, store')
    | none =>
        (.error { template :=
            "seq high-water persist failed: %s — not advanced, refusing to actuate" },
          { advanced with
            marks := rollback advanced.marks robotId (OrderedDict.get store.marks robotId) })

/-! ## `verify_and_advance` -/

def nonEmptyText : Value → Bool
  | .str s => s ≠ []
  | _ => false

def nonEmptySet : Value → Bool
  | .set xs => !xs.isEmpty
  | _ => false

/-- The guards on the values that the plain verifier would let pass. -/
def sealedDoor (req : Request) (isStore : Bool) : Checked Unit := do
  require (nonEmptyText req.expectedRobotId)
    { template := "expected_robot_id must be a non-empty string on the sealed door" }
  require (nonEmptySet req.allowedCommands)
    { template := "allowed_commands must be a non-empty set on the sealed door" }
  require (nonEmptySet req.allowedPubkeys)
    { template := "allowed_pubkeys must be a non-empty set on the sealed door" }
  require isStore { template := "seq_store must be a SeqHighWater instance" }

/-- `isStore` tells whether the `seq_store` that was passed is the store. -/
def verifyAndAdvance (crypto : Crypto) (req : Request) (isStore fails : Bool)
    (store : SeqHighWater) : Checked Envelope × SeqHighWater :=
  match sealedDoor req isStore >>= fun _ => verifyActuation crypto req with
  | .error e => (.error e, store)
  | .ok parsed =>
      match checkAndAdvance fails parsed.robotId parsed.seq store with
      | (.error e, store') => (.error e, store')
      | (.ok false, store') =>
          (.error { template := "seq %s for %r is a replay or stale (<= high-water) — dropped",
                    values := [.int parsed.seq, .str parsed.robotId] }, store')
      | (.ok true, store') => (.ok parsed, store')

end AikoIsland.Actuation
