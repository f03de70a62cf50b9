import AikoIsland.Checks
import AikoIsland.SignedBytes

/-!
# What the signing bytes raise

The signing bytes again, with the two exceptions that building them can end in: a
text with a lone surrogate has no encoding, and `struct.pack` refuses a number
that does not fit. Forgetting which of the two it was gives the bytes without
exceptions.
-/
namespace AikoIsland.SigningErrors
open Tables Messages Signing SignedBytes SelfDelimiting Checks

inductive ByteError where
  | unicodeEncodeError
  | structError
  deriving DecidableEq, Repr

def packed (b : Option Bytes) : Except ByteError Bytes :=
  match b with
  | some x => .ok x
  | none => .error .structError

/-- `s.encode()`. -/
def encoded (s : PyStr) : Except ByteError Bytes :=
  match encode s with
  | some t => .ok (utf8 t)
  | none => .error .unicodeEncodeError

/-- `lp(s.encode())`. -/
def lpEncoded (s : PyStr) : Except ByteError Bytes := do
  let b ← encoded s
  packed (lpBytes b)

/-- The parts of a tuple, each of them built before the next. -/
def joined : List (Except ByteError Bytes) → Except ByteError Bytes
  | [] => .ok []
  | p :: ps => do
      let x ← p
      let s ← joined ps
      return x ++ s

/-- `actuation.actuation_signing_bytes`. -/
def actuationBytes (rawPubkey : Bytes) (robotId command : PyStr) (seq signedAtMs : ℤ) :
    Except ByteError Bytes :=
  joined [packed (lpTag actuateDomainTag), packed (lpBytes rawPubkey), lpEncoded robotId,
    lpEncoded command, packed (pack64 seq), packed (pack64 signedAtMs)]

/-- `island_identity.signing_bytes`. -/
def islandBytes (id displayName baseUrl mode : PyStr) (keyVersion signedAtMs : ℤ) :
    Except ByteError Bytes :=
  joined [packed (lpTag islandDomainTag), lpEncoded id, lpEncoded displayName, lpEncoded baseUrl,
    lpEncoded mode, packed (pack32 keyVersion), packed (pack64 signedAtMs)]

theorem toOption_packed (b : Option Bytes) : (packed b).toOption = b := by
  cases b <;> rfl

theorem toOption_encoded (s : PyStr) : (encoded s).toOption = (encode s).map utf8 := by
  unfold encoded
  cases encode s <;> rfl

theorem lpText_eq (s : PyStr) : lpText s = ((encode s).map utf8).bind fun b => lpBytes b := by
  unfold lpText
  cases encode s with
  | none => rfl
  | some t => rw [Option.map_some, Option.bind_some, Option.bind_some]

theorem toOption_lpEncoded (s : PyStr) : (lpEncoded s).toOption = lpText s := by
  unfold lpEncoded
  rw [toOption_bind, lpText_eq, toOption_encoded]
  simp only [toOption_packed]

theorem toOption_joined (ps : List (Except ByteError Bytes)) :
    (joined ps).toOption = join (ps.map Except.toOption) := by
  induction ps with
  | nil => rfl
  | cons p ps ih =>
      rw [List.map_cons, join, ← ih, joined, toOption_bind]
      apply congrArg
      funext x
      rw [toOption_bind]
      cases joined ps <;> rfl

theorem toOption_actuationBytes (rawPubkey : Bytes) (robotId command : PyStr)
    (seq signedAtMs : ℤ) :
    (actuationBytes rawPubkey robotId command seq signedAtMs).toOption =
      actuationSigningBytes rawPubkey robotId command seq signedAtMs := by
  simp only [actuationBytes, toOption_joined, List.map_cons, List.map_nil, toOption_packed,
    toOption_lpEncoded]
  rfl

theorem toOption_islandBytes (id displayName baseUrl mode : PyStr) (keyVersion signedAtMs : ℤ) :
    (islandBytes id displayName baseUrl mode keyVersion signedAtMs).toOption =
      islandSigningBytes id displayName baseUrl mode keyVersion signedAtMs := by
  simp only [islandBytes, toOption_joined, List.map_cons, List.map_nil, toOption_packed,
    toOption_lpEncoded]
  rfl

/-- The actuation bytes are built exactly where they exist. -/
theorem actuationBytes_eq_ok {rawPubkey : Bytes} {robotId command : PyStr} {seq signedAtMs : ℤ}
    {message : Bytes} :
    actuationBytes rawPubkey robotId command seq signedAtMs = .ok message ↔
      actuationSigningBytes rawPubkey robotId command seq signedAtMs = some message := by
  rw [eq_ok_iff_toOption, toOption_actuationBytes]

theorem islandBytes_eq_ok {id displayName baseUrl mode : PyStr} {keyVersion signedAtMs : ℤ}
    {message : Bytes} :
    islandBytes id displayName baseUrl mode keyVersion signedAtMs = .ok message ↔
      islandSigningBytes id displayName baseUrl mode keyVersion signedAtMs = some message := by
  rw [eq_ok_iff_toOption, toOption_islandBytes]

end AikoIsland.SigningErrors
