import AikoIsland.JsonText
import AikoIsland.Messages

/-!
# The codec of the bus payload

A payload is tried as a call of the framework, then as a JSON object, and is a
bare message otherwise. The framework's parser is a parameter: it may raise, or
give anything. The first tier swallows every exception; the second catches what
`json.loads` documents for a bad text.

`float` follows CPython on texts: decimal digits and spaces of any script, single
underscores between digits. `fromtimestamp` rounds to microseconds and covers the
years 1 to 9999.
-/
namespace AikoIsland.Payload
open Tables Gateway Messages FloatingPoint JsonText

/-! ## `float` on a text -/

/-- The zeros of the decimal digits of Unicode, each the first of ten. -/
def decimalZeros : List ℕ :=
  [48, 1632, 1776, 1984, 2406, 2534, 2662, 2790, 2918, 3046, 3174, 3302, 3430, 3558, 3664, 3792,
   3872, 4160, 4240, 6112, 6160, 6470, 6608, 6784, 6800, 6992, 7088, 7232, 7248, 42528, 43216,
   43264, 43472, 43504, 43600, 44016, 65296, 66720, 68912, 69734, 69872, 69942, 70096, 70384,
   70736, 70864, 71248, 71360, 71472, 71904, 72016, 72784, 73040, 73120, 73552, 92768, 92864,
   93008, 120782, 120792, 120802, 120812, 120822, 123200, 123632, 124144, 125264, 130032]

/-- The spaces outside ASCII. -/
def wideSpaces : List ℕ :=
  [0x85, 0xa0, 0x1680, 0x2000, 0x2001, 0x2002, 0x2003, 0x2004, 0x2005, 0x2006, 0x2007, 0x2008,
   0x2009, 0x200a, 0x2028, 0x2029, 0x202f, 0x205f, 0x3000]

/-- A character of a number in ASCII. -/
def asciiForm (c : ℕ) : Option ℕ :=
  if c < 127 then some c
  else if c ∈ wideSpaces then some 32
  else (decimalZeros.find? fun z => z ≤ c && c ≤ z + 9).map fun z => 48 + (c - z)

def isAsciiSpace (c : ℕ) : Bool := 9 ≤ c && c ≤ 13 || c = 32

def stripSpaces (s : Text) : Text :=
  ((s.dropWhile isAsciiSpace).reverse.dropWhile isAsciiSpace).reverse

/-- The text without its underscores, each of which has to stand between two digits. -/
def withoutUnderscores (prev : ℕ) : Text → Option Text
  | [] => if prev = 95 then none else some []
  | c :: s =>
      if c = 95 then
        if isDigit prev then withoutUnderscores 95 s else none
      else if prev = 95 && !isDigit c then none
      else (withoutUnderscores c s).map (c :: ·)

/-- `float(s)`, `none` for a `ValueError`. -/
def floatOfText (s : Text) : Option Binary64 := do
  let ascii ← s.mapM asciiForm
  let digits ← withoutUnderscores 0 (stripSpaces ascii)
  readFloat digits

/-! ## `datetime.fromtimestamp` -/

/-- The first second of year 1 and the last one of year 9999. -/
def minSecond : ℤ := -62135596800
def maxSecond : ℤ := 253402300799

def truncate (q : ℚ) : ℤ := if q < 0 then -(-q).floor else q.floor

/-- The microseconds of the fraction of a second, which is scaled as a float. -/
def microseconds (fraction : ℚ) : ℤ :=
  match nearest (fraction * 1000000) with
  | .finite q => halfEven q
  | _ => 0

/-- In microseconds; `none` when it raises. -/
def fromTimestamp : Binary64 → Option ℤ
  | .nan => none
  | .inf _ => none
  | .finite q =>
      let us := microseconds (q - truncate q)
      let second :=
        if 1000000 ≤ us then truncate q + 1 else if us < 0 then truncate q - 1 else truncate q
      if minSecond ≤ second && second ≤ maxSecond then some (truncate q * 1000000 + us) else none

/-- What `persist_inbound` computes from a timestamp. -/
def stampOf : Option Binary64 → Stamp
  | none => .absent
  | some x =>
      if x = .finite 0 then .zero
      else
        match fromTimestamp x with
        | some t => .instant t
        | none => .unrepresentable

/-! ## The tiers -/

/-- What `float` does with an object that is no JSON value. -/
inductive Conversion where
  | float (x : Binary64)
  | typeError
  | valueError
  | raised

inductive Obj where
  | value (v : Json)
  | other (conversion : Conversion)

/-- `fields.get`, for what is a dict. -/
abbrev Fields := Text → Option Obj

/-- An unpacking that fails is a raise. -/
inductive Parsed where
  | raised
  | call (isMessage : Bool) (fields : Option Fields)

inductive Raised where
  | overflowError
  | recursionError
  | raised
  deriving DecidableEq, Repr

structure Inbound where
  username : Option Text
  channel : Option Text
  timestamp : Option Binary64
  message : Text
  raw : Text
  deriving DecidableEq, Repr

/-- The `InboundMessage` that `persist_inbound` takes. -/
def Inbound.toMessage (i : Inbound) : InboundMessage :=
  ⟨i.username, i.channel, stampOf i.timestamp, i.message⟩

def coerceTimestamp : Option Obj → Except Raised (Option Binary64)
  | none => .ok none
  | some (.value .null) => .ok none
  | some (.value (.bool b)) => .ok (some (.finite (if b then 1 else 0)))
  | some (.value (.int n)) =>
      match ofInt n with
      | some q => .ok (some (.finite q))
      | none => .error .overflowError
  | some (.value (.float x)) => .ok (some x)
  | some (.value (.str s)) => .ok (floatOfText s)
  | some (.value (.arr _)) => .ok none
  | some (.value (.obj _)) => .ok none
  | some (.other (.float x)) => .ok (some x)
  | some (.other .typeError) => .ok none
  | some (.other .valueError) => .ok none
  | some (.other .raised) => .error .raised

/-- The object, if it is a text. -/
def asText : Option Obj → Option Text
  | some (.value (.str s)) => some s
  | _ => none

def messageKey : Text := codes "message"
def usernameKey : Text := codes "username"
def channelKey : Text := codes "channel"
def timestampKey : Text := codes "timestamp"

/-- `_structured`. -/
def structured (fields : Option Fields) (payloadIn : Text) (fallbackChannel : Option Text) :
    Except Raised (Option Inbound) :=
  match fields with
  | none => .ok none
  | some get =>
      match asText (get messageKey) with
      | none => .ok none
      | some message => do
          let timestamp ← coerceTimestamp (get timestampKey)
          return some {
            username := asText (get usernameKey)
            channel := (asText (get channelKey)).orElse fun _ => fallbackChannel
            timestamp := timestamp
            message := message
            raw := payloadIn }

/-- The first tier, `none` when the next one has its turn. -/
def framework (aikoParse : Text → Parsed) (payloadIn : Text) (fallbackChannel : Option Text) :
    Option Inbound :=
  match aikoParse payloadIn with
  | .raised => none
  | .call false _ => none
  | .call true fields =>
      match structured fields payloadIn fallbackChannel with
      | .ok inbound => inbound
      | .error _ => none

def fieldsOf : Json → Option Fields
  | .obj items => some fun k => (OrderedDict.get items k).map .value
  | _ => none

/-- The data of the second tier. -/
def legacyData (levels : ℕ) (payloadIn : Text) : Except Raised (Option Json) :=
  match loads levels payloadIn with
  | .ok data => .ok (some data)
  | .error .recursionError => .error .recursionError
  | .error _ => .ok none

def bare (payloadIn : Text) (fallbackChannel : Option Text) : Inbound :=
  ⟨none, fallbackChannel, none, payloadIn, payloadIn⟩

def parsePayload (aikoParse : Text → Parsed) (levels : ℕ) (payloadIn : Text)
    (fallbackChannel : Option Text) : Except Raised Inbound :=
  match framework aikoParse payloadIn fallbackChannel with
  | some inbound => .ok inbound
  | none => do
      let data ← legacyData levels payloadIn
      match ← structured (data.bind fieldsOf) payloadIn fallbackChannel with
      | some inbound => return inbound
      | none => return bare payloadIn fallbackChannel

/-! ## When a payload is taken in -/

/-- `created_at` can be computed from this float. -/
def Dated (x : Binary64) : Prop := x = .finite 0 ∨ ∃ t, fromTimestamp x = some t

/-- `float` neither raises an `OverflowError` nor anything unforeseen. -/
def Converts : Option Obj → Prop
  | some (.value (.int n)) => ∃ q, ofInt n = some q
  | some (.other .raised) => False
  | _ => True

/-- Where the field is a number or spells one, `created_at` can be computed from it. -/
def DatedField : Option Obj → Prop
  | some (.value (.int n)) => ∀ q, ofInt n = some q → Dated (.finite q)
  | some (.value (.float x)) => Dated x
  | some (.value (.str s)) => ∀ x, floatOfText s = some x → Dated x
  | some (.other (.float x)) => Dated x
  | _ => True

theorem coerceTimestamp_ok {field : Option Obj} (h : Converts field) :
    ∃ x, coerceTimestamp field = .ok x := by
  cases field with
  | none => exact ⟨_, rfl⟩
  | some o =>
      cases o with
      | value v =>
          cases v with
          | int n =>
              obtain ⟨q, hq⟩ := h
              exact ⟨some (.finite q), by simp [coerceTimestamp, hq]⟩
          | _ => exact ⟨_, rfl⟩
      | other conversion =>
          cases conversion with
          | raised => exact h.elim
          | _ => exact ⟨_, rfl⟩

theorem coerceTimestamp_error {field : Option Obj} (h : ¬Converts field) :
    ∃ e, coerceTimestamp field = .error e := by
  cases field with
  | none => exact absurd trivial h
  | some o =>
      cases o with
      | value v =>
          cases v with
          | int n =>
              cases hn : ofInt n with
              | some q => exact absurd ⟨q, hn⟩ h
              | none => exact ⟨.overflowError, by simp [coerceTimestamp, hn]⟩
          | _ => exact absurd trivial h
      | other conversion =>
          cases conversion with
          | raised => exact ⟨_, rfl⟩
          | _ => exact absurd trivial h

theorem dated_one : Dated (.finite 1) := by
  right
  exact ⟨1000000, by decide +kernel⟩

theorem stampOf_ne_unrepresentable {x : Binary64} :
    stampOf (some x) ≠ .unrepresentable ↔ Dated x := by
  simp only [stampOf, Dated]
  split_ifs with hzero
  · simp [hzero]
  · cases ht : fromTimestamp x with
    | some t => simp
    | none => simp [hzero]

theorem dated_coerced {field : Option Obj} {x : Option Binary64}
    (h : coerceTimestamp field = .ok x) : stampOf x ≠ .unrepresentable ↔ DatedField field := by
  have habsent : stampOf none ≠ .unrepresentable := by
    intro hs
    cases hs
  unfold coerceTimestamp at h
  split at h
  · obtain rfl := Except.ok.inj h
    simp [DatedField, habsent]
  · obtain rfl := Except.ok.inj h
    simp [DatedField, habsent]
  · rename_i b
    obtain rfl := Except.ok.inj h
    rw [stampOf_ne_unrepresentable]
    cases b with
    | true => simp [DatedField, dated_one]
    | false => simp [DatedField, Dated]
  · rename_i n
    cases hn : ofInt n with
    | none =>
        rw [hn] at h
        cases h
    | some q =>
        rw [hn] at h
        obtain rfl := Except.ok.inj h
        rw [stampOf_ne_unrepresentable]
        simp [DatedField, hn]
  · obtain rfl := Except.ok.inj h
    rw [stampOf_ne_unrepresentable]
    rfl
  · rename_i s
    obtain rfl := Except.ok.inj h
    cases hs : floatOfText s with
    | none => simp [DatedField, habsent, hs]
    | some x =>
        rw [stampOf_ne_unrepresentable]
        simp [DatedField, hs]
  · obtain rfl := Except.ok.inj h
    simp [DatedField, habsent]
  · obtain rfl := Except.ok.inj h
    simp [DatedField, habsent]
  · obtain rfl := Except.ok.inj h
    rw [stampOf_ne_unrepresentable]
    rfl
  · obtain rfl := Except.ok.inj h
    simp [DatedField, habsent]
  · obtain rfl := Except.ok.inj h
    simp [DatedField, habsent]
  · cases h

end AikoIsland.Payload
