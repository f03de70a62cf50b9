import AikoIsland.Payload
import AikoIsland.Rounding

/-!
# `int` on JSON values, and the body of an answer

`int` takes what `json.loads` gives: it truncates a finite float, reads a text of
decimal digits of any script up to the digit limit, and has an exception of its
own for each other kind of value.

The body of an HTTP answer is its text, where the bytes decode to one; otherwise
reading it is a `ValueError`, as for a text that is no JSON.
-/
namespace AikoIsland.Conversions
open Tables FloatingPoint JsonText Payload

/-! ## `int` -/

inductive IntError where
  | typeError
  | valueError
  | overflowError
  deriving DecidableEq, Repr

/-- `int(s)`, `none` for a `ValueError`. -/
def intOfText (s : Text) : Option ℤ := do
  let ascii ← s.mapM asciiForm
  let digits ← withoutUnderscores 0 (stripSpaces ascii)
  let (negative, ds) := signed digits
  if ds = [] || !ds.all isDigit || maxStrDigits < ds.length then none
  else some (if negative then -numeral ds else numeral ds)

def toInt : Json → Except IntError ℤ
  | .null => .error .typeError
  | .bool b => .ok (if b then 1 else 0)
  | .int n => .ok n
  | .float .nan => .error .valueError
  | .float (.inf _) => .error .overflowError
  | .float (.finite q) => .ok (truncate q)
  | .str s =>
      match intOfText s with
      | some n => .ok n
      | none => .error .valueError
  | .arr _ => .error .typeError
  | .obj _ => .error .typeError

theorem toInt_eq_overflowError {v : Json} :
    toInt v = .error .overflowError ↔ ∃ negative, v = .float (.inf negative) := by
  cases v with
  | float x => cases x <;> simp [toInt]
  | str s => cases h : intOfText s <;> simp [toInt, h]
  | null | bool | int | arr | obj => simp [toInt]

/-! ## `response.json()` -/

def responseJson (levels : ℕ) (content : Option Text) : Loads Json :=
  match content with
  | none => .error .valueError
  | some s => loads levels s

theorem responseJson_ne_outOfFuel (levels : ℕ) (content : Option Text) :
    responseJson levels content ≠ .error .outOfFuel := by
  cases content with
  | none => simp [responseJson]
  | some s => exact loads_ne_outOfFuel levels s

end AikoIsland.Conversions
