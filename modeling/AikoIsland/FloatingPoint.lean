import Mathlib.Tactic
import Mathlib.Algebra.Order.Floor.Defs

/-!
# Binary64 values as rationals

A finite binary64 is the rational it stands for. `nearest` takes a rational to the
nearest one, ties to the even significand, and to an infinity from the midpoint
above the largest finite value on. The sign of a zero is not kept.

A decimal literal is read exactly and rounded once. An exponent so large that the
value lies beyond every binary64 is not computed with.
-/
namespace AikoIsland.FloatingPoint

inductive Binary64 where
  | nan
  | inf (negative : Bool)
  | finite (q : ℚ)
  deriving DecidableEq, Repr

/-- The nearest integer, ties to even. -/
def halfEven (q : ℚ) : ℤ :=
  let low := q.floor
  let rest := q - low
  if rest < 1 / 2 then low
  else if 1 / 2 < rest then low + 1
  else if low % 2 = 0 then low else low + 1

/-- The exponent of the binade of a positive rational. -/
def binade (q : ℚ) : ℤ :=
  let e : ℤ := (Nat.log2 q.num.natAbs : ℤ) - Nat.log2 q.den
  if (2 : ℚ) ^ e ≤ q then e else e - 1

/-- The distance of neighbours in the binade; subnormals share the last one. -/
def quantum (q : ℚ) : ℚ := 2 ^ max (binade q - 52) (-1074)

def nearest (q : ℚ) : Binary64 :=
  if q = 0 then .finite 0
  else
    let v := halfEven (|q| / quantum |q|) * quantum |q|
    if (2 : ℚ) ^ (1024 : ℕ) ≤ v then .inf (q < 0)
    else .finite (if q < 0 then -v else v)

/-- The value of `digits * 10 ^ exponent`. -/
def ofDecimal (negative : Bool) (digits : ℕ) (exponent : ℤ) : Binary64 :=
  let size : ℤ := (Nat.log 10 digits : ℤ) + exponent
  if digits = 0 then .finite 0
  else if 400 < size then .inf negative
  else if size < -400 then .finite 0
  else nearest ((if negative then -1 else 1) * digits * (10 : ℚ) ^ exponent)

/-- An integer as a binary64, unless it is too large. -/
def ofInt (n : ℤ) : Option ℚ :=
  match nearest n with
  | .finite q => some q
  | _ => none

/-! ## Literals -/

/-- A text as its code points. -/
abbrev Text := List ℕ

def isDigit (c : ℕ) : Bool := 48 ≤ c && c ≤ 57

/-- The number that a row of decimal digits spells. -/
def numeral (ds : Text) : ℕ := ds.foldl (fun n d => 10 * n + (d - 48)) 0

/-- A sign and what follows it. -/
def signed : Text → Bool × Text
  | 45 :: s => (true, s)
  | 43 :: s => (false, s)
  | s => (false, s)

/-- The exponent that a text spells from its first to its last character. -/
def readExponent (s : Text) : Option ℤ :=
  let (negative, ds) := signed s
  if ds = [] || !ds.all isDigit then none
  else some (if negative then -numeral ds else numeral ds)

/-- `strtod` on a text without sign, all of which it has to read. -/
def readDecimal (negative : Bool) (s : Text) : Option Binary64 :=
  let whole := s.takeWhile isDigit
  let rest := s.dropWhile isDigit
  let (frac, rest) := match rest with
    | 46 :: t => (t.takeWhile isDigit, t.dropWhile isDigit)
    | t => ([], t)
  if whole ++ frac = [] then none
  else
    match rest with
    | [] => some (ofDecimal negative (numeral (whole ++ frac)) (-frac.length))
    | c :: t =>
        if c = 101 || c = 69 then
          (readExponent t).map fun e =>
            ofDecimal negative (numeral (whole ++ frac)) (e - frac.length)
        else none

/-- ASCII letters in lower case. -/
def lowered (s : Text) : Text := s.map fun c => if 65 ≤ c && c ≤ 90 then c + 32 else c

/-- A decimal literal, `inf`, `infinity` or `nan`, with an optional sign. -/
def readFloat (s : Text) : Option Binary64 :=
  let (negative, body) := signed s
  let word := lowered body
  if word = [105, 110, 102] || word = [105, 110, 102, 105, 110, 105, 116, 121] then
    some (.inf negative)
  else if word = [110, 97, 110] then some .nan
  else readDecimal negative body

example : nearest (1 / 10) = .finite (3602879701896397 / 36028797018963968) := by decide +kernel

end AikoIsland.FloatingPoint
