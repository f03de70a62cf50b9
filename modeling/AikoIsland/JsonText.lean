import AikoIsland.FloatingPoint
import AikoIsland.OrderedDict

/-!
# JSON values and their reader

`loads` reads a text as Python's `json.loads` does: the reader accepts `NaN` and
the infinities, keeps the last of two equal keys, takes an integer literal of any
size up to the digit limit of `int`, and merges the two escapes of a surrogate
pair. An error of the text is a `valueError`.

Every array and object inside another one takes a level of the C stack; where no
level is left the reader raises `RecursionError`. How many there are is an
argument. The reader recurses on a fuel that its caller makes large enough.
-/
namespace AikoIsland.JsonText
open FloatingPoint OrderedDict

inductive Json where
  | null
  | bool (b : Bool)
  | int (n : ℤ)
  | float (x : Binary64)
  | str (s : Text)
  | arr (xs : List Json)
  | obj (items : List (Text × Json))

inductive LoadError where
  | valueError
  | recursionError
  | outOfFuel
  deriving DecidableEq, Repr

abbrev Loads (α : Type) := Except LoadError α

def isSpace (c : ℕ) : Bool := c = 32 || c = 9 || c = 10 || c = 13

def skipSpace (s : Text) : Text := s.dropWhile isSpace

/-! ## Strings -/

def hexDigit (c : ℕ) : Option ℕ :=
  if isDigit c then some (c - 48)
  else if 97 ≤ c && c ≤ 102 then some (c - 87)
  else if 65 ≤ c && c ≤ 70 then some (c - 55)
  else none

def hex4 (a b c d : ℕ) : Option ℕ := do
  return 4096 * (← hexDigit a) + 256 * (← hexDigit b) + 16 * (← hexDigit c) + (← hexDigit d)

def isHighSurrogate (c : ℕ) : Bool := 0xD800 ≤ c && c ≤ 0xDBFF

def isLowSurrogate (c : ℕ) : Bool := 0xDC00 ≤ c && c ≤ 0xDFFF

def joinSurrogates (high low : ℕ) : ℕ := 0x10000 + 1024 * (high - 0xD800) + (low - 0xDC00)

/-- The character of a one-letter escape. -/
def escaped (c : ℕ) : Option ℕ :=
  if c = 34 || c = 92 || c = 47 then some c
  else if c = 98 then some 8
  else if c = 102 then some 12
  else if c = 110 then some 10
  else if c = 114 then some 13
  else if c = 116 then some 9
  else none

/-- What one character or escape stands for, and what follows it; `none` at the closing quote. -/
def scanUnit : Text → Loads (Option ℕ × Text)
  | [] => .error .valueError
  | 34 :: s => .ok (none, s)
  | 92 :: 117 :: a :: b :: c :: d :: s =>
      match hex4 a b c d with
      | none => .error .valueError
      | some high =>
          match s with
          | 92 :: 117 :: e :: f :: g :: h :: t =>
              if isHighSurrogate high then
                match hex4 e f g h with
                | none => .error .valueError
                | some low =>
                    if isLowSurrogate low then .ok (some (joinSurrogates high low), t)
                    else .ok (some high, s)
              else .ok (some high, s)
          | _ => .ok (some high, s)
  | 92 :: c :: s =>
      match escaped c with
      | none => .error .valueError
      | some x => .ok (some x, s)
  | c :: s => if c ≤ 31 || c = 92 then .error .valueError else .ok (some c, s)

/-- The string behind an opening quote. -/
def scanString : ℕ → Text → Loads (Text × Text)
  | 0, _ => .error .outOfFuel
  | fuel + 1, s => do
      match ← scanUnit s with
      | (none, t) => return ([], t)
      | (some c, t) =>
          let (cs, u) ← scanString fuel t
          return (c :: cs, u)

/-! ## Numbers and constants -/

/-- `sys.int_info.default_max_str_digits`. -/
def maxStrDigits : ℕ := 4300

/-- A fraction, with what follows it. -/
def scanFraction : Text → Text × Text
  | 46 :: s =>
      if s.takeWhile isDigit = [] then ([], 46 :: s)
      else (s.takeWhile isDigit, s.dropWhile isDigit)
  | s => ([], s)

/-- An exponent, if there is one, with what follows it. -/
def scanExponent : Text → Option ℤ × Text
  | [] => (none, [])
  | c :: s =>
      let (negative, t) := signed s
      let ds := t.takeWhile isDigit
      if (c = 101 || c = 69) && ds ≠ [] then
        (some (if negative then -numeral ds else numeral ds), t.dropWhile isDigit)
      else (none, c :: s)

/-- A number whose integral digits have been read. -/
def scanRest (negative : Bool) (whole s : Text) : Loads (Json × Text) :=
  let (frac, t) := scanFraction s
  let (exponent, u) := scanExponent t
  if frac = [] && exponent = none then
    if maxStrDigits < whole.length then .error .valueError
    else .ok (.int (if negative then -numeral whole else numeral whole), u)
  else
    .ok (.float (ofDecimal negative (numeral (whole ++ frac)) (exponent.getD 0 - frac.length)), u)

/-- A number behind its sign; a leading zero stands alone. -/
def scanUnsigned (negative : Bool) : Text → Loads (Json × Text)
  | [] => .error .valueError
  | c :: s =>
      if !isDigit c then .error .valueError
      else if c = 48 then scanRest negative [48] s
      else scanRest negative (c :: s.takeWhile isDigit) (s.dropWhile isDigit)

def scanNumber : Text → Loads (Json × Text)
  | 45 :: s => scanUnsigned true s
  | s => scanUnsigned false s

def constants : List (Text × Json) :=
  [([110, 117, 108, 108], .null), ([116, 114, 117, 101], .bool true),
   ([102, 97, 108, 115, 101], .bool false), ([78, 97, 78], .float .nan),
   ([73, 110, 102, 105, 110, 105, 116, 121], .float (.inf false)),
   ([45, 73, 110, 102, 105, 110, 105, 116, 121], .float (.inf true))]

/-- A constant or a number. -/
def scanScalar (s : Text) : Loads (Json × Text) :=
  match constants.find? fun k => k.1.isPrefixOf s with
  | some k => .ok (k.2, s.drop k.1.length)
  | none => scanNumber s

/-! ## Values -/

mutual

/-- `scan_once`; `depth` is the number of levels left. -/
def scanOnce : ℕ → ℕ → Text → Loads (Json × Text)
  | 0, _, _ => .error .outOfFuel
  | fuel + 1, depth, s =>
      match s with
      | 34 :: t => do
          let (cs, u) ← scanString fuel t
          return (.str cs, u)
      | 91 :: t =>
          match depth with
          | 0 => .error .recursionError
          | depth + 1 =>
              match skipSpace t with
              | 93 :: u => return (.arr [], u)
              | u => do
                  let (xs, v) ← scanItems fuel depth u
                  return (.arr xs, v)
      | 123 :: t =>
          match depth with
          | 0 => .error .recursionError
          | depth + 1 =>
              match skipSpace t with
              | 125 :: u => return (.obj [], u)
              | u => do
                  let (items, v) ← scanMembers fuel depth [] u
                  return (.obj items, v)
      | t => scanScalar t

/-- The items of an array up to its closing bracket. -/
def scanItems : ℕ → ℕ → Text → Loads (List Json × Text)
  | 0, _, _ => .error .outOfFuel
  | fuel + 1, depth, s => do
      let (x, t) ← scanOnce fuel depth s
      match skipSpace t with
      | 93 :: u => return ([x], u)
      | 44 :: u =>
          let (xs, v) ← scanItems fuel depth (skipSpace u)
          return (x :: xs, v)
      | _ => .error .valueError

/-- The members of an object up to its closing brace, added to those before. -/
def scanMembers : ℕ → ℕ → List (Text × Json) → Text → Loads (List (Text × Json) × Text)
  | 0, _, _, _ => .error .outOfFuel
  | fuel + 1, depth, items, s =>
      match s with
      | 34 :: t => do
          let (key, u) ← scanString fuel t
          match skipSpace u with
          | 58 :: u =>
              let (x, v) ← scanOnce fuel depth (skipSpace u)
              match skipSpace v with
              | 125 :: w => return (set items key x, w)
              | 44 :: w => scanMembers fuel depth (set items key x) (skipSpace w)
              | _ => .error .valueError
          | _ => .error .valueError
      | _ => .error .valueError

end

/-- `json.loads` of a `str`, with so many levels left on the stack. -/
def loads (levels : ℕ) (s : Text) : Loads Json :=
  if s.head? = some 0xFEFF then .error .valueError
  else do
    let (x, t) ← scanOnce (2 * s.length + 2) levels (skipSpace s)
    if skipSpace t = [] then return x else .error .valueError

/-! ## Enough fuel -/

/-- The reader has read something, or refused the text for another reason than its fuel. -/
def Consumes {α : Type} (s : Text) : Loads (α × Text) → Prop
  | .ok (_, t) => t.length < s.length
  | .error e => e ≠ .outOfFuel

section
variable {α β : Type} {s s' : Text}

theorem Consumes.mono {r : Loads (α × Text)} (h : Consumes s r) (hs : s.length ≤ s'.length) :
    Consumes s' r := by
  cases r with
  | ok at_ => exact lt_of_lt_of_le h hs
  | error e => exact h

theorem Consumes.bind {r : Loads (α × Text)} {f : α × Text → Loads (β × Text)}
    (h : Consumes s r) (hf : ∀ a t, t.length < s.length → Consumes s (f (a, t))) :
    Consumes s (r >>= f) := by
  cases r with
  | ok at_ => exact hf at_.1 at_.2 h
  | error e => exact h

theorem Consumes.refused : Consumes s (.error .valueError : Loads (α × Text)) := by
  intro h
  cases h

end

theorem length_skipSpace_le (s : Text) : (skipSpace s).length ≤ s.length :=
  (List.dropWhile_sublist _).length_le

theorem consumes_scanUnit (s : Text) : Consumes s (scanUnit s) := by
  fun_cases scanUnit s
  all_goals first
    | exact Consumes.refused
    | (simp only [Consumes, List.length_cons]; omega)

theorem consumes_scanString {fuel : ℕ} {s : Text} (h : s.length < fuel) :
    Consumes s (scanString fuel s) := by
  induction fuel generalizing s with
  | zero => omega
  | succ fuel ih =>
      apply Consumes.bind (consumes_scanUnit s)
      intro c t ht
      cases c with
      | none => exact ht
      | some c =>
          have hrest : Consumes t (scanString fuel t) := ih (by omega)
          apply (hrest.mono ht.le).bind
          intro cs u hu
          exact hu

theorem length_scanFraction_le (s : Text) : (scanFraction s).2.length ≤ s.length := by
  fun_cases scanFraction s with
  | case1 s h => exact le_refl _
  | case2 s h =>
      have hle : (s.dropWhile isDigit).length ≤ s.length := (List.dropWhile_sublist _).length_le
      simp only [List.length_cons]
      omega
  | case3 s h => exact le_refl _

theorem length_signed_le (s : Text) : (signed s).2.length ≤ s.length := by
  fun_cases signed s with
  | case1 s => simp
  | case2 s => simp
  | case3 s h => exact le_refl _

theorem length_scanExponent_le (s : Text) : (scanExponent s).2.length ≤ s.length := by
  cases s with
  | nil => exact le_refl _
  | cons c s =>
      have hsigned := length_signed_le s
      have hdrop : ((signed s).2.dropWhile isDigit).length ≤ (signed s).2.length :=
        (List.dropWhile_sublist _).length_le
      simp only [scanExponent]
      split_ifs
      · change ((signed s).2.dropWhile isDigit).length ≤ s.length + 1
        omega
      · change ((signed s).2.dropWhile isDigit).length ≤ s.length + 1
        omega
      · exact Nat.le_refl (s.length + 1)

theorem consumes_scanRest (negative : Bool) (whole : Text) {s s' : Text}
    (h : s.length < s'.length) : Consumes s' (scanRest negative whole s) := by
  have hfraction := length_scanFraction_le s
  have hexponent := length_scanExponent_le (scanFraction s).2
  simp only [scanRest]
  split_ifs
  · exact Consumes.refused
  · change List.length (scanExponent (scanFraction s).2).2 < s'.length
    omega
  · change List.length (scanExponent (scanFraction s).2).2 < s'.length
    omega
  · change List.length (scanExponent (scanFraction s).2).2 < s'.length
    omega

theorem consumes_scanUnsigned (negative : Bool) (s : Text) :
    Consumes s (scanUnsigned negative s) := by
  cases s with
  | nil => exact Consumes.refused
  | cons c s =>
      have hdrop : (s.dropWhile isDigit).length ≤ s.length := (List.dropWhile_sublist _).length_le
      rw [scanUnsigned]
      split_ifs
      · exact Consumes.refused
      · exact consumes_scanRest negative _ (by simp)
      · exact consumes_scanRest negative _ (by simp only [List.length_cons]; omega)

theorem consumes_scanScalar (s : Text) : Consumes s (scanScalar s) := by
  unfold scanScalar
  cases hfind : constants.find? fun k => k.1.isPrefixOf s with
  | some k =>
      have hfound := List.find?_some hfind
      have hprefix : k.1 <+: s := List.isPrefixOf_iff_prefix.mp hfound
      have hpos : 0 < k.1.length := by
        have hall : ∀ k ∈ constants, 0 < k.1.length := by decide
        exact hall k (List.mem_of_find?_eq_some hfind)
      have hle := hprefix.length_le
      simp only [Consumes, List.length_drop]
      omega
  | none =>
      change Consumes s (scanNumber s)
      fun_cases scanNumber s with
      | case1 s => exact (consumes_scanUnsigned true s).mono (by simp)
      | case2 s h => exact consumes_scanUnsigned false s

/-- A level of the recursion costs one fuel, and every second one reads a character. -/
theorem consumes_scan (fuel : ℕ) :
    (∀ depth s, 2 * s.length + 1 ≤ fuel → Consumes s (scanOnce fuel depth s)) ∧
    (∀ depth s, 2 * s.length + 2 ≤ fuel → Consumes s (scanItems fuel depth s)) ∧
    ∀ depth items s, 2 * s.length + 2 ≤ fuel → Consumes s (scanMembers fuel depth items s) := by
  induction fuel with
  | zero =>
      refine ⟨fun _ _ h => ?_, fun _ _ h => ?_, fun _ _ _ h => ?_⟩
      · omega
      · omega
      · omega
  | succ fuel ih =>
      obtain ⟨honce, hitems, hmembers⟩ := ih
      refine ⟨fun depth s h => ?_, fun depth s h => ?_, fun depth items s h => ?_⟩
      · unfold scanOnce
        split
        · rename_i t
          simp only [List.length_cons] at h
          have hstring : Consumes t (scanString fuel t) := consumes_scanString (by omega)
          apply (hstring.mono (by simp)).bind
          intro cs u hu
          exact hu
        · rename_i t
          simp only [List.length_cons] at h
          have hskip := length_skipSpace_le t
          cases depth with
          | zero =>
              intro hfuel
              cases hfuel
          | succ depth =>
              dsimp only
              split
              · rename_i u heq
                rw [heq] at hskip
                simp only [List.length_cons] at hskip
                change u.length < _
                simp only [List.length_cons]
                omega
              · have hrest := hitems depth (skipSpace t) (by omega)
                apply (hrest.mono (by simp only [List.length_cons]; omega)).bind
                intro xs v hv
                exact hv
        · rename_i t
          simp only [List.length_cons] at h
          have hskip := length_skipSpace_le t
          cases depth with
          | zero =>
              intro hfuel
              cases hfuel
          | succ depth =>
              dsimp only
              split
              · rename_i u heq
                rw [heq] at hskip
                simp only [List.length_cons] at hskip
                change u.length < _
                simp only [List.length_cons]
                omega
              · have hrest := hmembers depth [] (skipSpace t) (by omega)
                apply (hrest.mono (by simp only [List.length_cons]; omega)).bind
                intro items v hv
                exact hv
        · exact consumes_scanScalar s
      · unfold scanItems
        apply (honce depth s (by omega)).bind
        intro x t ht
        have hskip := length_skipSpace_le t
        dsimp only
        split
        · rename_i u heq
          rw [heq] at hskip
          simp only [List.length_cons] at hskip
          change u.length < _
          omega
        · rename_i u heq
          rw [heq] at hskip
          simp only [List.length_cons] at hskip
          have hskip' := length_skipSpace_le u
          have hrest := hitems depth (skipSpace u) (by omega)
          apply (hrest.mono (by omega)).bind
          intro xs v hv
          exact hv
        · exact Consumes.refused
      · unfold scanMembers
        split
        · rename_i t
          simp only [List.length_cons] at h
          have hstring : Consumes t (scanString fuel t) := consumes_scanString (by omega)
          apply (hstring.mono (by simp)).bind
          intro key u hu
          have hskip := length_skipSpace_le u
          simp only [List.length_cons] at hu
          dsimp only
          split
          · rename_i u' heq
            rw [heq] at hskip
            simp only [List.length_cons] at hskip
            have hskip' := length_skipSpace_le u'
            have hvalue := honce depth (skipSpace u') (by omega)
            apply (hvalue.mono (by simp only [List.length_cons]; omega)).bind
            intro x v hv
            have hskipv := length_skipSpace_le v
            simp only [List.length_cons] at hv
            dsimp only
            split
            · rename_i w heqv
              rw [heqv] at hskipv
              simp only [List.length_cons] at hskipv
              change w.length < _
              simp only [List.length_cons]
              omega
            · rename_i w heqv
              rw [heqv] at hskipv
              simp only [List.length_cons] at hskipv
              have hskipw := length_skipSpace_le w
              have hrest := hmembers depth (set items key x) (skipSpace w) (by omega)
              exact hrest.mono (by simp only [List.length_cons]; omega)
            · exact Consumes.refused
          · exact Consumes.refused
        · exact Consumes.refused

/-- The reader ends with a value, a refusal of the text or a full stack. -/
theorem loads_ne_outOfFuel (levels : ℕ) (s : Text) : loads levels s ≠ .error .outOfFuel := by
  unfold loads
  split_ifs
  · intro h
    cases h
  · have hskip := length_skipSpace_le s
    have hscan := (consumes_scan (2 * s.length + 2)).1 levels (skipSpace s) (by omega)
    cases hr : scanOnce (2 * s.length + 2) levels (skipSpace s) with
    | error e =>
        rw [hr] at hscan
        intro h
        exact hscan (Except.error.inj h)
    | ok xt =>
        intro h
        change (if skipSpace xt.2 = [] then pure xt.1 else .error .valueError : Loads Json) = _ at h
        split_ifs at h <;> cases h

/-! ## Texts that are read -/

section
variable {fuel depth : ℕ} {s t u v w key : Text} {items : List (Text × Json)} {x : Json}

theorem scanString_replicate {n c : ℕ} (hc : ∀ s, scanUnit (c :: s) = .ok (some c, s))
    (h : n < fuel) (t : Text) :
    scanString fuel (List.replicate n c ++ 34 :: t) = .ok (List.replicate n c, t) := by
  induction n generalizing fuel with
  | zero =>
      cases fuel with
      | zero => omega
      | succ fuel => rfl
  | succ n ih =>
      cases fuel with
      | zero => omega
      | succ fuel =>
          rw [List.replicate_succ, List.cons_append, scanString, hc]
          change (do
            let (cs, u) ← scanString fuel (List.replicate n c ++ 34 :: t)
            return (c :: cs, u) : Loads (Text × Text)) = _
          rw [ih (by omega)]
          rfl

theorem scanOnce_string (h : scanString fuel t = .ok (s, u)) :
    scanOnce (fuel + 1) depth (34 :: t) = .ok (.str s, u) := by
  rw [scanOnce, h]
  rfl

/-- The last item of an array. -/
theorem scanItems_last (h : scanOnce fuel depth s = .ok (x, 93 :: u)) :
    scanItems (fuel + 1) depth s = .ok ([x], u) := by
  rw [scanItems, h]
  rfl

/-- The last member of an object. -/
theorem scanMembers_last (hkey : scanString fuel t = .ok (key, 58 :: u))
    (hvalue : scanOnce fuel depth (skipSpace u) = .ok (x, 125 :: w)) :
    scanMembers (fuel + 1) depth items (34 :: t) = .ok (set items key x, w) := by
  rw [scanMembers, hkey]
  change (do
    let (x, v) ← scanOnce fuel depth (skipSpace u)
    match skipSpace v with
    | 125 :: w => return (set items key x, w)
    | 44 :: w => scanMembers fuel depth (set items key x) (skipSpace w)
    | _ => .error .valueError : Loads (List (Text × Json) × Text)) = _
  rw [hvalue]
  rfl

theorem scanOnce_object (h : scanMembers fuel depth [] (34 :: t) = .ok (items, u)) :
    scanOnce (fuel + 1) (depth + 1) (123 :: 34 :: t) = .ok (.obj items, u) := by
  have hstep : scanOnce (fuel + 1) (depth + 1) (123 :: 34 :: t) = (do
      let (items, v) ← scanMembers fuel depth [] (34 :: t)
      return (.obj items, v)) := by
    rw [scanOnce]
    rfl
  rw [hstep, h]
  rfl

theorem scanOnce_array {xs : List Json} (h : scanItems fuel depth (123 :: t) = .ok (xs, u)) :
    scanOnce (fuel + 1) (depth + 1) (91 :: 123 :: t) = .ok (.arr xs, u) := by
  have hstep : scanOnce (fuel + 1) (depth + 1) (91 :: 123 :: t) = (do
      let (xs, v) ← scanItems fuel depth (123 :: t)
      return (.arr xs, v)) := by
    rw [scanOnce]
    rfl
  rw [hstep, h]
  rfl

end

end AikoIsland.JsonText
