import Mathlib.Algebra.Order.Group.Nat
import Mathlib.Data.Nat.Log
import Mathlib.Order.Monotone.Defs
import Mathlib.Data.List.Lex
import Mathlib.Tactic.Ring

/-!
# Numerals of a fixed width

A number below `b ^ n` written with `n` digits of base `b`, most significant
first, over any ordered alphabet whose digits ascend. Comparing two numerals of
one width letter by letter compares the numbers, and a concatenation of numerals
compares like the tuple of the numbers.
-/
namespace AikoIsland.FixedWidth

variable {α : Type} {b : ℕ} {digit : ℕ → α}

/-- The `n` lowest digits of `v`, most significant first. -/
def numeral (digit : ℕ → α) (b : ℕ) : ℕ → ℕ → List α
  | _, 0 => []
  | v, n + 1 => numeral digit b (v / b) n ++ [digit (v % b)]

@[simp] theorem length_numeral (v n : ℕ) : (numeral digit b v n).length = n := by
  induction n generalizing v with
  | zero => rfl
  | succ n ih => simp [numeral, ih]

/-- The same numeral from its most significant digit. -/
theorem numeral_succ (v n : ℕ) :
    numeral digit b v (n + 1) = digit (v / b ^ n % b) :: numeral digit b v n := by
  induction n generalizing v with
  | zero => simp [numeral]
  | succ n ih =>
      have hdiv : v / b / b ^ n = v / b ^ (n + 1) := by
        rw [Nat.div_div_eq_div_mul, pow_succ, Nat.mul_comm]
      rw [numeral, ih, hdiv, numeral, List.cons_append]

variable [LinearOrder α]

/-- Words of one length compare by their first parts, then by the rest. -/
theorem append_lt_append_iff {xs ys xs' ys' : List α} (h : xs.length = ys.length) :
    xs ++ xs' < ys ++ ys' ↔ xs < ys ∨ xs = ys ∧ xs' < ys' := by
  induction xs generalizing ys with
  | nil =>
      obtain rfl := List.length_eq_zero_iff.mp h.symm
      simp
  | cons x xs ih =>
      cases ys with
      | nil => cases h
      | cons y ys =>
          have hlen : xs.length = ys.length := by simpa using h
          rw [List.cons_append, List.cons_append, List.cons_lt_cons_iff, List.cons_lt_cons_iff,
            ih hlen, List.cons.injEq]
          tauto

/-- Numbers compare by their quotients, then by their remainders. -/
theorem lt_iff_div_mod (v w k : ℕ) :
    v < w ↔ v / k < w / k ∨ v / k = w / k ∧ v % k < w % k := by
  have hdv := Nat.div_add_mod v k
  have hdw := Nat.div_add_mod w k
  constructor
  · intro h
    rcases (Nat.div_le_div_right (c := k) h.le).lt_or_eq with hlt | heq
    · exact Or.inl hlt
    · right
      rw [heq] at hdv
      exact ⟨heq, by omega⟩
  · rintro (hlt | ⟨heq, hlt⟩)
    · by_contra hge
      exact absurd (Nat.div_le_div_right (c := k) (not_lt.mp hge)) (not_le.mpr hlt)
    · rw [heq] at hdv
      omega

/-- Numerals compare like the numbers that they hold. -/
theorem numeral_lt_iff (hdigit : StrictMonoOn digit (Set.Iio b)) {v w n : ℕ} (hv : v < b ^ n)
    (hw : w < b ^ n) : numeral digit b v n < numeral digit b w n ↔ v < w := by
  have hb : ∀ {v n : ℕ}, v < b ^ (n + 1) → v / b ^ n < b := by
    intro v n h
    rw [pow_succ, Nat.mul_comm] at h
    exact Nat.div_lt_of_lt_mul (Nat.mul_comm b (b ^ n) ▸ h)
  -- the tail of a numeral does not see the leading digit
  have htail : ∀ (v n : ℕ), numeral digit b v n = numeral digit b (v % b ^ n) n := by
    intro v n
    induction n generalizing v with
    | zero => rfl
    | succ n ih =>
        have hdiv : v % b ^ (n + 1) / b = v / b % b ^ n := by
          rw [pow_succ, Nat.mul_comm, Nat.mod_mul_right_div_self]
        have hmod : v % b ^ (n + 1) % b = v % b := Nat.mod_mod_of_dvd v (dvd_pow_self b n.succ_ne_zero)
        rw [numeral, numeral, hdiv, hmod, ih]
  induction n generalizing v w with
  | zero =>
      simp only [pow_zero, Nat.lt_one_iff] at hv hw
      simp [numeral, hv, hw]
  | succ n ih =>
      have hpos : 0 < b ^ n := by
        rcases Nat.eq_zero_or_pos (b ^ n) with h | h
        · rw [pow_succ, h, Nat.zero_mul] at hv
          exact absurd hv (Nat.not_lt_zero v)
        · exact h
      have hv' := hb hv
      have hw' := hb hw
      have htails : numeral digit b (v % b ^ n) n < numeral digit b (w % b ^ n) n ↔
          v % b ^ n < w % b ^ n := ih (Nat.mod_lt v hpos) (Nat.mod_lt w hpos)
      rw [numeral_succ, numeral_succ, List.cons_lt_cons_iff, htail v, htail w, htails,
        Nat.mod_eq_of_lt hv', Nat.mod_eq_of_lt hw', hdigit.lt_iff_lt hv' hw',
        hdigit.injOn.eq_iff hv' hw', lt_iff_div_mod v w (b ^ n)]

theorem numeral_inj (hdigit : StrictMonoOn digit (Set.Iio b)) {v w n : ℕ} (hv : v < b ^ n)
    (hw : w < b ^ n) (h : numeral digit b v n = numeral digit b w n) : v = w := by
  have hnot : ¬ numeral digit b v n < numeral digit b w n := by rw [h]; exact lt_irrefl _
  have hnot' : ¬ numeral digit b w n < numeral digit b v n := by rw [h]; exact lt_irrefl _
  rw [numeral_lt_iff hdigit hv hw] at hnot
  rw [numeral_lt_iff hdigit hw hv] at hnot'
  omega

/-- Two numerals in a row compare like the pair of the numbers. -/
theorem numeral_append_lt_iff (hdigit : StrictMonoOn digit (Set.Iio b)) {v v' w w' n k : ℕ}
    (hv : v < b ^ n) (hw : w < b ^ n) (hv' : v' < b ^ k) (hw' : w' < b ^ k) :
    numeral digit b v n ++ numeral digit b v' k < numeral digit b w n ++ numeral digit b w' k ↔
      v < w ∨ v = w ∧ v' < w' := by
  have heq : numeral digit b v n = numeral digit b w n ↔ v = w :=
    ⟨numeral_inj hdigit hv hw, fun h => h ▸ rfl⟩
  rw [append_lt_append_iff (by simp), numeral_lt_iff hdigit hv hw, numeral_lt_iff hdigit hv' hw',
    heq]

/-- A numeral before a separator compares first. -/
theorem numeral_sep_lt_iff (hdigit : StrictMonoOn digit (Set.Iio b)) {v w n : ℕ} (hv : v < b ^ n)
    (hw : w < b ^ n) (c : α) (xs ys : List α) :
    numeral digit b v n ++ c :: xs < numeral digit b w n ++ c :: ys ↔ v < w ∨ v = w ∧ xs < ys := by
  have heq : numeral digit b v n = numeral digit b w n ↔ v = w :=
    ⟨numeral_inj hdigit hv hw, fun h => h ▸ rfl⟩
  rw [append_lt_append_iff (by simp), numeral_lt_iff hdigit hv hw, heq, List.cons_lt_cons_iff]
  simp

end AikoIsland.FixedWidth
