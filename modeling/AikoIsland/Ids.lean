import AikoIsland.FixedWidth
import Mathlib.Data.String.Basic
import Mathlib.Data.Char

/-!
# Minted ids

`new_ulid` writes the millisecond of the mint with ten Crockford base-32
characters and ten random bytes with sixteen. Texts compare letter by letter, as
the store compares them, so ids compare by the millisecond and then by the
random tail: within one millisecond their order is that of the random bytes.
-/
namespace AikoIsland.Ids
open FixedWidth

/-- `_CROCKFORD`, without I, L, O and U. -/
def crockford : List Char := "0123456789ABCDEFGHJKMNPQRSTVWXYZ".toList

def crockfordChar (i : ℕ) : Char := crockford.getD i '0'

/-- The loop of `_encode`: the lowest digit first. -/
def encodeLoop : ℕ → ℕ → List Char
  | _, 0 => []
  | value, n + 1 => crockfordChar (value &&& 0x1F) :: encodeLoop (value >>> 5) n

def encode (value length : ℕ) : List Char := (encodeLoop value length).reverse

/-- `new_ulid` at a millisecond with the big-endian value of ten random bytes. -/
def newUlid (tsMs rand : ℕ) : String := String.ofList (encode tsMs 10 ++ encode rand 16)

theorem encode_eq_numeral (value n : ℕ) : encode value n = numeral crockfordChar 32 value n := by
  induction n generalizing value with
  | zero => rfl
  | succ n ih =>
      have hmask : value &&& 0x1F = value % 32 := Nat.and_two_pow_sub_one_eq_mod value 5
      have hshift : value >>> 5 = value / 32 := Nat.shiftRight_eq_div_pow value 5
      rw [encode, encodeLoop, List.reverse_cons, ← encode, hmask, hshift, ih, numeral]

theorem crockford_ascends : StrictMonoOn crockfordChar (Set.Iio 32) := by
  have hall : ∀ i < 32, ∀ j < 32, i < j → crockfordChar i < crockfordChar j := by decide
  exact fun i hi j hj hij => hall i hi j hj hij

/-- Ten characters hold milliseconds below this bound, and sixteen hold the ten random bytes. -/
structure Fits (tsMs rand : ℕ) : Prop where
  time : tsMs < 32 ^ 10
  tail : rand < 32 ^ 16

/-- Ids compare by the millisecond of their mint, then by their random tail. -/
theorem newUlid_lt_iff {t t' r r' : ℕ} (h : Fits t r) (h' : Fits t' r') :
    newUlid t r < newUlid t' r' ↔ t < t' ∨ t = t' ∧ r < r' := by
  rw [newUlid, newUlid, String.lt_iff_toList_lt, String.toList_ofList, String.toList_ofList,
    encode_eq_numeral, encode_eq_numeral, encode_eq_numeral, encode_eq_numeral]
  exact numeral_append_lt_iff crockford_ascends h.time h'.time h.tail h'.tail

theorem newUlid_inj {t t' r r' : ℕ} (h : Fits t r) (h' : Fits t' r')
    (heq : newUlid t r = newUlid t' r') : t = t' ∧ r = r' := by
  have hnot : ¬ newUlid t r < newUlid t' r' := by rw [heq]; exact lt_irrefl _
  have hnot' : ¬ newUlid t' r' < newUlid t r := by rw [heq]; exact lt_irrefl _
  rw [newUlid_lt_iff h h'] at hnot
  rw [newUlid_lt_iff h' h] at hnot'
  omega

example : newUlid 1700000000000 1 = "01HF7YAT000000000000000001" := by decide

end AikoIsland.Ids
