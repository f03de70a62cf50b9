import AikoIsland.Ids
import AikoIsland.ReadPositions

/-!
# ULIDs

A millisecond below `2 ^ 48` fills ten characters whose first is a digit below 8, and
the ten random bytes fill sixteen. So a minted id is a canonical ULID, which is
what the shape check of a read position asks for, and no two mints give one id.
-/
namespace AikoIsland.Ulids
open Tables Ids FixedWidth ReadPositions

theorem fits {t r : ℕ} (ht : t < 2 ^ 48) (hr : r < 2 ^ 80) : Fits t r := by
  constructor
  · exact ht.trans (by norm_num)
  · exact hr.trans_le (by norm_num)

/-! ## Characters -/

theorem crockfordCode_crockfordChar {i : ℕ} (h : i < 32) :
    crockfordCode (crockfordChar i).toNat = true := by
  have hall : ∀ i : Fin 32, crockfordCode (crockfordChar i).toNat = true := by decide
  exact hall ⟨i, h⟩

theorem crockfordChar_mem {i : ℕ} (h : i < 32) : crockfordChar i ∈ crockford := by
  have hall : ∀ i : Fin 32, crockfordChar i ∈ crockford := by decide
  exact hall ⟨i, h⟩

/-- The first eight characters are the digits `0` to `7`. -/
theorem crockfordChar_octal {i : ℕ} (h : i < 8) :
    48 ≤ (crockfordChar i).toNat ∧ (crockfordChar i).toNat ≤ 55 := by
  have hall : ∀ i : Fin 8, 48 ≤ (crockfordChar i).toNat ∧ (crockfordChar i).toNat ≤ 55 := by
    decide
  exact hall ⟨i, h⟩

theorem mem_encode {value length : ℕ} {c : Char} (h : c ∈ encode value length) :
    ∃ i < 32, c = crockfordChar i := by
  rw [encode_eq_numeral] at h
  induction length generalizing value with
  | zero => cases h
  | succ n ih =>
      rw [numeral, List.mem_append, List.mem_singleton] at h
      cases h with
      | inl hinit => exact ih hinit
      | inr hlast => exact ⟨value % 32, Nat.mod_lt value (by decide), hlast⟩

/-- The leading character of the time holds the bits from the 45th up. -/
theorem encode_time (t : ℕ) : encode t 10 = crockfordChar (t / 2 ^ 45 % 32) :: encode t 9 := by
  rw [encode_eq_numeral, encode_eq_numeral, numeral_succ]
  norm_num

theorem toList_newUlid (t r : ℕ) : (newUlid t r).toList =
    crockfordChar (t / 2 ^ 45 % 32) :: (encode t 9 ++ encode r 16) := by
  rw [newUlid, String.toList_ofList, encode_time, List.cons_append]

theorem length_tail (t r : ℕ) : (encode t 9 ++ encode r 16).length = 25 := by
  rw [List.length_append, encode_eq_numeral, encode_eq_numeral, length_numeral, length_numeral]

/-! ## The shape check -/

theorem mem_newUlid {t r : ℕ} {c : Char} (h : c ∈ (newUlid t r).toList) :
    ∃ i < 32, c = crockfordChar i := by
  rw [newUlid, String.toList_ofList, List.mem_append] at h
  cases h with
  | inl htime => exact mem_encode htime
  | inr htail => exact mem_encode htail

theorem canonical_newUlid {t : ℕ} (ht : t < 2 ^ 48) (r : ℕ) :
    canonicalUlid (codes (newUlid t r)) = true := by
  have hlead : t / 2 ^ 45 % 32 < 8 := by omega
  have hoctal := crockfordChar_octal hlead
  rw [codes, toList_newUlid, List.map_cons, canonicalUlid, List.length_map, length_tail,
    Bool.and_eq_true, Bool.and_eq_true]
  constructor
  · constructor
    · simpa using hoctal
    · rfl
  · rw [List.all_eq_true]
    intro n hn
    obtain ⟨c, hc, rfl⟩ := List.mem_map.mp hn
    have hmem : c ∈ (newUlid t r).toList := by
      rw [toList_newUlid]
      exact List.mem_cons_of_mem _ hc
    obtain ⟨i, hi, rfl⟩ := mem_newUlid hmem
    exact crockfordCode_crockfordChar hi

/-- An entry with a minted watermark is not refused for the watermark. -/
theorem validate_newUlid {e : Entry} {t r : ℕ} (ht : t < 2 ^ 48)
    (hread : e.lastRead = codes (newUlid t r)) (hchannel : e.channelId ≠ [])
    (hbase : 0 ≤ e.baseSeq ∧ e.baseSeq ≤ maxBaseSeq) : ∃ v, validate e = .ok v := by
  have hcanonical : e.lastRead = [] ∨ canonicalUlid e.lastRead = true := by
    right
    rw [hread]
    exact canonical_newUlid ht r
  unfold validate
  rw [if_neg hchannel, dif_pos hcanonical, dif_pos hbase]
  exact ⟨_, rfl⟩

/-- For every millisecond below `2 ^ 48` and every ten random bytes the minted id has 26 Crockford
characters, the first from `0` to `7`; it passes the check of a read position; it determines the
millisecond and the bytes; and ids of different milliseconds compare as the milliseconds do. -/
theorem ulids_are_canonical {t r : ℕ} (ht : t < 2 ^ 48) (hr : r < 2 ^ 80) :
    (newUlid t r).toList.length = 26 ∧
    (∀ c ∈ (newUlid t r).toList, c ∈ crockford) ∧
    (∃ c, (newUlid t r).toList.head? = some c ∧ '0' ≤ c ∧ c ≤ '7') ∧
    canonicalUlid (codes (newUlid t r)) = true ∧
    (∀ e : Entry, e.lastRead = codes (newUlid t r) → e.channelId ≠ [] →
      0 ≤ e.baseSeq ∧ e.baseSeq ≤ maxBaseSeq → ∃ v, validate e = .ok v) ∧
    ∀ t' r', t' < 2 ^ 48 → r' < 2 ^ 80 →
      (newUlid t r = newUlid t' r' → t = t' ∧ r = r') ∧
      (t ≠ t' → (newUlid t r < newUlid t' r' ↔ t < t')) := by
  constructor
  · rw [toList_newUlid, List.length_cons, length_tail]
  constructor
  · intro c hc
    obtain ⟨i, hi, rfl⟩ := mem_newUlid hc
    exact crockfordChar_mem hi
  constructor
  · have hlead : t / 2 ^ 45 % 32 < 8 := by omega
    have hoctal := crockfordChar_octal hlead
    use crockfordChar (t / 2 ^ 45 % 32)
    constructor
    · rw [toList_newUlid, List.head?_cons]
    constructor
    · exact hoctal.1
    · exact hoctal.2
  constructor
  · exact canonical_newUlid ht r
  constructor
  · exact fun e hread hchannel hbase => validate_newUlid ht hread hchannel hbase
  · intro t' r' ht' hr'
    constructor
    · exact newUlid_inj (fits ht hr) (fits ht' hr')
    · intro hne
      rw [newUlid_lt_iff (fits ht hr) (fits ht' hr')]
      omega

/-- The last millisecond with the largest tail, before the first millisecond after the epoch. -/
theorem ulids_are_canonical_last :
    newUlid (2 ^ 48 - 1) (2 ^ 80 - 1) = "7ZZZZZZZZZZZZZZZZZZZZZZZZZ" ∧
      ¬ newUlid (2 ^ 48 - 1) (2 ^ 80 - 1) < newUlid 1 0 := by
  have h := ulids_are_canonical (t := 2 ^ 48 - 1) (r := 2 ^ 80 - 1) (by norm_num) (by norm_num)
  constructor
  · decide
  · have horder := (h.2.2.2.2.2 1 0 (by norm_num) (by norm_num)).2 (by norm_num)
    rw [horder]
    norm_num

end AikoIsland.Ulids
