import Mathlib.Data.List.Basic
import Mathlib.Tactic

/-!
# UTF-8 with a handler of errors

A code point that is no surrogate is written with one to four bytes. The decoder reads
a character, or finds how many bytes of a broken one belong together and puts the
handler's answer in their place, so it ends on every row of bytes. What was encoded is
decoded, and a character that is cut off at the end is one error.
-/
namespace AikoIsland.Utf8

/-- Code points that can be encoded. -/
def IsScalar (c : ℕ) : Prop := c < 0xD800 ∨ 0xDFFF < c ∧ c < 0x110000

instance (c : ℕ) : Decidable (IsScalar c) := inferInstanceAs (Decidable (_ ∨ _))

def encodeChar (c : ℕ) : List UInt8 :=
  if c < 0x80 then [UInt8.ofNat c]
  else if c < 0x800 then [UInt8.ofNat (0xC0 + c / 64), UInt8.ofNat (0x80 + c % 64)]
  else if c < 0x10000 then
    [UInt8.ofNat (0xE0 + c / 4096), UInt8.ofNat (0x80 + c / 64 % 64), UInt8.ofNat (0x80 + c % 64)]
  else
    [UInt8.ofNat (0xF0 + c / 262144), UInt8.ofNat (0x80 + c / 4096 % 64),
      UInt8.ofNat (0x80 + c / 64 % 64), UInt8.ofNat (0x80 + c % 64)]

/-- The bytes of a text, or `none` where a code point has none. -/
def encode (s : List ℕ) : Option (List UInt8) :=
  if s.all fun c => IsScalar c then some (s.flatMap encodeChar) else none

/-- The bytes behind a leading byte, each from its range: the character, or `none`, and how many
bytes were taken. -/
def readTail (acc taken : ℕ) : List (ℕ × ℕ) → List UInt8 → Option ℕ × ℕ
  | [], _ => (some acc, taken)
  | _ :: _, [] => (none, taken)
  | (lo, hi) :: ranges, c :: rest =>
      if lo ≤ c.toNat && c.toNat ≤ hi then
        readTail (acc * 64 + (c.toNat - 0x80)) (taken + 1) ranges rest
      else (none, taken)

def continuation : ℕ × ℕ := (0x80, 0xBF)

/-- The first character, or `none` for an error, and its bytes. -/
def decodeFirst : List UInt8 → Option ℕ × ℕ
  | [] => (none, 0)
  | byte :: rest =>
      let b := byte.toNat
      if b < 0x80 then (some b, 1)
      else if b < 0xC2 then (none, 1)
      else if b < 0xE0 then readTail (b - 0xC0) 1 [continuation] rest
      else if b < 0xF0 then
        readTail (b - 0xE0) 1 [(if b = 0xE0 then 0xA0 else 0x80, if b = 0xED then 0x9F else 0xBF),
          continuation] rest
      else if b < 0xF5 then
        readTail (b - 0xF0) 1 [(if b = 0xF0 then 0x90 else 0x80, if b = 0xF4 then 0x8F else 0xBF),
          continuation, continuation] rest
      else (none, 1)

def decodeLoop (onError : List ℕ) : ℕ → List UInt8 → List ℕ
  | 0, _ => []
  | _ + 1, [] => []
  | fuel + 1, b :: rest =>
      let first := decodeFirst (b :: rest)
      (match first.1 with
        | some c => [c]
        | none => onError) ++ decodeLoop onError fuel ((b :: rest).drop first.2)

/-- A byte at least goes with each round. -/
def decode (onError : List ℕ) (bytes : List UInt8) : List ℕ :=
  decodeLoop onError bytes.length bytes

section
variable {onError : List ℕ} {c : ℕ} {s : List ℕ} {bytes rest : List UInt8}

/-! ## One character -/

theorem toNat_ofNat {n : ℕ} (h : n < 256) : (UInt8.ofNat n).toNat = n := by
  rw [UInt8.toNat_ofNat', Nat.mod_eq_of_lt h]

theorem decodeFirst_encodeChar (h : IsScalar c) (rest : List UInt8) :
    decodeFirst (encodeChar c ++ rest) = (some c, (encodeChar c).length) := by
  unfold IsScalar at h
  unfold encodeChar
  split_ifs with h1 h2 h3
  · simp only [List.cons_append, List.nil_append, decodeFirst, toNat_ofNat (show c < 256 by omega)]
    rw [if_pos h1]
    rfl
  · have hlead : 0xC0 + c / 64 < 256 := by omega
    have htail : 0x80 + c % 64 < 256 := by omega
    simp only [List.cons_append, List.nil_append, decodeFirst, toNat_ofNat hlead]
    rw [if_neg (by omega), if_neg (by omega), if_pos (by omega)]
    simp only [readTail, continuation, toNat_ofNat htail]
    rw [if_pos (by simp; omega)]
    simp only [List.length_cons, List.length_nil, Prod.mk.injEq, Option.some.injEq, and_true]
    omega
  · have hlead : 0xE0 + c / 4096 < 256 := by omega
    have hmid : 0x80 + c / 64 % 64 < 256 := by omega
    have htail : 0x80 + c % 64 < 256 := by omega
    simp only [List.cons_append, List.nil_append, decodeFirst, toNat_ofNat hlead]
    rw [if_neg (by omega), if_neg (by omega), if_neg (by omega), if_pos (by omega)]
    simp only [readTail, continuation, toNat_ofNat hmid, toNat_ofNat htail]
    rw [if_pos (by simp only [Bool.and_eq_true, decide_eq_true_eq]; split_ifs <;> omega),
      if_pos (by simp; omega)]
    simp only [List.length_cons, List.length_nil, Prod.mk.injEq, Option.some.injEq, and_true]
    omega
  · have hlead : 0xF0 + c / 262144 < 256 := by omega
    have hmid : 0x80 + c / 4096 % 64 < 256 := by omega
    have hmid' : 0x80 + c / 64 % 64 < 256 := by omega
    have htail : 0x80 + c % 64 < 256 := by omega
    simp only [List.cons_append, List.nil_append, decodeFirst, toNat_ofNat hlead]
    rw [if_neg (by omega), if_neg (by omega), if_neg (by omega), if_neg (by omega),
      if_pos (by omega)]
    simp only [readTail, continuation, toNat_ofNat hmid, toNat_ofNat hmid', toNat_ofNat htail]
    rw [if_pos (by simp only [Bool.and_eq_true, decide_eq_true_eq]; split_ifs <;> omega),
      if_pos (by simp; omega), if_pos (by simp; omega)]
    simp only [List.length_cons, List.length_nil, Prod.mk.injEq, Option.some.injEq, and_true]
    omega

theorem length_encodeChar_pos (c : ℕ) : 0 < (encodeChar c).length := by
  unfold encodeChar
  split_ifs <;> simp

/-- A character that is cut off is one error. -/
theorem decodeFirst_take (h : IsScalar c) {k : ℕ} (hpos : 0 < k) (hlt : k < (encodeChar c).length) :
    decodeFirst ((encodeChar c).take k) = (none, k) := by
  unfold IsScalar at h
  unfold encodeChar at hlt ⊢
  split_ifs at hlt ⊢ with h1 h2 h3
  · simp only [List.length_cons, List.length_nil] at hlt
    omega
  · obtain rfl : k = 1 := by
      simp only [List.length_cons, List.length_nil] at hlt
      omega
    have hlead : 0xC0 + c / 64 < 256 := by omega
    simp only [List.take_succ_cons, List.take_zero, decodeFirst, toNat_ofNat hlead]
    rw [if_neg (by omega), if_neg (by omega), if_pos (by omega)]
    rfl
  · have hlead : 0xE0 + c / 4096 < 256 := by omega
    have hmid : 0x80 + c / 64 % 64 < 256 := by omega
    have hk : k = 1 ∨ k = 2 := by
      simp only [List.length_cons, List.length_nil] at hlt
      omega
    rcases hk with rfl | rfl
    all_goals
      simp only [List.take_succ_cons, List.take_zero, decodeFirst, toNat_ofNat hlead]
      rw [if_neg (by omega), if_neg (by omega), if_neg (by omega), if_pos (by omega)]
      simp only [readTail, toNat_ofNat hmid]
    rw [if_pos (by simp only [Bool.and_eq_true, decide_eq_true_eq]; split_ifs <;> omega)]
  · have hlead : 0xF0 + c / 262144 < 256 := by omega
    have hmid : 0x80 + c / 4096 % 64 < 256 := by omega
    have hmid' : 0x80 + c / 64 % 64 < 256 := by omega
    have hk : k = 1 ∨ k = 2 ∨ k = 3 := by
      simp only [List.length_cons, List.length_nil] at hlt
      omega
    rcases hk with rfl | rfl | rfl
    all_goals
      simp only [List.take_succ_cons, List.take_zero, decodeFirst, toNat_ofNat hlead]
      rw [if_neg (by omega), if_neg (by omega), if_neg (by omega), if_neg (by omega),
        if_pos (by omega)]
      simp only [readTail, continuation, toNat_ofNat hmid, toNat_ofNat hmid']
    · rw [if_pos (by simp only [Bool.and_eq_true, decide_eq_true_eq]; split_ifs <;> omega)]
    · rw [if_pos (by simp only [Bool.and_eq_true, decide_eq_true_eq]; split_ifs <;> omega),
        if_pos (by simp; omega)]

theorem readTail_pos (acc taken : ℕ) (ranges : List (ℕ × ℕ)) (bytes : List UInt8) :
    taken ≤ (readTail acc taken ranges bytes).2 := by
  induction ranges generalizing acc taken bytes with
  | nil =>
      rw [readTail]
  | cons range ranges ih =>
      cases bytes with
      | nil =>
          rw [readTail]
      | cons b bytes =>
          rw [readTail]
          split_ifs
          · exact (Nat.le_succ taken).trans (ih _ _ _)
          · exact le_rfl

theorem decodeFirst_pos (b : UInt8) (rest : List UInt8) : 0 < (decodeFirst (b :: rest)).2 := by
  unfold decodeFirst
  dsimp only
  split_ifs
  all_goals first
    | exact Nat.one_pos
    | exact readTail_pos _ _ _ _

/-! ## Texts -/

/-- Fuel for every byte is enough. -/
theorem decodeLoop_eq {fuel : ℕ} (h : bytes.length ≤ fuel) :
    decodeLoop onError fuel bytes = decode onError bytes := by
  induction fuel using Nat.strong_induction_on generalizing bytes with
  | _ fuel ih =>
      cases bytes with
      | nil => cases fuel <;> rfl
      | cons b rest =>
          obtain ⟨fuel, rfl⟩ : ∃ k, fuel = k + 1 := ⟨fuel - 1, by simp at h; omega⟩
          have hpos := decodeFirst_pos b rest
          have hdrop : ((b :: rest).drop (decodeFirst (b :: rest)).2).length ≤ rest.length := by
            rw [List.length_drop, List.length_cons]
            omega
          rw [List.length_cons] at h
          rw [decode, List.length_cons, decodeLoop, decodeLoop]
          rw [ih fuel (Nat.lt_succ_self _) (by omega)]
          by_cases hfuel : rest.length < fuel + 1
          · rw [ih rest.length (by omega) hdrop]
          · omega

theorem decode_cons (b : UInt8) (rest : List UInt8) : decode onError (b :: rest) =
    (match (decodeFirst (b :: rest)).1 with
      | some c => [c]
      | none => onError) ++ decode onError ((b :: rest).drop (decodeFirst (b :: rest)).2) := by
  have hpos := decodeFirst_pos b rest
  rw [decode, List.length_cons, decodeLoop, decodeLoop_eq]
  rw [List.length_drop, List.length_cons]
  omega

theorem decode_encodeChar (h : IsScalar c) (rest : List UInt8) :
    decode onError (encodeChar c ++ rest) = c :: decode onError rest := by
  have hfirst := decodeFirst_encodeChar h rest
  have hpos := length_encodeChar_pos c
  cases hbytes : encodeChar c ++ rest with
  | nil =>
      have hlen := congrArg List.length hbytes
      rw [List.length_append, List.length_nil] at hlen
      omega
  | cons b tail =>
      rw [decode_cons, ← hbytes, hfirst]
      dsimp only
      rw [List.drop_left]
      rfl

theorem decode_take (h : IsScalar c) {k : ℕ} (hpos : 0 < k) (hlt : k < (encodeChar c).length) :
    decode onError ((encodeChar c).take k) = onError := by
  have hfirst := decodeFirst_take h hpos hlt
  cases hbytes : (encodeChar c).take k with
  | nil =>
      have hlen := congrArg List.length hbytes
      rw [List.length_take, List.length_nil] at hlen
      omega
  | cons b tail =>
      have hdrop : ((encodeChar c).take k).drop k = [] := by
        rw [List.drop_eq_nil_iff, List.length_take]
        omega
      rw [decode_cons, ← hbytes, hfirst]
      dsimp only
      rw [hdrop]
      exact List.append_nil _

/-- What was encoded is decoded, whatever follows. -/
theorem decode_flatMap_append (h : ∀ c ∈ s, IsScalar c) (rest : List UInt8) :
    decode onError (s.flatMap encodeChar ++ rest) = s ++ decode onError rest := by
  induction s with
  | nil => rfl
  | cons c s ih =>
      rw [List.flatMap_cons, List.append_assoc, decode_encodeChar (h c List.mem_cons_self),
        ih fun d hd => h d (List.mem_cons_of_mem c hd), List.cons_append]

theorem encode_eq_some : encode s = some bytes ↔
    (∀ c ∈ s, IsScalar c) ∧ bytes = s.flatMap encodeChar := by
  unfold encode
  split_ifs with h
  · have hall : ∀ c ∈ s, IsScalar c := by simpa using h
    constructor
    · exact fun hs => ⟨hall, (Option.some.inj hs).symm⟩
    · exact fun hs => congrArg some hs.2.symm
  · have hnot : ¬∀ c ∈ s, IsScalar c := by simpa using h
    constructor
    · intro hs
      cases hs
    · exact fun hs => absurd hs.1 hnot

theorem decode_encode (h : encode s = some bytes) : decode onError bytes = s := by
  obtain ⟨hall, rfl⟩ := encode_eq_some.mp h
  have hdecode : decode onError (s.flatMap encodeChar ++ []) = s ++ decode onError [] :=
    decode_flatMap_append hall []
  have hnil : decode onError [] = [] := rfl
  rwa [List.append_nil, hnil, List.append_nil] at hdecode

/-! ## Between two characters -/

/-- A byte that no character has behind its first. -/
theorem readTail_append {b : UInt8} (hb : 0xC0 ≤ b.toNat) {ranges : List (ℕ × ℕ)}
    (hranges : ∀ range ∈ ranges, range.2 < 0xC0) (acc taken : ℕ) (bytes rest : List UInt8) :
    readTail acc taken ranges (bytes ++ b :: rest) = readTail acc taken ranges bytes := by
  induction ranges generalizing acc taken bytes with
  | nil =>
      rw [readTail, readTail]
  | cons range ranges ih =>
      have hrange := hranges range List.mem_cons_self
      cases bytes with
      | nil =>
          rw [List.nil_append, readTail, readTail, if_neg]
          simp only [Bool.and_eq_true, decide_eq_true_eq]
          omega
      | cons c bytes =>
          rw [List.cons_append, readTail, readTail]
          rw [ih fun r hr => hranges r (List.mem_cons_of_mem range hr)]

theorem readTail_le (acc taken : ℕ) (ranges : List (ℕ × ℕ)) (bytes : List UInt8) :
    (readTail acc taken ranges bytes).2 ≤ taken + bytes.length := by
  induction ranges generalizing acc taken bytes with
  | nil =>
      rw [readTail]
      exact Nat.le_add_right _ _
  | cons range ranges ih =>
      cases bytes with
      | nil =>
          rw [readTail]
          exact Nat.le_add_right _ _
      | cons b bytes =>
          rw [readTail, List.length_cons]
          split_ifs
          · have hle := ih (acc * 64 + (b.toNat - 0x80)) (taken + 1) bytes
            omega
          · dsimp only
            omega

theorem decodeFirst_append {b : UInt8} (hb : 0xC0 ≤ b.toNat) (a : UInt8)
    (bytes rest : List UInt8) :
    decodeFirst (a :: bytes ++ b :: rest) = decodeFirst (a :: bytes) := by
  rw [List.cons_append]
  unfold decodeFirst
  dsimp only
  split_ifs
  all_goals first
    | rfl
    | exact readTail_append hb (by decide) _ _ _ _

theorem decodeFirst_le (a : UInt8) (bytes : List UInt8) :
    (decodeFirst (a :: bytes)).2 ≤ (a :: bytes).length := by
  rw [List.length_cons]
  unfold decodeFirst
  dsimp only
  split_ifs
  all_goals first
    | exact Nat.le_add_left _ _
    | exact (readTail_le _ _ _ _).trans (Nat.add_comm _ _).le

/-- The decoder stops in front of a leading byte, whatever it has read. -/
theorem decode_append {b : UInt8} (hb : 0xC0 ≤ b.toNat) (bytes rest : List UInt8) :
    decode onError (bytes ++ b :: rest) = decode onError bytes ++ decode onError (b :: rest) := by
  induction hlen : bytes.length using Nat.strong_induction_on generalizing bytes with
  | _ n ih =>
      cases bytes with
      | nil => rfl
      | cons a bytes =>
          have hpos := decodeFirst_pos a bytes
          have hle := decodeFirst_le a bytes
          have hdrop : ((a :: bytes).drop (decodeFirst (a :: bytes)).2).length < n := by
            rw [List.length_drop, ← hlen]
            omega
          rw [decode_cons a bytes, List.cons_append, decode_cons a (bytes ++ b :: rest),
            ← List.cons_append, decodeFirst_append hb, List.drop_append_of_le_length hle,
            ih _ hdrop _ rfl, List.append_assoc]

theorem decode_append_encodeChar (h : IsScalar c) (hc : 0x80 ≤ c) (bytes rest : List UInt8) :
    decode onError (bytes ++ (encodeChar c ++ rest)) =
      decode onError bytes ++ c :: decode onError rest := by
  obtain ⟨b, tail, hbytes, hb⟩ : ∃ b tail, encodeChar c = b :: tail ∧ 0xC0 ≤ b.toNat := by
    unfold IsScalar at h
    unfold encodeChar
    rw [if_neg (by omega)]
    split_ifs
    · exact ⟨_, _, rfl, by rw [toNat_ofNat] <;> omega⟩
    · exact ⟨_, _, rfl, by rw [toNat_ofNat] <;> omega⟩
    · exact ⟨_, _, rfl, by rw [toNat_ofNat] <;> omega⟩
  rw [← decode_encodeChar h, hbytes, List.cons_append, decode_append hb]

/-! ## ASCII -/

/-- An ASCII byte is a character, and no other byte is part of one. -/
theorem decodeFirst_ascii {b : UInt8} (hb : b.toNat < 0x80) (rest : List UInt8) :
    decodeFirst (b :: rest) = (some b.toNat, 1) := by
  rw [decodeFirst, if_pos hb]

/-- What `k` bytes add to a number. -/
theorem readTail_ge {acc taken v : ℕ} {ranges : List (ℕ × ℕ)} {bytes : List UInt8}
    (h : (readTail acc taken ranges bytes).1 = some v) : acc * 64 ^ ranges.length ≤ v := by
  induction ranges generalizing acc taken bytes with
  | nil =>
      rw [readTail] at h
      cases h
      simp
  | cons range ranges ih =>
      cases bytes with
      | nil =>
          rw [readTail] at h
          cases h
      | cons b bytes =>
          rw [readTail] at h
          split_ifs at h with hrange
          · have hle := ih h
            rw [List.length_cons, Nat.pow_succ']
            calc acc * (64 * 64 ^ ranges.length) = acc * 64 * 64 ^ ranges.length := by ring
              _ ≤ (acc * 64 + (b.toNat - 0x80)) * 64 ^ ranges.length :=
                Nat.mul_le_mul_right _ (Nat.le_add_right _ _)
              _ ≤ v := hle

theorem readTail_cons_ge {acc taken v lo hi : ℕ} {ranges : List (ℕ × ℕ)} {bytes : List UInt8}
    (h : (readTail acc taken ((lo, hi) :: ranges) bytes).1 = some v) :
    (acc * 64 + (lo - 0x80)) * 64 ^ ranges.length ≤ v := by
  cases bytes with
  | nil =>
      rw [readTail] at h
      cases h
  | cons b bytes =>
      rw [readTail] at h
      split_ifs at h with hrange
      · rw [Bool.and_eq_true, decide_eq_true_eq, decide_eq_true_eq] at hrange
        refine (Nat.mul_le_mul_right _ ?_).trans (readTail_ge h)
        omega

theorem readTail_take {ranges : List (ℕ × ℕ)} (hranges : ∀ range ∈ ranges, 0x80 ≤ range.1)
    (acc taken : ℕ) (bytes : List UInt8) :
    ∀ b ∈ bytes.take ((readTail acc taken ranges bytes).2 - taken), 0x80 ≤ b.toNat := by
  induction ranges generalizing acc taken bytes with
  | nil =>
      rw [readTail]
      simp
  | cons range ranges ih =>
      have hrange := hranges range List.mem_cons_self
      cases bytes with
      | nil => simp
      | cons c bytes =>
          rw [readTail]
          split_ifs with hc
          · rw [Bool.and_eq_true, decide_eq_true_eq, decide_eq_true_eq] at hc
            have htail := ih (fun r hr => hranges r (List.mem_cons_of_mem range hr))
              (acc * 64 + (c.toNat - 0x80)) (taken + 1) bytes
            have hpos := readTail_pos (acc * 64 + (c.toNat - 0x80)) (taken + 1) ranges bytes
            intro b hb
            rw [Nat.sub_add_eq] at htail
            obtain ⟨n, hn⟩ : ∃ n, (readTail (acc * 64 + (c.toNat - 0x80)) (taken + 1) ranges
                bytes).2 - taken = n + 1 := ⟨_, (Nat.sub_add_cancel (by omega)).symm⟩
            rw [hn] at hb htail
            rw [List.take_succ_cons, List.mem_cons] at hb
            rcases hb with rfl | hb
            · omega
            · exact htail b hb
          · simp

/-- A byte that is no ASCII takes no ASCII byte with it, and is part of no ASCII character. -/
theorem decodeFirst_of_high {b : UInt8} (hb : 0x80 ≤ b.toNat) (rest : List UInt8) :
    (∀ c ∈ (decodeFirst (b :: rest)).1, 0x80 ≤ c) ∧
      ∀ d ∈ (b :: rest).take (decodeFirst (b :: rest)).2, 0x80 ≤ d.toNat := by
  have hread {acc lo hi : ℕ} {ranges : List (ℕ × ℕ)}
      (hranges : ∀ range ∈ (lo, hi) :: ranges, 0x80 ≤ range.1)
      (hacc : 0x80 ≤ (acc * 64 + (lo - 0x80)) * 64 ^ ranges.length) :
      (∀ c ∈ (readTail acc 1 ((lo, hi) :: ranges) rest).1, 0x80 ≤ c) ∧
        ∀ d ∈ (b :: rest).take (readTail acc 1 ((lo, hi) :: ranges) rest).2, 0x80 ≤ d.toNat := by
    constructor
    · exact fun c hc => hacc.trans (readTail_cons_ge hc)
    · have hpos := readTail_pos acc 1 ((lo, hi) :: ranges) rest
      have htail := readTail_take hranges acc 1 rest
      obtain ⟨n, hn⟩ : ∃ n, (readTail acc 1 ((lo, hi) :: ranges) rest).2 = n + 1 :=
        ⟨_, (Nat.sub_add_cancel hpos).symm⟩
      rw [hn] at htail ⊢
      rw [List.take_succ_cons]
      intro d hd
      rcases List.mem_cons.mp hd with rfl | hd
      · exact hb
      · exact htail d hd
  unfold decodeFirst
  dsimp only
  rw [if_neg (by omega)]
  split_ifs
  all_goals first
    | exact hread (by decide) (by simp only [List.length_cons, List.length_nil]; omega)
    | simp [hb]

/-- A decoder keeps the ASCII of what it reads, if its answers to errors have none. -/
theorem filter_decode (h : ∀ c ∈ onError, 0x80 ≤ c) (bytes : List UInt8) :
    (decode onError bytes).filter (· < 0x80) =
      (bytes.map UInt8.toNat).filter (· < 0x80) := by
  induction hlen : bytes.length using Nat.strong_induction_on generalizing bytes with
  | _ n ih =>
      cases bytes with
      | nil => rfl
      | cons b rest =>
          have hpos := decodeFirst_pos b rest
          have hdrop : ((b :: rest).drop (decodeFirst (b :: rest)).2).length < n := by
            rw [List.length_drop, ← hlen, List.length_cons]
            omega
          rw [decode_cons, List.filter_append, ih _ hdrop _ rfl]
          by_cases hb : b.toNat < 0x80
          · rw [decodeFirst_ascii hb]
            simp [hb]
          · have hhigh := decodeFirst_of_high (not_lt.mp hb) rest
            have hfirst : (match (decodeFirst (b :: rest)).1 with
                | some c => [c]
                | none => onError).filter (· < 0x80) = [] := by
              rw [List.filter_eq_nil_iff]
              cases hc : (decodeFirst (b :: rest)).1 with
              | none => simpa using h
              | some c => simpa using hhigh.1 c hc
            have htake : (((b :: rest).take (decodeFirst (b :: rest)).2).map
                UInt8.toNat).filter (· < 0x80) = [] := by
              rw [List.filter_eq_nil_iff]
              intro c hc
              obtain ⟨d, hd, rfl⟩ := List.mem_map.mp hc
              simpa using hhigh.2 d hd
            conv_rhs => rw [← List.take_append_drop (decodeFirst (b :: rest)).2 (b :: rest)]
            rw [hfirst, List.map_append, List.filter_append, htake]

/-- The ASCII bytes of a text are its ASCII characters. -/
theorem filter_flatMap_encodeChar (h : ∀ c ∈ s, IsScalar c) :
    ((s.flatMap encodeChar).map UInt8.toNat).filter (· < 0x80) = s.filter (· < 0x80) := by
  have hdecode : decode [] (s.flatMap encodeChar) = s := decode_encode (encode_eq_some.mpr ⟨h, rfl⟩)
  conv_rhs => rw [← hdecode]
  rw [filter_decode (by simp)]

/-! ## Cuts -/

/-- The number of bytes of a text. -/
def size (s : List ℕ) : ℕ := (s.flatMap encodeChar).length

theorem size_cons (c : ℕ) (s : List ℕ) : size (c :: s) = (encodeChar c).length + size s := by
  rw [size, List.flatMap_cons, List.length_append, size]

/-- The longest beginning of a text in `n` bytes. -/
structure Longest (n : ℕ) (s p : List ℕ) : Prop where
  isPrefix : p <+: s
  fits : size p ≤ n
  longest : ∀ q, q <+: s → size q ≤ n → q <+: p

/-- A decoder that drops errors reads the longest beginning out of the first bytes. -/
theorem longest_decode_take (h : ∀ c ∈ s, IsScalar c) (n : ℕ) :
    Longest n s (decode [] ((s.flatMap encodeChar).take n)) := by
  induction s generalizing n with
  | nil =>
      have hnil : decode [] (([] : List ℕ).flatMap encodeChar |>.take n) = [] := by
        rw [List.flatMap_nil, List.take_nil]
        rfl
      rw [hnil]
      constructor
      · exact List.prefix_refl _
      · exact Nat.zero_le n
      · exact fun q hq _ => hq
  | cons c s ih =>
      have hc := h c List.mem_cons_self
      rw [List.flatMap_cons]
      by_cases hlt : n < (encodeChar c).length
      · have hnil : decode [] ((encodeChar c ++ s.flatMap encodeChar).take n) = [] := by
          rw [List.take_append_of_le_length hlt.le]
          cases n with
          | zero => rfl
          | succ n => exact decode_take hc (Nat.succ_pos n) hlt
        rw [hnil]
        constructor
        · exact List.nil_prefix
        · exact Nat.zero_le n
        · intro q hq hsize
          cases q with
          | nil => exact List.prefix_refl _
          | cons d q =>
              obtain ⟨rfl, _⟩ := List.cons_prefix_cons.mp hq
              rw [size_cons] at hsize
              omega
      · obtain ⟨m, rfl⟩ : ∃ m, n = (encodeChar c).length + m :=
          ⟨n - (encodeChar c).length, by omega⟩
        obtain ⟨hstart, hfits, hlongest⟩ := ih (fun d hd => h d (List.mem_cons_of_mem c hd)) m
        rw [List.take_length_add_append, decode_encodeChar hc]
        constructor
        · exact List.cons_prefix_cons.mpr ⟨rfl, hstart⟩
        · rw [size_cons]
          omega
        · intro q hq hsize
          cases q with
          | nil => exact List.nil_prefix
          | cons d q =>
              obtain ⟨rfl, hrest⟩ := List.cons_prefix_cons.mp hq
              rw [size_cons] at hsize
              exact List.cons_prefix_cons.mpr ⟨rfl, hlongest q hrest (by omega)⟩

end

end AikoIsland.Utf8
