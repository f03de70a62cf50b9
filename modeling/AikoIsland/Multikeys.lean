import AikoIsland.Actuation
import Mathlib.Data.Nat.Digits.Defs

/-!
# One text for each key

The Multikey decoder takes two texts to one raw key only if they are one text. A
text that passes spells the bytes `ed 01` and a key, so its base58 body has no
leading `1`: the bytes give the number back, and a number has one spelling
without leading zeros. The encoder finds that spelling, so every key has a text,
and so has every signature.
-/
namespace AikoIsland.Multikeys
open Signing

/-! ## Digits -/

theorem idxOf?_getElem {cs : List Char} {c : Char} {i : ℕ} (h : cs.idxOf? c = some i) :
    cs[i]? = some c := by
  induction cs generalizing i with
  | nil => cases h
  | cons d cs ih =>
      rw [List.idxOf?_cons] at h
      split_ifs at h with hd
      · obtain rfl := Option.some.inj h
        rw [beq_iff_eq] at hd
        rw [hd]
        rfl
      · obtain ⟨j, hj, rfl⟩ := Option.map_eq_some_iff.mp h
        exact ih hj

theorem b58Index_inj {c d : Char} {i : ℕ} (hc : b58Index c = some i) (hd : b58Index d = some i) :
    c = d := by
  have hcd := (idxOf?_getElem hc).symm.trans (idxOf?_getElem hd)
  exact Option.some.inj hcd

theorem b58Index_lt {c : Char} {i : ℕ} (h : b58Index c = some i) : i < 58 := by
  have hlen : b58Alphabet.length = 58 := by decide
  rw [← hlen]
  exact (List.getElem?_eq_some_iff.mp (idxOf?_getElem h)).1

theorem b58Index_eq_zero {c : Char} (h : b58Index c = some 0) : c = '1' :=
  b58Index_inj h (by decide)

/-- The number of a text is that of its digits, least significant first. -/
theorem b58Number_eq {cs : List Char} {num n : ℕ} (h : b58Number cs num = some n) :
    ∃ ds : List ℕ, List.Forall₂ (fun c d => b58Index c = some d) cs ds ∧
      n = Nat.ofDigits 58 (ds.reverse ++ Nat.digits 58 num) := by
  induction cs generalizing num with
  | nil =>
      obtain rfl := Option.some.inj h
      exact ⟨[], List.Forall₂.nil, by simp [Nat.ofDigits_digits]⟩
  | cons c cs ih =>
      unfold b58Number at h
      cases hc : b58Index c with
      | none =>
          rw [hc] at h
          cases h
      | some d =>
          rw [hc] at h
          obtain ⟨ds, hds, hn⟩ := ih h
          refine ⟨d :: ds, List.Forall₂.cons hc hds, ?_⟩
          have hstep : Nat.ofDigits 58 (Nat.digits 58 (num * 58 + d)) =
              Nat.ofDigits 58 (d :: Nat.digits 58 num) := by
            rw [Nat.ofDigits_digits, Nat.ofDigits_cons, Nat.ofDigits_digits]
            ring
          rw [hn, List.reverse_cons, List.append_assoc, List.singleton_append,
            Nat.ofDigits_append, hstep, ← Nat.ofDigits_append]

theorem exists_index {cs : List Char} {ds : List ℕ} {d : ℕ}
    (h : List.Forall₂ (fun c d => b58Index c = some d) cs ds) (hd : d ∈ ds) :
    ∃ c, b58Index c = some d := by
  induction h with
  | nil => cases hd
  | @cons c e cs ds hc _ ih =>
      cases List.mem_cons.mp hd with
      | inl heq => exact ⟨c, by rw [heq, hc]⟩
      | inr hrest => exact ih hrest

/-- Without a leading `1` the digits are those of the number. -/
theorem digits_of_b58Number {cs : List Char} {n : ℕ} (h : b58Number cs 0 = some n)
    (hone : cs.head? ≠ some '1') :
    List.Forall₂ (fun c d => b58Index c = some d) cs (Nat.digits 58 n).reverse := by
  obtain ⟨ds, hds, hn⟩ := b58Number_eq h
  rw [Nat.digits_zero, List.append_nil] at hn
  have hlt : ∀ d ∈ ds.reverse, d < 58 := by
    intro d hd
    obtain ⟨c, hc⟩ := exists_index hds (List.mem_reverse.mp hd)
    exact b58Index_lt hc
  have hlast : ∀ hne : ds.reverse ≠ [], ds.reverse.getLast hne ≠ 0 := by
    intro hne hzero
    cases hds with
    | nil => exact hne rfl
    | @cons c d cs ds hc hrest =>
        rw [List.getLast_reverse] at hzero
        change d = 0 at hzero
        rw [hzero] at hc
        exact hone (congrArg some (b58Index_eq_zero hc))
  have hdigits := Nat.digits_ofDigits 58 (by decide) ds.reverse hlt hlast
  rw [hn, hdigits, List.reverse_reverse]
  exact hds

theorem texts_eq {cs cs' : List Char} {ds : List ℕ}
    (h : List.Forall₂ (fun c d => b58Index c = some d) cs ds)
    (h' : List.Forall₂ (fun c d => b58Index c = some d) cs' ds) : cs = cs' := by
  induction h generalizing cs' with
  | nil =>
      cases h'
      rfl
  | cons hc _ ih =>
      cases h' with
      | cons hc' hrest' => rw [b58Index_inj hc hc', ih hrest']

/-! ## Bytes -/

/-- The number that a row of bytes spells. -/
def ofBytes (b : Bytes) : ℕ := b.foldl (fun n x => 256 * n + x.toNat) 0

theorem ofBytes_bytesBE {fuel n : ℕ} (h : n < 256 ^ fuel) : ofBytes (bytesBE fuel n) = n := by
  induction fuel generalizing n with
  | zero =>
      have hzero : n = 0 := by simpa using h
      rw [hzero]
      rfl
  | succ fuel ih =>
      rw [bytesBE]
      split_ifs with hzero
      · rw [hzero]
        rfl
      · have hdiv : n / 256 < 256 ^ fuel := by
          rw [Nat.div_lt_iff_lt_mul (by decide)]
          rw [pow_succ] at h
          exact h
        have hlow : (UInt8.ofNat n).toNat = n % 256 := UInt8.toNat_ofNat'
        have hrest := ih hdiv
        simp only [ofBytes] at hrest ⊢
        rw [List.foldl_append, hrest, List.foldl_cons, List.foldl_nil, hlow]
        omega

theorem b58Number_lt {cs : List Char} {num n : ℕ} (h : b58Number cs num = some n) :
    n < (num + 1) * 58 ^ cs.length := by
  induction cs generalizing num with
  | nil =>
      obtain rfl := Option.some.inj h
      simp
  | cons c cs ih =>
      unfold b58Number at h
      cases hc : b58Index c with
      | none =>
          rw [hc] at h
          cases h
      | some d =>
          rw [hc] at h
          have hd := b58Index_lt hc
          have hrest := ih h
          have hle : (num * 58 + d + 1) * 58 ^ cs.length ≤ (num + 1) * 58 * 58 ^ cs.length := by
            apply Nat.mul_le_mul_right
            omega
          calc n < (num * 58 + d + 1) * 58 ^ cs.length := hrest
            _ ≤ (num + 1) * 58 * 58 ^ cs.length := hle
            _ = (num + 1) * 58 ^ (c :: cs).length := by rw [List.length_cons, pow_succ]; ring

theorem no_padding {cs : List Char} (hone : cs.head? ≠ some '1') :
    (cs.takeWhile (· = '1')).length = 0 := by
  cases cs with
  | nil => rfl
  | cons c rest =>
      have hne : c ≠ '1' := fun hc => hone (by rw [hc]; rfl)
      simp [hne]

/-- Bytes that do not begin with a zero come from a number, spelled without a leading `1`. -/
theorem b58decode_of_head {cs : List Char} {b : Bytes} {x : UInt8} (h : b58decode cs = some b)
    (hx : b.head? = some x) (hzero : x ≠ 0) :
    cs.head? ≠ some '1' ∧ ∃ n, b58Number cs 0 = some n ∧ n = ofBytes b := by
  obtain ⟨n, hn, hb⟩ := Option.map_eq_some_iff.mp h
  have hone : cs.head? ≠ some '1' := by
    intro hhead
    obtain ⟨rest, rfl⟩ : ∃ rest, cs = '1' :: rest := by
      cases cs with
      | nil => cases hhead
      | cons c rest => exact ⟨rest, by rw [Option.some.inj hhead]⟩
    rw [← hb] at hx
    simp only [List.takeWhile_cons, decide_true, if_true, List.length_cons, List.replicate_succ,
      List.cons_append, List.head?_cons, Option.some.injEq] at hx
    exact hzero hx.symm
  have hlt : n < 256 ^ cs.length := by
    have hbound := b58Number_lt hn
    have hpow : 58 ^ cs.length ≤ 256 ^ cs.length := Nat.pow_le_pow_left (by decide) _
    omega
  rw [no_padding hone, List.replicate_zero, List.nil_append] at hb
  exact ⟨hone, n, hn, by rw [← hb, ofBytes_bytesBE hlt]⟩

/-! ## Multikeys -/

/-- What an accepted text spells. -/
theorem decodeMultikey_eq_ok {s : String} {raw : Bytes} (h : decodeMultikey s = .ok raw) :
    ∃ body, s.toList = 'z' :: body ∧ b58decode body = some (multicodecEd25519 ++ raw) ∧
      raw.length = pubkeyRawLen := by
  unfold decodeMultikey at h
  split at h
  · cases h
  · rename_i c body heq
    split_ifs at h with hz hlen
    have hc : c = 'z' := by simpa using hz
    split at h
    · cases h
    · rename_i decoded hdecoded
      split_ifs at h with hprefix
      · obtain ⟨rest, hrest⟩ := List.isPrefixOf_iff_prefix.mp hprefix
        dsimp only at h
        split_ifs at h with hraw
        have hdrop : decoded.drop multicodecEd25519.length = rest := by
          rw [← hrest, List.drop_left]
        rw [hdrop] at h hraw
        obtain rfl := Except.ok.inj h
        exact ⟨body, by rw [heq, hc], by rw [hdecoded, hrest], hraw⟩

/-- The decoder is injective on the texts that it accepts. -/
theorem decodeMultikey_inj {s t : String} {raw : Bytes} (hs : decodeMultikey s = .ok raw)
    (ht : decodeMultikey t = .ok raw) : s = t := by
  obtain ⟨body, hbody, hdecode, _⟩ := decodeMultikey_eq_ok hs
  obtain ⟨body', hbody', hdecode', _⟩ := decodeMultikey_eq_ok ht
  have hhead : (multicodecEd25519 ++ raw).head? = some 0xed := rfl
  obtain ⟨hone, n, hn, hval⟩ := b58decode_of_head hdecode hhead (by decide)
  obtain ⟨hone', n', hn', hval'⟩ := b58decode_of_head hdecode' hhead (by decide)
  have hsame : n = n' := hval.trans hval'.symm
  rw [← hsame] at hn'
  have hbodies : body = body' := texts_eq (digits_of_b58Number hn hone)
    (digits_of_b58Number hn' hone')
  apply String.toList_inj.mp
  rw [hbody, hbody', hbodies]

/-! ## Spelling a key -/

theorem ofBytes_append {b : Bytes} {x : UInt8} : ofBytes (b ++ [x]) = 256 * ofBytes b + x.toNat := by
  rw [ofBytes, List.foldl_append, List.foldl_cons, List.foldl_nil, ofBytes]

/-- A row of bytes that does not begin with a zero is spelled by its number. -/
theorem bytesBE_ofBytes {b : Bytes} {fuel : ℕ} (hhead : b.head? ≠ some 0)
    (hfuel : b.length ≤ fuel) : bytesBE fuel (ofBytes b) = b := by
  induction b using List.reverseRecOn generalizing fuel with
  | nil =>
      cases fuel with
      | zero => rfl
      | succ fuel => rfl
  | append_singleton b x ih =>
      rw [List.length_append, List.length_singleton] at hfuel
      obtain ⟨fuel, rfl⟩ : ∃ k, fuel = k + 1 := ⟨fuel - 1, by omega⟩
      have hx := x.toNat_lt
      have hlow : UInt8.ofNat (256 * ofBytes b + x.toNat) = x := uint8_ofNat_eq (by omega)
      have hdiv : (256 * ofBytes b + x.toNat) / 256 = ofBytes b := by omega
      have hbhead : b.head? ≠ some 0 := by
        intro hzero
        apply hhead
        rw [List.head?_append, hzero]
        rfl
      have hne : 256 * ofBytes b + x.toNat ≠ 0 := by
        intro hzero
        have hempty : b = [] := by
          have hnone := ih hbhead (le_refl _)
          rw [show ofBytes b = 0 by omega] at hnone
          cases hlength : b.length with
          | zero => exact List.length_eq_zero_iff.mp hlength
          | succ n =>
              rw [hlength, bytesBE, if_pos rfl] at hnone
              exact hnone.symm
        apply hhead
        rw [hempty, List.nil_append, List.head?_cons]
        exact congrArg some (UInt8.toNat_inj.mp (by simp only [UInt8.toNat_ofNat]; omega))
      rw [ofBytes_append, bytesBE, if_neg hne, hdiv, ih hbhead (by omega), hlow]

theorem ofBytes_lt (b : Bytes) : ofBytes b < 256 ^ b.length := by
  induction b using List.reverseRecOn with
  | nil => exact Nat.zero_lt_one
  | append_singleton b x ih =>
      have hx := x.toNat_lt
      rw [ofBytes_append, List.length_append, List.length_singleton, pow_succ]
      omega

theorem ofBytes_cons_ge {x : UInt8} (hx : x ≠ 0) (rest : Bytes) :
    256 ^ rest.length ≤ ofBytes (x :: rest) := by
  induction rest using List.reverseRecOn with
  | nil =>
      have hpos : x.toNat ≠ 0 := fun h => hx (UInt8.toNat_inj.mp (by simpa using h))
      change 1 ≤ 256 * 0 + x.toNat
      omega
  | append_singleton rest y ih =>
      rw [← List.cons_append, ofBytes_append, List.length_append, List.length_singleton, pow_succ]
      omega

theorem b58Number_append {cs : List Char} {c : Char} {num : ℕ} :
    b58Number (cs ++ [c]) num =
      (b58Number cs num).bind fun m => (b58Index c).map fun i => m * 58 + i := by
  induction cs generalizing num with
  | nil =>
      rw [List.nil_append, b58Number, b58Number, Option.bind_some]
      cases b58Index c <;> rfl
  | cons d cs ih =>
      rw [List.cons_append, b58Number, b58Number]
      cases b58Index d with
      | none => rfl
      | some i => exact ih

theorem b58Index_getD {i : ℕ} (h : i < 58) : b58Index (b58Alphabet.getD i '1') = some i := by
  have hall : ∀ i : Fin 58, b58Index (b58Alphabet.getD i '1') = some i.val := by decide +kernel
  exact hall ⟨i, h⟩

/-- The digits of a number spell it. -/
theorem b58Number_b58Digits {fuel n : ℕ} (h : n < 58 ^ fuel) :
    b58Number (Actuation.b58Digits fuel n).reverse 0 = some n := by
  induction fuel generalizing n with
  | zero =>
      have hzero : n = 0 := by simpa using h
      rw [hzero]
      rfl
  | succ fuel ih =>
      rw [Actuation.b58Digits]
      split_ifs with hzero
      · rw [hzero]
        rfl
      · have hdiv : n / 58 < 58 ^ fuel := by
          rw [Nat.div_lt_iff_lt_mul (by decide)]
          rw [pow_succ] at h
          exact h
        rw [List.reverse_cons, b58Number_append, ih hdiv, b58Index_getD (Nat.mod_lt _ (by decide))]
        simp only [Option.bind_some, Option.map_some]
        congr 1
        omega

theorem head?_b58Digits {fuel n : ℕ} (h : n < 58 ^ fuel) :
    (Actuation.b58Digits fuel n).reverse.head? ≠ some '1' := by
  induction fuel generalizing n with
  | zero => simp [Actuation.b58Digits]
  | succ fuel ih =>
      rw [Actuation.b58Digits]
      split_ifs with hzero
      · simp
      · have hdiv : n / 58 < 58 ^ fuel := by
          rw [Nat.div_lt_iff_lt_mul (by decide)]
          rw [pow_succ] at h
          exact h
        rw [List.reverse_cons, List.head?_append]
        cases hrest : (Actuation.b58Digits fuel (n / 58)).reverse.head? with
        | some c =>
            have hne := ih hdiv
            rw [hrest] at hne
            exact hne
        | none =>
            have hempty : (Actuation.b58Digits fuel (n / 58)).reverse = [] :=
              List.head?_eq_none_iff.mp hrest
            have hquot := b58Number_b58Digits hdiv
            rw [hempty] at hquot
            have hsmall : n / 58 = 0 := (Option.some.inj hquot).symm
            intro hone
            have hindex := b58Index_getD (Nat.mod_lt n (by decide : 58 > 0))
            rw [Option.none_or, List.head?_cons, Option.some.injEq] at hone
            rw [hone] at hindex
            have hdigit : n % 58 = 0 := (Option.some.inj hindex).symm
            omega

theorem length_b58Digits (fuel n : ℕ) : (Actuation.b58Digits fuel n).length ≤ fuel := by
  induction fuel generalizing n with
  | zero => simp [Actuation.b58Digits]
  | succ fuel ih =>
      rw [Actuation.b58Digits]
      split_ifs with hzero
      · simp
      · rw [List.length_cons]
        exact Nat.succ_le_succ (ih _)

/-! ## Leading zeros -/

theorem takeWhile_replicate_append {α : Type} [DecidableEq α] {a : α} {k : ℕ} {xs : List α}
    (h : xs.head? ≠ some a) :
    ((List.replicate k a ++ xs).takeWhile (· = a)).length = k := by
  induction k with
  | zero =>
      cases xs with
      | nil => rfl
      | cons x xs =>
          have hx : x ≠ a := fun hx => h (by rw [hx]; rfl)
          simp [hx]
  | succ k ih =>
      rw [List.replicate_succ, List.cons_append, List.takeWhile_cons_of_pos (by simp),
        List.length_cons, ih]

/-- A word splits into its leading copies of a letter and the rest. -/
theorem exists_replicate_append {α : Type} [DecidableEq α] (a : α) (xs : List α) :
    ∃ k rest, xs = List.replicate k a ++ rest ∧ rest.head? ≠ some a := by
  induction xs with
  | nil => exact ⟨0, [], rfl, by simp⟩
  | cons x xs ih =>
      by_cases hx : x = a
      · obtain ⟨k, rest, hxs, hrest⟩ := ih
        exact ⟨k + 1, rest, by rw [hx, hxs, List.replicate_succ, List.cons_append], hrest⟩
      · exact ⟨0, x :: xs, rfl, by simpa using hx⟩

theorem ofBytes_zeros {k : ℕ} {b : Bytes} : ofBytes (List.replicate k 0 ++ b) = ofBytes b := by
  induction k with
  | zero => rfl
  | succ k ih =>
      rw [List.replicate_succ, List.cons_append, ← ih]
      rfl

theorem b58Number_ones {k : ℕ} {cs : List Char} :
    b58Number (List.replicate k '1' ++ cs) 0 = b58Number cs 0 := by
  induction k with
  | zero => rfl
  | succ k ih =>
      have hone : b58Index '1' = some 0 := by decide
      rw [List.replicate_succ, List.cons_append, b58Number, hone]
      exact ih

theorem head?_bytesBE {fuel n : ℕ} (h : n < 256 ^ fuel) : (bytesBE fuel n).head? ≠ some 0 := by
  induction fuel generalizing n with
  | zero => simp [bytesBE]
  | succ fuel ih =>
      rw [bytesBE]
      split_ifs with hzero
      · simp
      · have hdiv : n / 256 < 256 ^ fuel := by
          rw [Nat.div_lt_iff_lt_mul (by decide)]
          rw [pow_succ] at h
          exact h
        rw [List.head?_append]
        cases hrest : (bytesBE fuel (n / 256)).head? with
        | some x =>
            have hne := ih hdiv
            rw [hrest] at hne
            exact hne
        | none =>
            have hquot := ofBytes_bytesBE hdiv
            rw [List.head?_eq_none_iff.mp hrest] at hquot
            change 0 = n / 256 at hquot
            rw [Option.none_or, List.head?_cons]
            intro hlow
            have hbyte : (UInt8.ofNat n).toNat = 0 := by
              rw [Option.some.inj hlow]
              rfl
            rw [UInt8.toNat_ofNat'] at hbyte
            omega

theorem b58encode_eq (k : ℕ) {b : Bytes} (hb : b.head? ≠ some 0) :
    Actuation.b58encode (List.replicate k 0 ++ b) =
      List.replicate k '1' ++ (Actuation.b58Digits (2 * (k + b.length)) (ofBytes b)).reverse := by
  have hnum : (List.replicate k (0 : UInt8) ++ b).foldl (fun n x => n * 256 + x.toNat) 0 = ofBytes b := by
    rw [← ofBytes_zeros (k := k), ofBytes]
    congr 1
    funext n x
    ring
  unfold Actuation.b58encode
  dsimp only
  rw [hnum, takeWhile_replicate_append hb, List.length_append, List.length_replicate]

theorem b58decode_eq (k : ℕ) {cs : List Char} (hcs : cs.head? ≠ some '1') :
    b58decode (List.replicate k '1' ++ cs) =
      (b58Number cs 0).map fun n => List.replicate k 0 ++ bytesBE (k + cs.length) n := by
  unfold b58decode
  rw [b58Number_ones, takeWhile_replicate_append hcs, List.length_append, List.length_replicate]

/-- Two digits hold a byte. -/
theorem lt_pow_of_lt {n m k : ℕ} (h : n < 256 ^ m) (hk : m ≤ k) : n < 58 ^ (2 * k) := by
  have hpow : (256 : ℕ) ^ m ≤ 58 ^ (2 * m) := by
    rw [pow_mul]
    exact Nat.pow_le_pow_left (by norm_num) m
  have hmono : (58 : ℕ) ^ (2 * m) ≤ 58 ^ (2 * k) := Nat.pow_le_pow_right (by decide) (by omega)
  omega

/-- Every row of bytes is decoded from its spelling. -/
theorem b58decode_b58encode (b : Bytes) : b58decode (Actuation.b58encode b) = some b := by
  obtain ⟨k, rest, rfl, hrest⟩ := exists_replicate_append 0 b
  have hlt : ofBytes rest < 58 ^ (2 * (k + rest.length)) :=
    lt_pow_of_lt (ofBytes_lt rest) (Nat.le_add_left _ _)
  rw [b58encode_eq k hrest, b58decode_eq k (head?_b58Digits hlt), b58Number_b58Digits hlt,
    Option.map_some]
  congr 2
  apply bytesBE_ofBytes hrest
  -- a byte needs at least one digit
  cases hbytes : rest with
  | nil => simp
  | cons x tail =>
      have hx : x ≠ 0 := fun hx => hrest (by rw [hbytes, hx]; rfl)
      have hlow := ofBytes_cons_ge hx tail
      have hhigh := b58Number_lt (b58Number_b58Digits hlt)
      rw [hbytes] at hhigh
      by_contra hle
      rw [List.length_cons] at hle
      have hpow : (58 : ℕ) ^ (Actuation.b58Digits (2 * (k + (x :: tail).length))
          (ofBytes (x :: tail))).reverse.length ≤ 256 ^ tail.length :=
        (Nat.pow_le_pow_left (by decide) _).trans
          (Nat.pow_le_pow_right (by decide) (by rw [List.length_cons]; omega))
      omega

/-- No other text is decoded to the bytes. -/
theorem b58encode_of_b58decode {cs : List Char} {b : Bytes} (h : b58decode cs = some b) :
    Actuation.b58encode b = cs := by
  obtain ⟨k, ds, rfl, hds⟩ := exists_replicate_append '1' cs
  rw [b58decode_eq k hds] at h
  obtain ⟨n, hn, rfl⟩ := Option.map_eq_some_iff.mp h
  have hlt : n < 256 ^ (k + ds.length) := by
    have hbound := b58Number_lt hn
    have hpow : 58 ^ ds.length ≤ 256 ^ (k + ds.length) :=
      (Nat.pow_le_pow_left (by decide) _).trans (Nat.pow_le_pow_right (by decide) (by omega))
    omega
  have hdigits : n < 58 ^ (2 * (k + (bytesBE (k + ds.length) n).length)) := by
    have hbytes := ofBytes_lt (bytesBE (k + ds.length) n)
    rw [ofBytes_bytesBE hlt] at hbytes
    exact lt_pow_of_lt hbytes (Nat.le_add_left _ _)
  rw [b58encode_eq k (head?_bytesBE hlt), ofBytes_bytesBE hlt]
  congr 1
  exact texts_eq (digits_of_b58Number (b58Number_b58Digits hdigits) (head?_b58Digits hdigits))
    (digits_of_b58Number hn hds)

theorem length_b58encode_le (b : Bytes) : (Actuation.b58encode b).length ≤ 3 * b.length := by
  unfold Actuation.b58encode
  dsimp only
  rw [List.length_append, List.length_replicate, List.length_reverse]
  have hzeros := (List.takeWhile_sublist (fun x : UInt8 => decide (x = 0)) (l := b)).length_le
  have hdigits := length_b58Digits (2 * b.length) (b.foldl (fun n x => n * 256 + x.toNat) 0)
  omega

/-- The spelling of a key is accepted and gives the key back. -/
theorem decodeMultikey_encodeMultikey {raw : Bytes} (h : raw.length = pubkeyRawLen) :
    decodeMultikey (Actuation.encodeMultikey raw) = .ok raw := by
  have hlen : (multicodecEd25519 ++ raw).length = 34 := by
    rw [List.length_append, h]
    rfl
  have hshort := length_b58encode_le (multicodecEd25519 ++ raw)
  have hprefix : multicodecEd25519.isPrefixOf (multicodecEd25519 ++ raw) = true :=
    List.isPrefixOf_iff_prefix.mpr (List.prefix_append _ _)
  unfold decodeMultikey Actuation.encodeMultikey
  rw [String.toList_ofList]
  dsimp only
  rw [if_neg (by simp), if_neg (by rw [List.length_cons, maxB58Str]; omega), b58decode_b58encode]
  dsimp only
  rw [if_pos hprefix, List.drop_left, if_pos h]

/-- An accepted text is the spelling of its key. -/
theorem encodeMultikey_of_decodeMultikey {s : String} {raw : Bytes}
    (h : decodeMultikey s = .ok raw) : Actuation.encodeMultikey raw = s := by
  obtain ⟨body, hbody, hdecode, _⟩ := decodeMultikey_eq_ok h
  apply String.toList_inj.mp
  rw [Actuation.encodeMultikey, String.toList_ofList, b58encode_of_b58decode hdecode, hbody]

/-! ## Dynamic texts -/

open Tables Messages Actuation

theorem plainText_codes (s : String) : plainText (codes s) = s := by
  rw [plainText, codes, List.map_map]
  have hmap : s.toList.map (Char.ofNat ∘ Char.toNat) = s.toList := by
    conv_rhs => rw [← List.map_id s.toList]
    exact List.map_congr_left fun c _ => Char.ofNat_toNat c
  rw [hmap, String.ofList_toList]

/-- What is no character is read as NUL. -/
theorem codes_plainText {s : PyStr} (h : Char.ofNat 0 ∉ (plainText s).toList) :
    codes (plainText s) = s := by
  have hvalid : ∀ n ∈ s, n.isValidChar := by
    intro n hn
    by_contra hinvalid
    apply h
    rw [plainText, String.toList_ofList]
    apply List.mem_map.mpr
    refine ⟨n, hn, ?_⟩
    rw [Char.ofNat, dif_neg hinvalid]
    rfl
  apply codes_encode
  rw [encode, if_pos (by simpa using hvalid)]
  rfl

theorem index_of_b58Number {cs : List Char} {num n : ℕ} (h : b58Number cs num = some n) :
    ∀ c ∈ cs, b58Index c ≠ none := by
  induction cs generalizing num with
  | nil =>
      intro c hc
      cases hc
  | cons d cs ih =>
      unfold b58Number at h
      cases hd : b58Index d with
      | none =>
          rw [hd] at h
          cases h
      | some i =>
          rw [hd] at h
          intro c hc
          rcases List.mem_cons.mp hc with rfl | hc
          · rw [hd]
            exact Option.some_ne_none i
          · exact ih h c hc

theorem nul_notMem {s : String} {raw : Bytes} (h : decodeMultikey s = .ok raw) :
    Char.ofNat 0 ∉ s.toList := by
  obtain ⟨body, hbody, hdecode, _⟩ := decodeMultikey_eq_ok h
  obtain ⟨n, hn, _⟩ := Option.map_eq_some_iff.mp hdecode
  rw [hbody]
  intro hnul
  rcases List.mem_cons.mp hnul with hz | hnul
  · exact absurd hz (by decide)
  · exact index_of_b58Number hn _ hnul (by decide)

/-- Two dynamic texts of one key are one text. -/
theorem decodeMultikey_plainText_inj {s t : PyStr} {raw : Bytes}
    (hs : decodeMultikey (plainText s) = .ok raw) (ht : decodeMultikey (plainText t) = .ok raw) :
    s = t := by
  have hsame := decodeMultikey_inj hs ht
  calc
    s = codes (plainText s) := (codes_plainText (nul_notMem hs)).symm
    _ = codes (plainText t) := by rw [hsame]
    _ = t := codes_plainText (nul_notMem ht)

theorem length_le_of_decodeMultikey {s : String} {raw : Bytes} (h : decodeMultikey s = .ok raw) :
    s.toList.length ≤ maxB58Str := by
  unfold decodeMultikey at h
  split at h
  · cases h
  · split_ifs at h with hz hlen
    exact not_lt.mp hlen

/-! ## Spelling a signature -/

theorem length_sextets (b : Bytes) : (sextets b).length = (b.length * 8 + 5) / 6 := by
  induction b using sextets.induct with
  | case1 a b c rest ih =>
      simp only [sextets, List.length_cons, ih]
      omega
  | case2 a b => simp [sextets]
  | case3 a => simp [sextets]
  | case4 => rfl

theorem length_of_b64urlRaw {s field : String} {n : ℕ} {raw : Bytes}
    (h : b64urlRaw s n field = .ok raw) : raw.length = n := by
  unfold b64urlRaw at h
  dsimp only at h
  split_ifs at h
  split at h
  · cases h
  · split_ifs at h with hlength
    cases h
    exact not_not.mp hlength

theorem isUnpaddedB64url_map {ns : List ℕ} (hns : ∀ n ∈ ns, n < 64) (hne : ns ≠ []) :
    isUnpaddedB64url (ns.map b64Char) = true := by
  have hline : ∀ i : Fin 64, b64Char i ≠ '\n' := by decide +kernel
  have hlast : (ns.map b64Char).getLast? ≠ some '\n' := by
    intro h
    obtain ⟨n, hn, hchar⟩ := List.mem_map.mp (List.mem_of_getLast? h)
    exact hline ⟨n, hns n hn⟩ hchar
  unfold isUnpaddedB64url
  rw [if_neg hlast, Bool.and_eq_true, Bool.not_eq_true', List.isEmpty_eq_false_iff, List.all_eq_true]
  constructor
  · simpa using hne
  · intro c hc
    obtain ⟨n, hn, rfl⟩ := List.mem_map.mp hc
    rw [b64Index_b64Char (hns n hn)]
    rfl

theorem b64urlRaw_bytesToBase64url {b : Bytes} {n : ℕ} {field : String} (hlength : b.length = n)
    (hpos : 0 < n) : b64urlRaw (bytesToBase64url b) n field = .ok b := by
  have htext : (bytesToBase64url b).toList = b64Encode b := by
    rw [bytesToBase64url, String.toList_ofList]
  have hcount : (b64Encode b).length = (n * 8 + 5) / 6 := by
    rw [b64Encode_eq, List.length_map, length_sextets, hlength]
  have hcharset : isUnpaddedB64url (b64Encode b) = true := by
    rw [b64Encode_eq]
    apply isUnpaddedB64url_map sextets_lt
    intro hnil
    rw [b64Encode_eq, hnil, List.map_nil, List.length_nil] at hcount
    omega
  have hmod : (b64Encode b).length % 4 ≠ 1 := by
    rw [b64Encode_eq, List.length_map]
    exact length_sextets_mod b
  have hdecode : urlsafeB64decode (b64Encode b ++
      List.replicate ((4 - (b64Encode b).length % 4) % 4) '=') = some b := by
    rw [replicate_eq_padding hmod]
    exact urlsafeB64decode_encode b
  unfold b64urlRaw
  dsimp only
  rw [htext, if_neg (by omega), hcharset, Bool.not_true, if_neg Bool.false_ne_true, hdecode]
  dsimp only
  rw [if_neg (not_not.mpr hlength), if_neg (not_not.mpr rfl)]

end AikoIsland.Multikeys
