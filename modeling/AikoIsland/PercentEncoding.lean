import AikoIsland.Utf8

/-!
# Percent-encoding

Every byte that is not safe is written as a percent sign and two digits; a reader puts
the byte back and leaves a percent sign without two digits behind it as it is. On a
text the reader works on the ASCII between two other characters, and what it finds
there is UTF-8 with a mark for every error.

What was quoted is read back. A text from which some bytes were taken before it is
read can only have fewer bytes left of those that count, for an escape that comes
together when something between its characters is gone takes them with it.
-/
namespace AikoIsland.PercentEncoding
open Utf8

def percent : UInt8 := 0x25

/-- The value of a hexadecimal digit. -/
def hexValue (b : UInt8) : Option ℕ :=
  if 0x30 ≤ b.toNat && b.toNat ≤ 0x39 then some (b.toNat - 0x30)
  else if 0x41 ≤ b.toNat && b.toNat ≤ 0x46 then some (b.toNat - 0x37)
  else if 0x61 ≤ b.toNat && b.toNat ≤ 0x66 then some (b.toNat - 0x57)
  else none

def hexDigit (n : ℕ) : UInt8 := UInt8.ofNat (if n < 10 then 0x30 + n else 0x37 + n)

/-- The byte that an escape stands for. -/
def escaped (b h l : UInt8) : Option UInt8 :=
  if b = percent then
    match hexValue h, hexValue l with
    | some hi, some lo => some (UInt8.ofNat (hi * 16 + lo))
    | _, _ => none
  else none

/-- `unquote_to_bytes`. -/
def unquoteToBytes : List UInt8 → List UInt8
  | [] => []
  | [b] => [b]
  | [b, c] => [b, c]
  | b :: h :: l :: rest =>
      match escaped b h l with
      | some byte => byte :: unquoteToBytes rest
      | none => b :: unquoteToBytes (h :: l :: rest)

def isAlwaysSafe (b : UInt8) : Bool :=
  0x30 ≤ b.toNat && b.toNat ≤ 0x39 || 0x41 ≤ b.toNat && b.toNat ≤ 0x5A ||
    0x61 ≤ b.toNat && b.toNat ≤ 0x7A || b.toNat ∈ [0x5F, 0x2E, 0x2D, 0x7E]

def quoteByte (safe : List UInt8) (b : UInt8) : List UInt8 :=
  if isAlwaysSafe b || b ∈ safe then [b]
  else [percent, hexDigit (b.toNat / 16), hexDigit (b.toNat % 16)]

/-- `quote`; `none` is a `UnicodeEncodeError`. -/
def quote (safe : List UInt8) (s : List ℕ) : Option (List ℕ) :=
  (encode s).map fun bytes => (bytes.flatMap (quoteByte safe)).map UInt8.toNat

/-- What the decoder puts in the place of an error. -/
def replacement : List ℕ := [0xFFFD]

/-- The runs of ASCII are read on their own. -/
def unquoteParts : List UInt8 → List ℕ → List ℕ
  | run, [] => decode replacement (unquoteToBytes run)
  | run, c :: rest =>
      if c < 0x80 then unquoteParts (run ++ [UInt8.ofNat c]) rest
      else decode replacement (unquoteToBytes run) ++ c :: unquoteParts [] rest

/-- `unquote`. -/
def unquote (s : List ℕ) : List ℕ :=
  if percent.toNat ∈ s then unquoteParts [] s else s

section
variable {safe : List UInt8} {s : List ℕ} {b : UInt8} {bytes rest : List UInt8}

/-! ## Reading bytes -/

theorem unquoteToBytes_cons_of_ne (h : b ≠ percent) (rest : List UInt8) :
    unquoteToBytes (b :: rest) = b :: unquoteToBytes rest := by
  rcases rest with _ | ⟨c, _ | ⟨d, rest⟩⟩
  · rfl
  · rfl
  · rw [unquoteToBytes, escaped, if_neg h]

/-- A byte stays, or is the percent sign of an escape. -/
theorem unquoteToBytes_cons (b : UInt8) (rest : List UInt8) :
    unquoteToBytes (b :: rest) = b :: unquoteToBytes rest ∨
      ∃ h l tail byte, rest = h :: l :: tail ∧ b = percent ∧ (hexValue h).isSome ∧
        (hexValue l).isSome ∧ escaped b h l = some byte ∧
        unquoteToBytes (b :: rest) = byte :: unquoteToBytes tail := by
  rcases rest with _ | ⟨h, _ | ⟨l, tail⟩⟩
  · exact Or.inl rfl
  · exact Or.inl rfl
  · cases hescaped : escaped b h l with
    | none =>
        left
        rw [unquoteToBytes, hescaped]
    | some byte =>
        right
        have hparts : b = percent ∧ (hexValue h).isSome ∧ (hexValue l).isSome := by
          unfold escaped at hescaped
          split_ifs at hescaped with hb
          cases hh : hexValue h <;> cases hl : hexValue l <;> simp_all
        refine ⟨h, l, tail, byte, rfl, hparts.1, hparts.2.1, hparts.2.2, hescaped, ?_⟩
        rw [unquoteToBytes, hescaped]

theorem ne_percent_of_hexValue (h : (hexValue b).isSome) : b ≠ percent := by
  rintro rfl
  revert h
  decide

theorem unquoteToBytes_hex {h l : UInt8} (hh : (hexValue h).isSome) (hl : (hexValue l).isSome)
    (rest : List UInt8) :
    unquoteToBytes (h :: l :: rest) = h :: l :: unquoteToBytes rest := by
  rw [unquoteToBytes_cons_of_ne (ne_percent_of_hexValue hh),
    unquoteToBytes_cons_of_ne (ne_percent_of_hexValue hl)]

/-- A byte that is in no escape parts what is read. -/
theorem unquoteToBytes_append (hb : b ≠ percent) (hhex : hexValue b = none)
    (bytes rest : List UInt8) :
    unquoteToBytes (bytes ++ b :: rest) = unquoteToBytes bytes ++ b :: unquoteToBytes rest := by
  have hmid (a c : UInt8) : escaped a b c = none := by
    unfold escaped
    rw [hhex]
    split_ifs <;> rfl
  have hend (a c : UInt8) : escaped a c b = none := by
    unfold escaped
    rw [hhex]
    split_ifs
    · cases hexValue c <;> rfl
    · rfl
  have hone (a : UInt8) : unquoteToBytes (a :: b :: rest) = a :: b :: unquoteToBytes rest := by
    cases rest with
    | nil => rfl
    | cons c rest =>
        rw [unquoteToBytes, hmid]
        dsimp only
        rw [unquoteToBytes_cons_of_ne hb]
  induction bytes using unquoteToBytes.induct with
  | case1 => exact unquoteToBytes_cons_of_ne hb rest
  | case2 a => exact hone a
  | case3 a c =>
      have hread : unquoteToBytes (a :: c :: b :: rest) = a :: unquoteToBytes (c :: b :: rest) := by
        rw [unquoteToBytes, hend]
      change unquoteToBytes (a :: c :: b :: rest) = a :: c :: b :: unquoteToBytes rest
      rw [hread, hone]
  | case4 a h l tail byte hescaped ih =>
      change unquoteToBytes (a :: h :: l :: (tail ++ b :: rest)) = _
      rw [unquoteToBytes, unquoteToBytes, hescaped]
      dsimp only
      rw [ih, List.cons_append]
  | case5 a h l tail hescaped ih =>
      change unquoteToBytes (a :: h :: l :: (tail ++ b :: rest)) = _
      rw [unquoteToBytes, unquoteToBytes, hescaped]
      dsimp only
      rw [← List.cons_append, ← List.cons_append, ih, List.cons_append]

theorem unquoteToBytes_of_notMem (h : percent ∉ bytes) : unquoteToBytes bytes = bytes := by
  induction bytes with
  | nil => rfl
  | cons b bytes ih =>
      rw [List.mem_cons, not_or] at h
      rw [unquoteToBytes_cons_of_ne (Ne.symm h.1), ih h.2]

/-! ## What was quoted is read back -/

theorem hexValue_hexDigit {n : ℕ} (h : n < 16) : hexValue (hexDigit n) = some n := by
  interval_cases n <;> rfl

theorem escaped_hexDigit (b : UInt8) :
    escaped percent (hexDigit (b.toNat / 16)) (hexDigit (b.toNat % 16)) = some b := by
  have hlt := b.toNat_lt
  rw [escaped, if_pos rfl, hexValue_hexDigit (by omega), hexValue_hexDigit (by omega)]
  dsimp only
  rw [Nat.div_add_mod', UInt8.ofNat_toNat]

theorem isAlwaysSafe_ne_percent (h : isAlwaysSafe b = true) : b ≠ percent := by
  rintro rfl
  revert h
  decide

theorem unquoteToBytes_quoteByte (hsafe : percent ∉ safe) (b : UInt8) (rest : List UInt8) :
    unquoteToBytes (quoteByte safe b ++ rest) = b :: unquoteToBytes rest := by
  unfold quoteByte
  split_ifs with h
  · have hne : b ≠ percent := by
      rw [Bool.or_eq_true, decide_eq_true_eq] at h
      rcases h with h | h
      · exact isAlwaysSafe_ne_percent h
      · exact fun hb => hsafe (hb ▸ h)
    exact unquoteToBytes_cons_of_ne hne rest
  · change unquoteToBytes (percent :: _ :: _ :: rest) = _
    rw [unquoteToBytes, escaped_hexDigit]

theorem unquoteToBytes_flatMap_quoteByte (hsafe : percent ∉ safe) (bytes : List UInt8) :
    unquoteToBytes (bytes.flatMap (quoteByte safe)) = bytes := by
  induction bytes with
  | nil => rfl
  | cons b bytes ih => rw [List.flatMap_cons, unquoteToBytes_quoteByte hsafe, ih]

/-- What is quoted is safe, or a percent sign, or a digit. -/
theorem mem_quoteByte {c : UInt8} (h : c ∈ quoteByte safe b) :
    isAlwaysSafe c = true ∨ c ∈ safe ∨ c = percent := by
  unfold quoteByte at h
  have hdigit {n : ℕ} (hn : n < 16) : isAlwaysSafe (hexDigit n) = true := by
    interval_cases n <;> rfl
  have hlt := b.toNat_lt
  split_ifs at h with hb
  · rw [List.mem_singleton] at h
    rw [Bool.or_eq_true, decide_eq_true_eq] at hb
    rw [h]
    exact hb.elim Or.inl fun hsafe => Or.inr (Or.inl hsafe)
  · simp only [List.mem_cons, List.not_mem_nil, or_false] at h
    rcases h with rfl | rfl | rfl
    · exact Or.inr (Or.inr rfl)
    · exact Or.inl (hdigit (by omega))
    · exact Or.inl (hdigit (by omega))

/-! ## Reading texts -/

/-- ASCII bytes are their own text. -/
theorem flatMap_encodeChar_map (h : ∀ b ∈ bytes, b.toNat < 0x80) :
    (bytes.map UInt8.toNat).flatMap encodeChar = bytes := by
  induction bytes with
  | nil => rfl
  | cons b bytes ih =>
      have hb := h b List.mem_cons_self
      rw [List.map_cons, List.flatMap_cons, ih fun c hc => h c (List.mem_cons_of_mem b hc),
        encodeChar, if_pos hb, UInt8.ofNat_toNat]
      rfl

theorem high_encodeChar {c : ℕ} (h : IsScalar c) (hc : 0x80 ≤ c) :
    ∀ b ∈ encodeChar c, 0x80 ≤ b.toNat := by
  have hfirst := decodeFirst_encodeChar h []
  cases hbytes : encodeChar c with
  | nil => simp
  | cons b tail =>
      rw [hbytes, List.append_nil] at hfirst
      by_cases hb : b.toNat < 0x80
      · rw [decodeFirst_ascii hb] at hfirst
        simp only [Prod.mk.injEq, Option.some.injEq] at hfirst
        omega
      · have hhigh := (decodeFirst_of_high (not_lt.mp hb) tail).2
        rw [hfirst] at hhigh
        simpa using hhigh

theorem hexValue_of_high (h : 0x80 ≤ b.toNat) : hexValue b = none := by
  unfold hexValue
  rw [if_neg (by simp; omega), if_neg (by simp; omega), if_neg (by simp; omega)]

theorem ne_percent_of_high (h : 0x80 ≤ b.toNat) : b ≠ percent := by
  rintro rfl
  revert h
  decide

theorem unquoteToBytes_high {high : List UInt8} (h : ∀ b ∈ high, 0x80 ≤ b.toNat)
    (rest : List UInt8) : unquoteToBytes (high ++ rest) = high ++ unquoteToBytes rest := by
  induction high with
  | nil => rfl
  | cons b high ih =>
      rw [List.cons_append, unquoteToBytes_cons_of_ne (ne_percent_of_high (h b List.mem_cons_self)),
        ih fun c hc => h c (List.mem_cons_of_mem b hc), List.cons_append]

theorem unquoteToBytes_encodeChar {c : ℕ} (h : IsScalar c) (hc : 0x80 ≤ c)
    (bytes rest : List UInt8) :
    unquoteToBytes (bytes ++ (encodeChar c ++ rest)) =
      unquoteToBytes bytes ++ (encodeChar c ++ unquoteToBytes rest) := by
  have hhigh := high_encodeChar h hc
  have hpos := length_encodeChar_pos c
  cases hbytes : encodeChar c with
  | nil =>
      rw [hbytes] at hpos
      cases hpos
  | cons b tail =>
      rw [hbytes] at hhigh
      have hb := hhigh b List.mem_cons_self
      rw [List.cons_append, unquoteToBytes_append (ne_percent_of_high hb) (hexValue_of_high hb),
        unquoteToBytes_high fun d hd => hhigh d (List.mem_cons_of_mem b hd), List.cons_append]

theorem unquoteParts_eq (h : ∀ c ∈ s, IsScalar c) (run : List UInt8) :
    unquoteParts run s = decode replacement (unquoteToBytes (run ++ s.flatMap encodeChar)) := by
  induction s generalizing run with
  | nil => rw [unquoteParts, List.flatMap_nil, List.append_nil]
  | cons c s ih =>
      have hc := h c List.mem_cons_self
      have hs : ∀ d ∈ s, IsScalar d := fun d hd => h d (List.mem_cons_of_mem c hd)
      rw [unquoteParts, List.flatMap_cons]
      split_ifs with hascii
      · rw [ih hs, List.append_assoc]
        congr 3
        rw [encodeChar, if_pos hascii]
      · rw [unquoteToBytes_encodeChar hc (not_lt.mp hascii),
          decode_append_encodeChar hc (not_lt.mp hascii), ih hs, List.nil_append]

/-- The runs are read as the whole text. -/
theorem unquote_eq (h : ∀ c ∈ s, IsScalar c) :
    unquote s = decode replacement (unquoteToBytes (s.flatMap encodeChar)) := by
  unfold unquote
  split_ifs with hpercent
  · exact unquoteParts_eq h []
  · have hmem : percent ∉ s.flatMap encodeChar := by
      intro hmem
      have hascii : percent.toNat ∈
          ((s.flatMap encodeChar).map UInt8.toNat).filter (· < 0x80) :=
        List.mem_filter.mpr ⟨List.mem_map_of_mem hmem, by decide⟩
      rw [filter_flatMap_encodeChar h] at hascii
      exact hpercent (List.mem_filter.mp hascii).1
    rw [unquoteToBytes_of_notMem hmem, decode_encode (encode_eq_some.mpr ⟨h, rfl⟩)]

theorem lt_of_isAlwaysSafe (h : isAlwaysSafe b = true) : b.toNat < 0x80 := by
  unfold isAlwaysSafe at h
  simp at h
  omega

theorem ascii_quote (hascii : ∀ b ∈ safe, b.toNat < 0x80) (bytes : List UInt8) :
    ∀ b ∈ bytes.flatMap (quoteByte safe), b.toNat < 0x80 := by
  intro b hb
  obtain ⟨c, _, hb⟩ := List.mem_flatMap.mp hb
  rcases mem_quoteByte hb with hsafe | hsafe | rfl
  · exact lt_of_isAlwaysSafe hsafe
  · exact hascii b hsafe
  · decide

/-- What was quoted is unquoted. -/
theorem unquote_quote {quoted : List ℕ} (hsafe : percent ∉ safe)
    (hascii : ∀ b ∈ safe, b.toNat < 0x80) (h : quote safe s = some quoted) :
    unquote quoted = s := by
  obtain ⟨bytes, hbytes, rfl⟩ := Option.map_eq_some_iff.mp h
  have hlow := ascii_quote hascii bytes
  have hscalar : ∀ c ∈ (bytes.flatMap (quoteByte safe)).map UInt8.toNat, IsScalar c := by
    intro c hc
    obtain ⟨b, hb, rfl⟩ := List.mem_map.mp hc
    have hlt := hlow b hb
    left
    omega
  rw [unquote_eq hscalar, flatMap_encodeChar_map hlow, unquoteToBytes_flatMap_quoteByte hsafe,
    decode_encode hbytes]

/-! ## Bytes that are left out -/

section
variable {out counts : UInt8 → Bool}

/-- The bytes of an escape are not left out. -/
theorem out_eq_false (hout : ∀ b, out b = true → b ≠ percent ∧ hexValue b = none)
    (h : b = percent ∨ (hexValue b).isSome) : out b = false := by
  by_contra hb
  obtain ⟨hne, hhex⟩ := hout b (by simpa using hb)
  rcases h with rfl | hsome
  · exact hne rfl
  · rw [hhex] at hsome
    cases hsome

theorem filter_escape (hout : ∀ b, out b = true → b ≠ percent ∧ hexValue b = none) {h l : UInt8}
    (hh : (hexValue h).isSome) (hl : (hexValue l).isSome) (rest : List UInt8) :
    (percent :: h :: l :: rest).filter (fun b => !out b) =
      percent :: h :: l :: rest.filter fun b => !out b := by
  simp [out_eq_false hout (Or.inl rfl), out_eq_false hout (Or.inr hh),
    out_eq_false hout (Or.inr hl)]

theorem countP_unquoteToBytes_cons (hpercent : counts percent = true) (b : UInt8)
    (rest : List UInt8) :
    (unquoteToBytes (b :: rest)).countP counts ≤
      [b].countP counts + (unquoteToBytes rest).countP counts := by
  rcases unquoteToBytes_cons b rest with hkept |
    ⟨h, l, tail, byte, rfl, rfl, hh, hl, _, hescaped⟩
  · rw [hkept, ← List.singleton_append, List.countP_append]
  · rw [hescaped, unquoteToBytes_hex hh hl]
    simp only [List.countP_cons, List.countP_nil, hpercent]
    split_ifs <;> omega

/-- Without some bytes that are no percent signs and no digits, what is read has fewer of the bytes
that count, the percent sign and those bytes among them. -/
theorem countP_unquoteToBytes_filter (hpercent : counts percent = true)
    (hout : ∀ b, out b = true → b ≠ percent ∧ hexValue b = none ∧ counts b = true)
    (bytes : List UInt8) :
    (unquoteToBytes (bytes.filter fun b => !out b)).countP counts + bytes.countP out ≤
      (unquoteToBytes bytes).countP counts := by
  have hnoEscape : ∀ b, out b = true → b ≠ percent ∧ hexValue b = none :=
    fun b hb => ⟨(hout b hb).1, (hout b hb).2.1⟩
  induction hlen : bytes.length using Nat.strong_induction_on generalizing bytes with
  | _ n ih =>
      cases bytes with
      | nil => rfl
      | cons b rest =>
          rw [List.length_cons] at hlen
          rcases unquoteToBytes_cons b rest with hread |
            ⟨h, l, tail, byte, rfl, rfl, hh, hl, hbyte, hread⟩
          · have hrest := ih rest.length (by omega) rest rfl
            rw [hread]
            cases hb : out b with
            | true =>
                have hcounts := (hout b hb).2.2
                simp only [List.filter_cons, List.countP_cons, hb, hcounts]
                simp only [Bool.not_true, Bool.false_eq_true, if_false, if_true]
                omega
            | false =>
                have hcons := countP_unquoteToBytes_cons hpercent b (rest.filter fun b => !out b)
                simp only [List.filter_cons, List.countP_cons, hb]
                simp only [Bool.not_false, if_true, Bool.false_eq_true, if_false]
                simp only [List.countP_cons, List.countP_nil] at hcons
                omega
          · rw [List.length_cons, List.length_cons] at hlen
            have htail := ih tail.length (by omega) tail rfl
            rw [hread, filter_escape hnoEscape hh hl, unquoteToBytes, hbyte]
            simp only [List.countP_cons, out_eq_false hnoEscape (Or.inl rfl),
              out_eq_false hnoEscape (Or.inr hh), out_eq_false hnoEscape (Or.inr hl)]
            simp only [Bool.false_eq_true, if_false]
            omega

theorem mem_unquoteToBytes_cons (hhex : hexValue b = none) {c : UInt8}
    (h : b ∈ unquoteToBytes rest) : b ∈ unquoteToBytes (c :: rest) := by
  rcases unquoteToBytes_cons c rest with hread |
    ⟨d, l, tail, byte, rfl, rfl, hd, hl, _, hread⟩
  · rw [hread]
    exact List.mem_cons_of_mem c h
  · rw [unquoteToBytes_hex hd hl] at h
    rw [hread]
    have hne {d : UInt8} (hd : (hexValue d).isSome) : b ≠ d := by
      rintro rfl
      rw [hhex] at hd
      cases hd
    simp only [List.mem_cons, hne hd, hne hl, false_or] at h
    exact List.mem_cons_of_mem byte h

theorem mem_unquoteToBytes (hhex : hexValue b = none) (hne : b ≠ percent) (h : b ∈ bytes) :
    b ∈ unquoteToBytes bytes := by
  induction bytes with
  | nil => cases h
  | cons c bytes ih =>
      rcases List.mem_cons.mp h with rfl | h
      · rw [unquoteToBytes_cons_of_ne hne]
        exact List.mem_cons_self
      · exact mem_unquoteToBytes_cons hhex (ih h)

end

end

end AikoIsland.PercentEncoding
