import AikoIsland.Multikeys

/-!
# Canonical codecs

Base58 is a bijection between rows of bytes and texts over its alphabet, leading
zeros and leading `1` included, so a key has one Multikey and a Multikey that is
accepted is the one of its key. The strict base64url decoder accepts exactly the
unpadded encoding of a row of bytes of the length that it is asked for. That of no
bytes is the empty text, which its character check refuses.
-/
namespace AikoIsland.Codecs
open Tables Signing Actuation Multikeys

/-! ## base64url -/

theorem b64urlRaw_eq_ok {s field : String} {n : ℕ} {raw : Bytes} (hpos : 0 < n) :
    b64urlRaw s n field = .ok raw ↔ raw.length = n ∧ s = bytesToBase64url raw := by
  constructor
  · intro h
    have hlength : raw.length = n := length_of_b64urlRaw h
    unfold b64urlRaw at h
    dsimp only at h
    split_ifs at h
    split at h
    · cases h
    · split_ifs at h with hexact hcanonical
      obtain rfl := Except.ok.inj h
      constructor
      · exact hlength
      · rw [bytesToBase64url, not_not.mp hcanonical, String.ofList_toList]
  · rintro ⟨hlength, rfl⟩
    exact b64urlRaw_bytesToBase64url hlength hpos

theorem nul_notMem_b64Encode (b : Bytes) : Char.ofNat 0 ∉ b64Encode b := by
  have hall : ∀ i : Fin 64, b64Char i ≠ Char.ofNat 0 := by decide +kernel
  rw [b64Encode_eq]
  intro hmem
  obtain ⟨n, hn, hchar⟩ := List.mem_map.mp hmem
  exact hall ⟨n, sextets_lt n hn⟩ hchar

/-- Read as a dynamic text: what is no character is in no encoding. -/
theorem plainText_eq_bytesToBase64url {s : PyStr} {b : Bytes} :
    plainText s = bytesToBase64url b ↔ s = codes (bytesToBase64url b) := by
  constructor
  · intro h
    have hnul : Char.ofNat 0 ∉ (plainText s).toList := by
      rw [h, bytesToBase64url, String.toList_ofList]
      exact nul_notMem_b64Encode b
    rw [← h, codes_plainText hnul]
  · rintro rfl
    exact plainText_codes _

theorem bytesToBase64url_inj {b b' : Bytes} (h : bytesToBase64url b = bytesToBase64url b') :
    b = b' := by
  have hb := base64urlToBytes_bytesToBase64url b
  rw [h, base64urlToBytes_bytesToBase64url] at hb
  exact (Option.some.inj hb).symm

theorem accepted_iff {s : PyStr} {n : ℕ} {field : String} {raw : Bytes} (hpos : 0 < n) :
    b64urlRaw (plainText s) n field = .ok raw ↔
      raw.length = n ∧ s = codes (bytesToBase64url raw) := by
  rw [b64urlRaw_eq_ok hpos, plainText_eq_bytesToBase64url]

/-! ## Multikeys -/

/-- A dynamic text that is accepted is the spelling of its key. -/
theorem codes_encodeMultikey {s : PyStr} {raw : Bytes}
    (h : decodeMultikey (plainText s) = .ok raw) : codes (encodeMultikey raw) = s := by
  rw [encodeMultikey_of_decodeMultikey h, codes_plainText (nul_notMem h)]

/-- Every key is decoded from its Multikey and an accepted text is the Multikey of its key, so no
two texts name one key; for every positive length the base64url decoder accepts a text if and only
if it is the unpadded encoding of some row of bytes of that length, of one only, and returns it. -/
theorem codecs_are_canonical :
    (∀ raw : Bytes, raw.length = pubkeyRawLen → decodeMultikey (encodeMultikey raw) = .ok raw) ∧
    (∀ (s : PyStr) (raw : Bytes), decodeMultikey (plainText s) = .ok raw →
      codes (encodeMultikey raw) = s) ∧
    (∀ (s t : PyStr) (raw : Bytes), decodeMultikey (plainText s) = .ok raw →
      decodeMultikey (plainText t) = .ok raw → s = t) ∧
    ∀ n : ℕ, 1 ≤ n → ∀ (s : PyStr) (field : String),
      (∀ raw : Bytes, b64urlRaw (plainText s) n field = .ok raw ↔
        raw.length = n ∧ s = codes (bytesToBase64url raw)) ∧
      ((∃ raw, b64urlRaw (plainText s) n field = .ok raw) ↔
        ∃! raw : Bytes, raw.length = n ∧ s = codes (bytesToBase64url raw)) := by
  constructor
  · exact fun raw h => decodeMultikey_encodeMultikey h
  constructor
  · exact fun s raw h => codes_encodeMultikey h
  constructor
  · exact fun s t raw hs ht => (codes_encodeMultikey hs).symm.trans (codes_encodeMultikey ht)
  · intro n hpos s field
    constructor
    · exact fun raw => accepted_iff hpos
    constructor
    · rintro ⟨raw, h⟩
      use raw
      constructor
      · exact (accepted_iff hpos).mp h
      · rintro other ⟨_, hs⟩
        have hsame : codes (bytesToBase64url other) = codes (bytesToBase64url raw) :=
          hs.symm.trans ((accepted_iff hpos).mp h).2
        have htext := congrArg plainText hsame
        rw [plainText_codes, plainText_codes] at htext
        exact bytesToBase64url_inj htext
    · rintro ⟨raw, h, _⟩
      exact ⟨raw, (accepted_iff hpos).mpr h⟩

/-- The empty text encodes no bytes and is refused for the length zero. -/
theorem the_empty_text_is_refused :
    ¬ ∀ (n : ℕ) (s : PyStr) (field : String) (raw : Bytes),
      b64urlRaw (plainText s) n field = .ok raw ↔
        raw.length = n ∧ s = codes (bytesToBase64url raw) := by
  intro h
  have hempty := (h 0 [] "sig" []).mpr ⟨rfl, by decide⟩
  revert hempty
  decide

end AikoIsland.Codecs
