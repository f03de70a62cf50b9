import AikoIsland.Reactions
import AikoIsland.Utf8
import Mathlib.Data.List.DropRight

/-!
# Labels of passkeys

A label is what the caller sent, without the white space around it: it is refused for
any character that a dialog cannot show, cut to 64 bytes between two characters, and
refused if the cut shows nothing. The joiners that a cut leaves at the end go with it.

The categories are those of the Unicode database, of which only the surrogates
matter here: they are what cannot be encoded.
-/
namespace AikoIsland.PasskeyLabels
open Tables Utf8

/-- The general categories. -/
inductive Category where
  | lu | ll | lt | lm | lo | mn | mc | me | nd | nl | no | pc | pd | ps | pe | pi | pf | po
  | sm | sc | sk | so | zs | zl | zp | cc | cf | cs | co | cn
  deriving DecidableEq

inductive LabelStatus where
  | given
  | absent
  | malformed
  | rejected
  deriving DecidableEq

/-- What a caller sends; a `str` has code points only. -/
inductive Raw where
  | none
  | str (s : { s : PyStr // ∀ c ∈ s, c < 0x110000 })
  | other

def passkeyLabelMaxBytes : ℕ := 64

def labelRefusedCategories : List Category := [.cc, .cs, .zl, .zp]

def labelInvisibleCategories : List Category := [.cf, .mn, .me, .zs]

def zeroWidthJoiner : ℕ := 0x200d

/-- `passkey_label`; `none` is a `UnicodeEncodeError`. -/
def passkeyLabel (category : ℕ → Category) : Raw → Option (Option PyStr × LabelStatus)
  | .none => some (none, .absent)
  | .other => some (none, .rejected)
  | .str s =>
      let text := Reactions.strip s.1
      if text = [] || text.any (fun c => category c ∈ labelRefusedCategories) then
        some (none, .rejected)
      else
        match encode text with
        | none => none
        | some encoded =>
            let text :=
              if passkeyLabelMaxBytes < encoded.length then
                (decode [] (encoded.take passkeyLabelMaxBytes)).rdropWhile (· = zeroWidthJoiner)
              else text
            if text.all (fun c => category c ∈ labelInvisibleCategories) then some (none, .rejected)
            else some (some text, .given)

/-! ## What is returned -/

/-- Surrogates have the category `Cs`. -/
def SurrogatesAreCs (category : ℕ → Category) : Prop :=
  ∀ c, 0xD800 ≤ c → c ≤ 0xDFFF → category c = .cs

/-- The text if it fits, and otherwise its longest beginning that fits without the joiners at its
end. -/
def IsCut (text label : PyStr) : Prop :=
  size text ≤ passkeyLabelMaxBytes ∧ label = text ∨
    passkeyLabelMaxBytes < size text ∧ ∃ p, Longest passkeyLabelMaxBytes text p ∧
      label = p.rdropWhile (· = zeroWidthJoiner)

section
variable {category : ℕ → Category} {text label : PyStr}

theorem mem_strip {s : PyStr} {c : ℕ} (h : c ∈ Reactions.strip s) : c ∈ s := by
  rw [Reactions.strip, List.mem_reverse] at h
  have hmem := (List.dropWhile_sublist _).subset h
  exact (List.dropWhile_sublist _).subset (List.mem_reverse.mp hmem)

/-- What is not refused can be encoded. -/
theorem isScalar_of_notRefused (h : SurrogatesAreCs category) {c : ℕ} (hc : c < 0x110000)
    (hkept : category c ∉ labelRefusedCategories) : IsScalar c := by
  by_contra hnot
  have hsurrogate : 0xD800 ≤ c ∧ c ≤ 0xDFFF := by
    unfold IsScalar at hnot
    omega
  rw [h c hsurrogate.1 hsurrogate.2] at hkept
  exact hkept (by decide)

theorem isCut_iff (hscalar : ∀ c ∈ text, IsScalar c) : IsCut text label ↔
    label = if passkeyLabelMaxBytes < size text then
      (decode [] ((text.flatMap encodeChar).take passkeyLabelMaxBytes)).rdropWhile
        (· = zeroWidthJoiner)
      else text := by
  have hlongest := longest_decode_take hscalar passkeyLabelMaxBytes
  unfold IsCut
  split_ifs with hlong
  · constructor
    · rintro (⟨hshort, _⟩ | ⟨_, p, hp, rfl⟩)
      · omega
      · have hle := hlongest.longest p hp.isPrefix hp.fits
        have hge := hp.longest _ hlongest.isPrefix hlongest.fits
        rw [hle.eq_of_length_le hge.length_le]
    · exact fun hlabel => Or.inr ⟨hlong, _, hlongest, hlabel⟩
  · constructor
    · rintro (⟨_, rfl⟩ | ⟨hlong', _⟩)
      · rfl
      · exact absurd hlong' hlong
    · exact fun hlabel => Or.inl ⟨not_lt.mp hlong, hlabel⟩

theorem size_mono {p q : PyStr} (h : p <+: q) : size p ≤ size q := by
  obtain ⟨rest, rfl⟩ := h
  rw [size, size, List.flatMap_append, List.length_append]
  omega

/-- A cut is a beginning of the text in 64 bytes. -/
theorem IsCut.isPrefix (h : IsCut text label) :
    label <+: text ∧ size label ≤ passkeyLabelMaxBytes := by
  rcases h with ⟨hshort, rfl⟩ | ⟨_, p, hp, rfl⟩
  · exact ⟨List.prefix_refl _, hshort⟩
  · have hcut : p.rdropWhile (fun c => c = zeroWidthJoiner) <+: p := List.rdropWhile_prefix _ _
    exact ⟨hcut.trans hp.isPrefix, (size_mono hcut).trans hp.fits⟩

/-- The label of a text. -/
theorem passkeyLabel_str (h : SurrogatesAreCs category)
    (s : { s : PyStr // ∀ c ∈ s, c < 0x110000 }) :
    (∃ status, passkeyLabel category (.str s) = some (none, status)) ∧
        (¬∃ label, (∀ c ∈ Reactions.strip s.1, category c ∉ labelRefusedCategories) ∧
          IsCut (Reactions.strip s.1) label ∧ ∃ c ∈ label, category c ∉ labelInvisibleCategories) ∨
      ∃ label, passkeyLabel category (.str s) = some (some label, .given) ∧
        (∀ c ∈ Reactions.strip s.1, category c ∉ labelRefusedCategories) ∧
        IsCut (Reactions.strip s.1) label ∧
        ∃ c ∈ label, category c ∉ labelInvisibleCategories := by
  unfold passkeyLabel
  dsimp only
  generalize htext : Reactions.strip s.1 = text
  split_ifs with hrefused
  · left
    constructor
    · exact ⟨_, rfl⟩
    · rintro ⟨label, hkept, hcut, c, hc, _⟩
      rw [Bool.or_eq_true, decide_eq_true_eq] at hrefused
      rcases hrefused with hempty | hany
      · rw [hempty] at hcut
        have hmem := hcut.isPrefix.1.subset hc
        cases hmem
      · obtain ⟨d, hd, hcategory⟩ := List.any_eq_true.mp hany
        exact hkept d hd (by simpa using hcategory)
  · have hkept : ∀ c ∈ text, category c ∉ labelRefusedCategories := by
      intro c hc hcategory
      apply hrefused
      rw [Bool.or_eq_true, List.any_eq_true]
      exact Or.inr ⟨c, hc, by simpa using hcategory⟩
    have hscalar : ∀ c ∈ text, IsScalar c := by
      intro c hc
      apply isScalar_of_notRefused h _ (hkept c hc)
      rw [← htext] at hc
      exact s.2 c (mem_strip hc)
    rw [encode_eq_some.mpr ⟨hscalar, rfl⟩]
    dsimp only
    generalize hlabel : (if passkeyLabelMaxBytes < (text.flatMap encodeChar).length then
      (decode [] ((text.flatMap encodeChar).take passkeyLabelMaxBytes)).rdropWhile
        (· = zeroWidthJoiner) else text) = label
    have hcut : IsCut text label := (isCut_iff hscalar).mpr hlabel.symm
    split_ifs with hinvisible
    · left
      constructor
      · exact ⟨_, rfl⟩
      · rintro ⟨label', _, hcut', c, hc, hvisible⟩
        have hsame : label' = label := ((isCut_iff hscalar).mp hcut').trans hlabel
        rw [hsame] at hc
        exact hvisible (by simpa using List.all_eq_true.mp hinvisible c hc)
    · right
      have hvisible : ∃ c ∈ label, category c ∉ labelInvisibleCategories := by
        simpa using hinvisible
      exact ⟨label, rfl, hkept, hcut, hvisible⟩

/-- For every input a label is returned if and only if the input is a text that, stripped, has no
refused character and whose cut shows a visible one, and it is that cut; it has at most 64 bytes;
and nothing is raised. -/
theorem passkey_labels (h : SurrogatesAreCs category) (raw : Raw) :
    (∃ result, passkeyLabel category raw = some result) ∧
    (∀ label, (∃ status, passkeyLabel category raw = some (some label, status)) ↔
      ∃ s, raw = .str s ∧ (∀ c ∈ Reactions.strip s.1, category c ∉ labelRefusedCategories) ∧
        IsCut (Reactions.strip s.1) label ∧
        ∃ c ∈ label, category c ∉ labelInvisibleCategories) ∧
    ∀ label status, passkeyLabel category raw = some (some label, status) →
      ∃ bytes, encode label = some bytes ∧ bytes.length ≤ 64 := by
  cases raw with
  | none =>
      constructor
      · exact ⟨_, rfl⟩
      constructor
      · intro label
        constructor
        · rintro ⟨status, hlabel⟩
          cases hlabel
        · rintro ⟨s, hraw, _⟩
          cases hraw
      · intro label status hlabel
        cases hlabel
  | other =>
      constructor
      · exact ⟨_, rfl⟩
      constructor
      · intro label
        constructor
        · rintro ⟨status, hlabel⟩
          cases hlabel
        · rintro ⟨s, hraw, _⟩
          cases hraw
      · intro label status hlabel
        cases hlabel
  | str s =>
      rcases passkeyLabel_str h s with ⟨⟨status, hnone⟩, hnot⟩ | ⟨label, hgiven, hkept, hcut, hvisible⟩
      · rw [hnone]
        constructor
        · exact ⟨_, rfl⟩
        constructor
        · intro label
          constructor
          · rintro ⟨_, hlabel⟩
            cases hlabel
          · rintro ⟨_, ⟨rfl⟩, hlabel⟩
            exact absurd ⟨label, hlabel⟩ hnot
        · intro label status hlabel
          cases hlabel
      · have hscalar : ∀ c ∈ Reactions.strip s.1, IsScalar c := fun c hc =>
          isScalar_of_notRefused h (s.2 c (mem_strip hc)) (hkept c hc)
        rw [hgiven]
        constructor
        · exact ⟨_, rfl⟩
        constructor
        · intro label'
          constructor
          · rintro ⟨_, ⟨rfl⟩⟩
            exact ⟨s, rfl, hkept, hcut, hvisible⟩
          · rintro ⟨_, ⟨rfl⟩, _, hcut', _⟩
            have hsame : label' = label :=
              ((isCut_iff hscalar).mp hcut').trans ((isCut_iff hscalar).mp hcut).symm
            exact ⟨.given, by rw [hsame]⟩
        · rintro _ _ ⟨rfl⟩
          obtain ⟨hstart, hsize⟩ := hcut.isPrefix
          use label.flatMap encodeChar
          constructor
          · exact encode_eq_some.mpr ⟨fun c hc => hscalar c (hstart.subset hc), rfl⟩
          · exact hsize

end

/-! ## A label of two joined characters -/

/-- The categories of blanks, letters, controls, surrogates and the joiner. -/
def someCategories (c : ℕ) : Category :=
  if c < 0x20 then .cc
  else if c = 0x20 then .zs
  else if c = zeroWidthJoiner then .cf
  else if 0xD800 ≤ c && c ≤ 0xDFFF then .cs
  else .lo

/-- White space goes, and the joiner that the caller sent at the end stays. -/
theorem passkey_labels_joined :
    ∃ status, passkeyLabel someCategories
      (.str ⟨[0x20, 0x61, zeroWidthJoiner, 0x20], by decide⟩) =
        some (some [0x61, zeroWidthJoiner], status) := by
  have h : SurrogatesAreCs someCategories := by
    intro c hlow hhigh
    unfold someCategories zeroWidthJoiner
    rw [if_neg (by omega), if_neg (by omega), if_neg (by omega), if_pos (by simp; omega)]
  apply ((passkey_labels h (.str ⟨[0x20, 0x61, zeroWidthJoiner, 0x20], by decide⟩)).2.1 _).mpr
  have hstrip : Reactions.strip [0x20, 0x61, zeroWidthJoiner, 0x20] = [0x61, zeroWidthJoiner] := by
    decide
  refine ⟨⟨[0x20, 0x61, zeroWidthJoiner, 0x20], by decide⟩, rfl, ?_, Or.inl ?_, 0x61, ?_⟩
  · rw [hstrip]
    decide
  · rw [hstrip]
    decide
  · decide

end AikoIsland.PasskeyLabels
