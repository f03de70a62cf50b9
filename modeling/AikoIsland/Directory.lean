import AikoIsland.Communities
import AikoIsland.Paging
import AikoIsland.SignedBytes

/-!
# Walking the directory

A cursor decodes to the key and the id that it was made of, whatever characters the
key has: the id has no separator, so the last one ends the key. The page after a
cursor is then the beginning of what follows its row in the order of the listing,
and following the cursors lists every community once that the search finds.

The search finds the names that contain its text, but for texts with U+0000: `LIKE`
reads the pattern and the name up to it, and the percent sign behind it is lost. A
text whose pattern is too long is refused as soon as there is a row to compare.

Community ids are unique and have no separator, as ULIDs do not.
-/
namespace AikoIsland.Directory
open Tables Signing SignedBytes Communities Paging

/-! ## The codec -/

theorem decodeUtf8_utf8 (s : String) : decodeUtf8 (utf8 s) = some s := by
  have hbytes : (utf8 s).toByteArray = s.toByteArray := by
    rw [← String.utf8Encode_toList]
    rfl
  rw [decodeUtf8, hbytes, String.fromUTF8?, dif_pos s.isValidUTF8]
  rfl

theorem splitOnce_append {sep : Char} {xs : List Char} (h : sep ∉ xs) (ys : List Char) :
    splitOnce sep (xs ++ sep :: ys) = some (xs, ys) := by
  have hxs : ∀ c ∈ xs, decide (c ≠ sep) = true := by
    intro c hc
    rw [decide_eq_true_eq]
    rintro rfl
    exact h hc
  have htake : (xs ++ sep :: ys).takeWhile (fun c => decide (c ≠ sep)) = xs := by
    rw [List.takeWhile_append_of_pos hxs]
    simp
  have hdrop : (xs ++ sep :: ys).dropWhile (fun c => decide (c ≠ sep)) = sep :: ys := by
    rw [List.dropWhile_append_of_pos hxs]
    simp
  rw [splitOnce, if_pos (by simp), htake, hdrop]
  rfl

theorem rsplitOnce_append {sep : Char} {ys : List Char} (h : sep ∉ ys) (xs : List Char) :
    rsplitOnce sep (xs ++ sep :: ys) = some (xs, ys) := by
  have hreverse : (xs ++ sep :: ys).reverse = ys.reverse ++ sep :: xs.reverse := by simp
  rw [rsplitOnce, hreverse, splitOnce_append (by simpa using h)]
  simp

theorem sep_notMem_text (sort : SortMode) : cursorSep ∉ sort.text.toList := by
  cases sort with
  | members => decide
  | name => decide

/-- The separator of a cursor may occur in the key, not in the id. -/
theorem decodeCursor_encodeCursor (sort expected : SortMode) (sortKey : String)
    {communityId : String} (h : cursorSep ∉ communityId.toList) :
    decodeCursor (encodeCursor sort sortKey communityId) expected =
      if sort = expected then .ok (sortKey, communityId) else .error .invalidCursor := by
  unfold decodeCursor encodeCursor
  dsimp only
  rw [String.toList_ofList, urlsafeB64decode_encode, Option.bind_some, decodeUtf8_utf8]
  dsimp only
  rw [String.toList_ofList, List.append_assoc, List.cons_append,
    splitOnce_append (sep_notMem_text sort)]
  dsimp only
  rw [rsplitOnce_append h]
  dsimp only
  rw [String.ofList_toList, String.ofList_toList, String.ofList_toList]
  cases sort with
  | members =>
      cases expected with
      | members => rfl
      | name => rfl
  | name =>
      cases expected with
      | members => rfl
      | name => rfl

theorem encodeCursor_ne_empty (sort : SortMode) (sortKey communityId : String) :
    encodeCursor sort sortKey communityId ≠ "" := by
  intro h
  have hdecoded : (urlsafeB64decode (encodeCursor sort sortKey communityId).toList) ≠ some [] := by
    unfold encodeCursor
    dsimp only
    rw [String.toList_ofList, urlsafeB64decode_encode]
    intro hnil
    have htext := congrArg decodeUtf8 (Option.some.inj hnil)
    rw [decodeUtf8_utf8] at htext
    have hempty : decodeUtf8 [] = some "" := decodeUtf8_utf8 ""
    rw [hempty] at htext
    have hlist := congrArg String.toList (Option.some.inj htext)
    simp at hlist
  apply hdecoded
  rw [h]
  rfl

/-! ## Counts in cursors -/

section
variable {u : Unicode}

theorem isDigit_lt {c : Char} (h : c.isDigit = true) : c.toNat < 128 ∧ 48 ≤ c.toNat := by
  simp only [Char.isDigit, Bool.and_eq_true, decide_eq_true_eq] at h
  have hlow : 48 ≤ c.val.toNat := h.1
  have hhigh : c.val.toNat ≤ 57 := h.2
  change c.val.toNat < 128 ∧ 48 ≤ c.val.toNat
  omega

theorem decimals_eq {ds : List Char} (h : ∀ c ∈ ds, c.isDigit = true) (acc : ℕ) :
    decimals u acc ds = some (Nat.ofDigitChars 10 ds acc) := by
  induction ds generalizing acc with
  | nil => simp [decimals]
  | cons c ds ih =>
      have hc := h c List.mem_cons_self
      have hvalue : decimalOf u c = some (c.toNat - 48) := by
        rw [decimalOf, if_pos (isDigit_lt hc).1, if_pos hc]
      rw [decimals, hvalue, Option.bind_some, ih fun d hd => h d (List.mem_cons_of_mem _ hd),
        Nat.ofDigitChars_cons, Nat.mul_comm]
      rfl

theorem digits_repr (n : ℕ) : (toString n).toList = Nat.toDigits 10 n := by
  rw [Nat.toString_eq_ofList_toDigits, String.toList_ofList]

theorem isDigit_toDigits {n : ℕ} {c : Char} (h : c ∈ Nat.toDigits 10 n) : c.isDigit = true :=
  Nat.isDigit_of_mem_toDigits (by decide) (by decide) h

theorem isDigit_all (n : ℕ) : (Nat.toDigits 10 n).all (isDigit u) = true := by
  rw [List.all_eq_true]
  intro c hc
  have hdigit := isDigit_toDigits hc
  rw [isDigit, if_pos (isDigit_lt hdigit).1, hdigit]

theorem dropWhile_toDigits (n : ℕ) :
    (Nat.toDigits 10 n).dropWhile (· == '-') = Nat.toDigits 10 n := by
  cases hds : Nat.toDigits 10 n with
  | nil => rfl
  | cons c cs =>
      have hc : c.isDigit = true := isDigit_toDigits (hds ▸ List.mem_cons_self)
      have hne : (c == '-') = false := by
        rw [beq_eq_false_iff_ne]
        rintro rfl
        exact absurd hc (by decide)
      simp [hne]

/-- The text of a count is read back. -/
theorem countOf_toString (mc : ℤ) : countOf u (toString mc) = .ok mc := by
  cases mc with
  | ofNat n =>
      have htext : (toString (Int.ofNat n)).toList = Nat.toDigits 10 n := digits_repr n
      have hvalue : pyInt u (Nat.toDigits 10 n) = some (n : ℤ) := by
        have hds := decimals_eq (u := u) (fun c hc => isDigit_toDigits (n := n) hc) 0
        rw [Nat.ofDigitChars_ten_toDigits] at hds
        cases hcs : Nat.toDigits 10 n with
        | nil => exact absurd hcs Nat.toDigits_ne_nil
        | cons c cs =>
            have hc : c ≠ '-' := by
              rintro rfl
              exact absurd (isDigit_toDigits (hcs ▸ List.mem_cons_self)) (by decide)
            rw [hcs] at hds
            unfold pyInt
            split
            · next heq => cases heq
            · next heq => exact absurd (List.cons.inj heq).1 hc
            · rw [hds]
              rfl
      unfold countOf
      dsimp only
      rw [htext, dropWhile_toDigits, hvalue, if_neg]
      · rfl
      · simp [isDigit_all, Nat.toDigits_ne_nil]
  | negSucc n =>
      have htext : (toString (Int.negSucc n)).toList = '-' :: Nat.toDigits 10 (n + 1) := by
        have hneg : toString (Int.negSucc n) = "-" ++ toString (n + 1) := rfl
        rw [hneg, String.toList_append, digits_repr]
        rfl
      have hvalue : pyInt u ('-' :: Nat.toDigits 10 (n + 1)) = some (Int.negSucc n) := by
        have hds := decimals_eq (u := u) (fun c hc => isDigit_toDigits (n := n + 1) hc) 0
        rw [Nat.ofDigitChars_ten_toDigits] at hds
        rw [pyInt, if_neg Nat.toDigits_ne_nil, hds]
        rfl
      unfold countOf
      dsimp only
      have hdrop : ('-' :: Nat.toDigits 10 (n + 1)).dropWhile (· == '-') =
          Nat.toDigits 10 (n + 1) := by
        rw [List.dropWhile_cons]
        simpa using dropWhile_toDigits (n + 1)
      rw [htext, hdrop, hvalue, if_neg]
      simp [isDigit_all, Nat.toDigits_ne_nil]

end

/-! ## The search text -/

/-- The characters that `LIKE` reads in a pattern. -/
def Special (c : Char) : Prop := c = '\\' ∨ c = '%' ∨ c = '_'

instance : DecidablePred Special := fun _ => inferInstanceAs (Decidable (_ ∨ _ ∨ _))

theorem ofNat_upper {c : Char} (h : 65 ≤ c.toNat ∧ c.toNat ≤ 90) :
    Char.ofNat (65 + (⟨c.toNat - 65, by omega⟩ : Fin 26)) = c := by
  have hsum : 65 + (c.toNat - 65) = c.toNat := by omega
  change Char.ofNat (65 + (c.toNat - 65)) = c
  rw [hsum, Char.ofNat_toNat]

theorem toLower_of_not_upper {c : Char} (h : ¬(65 ≤ c.toNat ∧ c.toNat ≤ 90)) : c.toLower = c := by
  refine dif_neg fun hupper => ?_
  have hlow : 65 ≤ c.val.toNat := hupper.1
  have hhigh : c.val.toNat ≤ 90 := hupper.2
  exact h ⟨hlow, hhigh⟩

theorem special_toLower (c : Char) : Special c.toLower ↔ Special c := by
  by_cases hc : 65 ≤ c.toNat ∧ c.toNat ≤ 90
  · have hall : ∀ i : Fin 26, ¬Special (Char.ofNat (65 + i)).toLower ∧
        ¬Special (Char.ofNat (65 + i)) := by decide
    have hi := hall ⟨c.toNat - 65, by omega⟩
    rw [ofNat_upper hc] at hi
    exact iff_of_false hi.1 hi.2
  · rw [toLower_of_not_upper hc]

theorem toLower_of_special {c : Char} (h : Special c) : c.toLower = c := by
  rcases h with rfl | rfl | rfl
  all_goals decide

theorem escapeLike_cons (c : Char) (q : List Char) :
    escapeLike (c :: q) = (if Special c then ['\\', c] else [c]) ++ escapeLike q := rfl

theorem map_escapeLike (q : List Char) :
    (escapeLike q).map Char.toLower = escapeLike (q.map Char.toLower) := by
  induction q with
  | nil => rfl
  | cons c q ih =>
      rw [escapeLike_cons, List.map_append, ih, List.map_cons, escapeLike_cons]
      congr 1
      by_cases hc : Special c
      · rw [if_pos hc, if_pos ((special_toLower c).mpr hc), toLower_of_special hc]
        simp [toLower_of_special hc]
      · rw [if_neg hc, if_neg (mt (special_toLower c).mp hc)]
        rfl

theorem like_plain_nil {c : Char} (h : ¬Special c) (p : List Char) : like (c :: p) [] = false := by
  unfold like
  split
  · next heq => cases heq
  · next heq => exact absurd (Or.inr (Or.inl (List.cons.inj heq).1)) h
  · rfl
  · rfl
  · rfl
  · rfl

theorem like_plain_cons {c : Char} (h : ¬Special c) (p : List Char) (x : Char) (rest : List Char) :
    like (c :: p) (x :: rest) = (x.toLower == c.toLower && like p rest) := by
  conv_lhs => unfold like
  split
  · next heq => cases heq
  · next heq => exact absurd (Or.inr (Or.inl (List.cons.inj heq).1)) h
  · next heq => exact absurd (Or.inr (Or.inr (List.cons.inj heq).1)) h
  · next heq => exact absurd (Or.inl (List.cons.inj heq).1) h
  · next heq => exact absurd (Or.inl (List.cons.inj heq).1) h
  · next heq =>
      obtain ⟨hc, hp⟩ := List.cons.inj heq
      rw [hc, hp]

theorem toLower_toLower (c : Char) : c.toLower.toLower = c.toLower := by
  by_cases hc : 65 ≤ c.toNat ∧ c.toNat ≤ 90
  · have hall : ∀ i : Fin 26, (Char.ofNat (65 + i)).toLower.toLower =
        (Char.ofNat (65 + i)).toLower := by decide
    have hi := hall ⟨c.toNat - 65, by omega⟩
    rwa [ofNat_upper hc] at hi
  · rw [toLower_of_not_upper hc, toLower_of_not_upper hc]

/-- An escaped text in a pattern matches the texts that read the same without case. -/
theorem like_escapeLike (q p text : List Char) :
    like (escapeLike q ++ p) text = true ↔ ∃ head rest, text = head ++ rest ∧
      head.map Char.toLower = q.map Char.toLower ∧ like p rest = true := by
  induction q generalizing text with
  | nil =>
      constructor
      · intro h
        exact ⟨[], text, rfl, rfl, h⟩
      · rintro ⟨head, rest, rfl, hhead, hrest⟩
        rw [List.map_eq_nil_iff.mp hhead]
        exact hrest
  | cons c q ih =>
      have hcons : ∀ x rest, (x.toLower == c.toLower && like (escapeLike q ++ p) rest) = true ↔
          ∃ head tail, x :: rest = head ++ tail ∧
            head.map Char.toLower = (c :: q).map Char.toLower ∧ like p tail = true := by
        intro x rest
        rw [Bool.and_eq_true, beq_iff_eq, ih]
        constructor
        · rintro ⟨hx, head, tail, rfl, hhead, htail⟩
          exact ⟨x :: head, tail, rfl, by rw [List.map_cons, hx, hhead, List.map_cons], htail⟩
        · rintro ⟨head, tail, hsplit, hhead, htail⟩
          cases head with
          | nil => cases hhead
          | cons y head =>
              obtain ⟨rfl, rfl⟩ := List.cons.inj hsplit
              obtain ⟨hx, hrest⟩ := List.cons.inj hhead
              exact ⟨hx, head, tail, rfl, hrest, htail⟩
      have hempty : ¬∃ head tail, ([] : List Char) = head ++ tail ∧
          head.map Char.toLower = (c :: q).map Char.toLower ∧ like p tail = true := by
        rintro ⟨head, tail, hsplit, hhead, _⟩
        rw [(List.append_eq_nil_iff.mp hsplit.symm).1] at hhead
        cases hhead
      by_cases hc : Special c
      · have hescaped : escapeLike (c :: q) ++ p = '\\' :: c :: (escapeLike q ++ p) := by
          rw [escapeLike_cons, if_pos hc]
          rfl
        rw [hescaped]
        cases text with
        | nil =>
            rw [like]
            exact iff_of_false (by decide) hempty
        | cons x rest =>
            rw [← hcons]
            rfl
      · have hplain : escapeLike (c :: q) ++ p = c :: (escapeLike q ++ p) := by
          rw [escapeLike_cons, if_neg hc]
          rfl
        rw [hplain]
        cases text with
        | nil =>
            rw [like_plain_nil hc]
            exact iff_of_false (by decide) hempty
        | cons x rest => rw [← hcons, like_plain_cons hc]

theorem map_toLower_map (cs : List Char) :
    (cs.map Char.toLower).map Char.toLower = cs.map Char.toLower := by
  rw [List.map_map]
  apply List.map_congr_left
  intro c _
  exact toLower_toLower c

/-- An escaped text between percent signs matches what contains it. -/
theorem like_infix (q text : List Char) :
    like ('%' :: (escapeLike (q.map Char.toLower) ++ ['%'])) (text.map Char.toLower) = true ↔
      q.map Char.toLower <:+: text.map Char.toLower := by
  have hany : ∀ rest, like ['%'] rest = true := by
    intro rest
    rw [like, List.any_eq_true]
    exact ⟨[], by simp, rfl⟩
  rw [like, List.any_eq_true]
  constructor
  · rintro ⟨rest, hrest, hlike⟩
    obtain ⟨before, hbefore⟩ := (List.mem_tails _ _).mp hrest
    obtain ⟨head, tail, rfl, hhead, _⟩ := (like_escapeLike _ _ _).mp hlike
    use before.map Char.toLower, tail.map Char.toLower
    rw [map_toLower_map] at hhead
    rw [← hhead, ← map_toLower_map text, ← hbefore, List.map_append, List.map_append,
      List.append_assoc]
  · rintro ⟨before, behind, hsplit⟩
    use q.map Char.toLower ++ behind
    rw [List.mem_tails, like_escapeLike]
    exact ⟨⟨before, by rw [← List.append_assoc, hsplit]⟩, _, _, rfl, rfl, hany _⟩

/-- Without the last percent sign it matches what ends with it. -/
theorem like_suffix (q text : List Char) :
    like ('%' :: escapeLike (q.map Char.toLower)) (text.map Char.toLower) = true ↔
      q.map Char.toLower <:+ text.map Char.toLower := by
  rw [like, List.any_eq_true, ← List.append_nil (escapeLike _)]
  constructor
  · rintro ⟨rest, hrest, hlike⟩
    obtain ⟨before, hbefore⟩ := (List.mem_tails _ _).mp hrest
    obtain ⟨head, tail, rfl, hhead, hend⟩ := (like_escapeLike _ _ _).mp hlike
    have htail : tail = [] := by
      cases tail with
      | nil => rfl
      | cons x tail => cases hend
    use before.map Char.toLower
    rw [map_toLower_map] at hhead
    rw [← hhead, ← map_toLower_map text, ← hbefore, htail, List.append_nil, List.map_append]
  · rintro ⟨before, hsplit⟩
    use q.map Char.toLower
    rw [List.mem_tails, like_escapeLike]
    exact ⟨⟨before, hsplit⟩, _, [], (List.append_nil _).symm, rfl, rfl⟩

/-! ## Texts with U+0000 -/

theorem toLower_eq_nul {c : Char} : c.toLower = nul ↔ c = nul := by
  by_cases hc : 65 ≤ c.toNat ∧ c.toNat ≤ 90
  · have hall : ∀ i : Fin 26, (Char.ofNat (65 + i)).toLower ≠ nul ∧ Char.ofNat (65 + i) ≠ nul := by
      decide
    have hi := hall ⟨c.toNat - 65, by omega⟩
    rw [ofNat_upper hc] at hi
    exact iff_of_false hi.1 hi.2
  · rw [toLower_of_not_upper hc]

theorem beforeNul_map (cs : List Char) :
    beforeNul (cs.map Char.toLower) = (beforeNul cs).map Char.toLower := by
  have hsame : ((fun c => decide (c ≠ nul)) ∘ Char.toLower) = fun c => decide (c ≠ nul) := by
    funext c
    simp [toLower_eq_nul]
  rw [beforeNul, beforeNul, List.takeWhile_map, hsame]

theorem beforeNul_of_notMem {cs : List Char} (h : nul ∉ cs) : beforeNul cs = cs := by
  rw [beforeNul, List.takeWhile_eq_self_iff]
  intro c hc
  rw [decide_eq_true_eq]
  rintro rfl
  exact h hc

theorem beforeNul_cons {c : Char} (h : c ≠ nul) (cs : List Char) :
    beforeNul (c :: cs) = c :: beforeNul cs := List.takeWhile_cons_of_pos (by simpa using h)

theorem beforeNul_nul (cs : List Char) : beforeNul (nul :: cs) = [] :=
  List.takeWhile_cons_of_neg (by simp)

/-- A text with U+0000 cuts its pattern off. -/
theorem beforeNul_escapeLike (q p : List Char) :
    beforeNul (escapeLike q ++ p) =
      if nul ∈ q then escapeLike (beforeNul q) else escapeLike q ++ beforeNul p := by
  induction q with
  | nil => rfl
  | cons c q ih =>
      by_cases hnul : c = nul
      · subst hnul
        have hplain : ¬Special nul := by decide
        rw [if_pos List.mem_cons_self, escapeLike_cons, if_neg hplain, beforeNul_nul]
        exact beforeNul_nul _
      · have hlater : nul ∈ c :: q ↔ nul ∈ q := by simp [Ne.symm hnul]
        have hsplit : beforeNul (escapeLike (c :: q) ++ p) =
            (if Special c then ['\\', c] else [c]) ++ beforeNul (escapeLike q ++ p) := by
          rw [escapeLike_cons, List.append_assoc]
          split_ifs
          · have hslash : '\\' ≠ nul := by decide
            exact (beforeNul_cons hslash _).trans (congrArg _ (beforeNul_cons hnul _))
          · exact beforeNul_cons hnul _
        rw [hsplit, ih, beforeNul_cons hnul, escapeLike_cons, escapeLike_cons]
        by_cases hmem : nul ∈ q
        · rw [if_pos hmem, if_pos (hlater.mpr hmem)]
        · rw [if_neg hmem, if_neg (mt hlater.mp hmem), List.append_assoc]

/-- The name contains the text, with ASCII letters compared without case. -/
def Contains (text name : String) : Prop :=
  text.toList.map Char.toLower <:+: name.toList.map Char.toLower

instance (text name : String) : Decidable (Contains text name) :=
  inferInstanceAs (Decidable (_ <:+: _))

/-- What `LIKE` finds: a text with U+0000 is looked for at the end of what it reads of the name. -/
def Finds (text name : String) : Prop :=
  if nul ∈ text.toList then
    (beforeNul text.toList).map Char.toLower <:+ (beforeNul name.toList).map Char.toLower
  else text.toList.map Char.toLower <:+: (beforeNul name.toList).map Char.toLower

theorem ilike_iff (text name : String) :
    ilike name.toList (searchPattern text) = true ↔ Finds text name := by
  have hpattern : (searchPattern text).map Char.toLower =
      '%' :: (escapeLike (text.toList.map Char.toLower) ++ ['%']) := by
    rw [searchPattern, List.map_append, List.map_cons, map_escapeLike]
    rfl
  have hmem : nul ∈ text.toList.map Char.toLower ↔ nul ∈ text.toList := by
    rw [List.mem_map]
    constructor
    · rintro ⟨c, hc, hlower⟩
      rwa [toLower_eq_nul.mp hlower] at hc
    · intro h
      exact ⟨nul, h, by decide⟩
  have hpercent : '%' ≠ nul := by decide
  have hlast : beforeNul ['%'] = ['%'] := by decide
  rw [ilike, hpattern, beforeNul_cons hpercent, beforeNul_escapeLike, beforeNul_map name.toList]
  unfold Finds
  by_cases hnul : nul ∈ text.toList
  · rw [if_pos (hmem.mpr hnul), if_pos hnul, beforeNul_map]
    exact like_suffix _ _
  · rw [if_neg (mt hmem.mp hnul), if_neg hnul, hlast]
    exact like_infix _ _

/-- Texts without U+0000 are found where they are contained. -/
theorem finds_iff_contains {text name : String} (htext : nul ∉ text.toList)
    (hname : nul ∉ name.toList) : Finds text name ↔ Contains text name := by
  rw [Finds, if_neg htext, beforeNul_of_notMem hname]
  exact Iff.rfl

/-! ## The listing -/

/-- The place of a community in the order of a listing. -/
def membersKey (c : Community) : ℤᵒᵈ ×ₗ String := toLex (OrderDual.toDual c.memberCount, c.id)

def nameKey (c : Community) : String ×ₗ String := toLex (c.name, c.id)

section
variable {db : Db} {u : Unicode} {q category : Option String} {c : Community}

theorem inOrder_members (a b : Community) :
    inOrder .members a b ↔ membersKey a ≤ membersKey b := by
  rw [membersKey, membersKey, Prod.Lex.toLex_le_toLex, OrderDual.toDual_lt_toDual,
    OrderDual.toDual_inj]
  exact Iff.rfl

theorem inOrder_name (a b : Community) : inOrder .name a b ↔ nameKey a ≤ nameKey b := by
  rw [nameKey, nameKey, Prod.Lex.toLex_le_toLex]
  exact Iff.rfl

def Public (c : Community) : Prop := c.visibility = .public_ ∧ c.takenDownAt = none

def InCategory (category : Option String) (c : Community) : Prop :=
  ∀ text, category = some text → text ≠ "" → categoryValue c.category = text

/-- What a listing is about: it is public and matches the search text and the category. -/
def Matches (q category : Option String) (c : Community) : Prop :=
  Public c ∧ (∀ text, q = some text → text ≠ "" → Contains text c.name) ∧ InCategory category c

def matching (q category : Option String) (c : Community) : Bool :=
  discoverable c &&
    (match q with
      | none => true
      | some q => q = "" || decide (Contains q c.name)) &&
    inCategory category c

theorem discoverable_iff : discoverable c = true ↔ Public c := by simp [discoverable, Public]

theorem inCategory_iff : inCategory category c = true ↔ InCategory category c := by
  unfold inCategory InCategory
  cases category with
  | none => simp
  | some text =>
      simp only [Bool.or_eq_true, decide_eq_true_eq, Option.some.injEq, forall_eq']
      exact or_iff_not_imp_left

theorem matching_iff : matching q category c = true ↔ Matches q category c := by
  unfold matching Matches
  rw [Bool.and_eq_true, Bool.and_eq_true, and_assoc, discoverable_iff, inCategory_iff]
  apply and_congr_right
  intro _
  apply and_congr_left
  intro _
  cases q with
  | none => simp
  | some text =>
      simp only [Bool.or_eq_true, decide_eq_true_eq, Option.some.injEq, forall_eq']
      exact or_iff_not_imp_left

theorem listed_iff : listed q category c = true ↔
    Public c ∧ (∀ text, q = some text → text ≠ "" → Finds text c.name) ∧
      InCategory category c := by
  unfold listed
  rw [Bool.and_eq_true, Bool.and_eq_true, and_assoc, discoverable_iff, inCategory_iff]
  apply and_congr_right
  intro _
  apply and_congr_left
  intro _
  cases q with
  | none => simp
  | some text =>
      simp only [Bool.or_eq_true, decide_eq_true_eq, ilike_iff, Option.some.injEq, forall_eq']
      exact or_iff_not_imp_left

/-- The matching communities in the order of the sort. -/
def listing (db : Db) (q category : Option String) (sort : SortMode) : List Community :=
  (db.communities.filter (matching q category)).insertionSort (inOrder sort)

/-- The communities that the statement finds, in the order of the sort. -/
def found (db : Db) (q category : Option String) (sort : SortMode) : List Community :=
  (db.communities.filter (listed q category)).insertionSort (inOrder sort)

/-- `LIKE` takes the pattern of the search text, and finds by it the names that contain the text. -/
def Searchable (maxPattern : ℕ) (q category : Option String) (db : Db) : Prop :=
  ∀ text, q = some text → text ≠ "" →
    ((utf8 (String.ofList (searchPattern text))).length ≤ maxPattern ∨
      ∀ c ∈ db.communities, ¬Public c) ∧
    ∀ c ∈ db.communities, Public c → InCategory category c →
      (Finds text c.name ↔ Contains text c.name)

theorem tooComplex_iff {maxPattern : ℕ} : tooComplex maxPattern q db = false ↔
    ∀ text, q = some text → text ≠ "" →
      (utf8 (String.ofList (searchPattern text))).length ≤ maxPattern ∨
        ∀ c ∈ db.communities, ¬Public c := by
  unfold tooComplex
  cases q with
  | none => simp
  | some text =>
      simp only [← discoverable_iff, Option.some.injEq, forall_eq', Bool.and_eq_false_iff,
        decide_eq_false_iff_not, not_not, not_lt, List.any_eq_false, ne_eq]
      exact or_assoc.trans or_iff_not_imp_left

/-- The search finds what matches just when it agrees with it on every row it looks at. -/
theorem found_eq_listing_iff {sort : SortMode} :
    found db q category sort = listing db q category sort ↔
      ∀ text, q = some text → text ≠ "" → ∀ c ∈ db.communities, Public c → InCategory category c →
        (Finds text c.name ↔ Contains text c.name) := by
  constructor
  · intro h text hq htext c hc hpublic hcategory
    have hmem : c ∈ found db q category sort ↔ c ∈ listing db q category sort := by rw [h]
    unfold found listing at hmem
    rw [List.mem_insertionSort, List.mem_insertionSort, List.mem_filter, List.mem_filter,
      listed_iff, matching_iff] at hmem
    subst hq
    constructor
    · intro hfinds
      have hlisted := hmem.mp ⟨hc, hpublic, fun _ ht _ => Option.some.inj ht ▸ hfinds, hcategory⟩
      exact hlisted.2.2.1 text rfl htext
    · intro hcontains
      have hmatches := hmem.mpr ⟨hc, hpublic, fun _ ht _ => Option.some.inj ht ▸ hcontains,
        hcategory⟩
      exact hmatches.2.2.1 text rfl htext
  · intro h
    have hfilter : db.communities.filter (listed q category) =
        db.communities.filter (matching q category) := by
      apply List.filter_congr
      intro c hc
      rw [Bool.eq_iff_iff, listed_iff, matching_iff]
      apply and_congr_right
      intro hpublic
      apply and_congr_left
      intro hcategory
      exact forall_congr' fun text => forall_congr' fun hq => forall_congr' fun htext =>
        h text hq htext c hc hpublic hcategory
    rw [found, listing, hfilter]

instance (sort : SortMode) : Std.Total (inOrder sort) where
  total a b := by
    cases sort with
    | members =>
        rw [inOrder_members, inOrder_members]
        exact le_total _ _
    | name =>
        rw [inOrder_name, inOrder_name]
        exact le_total _ _

instance (sort : SortMode) : IsTrans Community (inOrder sort) where
  trans a b c := by
    cases sort with
    | members =>
        rw [inOrder_members, inOrder_members, inOrder_members]
        exact le_trans
    | name =>
        rw [inOrder_name, inOrder_name, inOrder_name]
        exact le_trans

/-- A key that orders a listing and that a cursor can be read back as. -/
structure Keyed (κ : Type) [LinearOrder κ] (u : Unicode) (sort : SortMode) (key : Community → κ) :
    Prop where
  order : ∀ a b, inOrder sort a b ↔ key a ≤ key b
  id : ∀ a b, key a = key b → a.id = b.id
  after : ∀ c, ∃ keep, after u sort (sortKeyOf sort c) c.id = .ok keep ∧
    ∀ b, keep b = decide (key c < key b)

theorem keyed_members (u : Unicode) : Keyed (ℤᵒᵈ ×ₗ String) u .members membersKey where
  order := inOrder_members
  id a b h := by
    have hpair := toLex.injective h
    exact congrArg Prod.snd hpair
  after c := by
    use fun b => b.memberCount < c.memberCount || b.memberCount = c.memberCount && c.id < b.id
    constructor
    · rw [Communities.after, sortKeyOf, countOf_toString]
    · intro b
      rw [membersKey, membersKey, Bool.eq_iff_iff, decide_eq_true_eq, Prod.Lex.toLex_lt_toLex,
        OrderDual.toDual_lt_toDual, OrderDual.toDual_inj]
      simp only [Bool.or_eq_true, Bool.and_eq_true, decide_eq_true_eq]
      exact or_congr Iff.rfl (and_congr eq_comm Iff.rfl)

theorem keyed_name (u : Unicode) : Keyed (String ×ₗ String) u .name nameKey where
  order := inOrder_name
  id a b h := by
    have hpair := toLex.injective h
    exact congrArg Prod.snd hpair
  after c := by
    use fun b => c.name < b.name || b.name = c.name && c.id < b.id
    constructor
    · rfl
    · intro b
      rw [nameKey, nameKey, Bool.eq_iff_iff, decide_eq_true_eq, Prod.Lex.toLex_lt_toLex]
      simp only [Bool.or_eq_true, Bool.and_eq_true, decide_eq_true_eq]
      exact or_congr Iff.rfl (and_congr eq_comm Iff.rfl)

theorem apart_of_ids (hids : (db.communities.map (·.id)).Nodup) (sort : SortMode) :
    Apart (inOrder sort) db.communities := by
  rw [List.Nodup, List.pairwise_map] at hids
  apply hids.imp
  intro a b hne hab
  apply hne
  cases sort with
  | members =>
      rw [inOrder_members, inOrder_members] at hab
      exact (keyed_members ⟨fun _ => false, fun _ => none⟩).id a b (le_antisymm hab.1 hab.2)
  | name =>
      rw [inOrder_name, inOrder_name] at hab
      exact (keyed_name ⟨fun _ => false, fun _ => none⟩).id a b (le_antisymm hab.1 hab.2)

theorem mem_listing {sort : SortMode} :
    c ∈ listing db q category sort ↔ c ∈ db.communities ∧ Matches q category c := by
  rw [listing, List.mem_insertionSort, List.mem_filter, matching_iff]

theorem mem_of_found {sort : SortMode} (h : c ∈ found db q category sort) : c ∈ db.communities := by
  rw [found, List.mem_insertionSort] at h
  exact List.mem_of_mem_filter h

theorem sorted_of_filter (hids : (db.communities.map (·.id)).Nodup) (p : Community → Bool)
    (sort : SortMode) :
    ((db.communities.filter p).insertionSort (inOrder sort)).Pairwise (Before (inOrder sort)) :=
  sorted_of_apart ((apart_of_ids hids sort).subperm List.filter_sublist.subperm)

def cursorOf (sort : SortMode) (c : Community) : String :=
  encodeCursor sort (sortKeyOf sort c) c.id

/-- A page of the directory looks ahead in the part of the listing that the cursor leaves. -/
theorem discover_eq (hids : (db.communities.map (·.id)).Nodup) {sort : String}
    {maxPattern : ℕ} (htakes : tooComplex maxPattern q db = false) {cursor : Option String}
    {keep : Community → Bool} (hkeep : beyond u (.clamp sort) cursor = .ok keep) :
    discover maxPattern u q category sort cursor db =
      .ok (pageAhead (cursorOf (.clamp sort)) pageSize
        ((found db q category (.clamp sort)).filter keep)) := by
  have hfilter : (db.communities.filter fun c => listed q category c && keep c) =
      (db.communities.filter (listed q category)).filter keep := by
    rw [List.filter_filter]
    apply List.filter_congr
    intro c _
    rw [Bool.and_comm]
  have hsort := sort_filter
    ((apart_of_ids hids (.clamp sort)).subperm
      (List.filter_sublist (p := listed q category)).subperm)
    keep
  have htake : ∀ rows : List Community, (rows.take (pageSize + 1)).take pageSize =
      rows.take pageSize := by
    intro rows
    rw [List.take_take, min_eq_left (Nat.le_succ pageSize)]
  have hahead : ∀ rows : List Community, pageSize < (rows.take (pageSize + 1)).length ↔
      pageSize < rows.length := by
    intro rows
    rw [List.length_take]
    omega
  unfold discover
  dsimp only
  rw [hkeep]
  dsimp only
  rw [htakes, if_neg Bool.false_ne_true, hfilter, hsort, htake, pageAhead]
  simp only [hahead]
  rfl

theorem walk_of_keyed {κ : Type} [LinearOrder κ] {sort : String} {key : Community → κ}
    (hkey : Keyed κ u (.clamp sort) key) (hids : (db.communities.map (·.id)).Nodup)
    (hsep : ∀ c ∈ db.communities, cursorSep ∉ c.id.toList) {maxPattern : ℕ}
    (htakes : tooComplex maxPattern q db = false) (k : ℕ)
    (hk : (found db q category (.clamp sort)).length < k) :
    follow (fun cursor => (discover maxPattern u q category sort cursor db).toOption) k none =
      some (found db q category (.clamp sort)) := by
  have hsorted : (found db q category (.clamp sort)).Pairwise fun a b => key a < key b := by
    apply (sorted_of_filter hids (listed q category) (.clamp sort)).imp
    intro a b hab
    rw [Before, hkey.order, hkey.order] at hab
    exact lt_of_le_not_ge hab.1 hab.2
  apply follow_eq hsorted (n := pageSize) (by decide)
  · have hall : beyond u (.clamp sort) none = .ok fun _ => true := rfl
    rw [discover_eq hids htakes hall, List.filter_true]
    rfl
  · intro c hc
    obtain ⟨keep, hafter, hkeep⟩ := hkey.after c
    have hid : cursorSep ∉ c.id.toList := hsep c (mem_of_found hc)
    have hbeyond : beyond u (.clamp sort) (some (cursorOf (.clamp sort) c)) = .ok keep := by
      unfold beyond cursorOf
      dsimp only
      rw [if_neg (encodeCursor_ne_empty _ _ _), decodeCursor_encodeCursor _ _ _ hid, if_pos rfl]
      exact hafter
    rw [discover_eq hids htakes hbeyond]
    have hsame : (found db q category (.clamp sort)).filter keep =
        (found db q category (.clamp sort)).filter fun b => decide (key c < key b) :=
      List.filter_congr fun b _ => hkeep b
    rw [hsame]
    rfl
  · exact hk

/-- Following the cursors ends and lists what the search finds, once each. -/
theorem walk_eq_found (hids : (db.communities.map (·.id)).Nodup)
    (hsep : ∀ c ∈ db.communities, cursorSep ∉ c.id.toList) {maxPattern : ℕ}
    (htakes : tooComplex maxPattern q db = false) (u : Unicode) (sort : String) {k : ℕ}
    (hk : db.communities.length < k) :
    follow (fun cursor => (discover maxPattern u q category sort cursor db).toOption) k none =
      some (found db q category (.clamp sort)) := by
  have hlen : (found db q category (.clamp sort)).length < k := by
    rw [found, List.length_insertionSort]
    exact (List.length_filter_le _ _).trans_lt hk
  by_cases hname : SortMode.clamp sort = .name
  · exact walk_of_keyed (hname ▸ keyed_name u) hids hsep htakes k hlen
  · have hmembers : SortMode.clamp sort = .members := by
      cases hclamp : SortMode.clamp sort with
      | members => rfl
      | name => exact absurd hclamp hname
    exact walk_of_keyed (hmembers ▸ keyed_members u) hids hsep htakes k hlen

/-- A pattern that is refused stops the walk at its first page. -/
theorem walk_of_tooComplex {maxPattern : ℕ} (hrefused : tooComplex maxPattern q db = true)
    (u : Unicode) (sort : String) (k : ℕ) :
    follow (fun cursor => (discover maxPattern u q category sort cursor db).toOption) k none =
      none := by
  have hfirst : (discover maxPattern u q category sort none db).toOption = none := by
    have hall : beyond u (.clamp sort) none = .ok fun _ => true := rfl
    unfold discover
    dsimp only
    rw [hall]
    dsimp only
    rw [hrefused, if_pos rfl]
    rfl
  cases k with
  | zero => rfl
  | succ k =>
      rw [follow, hfirst]

/-- Following the cursors lists every matching community once in the order of the sort exactly
where the search text can be searched for, and a cursor decodes to the key and the id that it was
made of, for its own sort only. -/
theorem directory_walk_iff (hids : (db.communities.map (·.id)).Nodup)
    (hsep : ∀ c ∈ db.communities, cursorSep ∉ c.id.toList) (maxPattern : ℕ) (u : Unicode)
    (q category : Option String) (sort : String) :
    ((∀ k, db.communities.length < k →
        follow (fun cursor => (discover maxPattern u q category sort cursor db).toOption) k none =
          some (listing db q category (.clamp sort))) ↔
      Searchable maxPattern q category db) ∧
    (∀ c, c ∈ listing db q category (.clamp sort) ↔ c ∈ db.communities ∧ Matches q category c) ∧
    (listing db q category (.clamp sort)).Pairwise (Before (inOrder (.clamp sort))) ∧
    (listing db q category (.clamp sort)).Nodup ∧
    ∀ made expected sortKey communityId, cursorSep ∉ communityId.toList →
      decodeCursor (encodeCursor made sortKey communityId) expected =
        if made = expected then .ok (sortKey, communityId) else .error .invalidCursor := by
  have hsorted := sorted_of_filter hids (matching q category) (.clamp sort)
  have hsearchable : Searchable maxPattern q category db ↔ tooComplex maxPattern q db = false ∧
      found db q category (.clamp sort) = listing db q category (.clamp sort) := by
    rw [tooComplex_iff, found_eq_listing_iff]
    constructor
    · intro h
      exact ⟨fun text hq htext => (h text hq htext).1, fun text hq htext => (h text hq htext).2⟩
    · rintro ⟨htakes, hfound⟩ text hq htext
      exact ⟨htakes text hq htext, hfound text hq htext⟩
  refine ⟨?_, fun c => mem_listing, hsorted, hsorted.nodup, ?_⟩
  · rw [hsearchable]
    cases htakes : tooComplex maxPattern q db with
    | false =>
        constructor
        · intro h
          have hwalk := h _ (Nat.lt_succ_self _)
          rw [walk_eq_found hids hsep htakes u sort (Nat.lt_succ_self _)] at hwalk
          exact ⟨rfl, Option.some.inj hwalk⟩
        · intro h k hk
          rw [walk_eq_found hids hsep htakes u sort hk, h.2]
    | true =>
        constructor
        · intro h
          have hwalk := h _ (Nat.lt_succ_self _)
          rw [walk_of_tooComplex htakes u sort] at hwalk
          cases hwalk
        · intro h
          cases h.1
  · exact fun made expected sortKey communityId hid =>
      decodeCursor_encodeCursor made expected sortKey hid

end

/-- Two communities of one size, the name of one with a separator in it. -/
def tieDb : Db :=
  { communities := [{ id := "c2", name := "Aiko", memberCount := 3 },
      { id := "c1", name := "A\x1fB", memberCount := 3 }] }

theorem directory_walk_tie :
    follow (fun cursor =>
        (discover 50000 ⟨fun _ => false, fun _ => none⟩ (some "aik") none "members" cursor
          tieDb).toOption) 3 none =
      some (listing tieDb (some "aik") none .members) := by
  have hnames : ∀ c ∈ tieDb.communities, nul ∉ c.name.toList := by decide
  have hsearchable : Searchable 50000 (some "aik") none tieDb := by
    intro text htext _
    cases htext
    exact ⟨Or.inl (by decide), fun c hc _ _ => finds_iff_contains (by decide) (hnames c hc)⟩
  exact (directory_walk_iff (by decide) (by decide) 50000 ⟨fun _ => false, fun _ => none⟩
    (some "aik") none "members").1.mpr hsearchable 3 (by decide)

/-- Searching for U+0000 lists every community. -/
theorem nul_lists_everything : ¬∀ (db : Db), (db.communities.map (·.id)).Nodup →
    (∀ c ∈ db.communities, cursorSep ∉ c.id.toList) → ∀ (maxPattern : ℕ) (u : Unicode)
    (q category : Option String) (sort : String) (k : ℕ), db.communities.length < k →
      follow (fun cursor => (discover maxPattern u q category sort cursor db).toOption) k none =
        some (listing db q category (.clamp sort)) := by
  intro h
  have hwalk := h tieDb (by decide) (by decide) 50000 ⟨fun _ => false, fun _ => none⟩
    (some (String.singleton nul)) none "members" 3 (by decide)
  revert hwalk
  decide

end AikoIsland.Directory
