import AikoIsland.Tables
import AikoIsland.WordRuns

/-!
# Credentials in a log

A record is rewritten before it is written out: a long run of hexadecimal digits is cut
to its first twelve, and the value of a query parameter that carries a credential gives
way to a mark. That is done to the format string and to every argument, and once more
to the message they make; if that still shows something the message takes the place of
both, and a message that cannot be made is withheld.

A run of digits is found between two word boundaries only. So a message keeps the long
runs that stand in a longer word, and loses every other, and that is all it can keep.
-/
namespace AikoIsland.LogRedaction
open Tables WordRuns

/-! ## The two patterns -/

def isHex (c : ℕ) : Bool :=
  0x30 ≤ c && c ≤ 0x39 || 0x41 ≤ c && c ≤ 0x46 || 0x61 ≤ c && c ≤ 0x66

def questionMark : ℕ := 0x3F

def ampersand : ℕ := 0x26

def equalsSign : ℕ := 0x3D

/-- The quotes, and what stands in a redaction or begins and ends a parameter. -/
def punctuation : List ℕ := [0x22, 0x27, 0x2E, 0x3C, 0x3E, questionMark, ampersand, equalsSign]

/-- What `re` knows of the characters of Unicode: `\\w`, `\\s`, and which characters are a letter of
the pattern when case is ignored. -/
structure Characters where
  isWord : ℕ → Bool
  isSpace : ℕ → Bool
  sameLetter : ℕ → ℕ → Bool
  isWord_ascii : ∀ c, isHex c || 0x61 ≤ c && c ≤ 0x7A || c = 0x5F → isWord c = true
  isWord_punctuation : ∀ c ∈ punctuation, isWord c = false
  isSpace_word : ∀ c, isWord c = true → isSpace c = false
  isSpace_punctuation : ∀ c ∈ punctuation, isSpace c = false
  sameLetter_self : ∀ c, sameLetter c c = true
  sameLetter_word : ∀ letter c, isWord letter = true → sameLetter letter c = true → isWord c = true

def ellipsis : PyStr := codes "..."

/-- What takes the place of a value. -/
def mark : PyStr := codes "<redacted>"

def secretParams : List PyStr :=
  ["access_token", "code", "id_token", "refresh_token", "state", "token"].map codes

variable (lib : Characters)

/-- The length of a match of `LONG_HEX`. -/
def longHexAt (prev : Bool) (s : PyStr) : Option ℕ :=
  let run := s.takeWhile isHex
  if !prev && 12 + 20 ≤ run.length && !(s.dropWhile isHex).head?.any lib.isWord then
    some run.length
  else none

/-- `LONG_HEX.sub` behind a character that is or is not of a word, and past some of a match. -/
def subLongHex : Bool → ℕ → PyStr → PyStr
  | _, _, [] => []
  | prev, skip + 1, _ :: rest => subLongHex prev skip rest
  | prev, 0, c :: rest =>
      match longHexAt lib prev (c :: rest) with
      | some n => (c :: rest).take 12 ++ ellipsis ++ subLongHex true (n - 1) rest
      | none => c :: subLongHex (lib.isWord c) 0 rest

def isValue (c : ℕ) : Bool := !(c = ampersand || lib.isSpace c || c = 0x22 || c = 0x27)

def matchesName (name text : PyStr) : Bool :=
  name.length = text.length && (name.zip text).all fun p => lib.sameLetter p.1 p.2

def isSecretName (text : PyStr) : Bool := secretParams.any fun name => matchesName lib name text

/-- The two groups of a match of `SECRET_QUERY`: up to the first equals sign, and the value. -/
def secretAt : PyStr → Option (PyStr × PyStr)
  | [] => none
  | c :: rest =>
      let name := rest.takeWhile fun d => d ≠ equalsSign
      let behind := rest.dropWhile fun d => d ≠ equalsSign
      let value := (behind.drop 1).takeWhile (isValue lib)
      if (c = questionMark || c = ampersand) && behind ≠ [] && isSecretName lib name &&
          value ≠ [] then
        some (c :: (name ++ [equalsSign]), value)
      else none

/-- `SECRET_QUERY.sub`, past some of a match. -/
def subSecret : ℕ → PyStr → PyStr
  | _, [] => []
  | skip + 1, _ :: rest => subSecret skip rest
  | 0, c :: rest =>
      match secretAt lib (c :: rest) with
      | some (head, value) => head ++ mark ++ subSecret (head.length + value.length - 1) rest
      | none => c :: subSecret 0 rest

/-- `redact`. -/
def redact (text : PyStr) : PyStr := subSecret lib 0 (subLongHex lib false 0 text)

/-! ## Runs of digits as words -/

section
variable {lib} {s w : PyStr} {c : ℕ}

theorem isHex_isWord (h : isHex c = true) : lib.isWord c = true :=
  lib.isWord_ascii c (by simp [h])

/-- What becomes of a word. -/
def redactWord (w : PyStr) : PyStr :=
  if w.all isHex && 32 ≤ w.length then w.take 12 ++ ellipsis else w

theorem subLongHex_skip (prev : Bool) (skip : ℕ) (s : PyStr) :
    subLongHex lib prev skip s = subLongHex lib prev 0 (s.drop skip) := by
  induction skip generalizing s with
  | zero => rw [List.drop_zero]
  | succ skip ih =>
      cases s with
      | nil => simp [subLongHex]
      | cons c s => rw [subLongHex, ih, List.drop_succ_cons]

theorem subLongHex_cons {prev : Bool} (h : longHexAt lib prev (c :: s) = none) :
    subLongHex lib prev 0 (c :: s) = c :: subLongHex lib (lib.isWord c) 0 s := by
  rw [subLongHex, h]

/-- Between words nothing is found. -/
theorem subLongHex_between (hc : lib.isWord c = false) (prev : Bool) (s : PyStr) :
    subLongHex lib prev 0 (c :: s) = c :: subLongHex lib false 0 s := by
  have hhex : isHex c = false := by
    by_contra h
    rw [isHex_isWord (by simpa using h)] at hc
    cases hc
  rw [subLongHex_cons, hc]
  rw [longHexAt, List.takeWhile_cons_of_neg (by simp [hhex])]
  simp

/-- Inside of a word nothing is found. -/
theorem subLongHex_inside (hw : ∀ c ∈ w, lib.isWord c = true) (s : PyStr) :
    subLongHex lib true 0 (w ++ s) = w ++ subLongHex lib true 0 s := by
  induction w with
  | nil => rfl
  | cons c w ih =>
      rw [List.cons_append, subLongHex_cons, hw c List.mem_cons_self,
        ih fun d hd => hw d (List.mem_cons_of_mem c hd), List.cons_append]
      rw [longHexAt]
      simp

theorem subLongHex_ends (hs : Ends lib.isWord s) (prev : Bool) :
    subLongHex lib prev 0 s = subLongHex lib false 0 s := by
  cases s with
  | nil => rw [subLongHex, subLongHex]
  | cons c s =>
      have hc := ends_cons.mp hs
      rw [subLongHex_between hc, subLongHex_between hc]

theorem subLongHex_word (hne : w ≠ []) (hw : ∀ c ∈ w, lib.isWord c = true)
    (hs : Ends lib.isWord s) :
    subLongHex lib false 0 (w ++ s) = redactWord w ++ subLongHex lib false 0 s := by
  cases w with
  | nil => exact absurd rfl hne
  | cons c w =>
      have hinside : longHexAt lib false (c :: (w ++ s)) = none →
          subLongHex lib false 0 (c :: w ++ s) = c :: w ++ subLongHex lib false 0 s := by
        intro hnone
        rw [List.cons_append, subLongHex_cons hnone, hw c List.mem_cons_self,
          subLongHex_inside fun d hd => hw d (List.mem_cons_of_mem c hd), subLongHex_ends hs,
          List.cons_append]
      unfold redactWord
      cases hall : (c :: w).all isHex with
      | true =>
          obtain ⟨hrun, hbehind⟩ := takeWhile_append (List.all_eq_true.mp hall)
            (hs.mono fun d hd => isHex_isWord hd)
          have hboundary : s.head?.any lib.isWord = false := by
            cases s with
            | nil => rfl
            | cons d s =>
                have hd := ends_cons.mp hs
                simpa using hd
          rw [List.cons_append] at hrun hbehind
          have hmatch : longHexAt lib false (c :: (w ++ s)) =
              if 12 + 20 ≤ (c :: w).length then some (c :: w).length else none := by
            rw [longHexAt, hrun, hbehind, hboundary]
            simp
          by_cases hlong : 32 ≤ (c :: w).length
          · rw [if_pos (by simpa using hlong), List.cons_append, subLongHex, hmatch, if_pos hlong]
            dsimp only
            rw [subLongHex_skip, List.length_cons, Nat.add_sub_cancel, List.drop_left,
              subLongHex_ends hs, ← List.cons_append, List.take_append_of_le_length (by omega)]
          · rw [if_neg (by simpa using hlong)]
            exact hinside (by rw [hmatch, if_neg hlong])
      | false =>
          rw [if_neg (by simp)]
          apply hinside
          obtain ⟨d, tail, hbehind, hd⟩ : ∃ d tail, (c :: w).dropWhile isHex = d :: tail ∧
              d ∈ c :: w := by
            cases hdrop : (c :: w).dropWhile isHex with
            | nil =>
                rw [List.dropWhile_eq_nil_iff, ← List.all_eq_true, hall] at hdrop
                cases hdrop
            | cons d tail =>
                exact ⟨d, tail, rfl, (List.dropWhile_sublist isHex).subset (by simp [hdrop])⟩
          have hdrop : (c :: (w ++ s)).dropWhile isHex = d :: (tail ++ s) := by
            rw [← List.cons_append, List.dropWhile_append, hbehind]
            rfl
          rw [longHexAt, hdrop]
          simp [hw d hd]

/-- The pattern works on words. -/
theorem subLongHex_eq (s : PyStr) :
    subLongHex lib false 0 s = mapWords lib.isWord redactWord s := by
  induction s using word_induction lib.isWord with
  | nil => rw [subLongHex, mapWords_nil]
  | between c s hc ih => rw [subLongHex_between hc, mapWords_cons hc, ih]
  | word w s hne hw hs ih => rw [subLongHex_word hne hw hs, mapWords_word hne hw hs, ih]

theorem head_redactWord (w : PyStr) : (redactWord w).head? = w.head? := by
  unfold redactWord
  split_ifs with h
  · cases w with
    | nil => simp at h
    | cons c w => rfl
  · rfl

theorem redactWord_short (h : w.length < 32) : redactWord w = w := by
  rw [redactWord, if_neg]
  simp
  omega

theorem isWord_punctuation {c : ℕ} (h : c ∈ punctuation) : lib.isWord c = false :=
  lib.isWord_punctuation c h

theorem mapWords_ellipsis (s : PyStr) :
    mapWords lib.isWord redactWord (ellipsis ++ s) =
      ellipsis ++ mapWords lib.isWord redactWord s := by
  have hdot : lib.isWord 0x2E = false := isWord_punctuation (by decide)
  change mapWords lib.isWord redactWord (0x2E :: 0x2E :: 0x2E :: s) = _
  rw [mapWords_cons hdot, mapWords_cons hdot, mapWords_cons hdot]
  rfl

/-- What was cut is not cut again. -/
theorem mapWords_redactWord (hw : ∀ c ∈ w, lib.isWord c = true) (hne : w ≠ []) :
    mapWords lib.isWord redactWord (redactWord w) = redactWord w := by
  by_cases h : (w.all isHex && 32 ≤ w.length) = true
  · have hlong : 32 ≤ w.length := by
      rw [Bool.and_eq_true, decide_eq_true_eq] at h
      exact h.2
    have htake : ∀ c ∈ w.take 12, lib.isWord c = true := fun c hc => hw c (List.mem_of_mem_take hc)
    have hlen : (w.take 12).length = 12 := by
      rw [List.length_take]
      omega
    have hends : Ends lib.isWord (ellipsis ++ []) :=
      ends_cons.mpr (isWord_punctuation (by decide))
    have hnil : w.take 12 ≠ [] := by
      intro htake
      rw [htake] at hlen
      cases hlen
    rw [redactWord, if_pos h, ← List.append_nil ellipsis, mapWords_word hnil htake hends,
      redactWord_short (by omega), mapWords_ellipsis, mapWords_nil]
  · have hself : redactWord w = w := if_neg h
    have hword := mapWords_word (f := redactWord) hne hw ends_nil
    rw [List.append_nil, mapWords_nil, List.append_nil] at hword
    rw [hself, hword, hself]

/-! ## Parameters with credentials -/

/-- A question mark or an ampersand, a name and an equals sign. -/
def IsHead (lib : Characters) (head : PyStr) : Prop :=
  ∃ c name, head = c :: (name ++ [equalsSign]) ∧ (c = questionMark ∨ c = ampersand) ∧
    isSecretName lib name = true

theorem matchesName_word {name text : PyStr} (h : matchesName lib name text = true)
    (hname : ∀ c ∈ name, lib.isWord c = true) : ∀ c ∈ text, lib.isWord c = true := by
  induction name generalizing text with
  | nil =>
      cases text with
      | nil => simp
      | cons d text => simp [matchesName] at h
  | cons letter name ih =>
      cases text with
      | nil => simp
      | cons d text =>
          have hparts : name.length = text.length ∧ lib.sameLetter letter d = true ∧
              (name.zip text).all (fun p => lib.sameLetter p.1 p.2) = true := by
            simpa [matchesName] using h
          intro c hc
          rcases List.mem_cons.mp hc with rfl | hc
          · exact lib.sameLetter_word letter c (hname letter List.mem_cons_self) hparts.2.1
          · apply ih _ (fun e he => hname e (List.mem_cons_of_mem letter he)) c hc
            rw [matchesName, hparts.2.2]
            simp [hparts.1]

/-- The names are short words. -/
theorem isSecretName_word {name : PyStr} (h : isSecretName lib name = true) :
    (∀ c ∈ name, lib.isWord c = true) ∧ name ≠ [] ∧ name.length < 32 := by
  obtain ⟨n, hn, hmatch⟩ := List.any_eq_true.mp h
  have hletters : ∀ n ∈ secretParams, (∀ c ∈ n, (isHex c || 0x61 ≤ c && c ≤ 0x7A || c = 0x5F)) ∧
      n ≠ [] ∧ n.length < 32 := by
    decide
  obtain ⟨hascii, hnil, hlen⟩ := hletters n hn
  have hlength : n.length = name.length := by
    rw [matchesName, Bool.and_eq_true, decide_eq_true_eq] at hmatch
    exact hmatch.1
  refine ⟨matchesName_word hmatch fun c hc => lib.isWord_ascii c (hascii c hc), ?_, by omega⟩
  rintro rfl
  exact hnil (List.length_eq_zero_iff.mp hlength)

theorem ne_of_isWord {d : ℕ} (h : lib.isWord c = true) (hd : d ∈ punctuation) : c ≠ d := by
  rintro rfl
  rw [isWord_punctuation hd] at h
  cases h

/-- A value ends between words. -/
theorem isWord_of_not_isValue (h : isValue lib c = false) : lib.isWord c = false := by
  by_contra hword
  have hc : lib.isWord c = true := by simpa using hword
  have hand : c ≠ ampersand := ne_of_isWord hc (by decide)
  have hdouble : c ≠ 0x22 := ne_of_isWord hc (by decide)
  have hsingle : c ≠ 0x27 := ne_of_isWord hc (by decide)
  simp [isValue, lib.isSpace_word c hc, hand, hdouble, hsingle] at h

/-- A match is a head, a value that is not empty, and what ends the value. -/
theorem secretAt_eq_some {head value : PyStr} : secretAt lib s = some (head, value) ↔
    ∃ after, s = head ++ (value ++ after) ∧ IsHead lib head ∧ value ≠ [] ∧
      (∀ c ∈ value, isValue lib c = true) ∧ Ends (isValue lib) after := by
  constructor
  · intro h
    cases s with
    | nil => cases h
    | cons c rest =>
        rw [secretAt] at h
        split_ifs at h with hmatch
        obtain ⟨⟨⟨hc, hbehind⟩, hname⟩, hvalue⟩ :
            (((c = questionMark ∨ c = ampersand) ∧ rest.dropWhile (fun d => d ≠ equalsSign) ≠ []) ∧
              isSecretName lib (rest.takeWhile fun d => d ≠ equalsSign) = true) ∧
              ((rest.dropWhile fun d => d ≠ equalsSign).drop 1).takeWhile (isValue lib) ≠ [] := by
          simpa using hmatch
        obtain ⟨rfl, rfl⟩ := Prod.mk.inj (Option.some.inj h)
        have hsplit := List.takeWhile_append_dropWhile (p := fun d : ℕ => decide (d ≠ equalsSign))
          (l := rest)
        have hends := ends_dropWhile (fun d : ℕ => decide (d ≠ equalsSign)) rest
        cases hdrop : rest.dropWhile (fun d => decide (d ≠ equalsSign)) with
        | nil => exact absurd hdrop hbehind
        | cons e more =>
            rw [hdrop] at hsplit hends hvalue
            have he : e = equalsSign := by simpa using ends_cons.mp hends
            refine ⟨more.dropWhile (isValue lib), ?_, ⟨c, _, rfl, hc, hname⟩, hvalue, ?_,
              ends_dropWhile _ _⟩
            · rw [List.drop_succ_cons, List.drop_zero, List.takeWhile_append_dropWhile]
              conv_lhs => rw [← hsplit, he]
              simp
            · exact fun d hd => List.mem_takeWhile_imp hd
  · rintro ⟨after, rfl, ⟨c, name, rfl, hc, hname⟩, hvalue, hall, hends⟩
    have hnoEquals : ∀ d ∈ name, decide (d ≠ equalsSign) = true := fun d hd => by
      simpa using ne_of_isWord ((isSecretName_word hname).1 d hd) (by decide)
    have hequals : Ends (fun d : ℕ => decide (d ≠ equalsSign)) (equalsSign :: (value ++ after)) :=
      ends_cons.mpr (by simp)
    obtain ⟨htake, hdrop⟩ := takeWhile_append hnoEquals hequals
    have hvalues := (takeWhile_append hall hends).1
    have hshape : c :: (name ++ [equalsSign]) ++ (value ++ after) =
        c :: (name ++ equalsSign :: (value ++ after)) := by
      simp
    rw [hshape, secretAt, htake, hdrop, List.drop_succ_cons, List.drop_zero, hvalues, if_pos]
    simp [hc, hname, hvalue]

theorem secretAt_of_plain (hc : c ≠ questionMark ∧ c ≠ ampersand) :
    secretAt lib (c :: s) = none := by
  rw [secretAt, if_neg]
  simp [hc]

theorem subSecret_skip (skip : ℕ) (s : PyStr) :
    subSecret lib skip s = subSecret lib 0 (s.drop skip) := by
  induction skip generalizing s with
  | zero => rw [List.drop_zero]
  | succ skip ih =>
      cases s with
      | nil => simp [subSecret]
      | cons c s => rw [subSecret, ih, List.drop_succ_cons]

theorem subSecret_cons (h : secretAt lib (c :: s) = none) :
    subSecret lib 0 (c :: s) = c :: subSecret lib 0 s := by
  rw [subSecret, h]

theorem subSecret_secret {head value after : PyStr} (hhead : IsHead lib head) (hvalue : value ≠ [])
    (hall : ∀ c ∈ value, isValue lib c = true) (hends : Ends (isValue lib) after) :
    subSecret lib 0 (head ++ (value ++ after)) = head ++ mark ++ subSecret lib 0 after := by
  have hmatch := secretAt_eq_some.mpr ⟨after, rfl, hhead, hvalue, hall, hends⟩
  obtain ⟨c, name, rfl, _⟩ := hhead
  rw [List.cons_append] at hmatch ⊢
  rw [subSecret, hmatch]
  dsimp only
  rw [subSecret_skip, ← List.append_assoc, List.drop_left']
  simp only [List.length_append, List.length_cons, List.length_nil]
  omega

variable (lib) in
/-- A text is empty, or begins with no match, or with one. -/
theorem secret_cases (s : PyStr) : s = [] ∨
    (∃ c rest, s = c :: rest ∧ secretAt lib s = none) ∨
      ∃ head value after, s = head ++ (value ++ after) ∧ IsHead lib head ∧ value ≠ [] ∧
        (∀ c ∈ value, isValue lib c = true) ∧ Ends (isValue lib) after := by
  cases s with
  | nil => exact Or.inl rfl
  | cons c rest =>
      right
      cases hmatch : secretAt lib (c :: rest) with
      | none =>
          left
          exact ⟨c, rest, rfl, rfl⟩
      | some groups =>
          obtain ⟨after, hs⟩ := secretAt_eq_some.mp hmatch
          right
          exact ⟨groups.1, groups.2, after, hs⟩

variable (lib) in
theorem head_subSecret (s : PyStr) : (subSecret lib 0 s).head? = s.head? := by
  rcases secret_cases lib s with
    rfl | ⟨c, rest, rfl, hmatch⟩ | ⟨head, value, after, rfl, hhead, hvalue, hall, hends⟩
  · rw [subSecret]
  · rw [subSecret_cons hmatch, List.head?_cons, List.head?_cons]
  · rw [subSecret_secret hhead hvalue hall hends]
    obtain ⟨c, name, rfl, _⟩ := hhead
    rfl

theorem subSecret_ends {cls : ℕ → Bool} (h : Ends cls s) : Ends cls (subSecret lib 0 s) := by
  intro c hc
  rw [head_subSecret] at hc
  exact h c hc

/-- What holds no question mark and no ampersand stays. -/
theorem subSecret_plain (hw : ∀ c ∈ w, c ≠ questionMark ∧ c ≠ ampersand) (s : PyStr) :
    subSecret lib 0 (w ++ s) = w ++ subSecret lib 0 s := by
  induction w with
  | nil => rfl
  | cons c w ih =>
      rw [List.cons_append, subSecret_cons (secretAt_of_plain (hw c List.mem_cons_self)),
        ih fun d hd => hw d (List.mem_cons_of_mem c hd), List.cons_append]

/-- And comes from itself. -/
theorem eq_of_subSecret {p y : PyStr} (hp : ∀ c ∈ p, c ≠ questionMark ∧ c ≠ ampersand)
    (h : subSecret lib 0 s = p ++ y) : ∃ rest, s = p ++ rest ∧ subSecret lib 0 rest = y := by
  induction p generalizing s with
  | nil => exact ⟨s, rfl, h⟩
  | cons c p ih =>
      have hhead := head_subSecret lib s
      rw [h, List.cons_append, List.head?_cons] at hhead
      cases s with
      | nil => cases hhead
      | cons d s =>
          obtain rfl : c = d := Option.some_inj.mp hhead
          rw [subSecret_cons (secretAt_of_plain (hp c List.mem_cons_self)), List.cons_append,
            List.cons_eq_cons] at h
          obtain ⟨rest, rfl, hrest⟩ := ih (fun e he => hp e (List.mem_cons_of_mem c he)) h.2
          exact ⟨rest, rfl, hrest⟩

theorem plain_of_isWord (h : lib.isWord c = true) : c ≠ questionMark ∧ c ≠ ampersand :=
  ⟨ne_of_isWord h (by decide), ne_of_isWord h (by decide)⟩

/-- A name with a value behind it is a match. -/
theorem secretAt_ne_none {c d : ℕ} {name rest : PyStr} (hc : c = questionMark ∨ c = ampersand)
    (hname : isSecretName lib name = true) (hd : isValue lib d = true) :
    secretAt lib (c :: (name ++ equalsSign :: d :: rest)) ≠ none := by
  intro hnone
  have hne : (d :: rest).takeWhile (isValue lib) ≠ [] := by
    rw [List.takeWhile_cons_of_pos hd]
    exact List.cons_ne_nil _ _
  have hmatch : secretAt lib (c :: (name ++ [equalsSign]) ++
      ((d :: rest).takeWhile (isValue lib) ++ (d :: rest).dropWhile (isValue lib))) =
        some (c :: (name ++ [equalsSign]), (d :: rest).takeWhile (isValue lib)) :=
    secretAt_eq_some.mpr ⟨_, rfl, ⟨c, name, rfl, hc, hname⟩, hne,
      fun e he => List.mem_takeWhile_imp he, ends_dropWhile _ _⟩
  have hshape : c :: (name ++ [equalsSign]) ++ d :: rest = c :: (name ++ equalsSign :: d :: rest) := by
    simp
  rw [List.takeWhile_append_dropWhile, hshape, hnone] at hmatch
  cases hmatch

/-- Where there is no match there is none in front of what becomes of the rest. -/
theorem secretAt_none_of {c : ℕ} {rest x : PyStr} (h : secretAt lib (c :: rest) = none)
    (hx : ∀ name y, isSecretName lib name = true → x = name ++ equalsSign :: y →
      ∃ more, rest = name ++ equalsSign :: more ∧ more.head? = y.head?) :
    secretAt lib (c :: x) = none := by
  cases hmatch : secretAt lib (c :: x) with
  | none => rfl
  | some groups =>
      obtain ⟨after, hs, ⟨d, name, hhead, hd, hname⟩, hvalue, hall, _⟩ :=
        secretAt_eq_some.mp hmatch
      rw [hhead] at hs
      obtain ⟨rfl, hrest⟩ := List.cons_eq_cons.mp hs
      have hshape : x = name ++ equalsSign :: (groups.2 ++ after) := by
        rw [hrest]
        exact List.append_assoc name [equalsSign] _
      obtain ⟨more, rfl, hmore⟩ := hx name (groups.2 ++ after) hname hshape
      cases hgroup : groups.2 with
      | nil => exact absurd hgroup hvalue
      | cons e value =>
          rw [hgroup] at hmore hall
          cases more with
          | nil => cases hmore
          | cons e' more =>
              obtain rfl : e' = e := Option.some_inj.mp hmore
              exact absurd h (secretAt_ne_none hd hname (hall e' List.mem_cons_self))

/-- No parameter that carries a credential has a value other than the mark. -/
def SecretsMarked (lib : Characters) (t : PyStr) : Prop :=
  ∀ s, s <:+ t → ∀ head value, secretAt lib s = some (head, value) → value = mark

theorem SecretsMarked.cons {t : PyStr} (h : SecretsMarked lib t)
    (hc : ∀ head value, secretAt lib (c :: t) = some (head, value) → value = mark) :
    SecretsMarked lib (c :: t) := by
  intro s hs
  rcases List.suffix_cons_iff.mp hs with rfl | hs
  · exact hc
  · exact h s hs

theorem SecretsMarked.append {t : PyStr} (hw : ∀ c ∈ w, c ≠ questionMark ∧ c ≠ ampersand)
    (h : SecretsMarked lib t) : SecretsMarked lib (w ++ t) := by
  induction w with
  | nil => exact h
  | cons c w ih =>
      apply (ih fun d hd => hw d (List.mem_cons_of_mem c hd)).cons
      intro head value hmatch
      change secretAt lib (c :: (w ++ t)) = some (head, value) at hmatch
      rw [secretAt_of_plain (hw c List.mem_cons_self)] at hmatch
      cases hmatch

theorem isValue_mark : ∀ c ∈ mark, isValue lib c = true := by
  intro c hc
  have hcases : ∀ c ∈ mark, c ∈ punctuation ∧ c ≠ ampersand ∧ c ≠ 0x22 ∧ c ≠ 0x27 ∨
      (isHex c || 0x61 ≤ c && c ≤ 0x7A || c = 0x5F) ∧ c ≠ ampersand ∧ c ≠ 0x22 ∧ c ≠ 0x27 := by
    decide
  have hspace : lib.isSpace c = false ∧ c ≠ ampersand ∧ c ≠ 0x22 ∧ c ≠ 0x27 :=
    (hcases c hc).elim (fun h => ⟨lib.isSpace_punctuation c h.1, h.2⟩)
      fun h => ⟨lib.isSpace_word c (lib.isWord_ascii c h.1), h.2⟩
  simp [isValue, hspace]

theorem plain_mark : ∀ c ∈ mark, c ≠ questionMark ∧ c ≠ ampersand := by
  decide

theorem plain_of_name {name : PyStr} (hname : isSecretName lib name = true) :
    ∀ c ∈ name ++ [equalsSign], c ≠ questionMark ∧ c ≠ ampersand := by
  intro c hc
  rcases List.mem_append.mp hc with hc | hc
  · exact plain_of_isWord ((isSecretName_word hname).1 c hc)
  · rw [List.mem_singleton.mp hc]
    decide

/-- After the substitution every value is the mark. -/
theorem secretsMarked_subSecret (t : PyStr) : SecretsMarked lib (subSecret lib 0 t) := by
  induction hlen : t.length using Nat.strong_induction_on generalizing t with
  | _ n ih =>
      rcases secret_cases lib t with
        rfl | ⟨c, rest, rfl, hmatch⟩ | ⟨head, value, after, rfl, hhead, hvalue, hall, hends⟩
      · intro s hs head value hmatch
        rw [subSecret, List.suffix_nil] at hs
        rw [hs] at hmatch
        cases hmatch
      · rw [subSecret_cons hmatch]
        apply (ih rest.length (by rw [← hlen]; simp) rest rfl).cons
        intro head value hfound
        rw [secretAt_none_of hmatch] at hfound
        · cases hfound
        · intro name y hname hy
          have hshape : subSecret lib 0 rest = name ++ [equalsSign] ++ y := by
            rw [hy, List.append_assoc]
            rfl
          obtain ⟨more, rfl, hmore⟩ := eq_of_subSecret (plain_of_name hname) hshape
          refine ⟨more, by simp, ?_⟩
          rw [← hmore, head_subSecret]
      · rw [subSecret_secret hhead hvalue hall hends]
        have hafter : after.length < n := by
          have hpos := List.length_pos_iff.mpr hvalue
          rw [List.length_append, List.length_append] at hlen
          omega
        have hmarked := ih after.length hafter after rfl
        have hwhole : secretAt lib (head ++ (mark ++ subSecret lib 0 after)) = some (head, mark) :=
          secretAt_eq_some.mpr ⟨_, rfl, hhead, by decide, isValue_mark, subSecret_ends hends⟩
        obtain ⟨c, name, rfl, hc, hname⟩ := hhead
        rw [List.append_assoc]
        apply ((hmarked.append plain_mark).append (plain_of_name hname)).cons
        intro head' value' hfound
        change secretAt lib (c :: (name ++ [equalsSign]) ++ (mark ++ subSecret lib 0 after)) =
          some (head', value') at hfound
        rw [hwhole] at hfound
        cases hfound
        rfl

/-- Marked values are marked again with the same mark. -/
theorem subSecret_of_marked {t : PyStr} (h : SecretsMarked lib t) : subSecret lib 0 t = t := by
  induction hlen : t.length using Nat.strong_induction_on generalizing t with
  | _ n ih =>
      rcases secret_cases lib t with
        rfl | ⟨c, rest, rfl, hmatch⟩ | ⟨head, value, after, rfl, hhead, hvalue, hall, hends⟩
      · rw [subSecret]
      · rw [subSecret_cons hmatch]
        have hrest : SecretsMarked lib rest := fun s hs =>
          h s (hs.trans (List.suffix_cons c rest))
        rw [ih rest.length (by rw [← hlen]; simp) hrest rfl]
      · have hmark : value = mark :=
          h _ List.suffix_rfl head value
            (secretAt_eq_some.mpr ⟨after, rfl, hhead, hvalue, hall, hends⟩)
        have hafter : SecretsMarked lib after := fun s hs =>
          h s (hs.trans (by rw [← List.append_assoc]; exact List.suffix_append _ _))
        have hlt : after.length < n := by
          have hpos := List.length_pos_iff.mpr hvalue
          rw [List.length_append, List.length_append] at hlen
          omega
        rw [subSecret_secret hhead hvalue hall hends, ih after.length hlt hafter rfl, hmark,
          List.append_assoc]

/-! ## Both patterns -/

theorem eq_of_mem_ellipsis : ∀ c ∈ ellipsis, c = 0x2E := by
  decide

theorem plain_redactWord (hw : ∀ c ∈ w, c ≠ questionMark ∧ c ≠ ampersand) :
    ∀ c ∈ redactWord w, c ≠ questionMark ∧ c ≠ ampersand := by
  unfold redactWord
  split_ifs
  · intro c hc
    rcases List.mem_append.mp hc with hc | hc
    · exact hw c (List.mem_of_mem_take hc)
    · rw [eq_of_mem_ellipsis c hc]
      decide
  · exact hw

theorem isValue_redactWord (hw : ∀ c ∈ w, isValue lib c = true) :
    ∀ c ∈ redactWord w, isValue lib c = true := by
  unfold redactWord
  split_ifs
  · intro c hc
    rcases List.mem_append.mp hc with hc | hc
    · exact hw c (List.mem_of_mem_take hc)
    · have hspace : lib.isSpace 0x2E = false := lib.isSpace_punctuation _ (by decide)
      rw [eq_of_mem_ellipsis c hc]
      simp [isValue, hspace, ampersand]
  · exact hw

theorem mapWords_mark : mapWords lib.isWord redactWord mark = mark := by
  have hless : lib.isWord 0x3C = false := isWord_punctuation (by decide)
  have hgreater : lib.isWord 0x3E = false := isWord_punctuation (by decide)
  have hword : ∀ c ∈ codes "redacted", lib.isWord c = true := fun c hc =>
    lib.isWord_ascii c (by revert c; decide)
  change mapWords lib.isWord redactWord (0x3C :: (codes "redacted" ++ [0x3E])) = mark
  rw [mapWords_cons hless, mapWords_word (by decide) hword (ends_cons.mpr hgreater),
    mapWords_cons hgreater, mapWords_nil, redactWord_short (by decide)]
  rfl

theorem mapWords_head {head : PyStr} (hhead : IsHead lib head) (s : PyStr) :
    mapWords lib.isWord redactWord (head ++ s) = head ++ mapWords lib.isWord redactWord s := by
  obtain ⟨c, name, rfl, hc, hname⟩ := hhead
  obtain ⟨hword, hne, hshort⟩ := isSecretName_word hname
  have hbetween : lib.isWord c = false := by
    rcases hc with rfl | rfl <;> exact isWord_punctuation (by decide)
  have hequals : lib.isWord equalsSign = false := isWord_punctuation (by decide)
  have hshape (t : PyStr) : c :: (name ++ [equalsSign]) ++ t = c :: (name ++ equalsSign :: t) := by
    simp
  rw [hshape, hshape, mapWords_cons hbetween, mapWords_word hne hword (ends_cons.mpr hequals),
    mapWords_cons hequals, redactWord_short hshort]

/-- A name and an equals sign come from themselves. -/
theorem eq_of_mapWords {name y : PyStr} (hname : isSecretName lib name = true)
    (h : mapWords lib.isWord redactWord s = name ++ equalsSign :: y) :
    ∃ more, s = name ++ equalsSign :: more ∧ mapWords lib.isWord redactWord more = y := by
  obtain ⟨hword, hne, _⟩ := isSecretName_word hname
  have hequals : lib.isWord equalsSign = false := isWord_punctuation (by decide)
  have hparts := takeWhile_append hword (ends_cons.mpr hequals : Ends lib.isWord (equalsSign :: y))
  have hsplit := List.takeWhile_append_dropWhile (p := lib.isWord) (l := s)
  have hw : ∀ c ∈ s.takeWhile lib.isWord, lib.isWord c = true := fun c hc =>
    List.mem_takeWhile_imp hc
  have hr := ends_dropWhile lib.isWord s
  generalize s.takeWhile lib.isWord = w at hsplit hw
  generalize s.dropWhile lib.isWord = r at hsplit hr
  have hends : Ends lib.isWord (mapWords lib.isWord redactWord r) := hr.mapWords head_redactWord
  rw [← hsplit] at h
  have hnil : w ≠ [] := by
    rintro rfl
    rw [List.nil_append] at h
    rw [h] at hends
    cases name with
    | nil => exact hne rfl
    | cons c name =>
        have hc := ends_cons.mp hends
        rw [hword c List.mem_cons_self] at hc
        cases hc
  rw [mapWords_word hnil hw hr] at h
  by_cases hlong : (w.all isHex && 32 ≤ w.length) = true
  · -- a cut word has a dot behind it, and no equals sign
    have hcut : redactWord w = w.take 12 ++ ellipsis := if_pos hlong
    have htake : ∀ c ∈ w.take 12, lib.isWord c = true := fun c hc => hw c (List.mem_of_mem_take hc)
    have hdot : Ends lib.isWord (ellipsis ++ mapWords lib.isWord redactWord r) :=
      ends_cons.mpr (isWord_punctuation (by decide))
    have hbehind := (takeWhile_append htake hdot).2
    rw [hcut, List.append_assoc] at h
    rw [h, hparts.2] at hbehind
    cases hbehind
  · have hself : redactWord w = w := if_neg hlong
    obtain ⟨hfront, hbehind⟩ := takeWhile_append hw hends
    rw [hself] at h
    rw [h, hparts.1] at hfront
    rw [h, hparts.2] at hbehind
    have hhead : (mapWords lib.isWord redactWord r).head? = r.head? :=
      head_mapWords head_redactWord r
    rw [← hbehind, List.head?_cons] at hhead
    cases r with
    | nil => cases hhead
    | cons d more =>
        obtain rfl : equalsSign = d := Option.some_inj.mp hhead
        rw [mapWords_cons hequals, List.cons_eq_cons] at hbehind
        exact ⟨more, by rw [← hsplit, hfront], hbehind.2.symm⟩

/-- The two substitutions do not meet. -/
theorem mapWords_subSecret (t : PyStr) :
    mapWords lib.isWord redactWord (subSecret lib 0 t) =
      subSecret lib 0 (mapWords lib.isWord redactWord t) := by
  induction hlen : t.length using Nat.strong_induction_on generalizing t with
  | _ n ih =>
      rcases secret_cases lib t with
        rfl | ⟨c, rest, rfl, hmatch⟩ | ⟨head, value, after, rfl, hhead, hvalue, hall, hends⟩
      · rw [subSecret, mapWords_nil, subSecret]
      · cases hc : lib.isWord c with
        | false =>
            have hrest := ih rest.length (by rw [← hlen]; simp) rest rfl
            rw [subSecret_cons hmatch, mapWords_cons hc, mapWords_cons hc, hrest, subSecret_cons]
            apply secretAt_none_of hmatch
            intro name y hname hy
            obtain ⟨more, hmore, rfl⟩ := eq_of_mapWords hname hy
            exact ⟨more, hmore, (head_mapWords head_redactWord more).symm⟩
        | true =>
            have hsplit := List.takeWhile_append_dropWhile (p := lib.isWord) (l := c :: rest)
            have hnil : (c :: rest).takeWhile lib.isWord ≠ [] := by
              rw [List.takeWhile_cons_of_pos hc]
              exact List.cons_ne_nil _ _
            have hw : ∀ d ∈ (c :: rest).takeWhile lib.isWord, lib.isWord d = true := fun d hd =>
              List.mem_takeWhile_imp hd
            have hr := ends_dropWhile lib.isWord (c :: rest)
            generalize (c :: rest).takeWhile lib.isWord = w at hsplit hnil hw
            generalize (c :: rest).dropWhile lib.isWord = r at hsplit hr
            have hplain : ∀ d ∈ w, d ≠ questionMark ∧ d ≠ ampersand := fun d hd =>
              plain_of_isWord (hw d hd)
            have hlt : r.length < n := by
              have hpos := List.length_pos_iff.mpr hnil
              rw [← hlen, ← hsplit, List.length_append]
              omega
            rw [← hsplit, subSecret_plain hplain, mapWords_word hnil hw (subSecret_ends hr),
              mapWords_word hnil hw hr, subSecret_plain (plain_redactWord hplain),
              ih r.length hlt r rfl]
      · have hbetween : Ends lib.isWord after := fun c hc => isWord_of_not_isValue (hends c hc)
        have hlt : after.length < n := by
          have hpos := List.length_pos_iff.mpr hvalue
          rw [List.length_append, List.length_append] at hlen
          omega
        have hvalues : ∀ c ∈ mapWords lib.isWord redactWord value, isValue lib c = true :=
          mem_mapWords (fun w hw => isValue_redactWord hw) hall
        have hne : mapWords lib.isWord redactWord value ≠ [] := by
          intro hnil
          have hsame : (mapWords lib.isWord redactWord value).head? = value.head? :=
            head_mapWords head_redactWord value
          rw [hnil] at hsame
          exact hvalue (List.head?_eq_none_iff.mp hsame.symm)
        rw [subSecret_secret hhead hvalue hall hends, List.append_assoc, mapWords_head hhead,
          mapWords_append (subSecret_ends hbetween), mapWords_mark, ih after.length hlt after rfl,
          mapWords_head hhead, mapWords_append hbetween,
          subSecret_secret hhead hne hvalues (hends.mapWords head_redactWord), List.append_assoc]

/-! ## What is left -/

theorem redact_eq (t : PyStr) :
    redact lib t = mapWords lib.isWord redactWord (subSecret lib 0 t) := by
  rw [redact, subLongHex_eq, mapWords_subSecret]

theorem secretsMarked_redact (t : PyStr) : SecretsMarked lib (redact lib t) :=
  secretsMarked_subSecret _

theorem redact_redact (t : PyStr) : redact lib (redact lib t) = redact lib t := by
  have hwords : mapWords lib.isWord redactWord (redact lib t) = redact lib t := by
    rw [redact_eq, mapWords_mapWords head_redactWord]
    exact fun w hne hw => mapWords_redactWord hw hne
  rw [redact_eq, subSecret_of_marked (secretsMarked_redact t), hwords]

/-- No 32 hexadecimal digits in a row. -/
def NoLongHex (t : PyStr) : Prop := ¬ HasRun isHex 32 t

/-- A word with 32 digits in a row has only digits. -/
def StandAlone (lib : Characters) (t : PyStr) : Prop :=
  ∀ w ∈ words lib.isWord t, HasRun isHex 32 w → ∀ c ∈ w, isHex c = true

theorem noLongHex_of_short (h : s.length < 32) : NoLongHex s := by
  intro hrun
  have hle := hrun.length_le
  omega

theorem noLongHex_cons {d : ℕ} (hd : isHex d = false) : NoLongHex (d :: s) ↔ NoLongHex s := by
  have hnil : ¬ HasRun isHex 32 [] := noLongHex_of_short (by decide)
  rw [NoLongHex, NoLongHex, ← List.nil_append (d :: s), hasRun_append_cons hd]
  simp [hnil]

theorem noLongHex_redactWord : NoLongHex (redactWord w) ↔
    (HasRun isHex 32 w → ∀ c ∈ w, isHex c = true) := by
  by_cases hlong : (w.all isHex && 32 ≤ w.length) = true
  · have hcut : redactWord w = w.take 12 ++ ellipsis := if_pos hlong
    have hall : ∀ c ∈ w, isHex c = true := by
      rw [Bool.and_eq_true, List.all_eq_true] at hlong
      exact hlong.1
    have hshort : NoLongHex (w.take 12 ++ ellipsis) := by
      apply noLongHex_of_short
      rw [List.length_append, List.length_take]
      have hdots : ellipsis.length = 3 := by decide
      omega
    rw [hcut]
    exact ⟨fun _ _ => hall, fun _ => hshort⟩
  · have hself : redactWord w = w := if_neg hlong
    rw [hself]
    constructor
    · intro hno hrun
      exact absurd hrun hno
    · intro hall hrun
      apply hlong
      rw [Bool.and_eq_true, List.all_eq_true, decide_eq_true_eq]
      exact ⟨hall hrun, hrun.length_le⟩

theorem noLongHex_mapWords (t : PyStr) :
    NoLongHex (mapWords lib.isWord redactWord t) ↔ StandAlone lib t := by
  have hnil : HasRun isHex 32 [] → ∀ c ∈ ([] : PyStr), isHex c = true := by
    intro _ c hc
    cases hc
  induction t using word_induction lib.isWord with
  | nil =>
      rw [mapWords_nil, StandAlone, words, List.splitOnP_nil]
      have hshort : NoLongHex [] := noLongHex_of_short (by decide)
      simp [hshort]
  | between c t hc ih =>
      have hhex : isHex c = false := by
        by_contra h
        rw [isHex_isWord (by simpa using h)] at hc
        cases hc
      have hrest : NoLongHex (mapWords lib.isWord redactWord t) ↔ StandAlone lib t := ih
      rw [mapWords_cons hc, noLongHex_cons hhex, hrest, StandAlone, StandAlone, words_cons hc]
      simp
  | word w t hne hw ht ih =>
      have hends : Ends isHex (mapWords lib.isWord redactWord t) :=
        (ht.mapWords head_redactWord).mono fun c hc => isHex_isWord hc
      have hsplit : NoLongHex (redactWord w ++ mapWords lib.isWord redactWord t) ↔
          NoLongHex (redactWord w) ∧ NoLongHex (mapWords lib.isWord redactWord t) := by
        rw [NoLongHex, hasRun_append_of_ends (by decide) hends, not_or, NoLongHex, NoLongHex]
      have hrest : NoLongHex (mapWords lib.isWord redactWord t) ↔ StandAlone lib t := ih
      rw [mapWords_word hne hw ht, hsplit, noLongHex_redactWord, hrest]
      have hwords := forall_words (P := fun v => HasRun isHex 32 v → ∀ c ∈ v, isHex c = true)
        hnil hw ht
      exact hwords.symm

/-- A text without long runs keeps its words. -/
theorem mapWords_of_noLongHex {t : PyStr} (h : NoLongHex t) :
    mapWords lib.isWord redactWord t = t := by
  induction t using word_induction lib.isWord with
  | nil => rw [mapWords_nil]
  | between c t hc ih =>
      have hrest : NoLongHex t := fun hrun => h (hrun.mono (List.infix_cons List.infix_rfl))
      rw [mapWords_cons hc, ih hrest]
  | word w t hne hw ht ih =>
      have hword : NoLongHex w := fun hrun => h (hrun.mono (List.infix_append' [] w t))
      have hrest : NoLongHex t := fun hrun => h (hrun.mono (List.suffix_append w t).isInfix)
      have hself : redactWord w = w := by
        apply if_neg
        intro hlong
        rw [Bool.and_eq_true, List.all_eq_true, decide_eq_true_eq] at hlong
        exact hword (hasRun_of_all hlong.1 hlong.2)
      rw [mapWords_word hne hw ht, hself, ih hrest]

/-- A text in which no parameter begins. -/
theorem secretsMarked_of_plain {t : PyStr} (h : ∀ c ∈ t, c ≠ questionMark ∧ c ≠ ampersand) :
    SecretsMarked lib t := by
  have hnil : SecretsMarked lib [] := by
    intro s hs head value hmatch
    rw [List.suffix_nil.mp hs] at hmatch
    cases hmatch
  rw [← List.append_nil t]
  exact hnil.append h

theorem redact_of_plain {t : PyStr} (h : ∀ c ∈ t, c ≠ questionMark ∧ c ≠ ampersand)
    (hhex : NoLongHex t) : redact lib t = t := by
  rw [redact_eq, subSecret_of_marked (secretsMarked_of_plain h), mapWords_of_noLongHex hhex]

/-- The long runs that stay are the ones in a longer word. -/
theorem noLongHex_redact (t : PyStr) :
    NoLongHex (redact lib t) ↔ StandAlone lib (subSecret lib 0 t) := by
  rw [redact_eq, noLongHex_mapWords]

end

end AikoIsland.LogRedaction
