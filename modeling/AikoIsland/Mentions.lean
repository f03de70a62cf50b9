import AikoIsland.Checks
import AikoIsland.JsonText
import AikoIsland.Tables
import AikoIsland.TextPatterns

/-!
# Mention spans

`validate_mentions` accepts an array of span objects and builds fresh ones. Which
category a character belongs to is the Unicode database's, an argument here; the
texts of the errors are the source's.

The pattern of a target type ends in `$`, which also matches before a last
newline. So the function does what its errors say on every value except one kind:
arrays all of whose spans are right but for target types that have a newline
behind the token.
-/
namespace AikoIsland.Mentions
open Tables JsonText TextPatterns Checks OrderedDict

/-! ## The checks -/

inductive GeneralCategory where
  | lu | ll | lt | lm | lo
  | mn | mc | me
  | nd | nl | no
  | pc | pd | ps | pe | pi | pf | po
  | sm | sc | sk | so
  | zs | zl | zp
  | cc | cf | cs | co | cn
  deriving DecidableEq, Repr

def maxMentions : ℕ := 64

def maxTargetId : ℕ := 128

def maxIndex : ℤ := 2 ^ 20

def spanKeys : List PyStr :=
  [codes "target_type", codes "target_id", codes "offset", codes "length"]

def forbiddenIdCategories : List GeneralCategory := [.cc, .cf, .cs, .co, .cn]

inductive Raised where
  | mentionError (message : String)
  | keyError
  deriving DecidableEq, Repr

/-- A span as it is stored and echoed. -/
structure Span where
  targetType : PyStr
  targetId : PyStr
  offset : ℤ
  length : ℤ
  deriving DecidableEq, Repr

def Span.items (span : Span) : List (PyStr × Json) :=
  [(codes "target_type", .str span.targetType), (codes "target_id", .str span.targetId),
   (codes "offset", .int span.offset), (codes "length", .int span.length)]

def isLower (c : ℕ) : Bool := 97 ≤ c && c ≤ 122

def isTokenCode (c : ℕ) : Bool := isLower c || (48 ≤ c && c ≤ 57) || c = 95

/-- `_TARGET_TYPE_RE.match`: `^[a-z][a-z0-9_]{0,31}$`. -/
def matchesTargetType : PyStr → Bool
  | [] => false
  | c :: rest => isLower c && runToEnd isTokenCode 0 31 rest

section
variable (category : ℕ → GeneralCategory)

def isCleanId (s : PyStr) : Bool := s.all fun c => category c ∉ forbiddenIdCategories

def item (items : List (PyStr × Json)) (key : String) : Except Raised Json :=
  match get items (codes key) with
  | some v => .ok v
  | none => .error .keyError

def checkTargetType : Json → Except Raised PyStr
  | .str s =>
      if matchesTargetType s then .ok s
      else .error (.mentionError
        "target_type must be a short lowercase token (^[a-z][a-z0-9_]\x7b0,31\x7d$)")
  | _ => .error (.mentionError
      "target_type must be a short lowercase token (^[a-z][a-z0-9_]\x7b0,31\x7d$)")

def checkTargetId : Json → Except Raised PyStr
  | .str s =>
      if ¬(0 < s.length ∧ s.length ≤ maxTargetId) then
        .error (.mentionError "target_id must be a non-empty string within 128 chars")
      else if !isCleanId category s then
        .error (.mentionError "target_id must not contain control/format characters")
      else .ok s
  | _ => .error (.mentionError "target_id must be a non-empty string within 128 chars")

/-- An integer, no boolean, between bounds. -/
def checkIndex (low : ℤ) (message : String) : Json → Except Raised ℤ
  | .int n => if low ≤ n ∧ n ≤ maxIndex then .ok n else .error (.mentionError message)
  | _ => .error (.mentionError message)

def sameKeys (items : List (PyStr × Json)) : Bool :=
  (keys items).all (· ∈ spanKeys) && spanKeys.all (· ∈ keys items)

def validateSpan : Json → Except Raised Span
  | .obj items =>
      if !sameKeys items then
        .error (.mentionError
          "each mention span must have exactly \x7btarget_type, target_id, offset, length\x7d")
      else do
        let targetType ← checkTargetType (← item items "target_type")
        let targetId ← checkTargetId category (← item items "target_id")
        let offset ← checkIndex 0 "offset must be an int in [0, 1048576]" (← item items "offset")
        let length ← checkIndex 1 "length must be an int in [1, 1048576]" (← item items "length")
        if maxIndex < offset + length then
          .error (.mentionError "offset + length must not exceed 1048576")
        else .ok ⟨targetType, targetId, offset, length⟩
  | _ => .error (.mentionError "each mention span must be an object")

def validateMentions : Json → Except Raised (Option (List Span))
  | .null => .ok none
  | .arr spans =>
      if maxMentions < spans.length then
        .error (.mentionError "mentions exceeds the 64-span cap")
      else (spans.mapM (validateSpan category)).map some
  | _ => .error (.mentionError "mentions must be a list")

end

/-! ## What is accepted -/

/-- A token as a whole: one lowercase letter and at most 31 characters of `[a-z0-9_]`. -/
def IsToken : PyStr → Prop
  | [] => False
  | c :: rest => isLower c = true ∧ rest.length ≤ 31 ∧ ∀ d ∈ rest, isTokenCode d = true

/-- An object with exactly the keys of a span and right values; `type` judges the target type. -/
structure SpanWith (category : ℕ → GeneralCategory) (type : PyStr → Prop)
    (items : List (PyStr × Json)) (span : Span) : Prop where
  keys : ∀ k, k ∈ keys items ↔ k ∈ spanKeys
  values : ∀ k, get items k = get span.items k
  targetType : type span.targetType
  nonempty : 1 ≤ span.targetId.length
  short : span.targetId.length ≤ 128
  clean : ∀ c ∈ span.targetId, category c ∉ forbiddenIdCategories
  offset : 0 ≤ span.offset
  length : 1 ≤ span.length
  bounded : span.offset + span.length ≤ 2 ^ 20

/-- The value is null, or an array of at most 64 spans; `result` is an equal fresh value. -/
inductive MentionsWith (category : ℕ → GeneralCategory) (type : PyStr → Prop) :
    Json → Option (List Span) → Prop where
  | null : MentionsWith category type .null none
  | arr {raw : List Json} {spans : List Span} : raw.length ≤ 64 →
      List.Forall₂ (fun json span => ∃ items, json = .obj items ∧
        SpanWith category type items span) raw spans →
      MentionsWith category type (.arr raw) (some spans)

section
variable {category : ℕ → GeneralCategory} {type : PyStr → Prop} {items : List (PyStr × Json)}
  {span : Span} {v : Json}

/-! ## One span -/

theorem sameKeys_iff : sameKeys items = true ↔ ∀ k, k ∈ keys items ↔ k ∈ spanKeys := by
  simp only [sameKeys, Bool.and_eq_true, List.all_eq_true, decide_eq_true_eq]
  constructor
  · intro h k
    exact ⟨h.1 k, h.2 k⟩
  · intro h
    exact ⟨fun k hk => (h k).mp hk, fun k hk => (h k).mpr hk⟩

theorem item_eq_ok {key : String} : item items key = .ok v ↔ get items (codes key) = some v := by
  unfold item
  cases get items (codes key) <;> simp

/-- A key of a span is there once the keys were compared. -/
theorem exists_item {key : String} (hsame : sameKeys items = true) (hkey : codes key ∈ spanKeys) :
    ∃ v, item items key = .ok v := by
  obtain ⟨v, hv⟩ := get_of_mem_keys ((sameKeys_iff.mp hsame _).mpr hkey)
  exact ⟨v, item_eq_ok.mpr hv⟩

theorem checkTargetType_eq_ok {s : PyStr} :
    checkTargetType v = .ok s ↔ v = .str s ∧ matchesTargetType s = true := by
  cases v with
  | str t =>
      rw [checkTargetType]
      split_ifs with h
      · constructor
        · intro hs
          obtain rfl := Except.ok.inj hs
          exact ⟨rfl, h⟩
        · intro hs
          rw [Json.str.inj hs.1]
      · constructor
        · intro hs
          cases hs
        · intro hs
          rw [Json.str.inj hs.1] at h
          exact absurd hs.2 h
  | _ => simp [checkTargetType]

theorem checkTargetId_eq_ok {s : PyStr} :
    checkTargetId category v = .ok s ↔ v = .str s ∧ 1 ≤ s.length ∧ s.length ≤ 128 ∧
      ∀ c ∈ s, category c ∉ forbiddenIdCategories := by
  cases v with
  | str t =>
      rw [checkTargetId]
      split_ifs with hlength hclean
      · constructor
        · intro hs
          cases hs
        · intro hs
          rw [Json.str.inj hs.1] at hclean
          have hall : isCleanId category s = true := by simpa [isCleanId] using hs.2.2.2
          rw [hall] at hclean
          cases hclean
      · have hall : ∀ c ∈ t, category c ∉ forbiddenIdCategories := by
          simpa [isCleanId] using hclean
        constructor
        · intro hs
          cases hs
          exact ⟨rfl, hlength.1, hlength.2, hall⟩
        · intro hs
          rw [Json.str.inj hs.1]
      · constructor
        · intro hs
          cases hs
        · intro hs
          rw [Json.str.inj hs.1] at hlength
          exact absurd ⟨hs.2.1, hs.2.2.1⟩ hlength
  | _ => simp [checkTargetId]

theorem checkIndex_eq_ok {low n : ℤ} {message : String} :
    checkIndex low message v = .ok n ↔ v = .int n ∧ low ≤ n ∧ n ≤ maxIndex := by
  cases v with
  | int m =>
      rw [checkIndex]
      split_ifs with h
      · constructor
        · intro hn
          obtain rfl := Except.ok.inj hn
          exact ⟨rfl, h⟩
        · intro hn
          rw [Json.int.inj hn.1]
      · constructor
        · intro hn
          cases hn
        · intro hn
          rw [Json.int.inj hn.1] at h
          exact absurd hn.2 h
  | _ => simp [checkIndex]

@[simp] theorem get_targetType : get span.items (codes "target_type") = some (.str span.targetType) :=
  rfl

@[simp] theorem get_targetId : get span.items (codes "target_id") = some (.str span.targetId) :=
  rfl

@[simp] theorem get_offset : get span.items (codes "offset") = some (.int span.offset) := rfl

@[simp] theorem get_length : get span.items (codes "length") = some (.int span.length) := rfl

theorem keys_items : keys span.items = spanKeys := rfl

/-- The fresh object has the items of the inbound one, whatever the order of these. -/
theorem get_eq_get_items (hsame : sameKeys items = true)
    (htype : get items (codes "target_type") = some (.str span.targetType))
    (hid : get items (codes "target_id") = some (.str span.targetId))
    (hoffset : get items (codes "offset") = some (.int span.offset))
    (hlength : get items (codes "length") = some (.int span.length)) (k : PyStr) :
    get items k = get span.items k := by
  by_cases hk : k ∈ spanKeys
  · simp only [spanKeys, List.mem_cons, List.not_mem_nil, or_false] at hk
    rcases hk with rfl | rfl | rfl | rfl
    · rw [htype, get_targetType]
    · rw [hid, get_targetId]
    · rw [hoffset, get_offset]
    · rw [hlength, get_length]
  · have hitems : k ∉ keys items := fun hin => hk ((sameKeys_iff.mp hsame k).mp hin)
    have hfresh : k ∉ keys span.items := by
      rw [keys_items]
      exact hk
    rw [get_of_notMem hitems, get_of_notMem hfresh]

theorem validateSpan_eq_ok {json : Json} :
    validateSpan category json = .ok span ↔ ∃ items, json = .obj items ∧
      SpanWith category (fun s => matchesTargetType s = true) items span := by
  cases json with
  | obj items =>
      rw [validateSpan]
      by_cases hsame : sameKeys items = true
      · rw [hsame, Bool.not_true, if_neg Bool.false_ne_true]
        constructor
        · intro h
          obtain ⟨v₁, hv₁, h⟩ := bind_eq_ok.mp h
          obtain ⟨type, htype, h⟩ := bind_eq_ok.mp h
          obtain ⟨v₂, hv₂, h⟩ := bind_eq_ok.mp h
          obtain ⟨id, hid, h⟩ := bind_eq_ok.mp h
          obtain ⟨v₃, hv₃, h⟩ := bind_eq_ok.mp h
          obtain ⟨offset, hoffset, h⟩ := bind_eq_ok.mp h
          obtain ⟨v₄, hv₄, h⟩ := bind_eq_ok.mp h
          obtain ⟨length, hlength, h⟩ := bind_eq_ok.mp h
          split_ifs at h with hsum
          cases h
          obtain ⟨rfl, hmatch⟩ := checkTargetType_eq_ok.mp htype
          obtain ⟨rfl, hnonempty, hshort, hclean⟩ := checkTargetId_eq_ok.mp hid
          obtain ⟨rfl, hzero, _⟩ := checkIndex_eq_ok.mp hoffset
          obtain ⟨rfl, hone, _⟩ := checkIndex_eq_ok.mp hlength
          refine ⟨items, rfl, sameKeys_iff.mp hsame, ?_, hmatch, hnonempty, hshort, hclean, hzero,
            hone, not_lt.mp hsum⟩
          exact get_eq_get_items hsame (item_eq_ok.mp hv₁) (item_eq_ok.mp hv₂)
            (item_eq_ok.mp hv₃) (item_eq_ok.mp hv₄)
        · intro h
          obtain ⟨items', hitems, hspan⟩ := h
          cases hitems
          have hbound := hspan.bounded
          have hoffset : checkIndex 0 "offset must be an int in [0, 1048576]" (.int span.offset) =
              .ok span.offset :=
            checkIndex_eq_ok.mpr ⟨rfl, hspan.offset, by have := hspan.length; unfold maxIndex; omega⟩
          have hlength : checkIndex 1 "length must be an int in [1, 1048576]" (.int span.length) =
              .ok span.length :=
            checkIndex_eq_ok.mpr ⟨rfl, hspan.length, by have := hspan.offset; unfold maxIndex; omega⟩
          apply bind_eq_ok.mpr
          refine ⟨_, item_eq_ok.mpr ((hspan.values _).trans get_targetType), bind_eq_ok.mpr ?_⟩
          refine ⟨_, checkTargetType_eq_ok.mpr ⟨rfl, hspan.targetType⟩, bind_eq_ok.mpr ?_⟩
          refine ⟨_, item_eq_ok.mpr ((hspan.values _).trans get_targetId), bind_eq_ok.mpr ?_⟩
          refine ⟨_, checkTargetId_eq_ok.mpr ⟨rfl, hspan.nonempty, hspan.short, hspan.clean⟩,
            bind_eq_ok.mpr ?_⟩
          refine ⟨_, item_eq_ok.mpr ((hspan.values _).trans get_offset), bind_eq_ok.mpr ?_⟩
          refine ⟨_, hoffset, bind_eq_ok.mpr ?_⟩
          refine ⟨_, item_eq_ok.mpr ((hspan.values _).trans get_length), bind_eq_ok.mpr ?_⟩
          refine ⟨_, hlength, ?_⟩
          rw [if_neg (by unfold maxIndex; omega)]
      · have hfalse : sameKeys items = false := by simpa using hsame
        rw [hfalse, Bool.not_false, if_pos rfl]
        constructor
        · intro h
          cases h
        · intro h
          obtain ⟨items', hitems, hspan⟩ := h
          cases hitems
          exact absurd (sameKeys_iff.mpr hspan.keys) hsame
  | _ => simp [validateSpan]

/-! ## The whole value -/

/-- A span is built, or a `MentionError` is raised: no key is missing once the keys agree. -/
theorem raisesOnly_validateSpan (json : Json) :
    RaisesOnly (fun e => ∃ message, e = .mentionError message) (validateSpan category json) := by
  have htype : ∀ v : Json, RaisesOnly (fun e => ∃ message, e = .mentionError message)
      (checkTargetType v) := by
    intro v e h
    unfold checkTargetType at h
    split at h
    · split_ifs at h
      cases h
      exact ⟨_, rfl⟩
    · cases h
      exact ⟨_, rfl⟩
  have hid : ∀ v : Json, RaisesOnly (fun e => ∃ message, e = .mentionError message)
      (checkTargetId category v) := by
    intro v e h
    unfold checkTargetId at h
    split at h
    · split_ifs at h
      · cases h
        exact ⟨_, rfl⟩
      · cases h
        exact ⟨_, rfl⟩
    · cases h
      exact ⟨_, rfl⟩
  have hindex : ∀ (low : ℤ) (message : String) (v : Json),
      RaisesOnly (fun e => ∃ message, e = .mentionError message) (checkIndex low message v) := by
    intro low message v e h
    unfold checkIndex at h
    split at h
    · split_ifs at h
      cases h
      exact ⟨_, rfl⟩
    · cases h
      exact ⟨_, rfl⟩
  cases json with
  | obj items =>
      rw [validateSpan]
      by_cases hsame : sameKeys items = true
      · rw [hsame, Bool.not_true, if_neg Bool.false_ne_true]
        have hitem : ∀ key : String, codes key ∈ spanKeys →
            RaisesOnly (fun e => ∃ message, e = .mentionError message) (item items key) := by
          intro key hkey
          obtain ⟨v, hv⟩ := exists_item hsame hkey
          rw [hv]
          exact raisesOnly_ok
        apply (hitem _ (by simp [spanKeys])).bind
        intro v₁ _
        apply (htype v₁).bind
        intro type _
        apply (hitem _ (by simp [spanKeys])).bind
        intro v₂ _
        apply (hid v₂).bind
        intro id _
        apply (hitem _ (by simp [spanKeys])).bind
        intro v₃ _
        apply (hindex 0 _ v₃).bind
        intro offset _
        apply (hitem _ (by simp [spanKeys])).bind
        intro v₄ _
        apply (hindex 1 _ v₄).bind
        intro length _
        split_ifs
        · exact raisesOnly_error.mpr ⟨_, rfl⟩
        · exact raisesOnly_ok
      · rw [if_pos (by simpa using hsame)]
        exact raisesOnly_error.mpr ⟨_, rfl⟩
  | _ => exact raisesOnly_error.mpr ⟨_, rfl⟩

theorem raisesOnly_validateMentions (raw : Json) :
    RaisesOnly (fun e => ∃ message, e = .mentionError message)
      (validateMentions category raw) := by
  cases raw with
  | null => exact raisesOnly_ok
  | arr spans =>
      rw [validateMentions]
      split_ifs
      · exact raisesOnly_error.mpr ⟨_, rfl⟩
      · exact (RaisesOnly.mapM fun json _ => raisesOnly_validateSpan json).map
  | _ => exact raisesOnly_error.mpr ⟨_, rfl⟩

theorem validateMentions_eq_ok {raw : Json} {r : Option (List Span)} :
    validateMentions category raw = .ok r ↔
      MentionsWith category (fun s => matchesTargetType s = true) raw r := by
  cases raw with
  | null =>
      constructor
      · intro h
        cases h
        exact .null
      · intro h
        cases h
        rfl
  | arr raw =>
      rw [validateMentions]
      split_ifs with hlong
      · constructor
        · intro h
          cases h
        · intro h
          cases h with
          | arr hshort _ => exact absurd hshort (not_le.mpr hlong)
      · rw [map_eq_ok]
        constructor
        · intro h
          obtain ⟨spans, hspans, hr⟩ := h
          rw [← hr]
          apply MentionsWith.arr (not_lt.mp hlong)
          exact (mapM_eq_ok.mp hspans).imp fun json span h => validateSpan_eq_ok.mp h
        · intro h
          cases h with
          | arr _ hspans =>
              exact ⟨_, mapM_eq_ok.mpr (hspans.imp fun json span h => validateSpan_eq_ok.mpr h), rfl⟩
  | _ =>
      constructor
      · intro h
        cases h
      · intro h
        cases h

theorem matchesTargetType_iff {s : PyStr} :
    matchesTargetType s = true ↔ ∃ t, (s = t ∨ s = t ++ [10]) ∧ IsToken t := by
  cases s with
  | nil =>
      constructor
      · intro h
        cases h
      · intro h
        obtain ⟨t, hs, ht⟩ := h
        cases hs with
        | inl hs =>
            subst hs
            exact ht.elim
        | inr hs => simp at hs
  | cons c rest =>
      rw [matchesTargetType, Bool.and_eq_true, runToEnd_iff]
      constructor
      · intro h
        obtain ⟨hc, run, hrest, _, hlength, hall⟩ := h
        refine ⟨c :: run, ?_, hc, hlength, hall⟩
        cases hrest with
        | inl hwhole => exact Or.inl (by rw [hwhole])
        | inr hnewline => exact Or.inr (by rw [hnewline, List.cons_append])
      · intro h
        obtain ⟨t, hs, ht⟩ := h
        cases t with
        | nil => exact ht.elim
        | cons d run =>
            rw [List.cons_append, List.cons.injEq, List.cons.injEq] at hs
            have hcd : c = d := by
              cases hs with
              | inl h => exact h.1
              | inr h => exact h.1
            subst hcd
            refine ⟨ht.1, run, ?_, Nat.zero_le _, ht.2.1, ht.2.2⟩
            cases hs with
            | inl h => exact Or.inl h.2
            | inr h => exact Or.inr h.2

theorem getLast?_ne_of_isToken {s : PyStr} (h : IsToken s) : s.getLast? ≠ some 10 := by
  intro hlast
  have hmem := List.mem_of_getLast? hlast
  cases s with
  | nil => cases hmem
  | cons c rest =>
      rcases List.mem_cons.mp hmem with hc | hrest
      · have hlower := h.1
        rw [← hc] at hlower
        cases hlower
      · have hcode := h.2.2 10 hrest
        cases hcode

theorem MentionsWith.mono {type' : PyStr → Prop} {raw : Json} {r : Option (List Span)}
    (h : MentionsWith category type raw r)
    (himp : ∀ spans, r = some spans → ∀ span ∈ spans, type span.targetType →
      type' span.targetType) : MentionsWith category type' raw r := by
  cases h with
  | null => exact .null
  | arr hshort hspans =>
      rename_i raw spans
      apply MentionsWith.arr hshort
      have hin := himp spans rfl
      clear himp hshort
      induction hspans with
      | nil => exact .nil
      | cons hspan _ ih =>
          obtain ⟨items, hitems, hright⟩ := hspan
          apply List.Forall₂.cons
          · exact ⟨items, hitems, { hright with
              targetType := hin _ List.mem_cons_self hright.targetType }⟩
          · exact ih fun span hspan => hin span (List.mem_cons_of_mem _ hspan)

/-- The value is accepted if and only if it is right, with an equal fresh value, and a
`MentionError` is raised on every other value. -/
def Exact (category : ℕ → GeneralCategory) (raw : Json) : Prop :=
  (∀ r, validateMentions category raw = .ok r ↔ MentionsWith category IsToken raw r) ∧
    ((¬∃ r, MentionsWith category IsToken raw r) →
      ∃ message, validateMentions category raw = .error (.mentionError message))

/-- An array of spans that are right but for a newline behind the token of some target types. -/
def NewlineBehindToken (category : ℕ → GeneralCategory) (raw : Json) : Prop :=
  ∃ spans, MentionsWith category (fun s => ∃ t, (s = t ∨ s = t ++ [10]) ∧ IsToken t) raw
      (some spans) ∧
    ∃ span ∈ spans, span.targetType.getLast? = some 10

end

/-- Mention spans are validated exactly, except in the arrays with a newline behind a token. -/
theorem exact_iff (category : ℕ → GeneralCategory) (raw : Json) :
    Exact category raw ↔ ¬NewlineBehindToken category raw := by
  have hmatches : ∀ r, validateMentions category raw = .ok r ↔
      MentionsWith category (fun s => ∃ t, (s = t ∨ s = t ++ [10]) ∧ IsToken t) raw r := by
    intro r
    rw [validateMentions_eq_ok]
    simp only [matchesTargetType_iff]
  constructor
  · intro hexact hnewline
    obtain ⟨spans, hspans, span, hspan, hlast⟩ := hnewline
    have haccepted := (hexact.1 (some spans)).mp ((hmatches (some spans)).mpr hspans)
    cases haccepted with
    | arr hshort hall =>
        have hright : ∀ span ∈ spans, IsToken span.targetType := by
          clear hmatches hexact hspans hspan hlast hshort
          induction hall with
          | nil => simp
          | cons hhead _ ih =>
              obtain ⟨items, _, hhead⟩ := hhead
              intro span hspan
              rcases List.mem_cons.mp hspan with rfl | hspan
              · exact hhead.targetType
              · exact ih span hspan
        exact getLast?_ne_of_isToken (hright span hspan) hlast
  · intro hnone
    have hexact : ∀ r, validateMentions category raw = .ok r ↔
        MentionsWith category IsToken raw r := by
      intro r
      rw [hmatches]
      constructor
      · intro h
        apply h.mono
        intro spans hr span hspan htype
        obtain ⟨t, hs, ht⟩ := htype
        cases hs with
        | inl hwhole =>
            rw [hwhole]
            exact ht
        | inr hnewline =>
            rw [hr] at h
            exact absurd ⟨spans, h, span, hspan, by rw [hnewline]; simp⟩ hnone
      · intro h
        apply h.mono
        intro spans _ span _ htype
        exact ⟨_, Or.inl rfl, htype⟩
    refine ⟨hexact, ?_⟩
    intro hwrong
    rcases (raisesOnly_validateMentions raw).ok_or with ⟨r, hr⟩ | ⟨e, ⟨message, he⟩, hraised⟩
    · exact absurd ⟨r, (hexact r).mp hr⟩ hwrong
    · rw [he] at hraised
      exact ⟨message, hraised⟩

/-- The categories of the ASCII letters and digits. -/
def asciiCategory (c : ℕ) : GeneralCategory :=
  if 48 ≤ c ∧ c ≤ 57 then .nd
  else if 65 ≤ c ∧ c ≤ 90 then .lu
  else if 97 ≤ c ∧ c ≤ 122 then .ll
  else .cn

/-- A target type that is no token: `user` with a newline behind it. -/
theorem a_newline_is_accepted : ¬Exact asciiCategory
    (.arr [.obj [(codes "target_type", .str (codes "user\n")),
      (codes "target_id", .str (codes "u1")), (codes "offset", .int 0),
      (codes "length", .int 2)]]) := by
  intro hexact
  have haccepted := (hexact.1 (some [⟨codes "user\n", codes "u1", 0, 2⟩])).mp (by rfl)
  cases haccepted with
  | arr _ hall =>
      obtain ⟨items, _, hspan⟩ := (List.forall₂_cons.mp hall).1
      exact getLast?_ne_of_isToken hspan.targetType (by decide)

end AikoIsland.Mentions
