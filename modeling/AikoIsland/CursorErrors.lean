import AikoIsland.Checks
import AikoIsland.Directory
import AikoIsland.JsonText
import AikoIsland.SignedBytes

/-!
# What a cursor can make of a listing

`discover` once more, with every step that a cursor of arbitrary text can fail in:
the encoding of a lone surrogate, which raises inside the handler of the decoder;
`int`, which takes no second sign, no digit without a decimal value and no more
than 4300 digits; the driver, which binds an integer of 64 bits only.

The count of a cursor is tested with `isdigit` before it is converted. The test
passes more than the conversion and the driver do, and what they raise is not
`InvalidCursor`. The search text is one whose pattern `LIKE` takes; what a longer
one does to a listing does not depend on the cursor.
-/
namespace AikoIsland.CursorErrors
open Tables Communities Checks

inductive DiscoverError where
  | invalidCursor
  | valueError
  | overflowError
  deriving DecidableEq, Repr

abbrev Page := List Community × Option String

/-- `_decode_cursor`. -/
def decodeToken (token : PyStr) (expected : SortMode) : Except CursorError (String × String) :=
  match Messages.encode token with
  | none => .error .invalidCursor
  | some t => decodeCursor t expected

/-- `sort_key.lstrip("-").isdigit()`. -/
def passesDigitTest (u : Unicode) (sortKey : String) : Bool :=
  let stripped := sortKey.toList.dropWhile (· == '-')
  stripped ≠ [] && stripped.all (isDigit u)

/-- `int(sort_key)`, with the limit on its digits. -/
def toInt (u : Unicode) (sortKey : String) : Except DiscoverError ℤ :=
  match pyInt u sortKey.toList with
  | none => .error .valueError
  | some mc =>
      if JsonText.maxStrDigits < (sortKey.toList.dropWhile (· == '-')).length then
        .error .valueError
      else .ok mc

/-- What the driver makes of an integer parameter. -/
def bindInteger (n : ℤ) : Except DiscoverError ℤ :=
  if -2 ^ 63 ≤ n ∧ n < 2 ^ 63 then .ok n else .error .overflowError

/-- The rows after a cursor. -/
def keyset (u : Unicode) (sort : SortMode) (sortKey lastId : String) :
    Except DiscoverError (Community → Bool) :=
  match sort with
  | .members =>
      if !passesDigitTest u sortKey then .error .invalidCursor
      else do
        let mc ← toInt u sortKey
        let mc ← bindInteger mc
        return fun c => c.memberCount < mc || c.memberCount = mc && lastId < c.id
  | .name => .ok fun c => sortKey < c.name || c.name = sortKey && lastId < c.id

/-- The SELECT and the page that is cut from its rows. -/
def selectPage (q category : Option String) (sort : SortMode) (keep : Community → Bool) (db : Db) :
    Page :=
  let found := db.communities.filter fun c => listed q category c && keep c
  let rows := (found.insertionSort (inOrder sort)).take (pageSize + 1)
  let page := rows.take pageSize
  (page, if pageSize < rows.length then
      page.getLast?.map fun last => encodeCursor sort (sortKeyOf sort last) last.id
    else none)

/-- `discover`, on a cursor of any text. -/
def discoverPage (u : Unicode) (q category : Option String) (sort : String)
    (cursor : Option PyStr) (db : Db) : Except DiscoverError Page :=
  let sort := SortMode.clamp sort
  match cursor.filter (· ≠ []) with
  | none => .ok (selectPage q category sort (fun _ => true) db)
  | some token =>
      match decodeToken token sort with
      | .error _ => .error .invalidCursor
      | .ok (sortKey, lastId) =>
          (keyset u sort sortKey lastId).map fun keep => selectPage q category sort keep db

section
variable {u : Unicode} {q category : Option String} {sort : String} {db : Db} {sortKey : String}

/-- Where both answer with a page, the two forms of `discover` answer with the same one. -/
theorem discover_eq_selectPage {maxPattern : ℕ} (htakes : tooComplex maxPattern q db = false)
    {cursor : Option String} {keep : Community → Bool}
    (h : beyond u (.clamp sort) cursor = .ok keep) :
    discover maxPattern u q category sort cursor db =
      .ok (selectPage q category (.clamp sort) keep db) := by
  unfold discover
  dsimp only
  rw [h]
  dsimp only
  rw [htakes]
  rfl

/-! ## The count of a cursor -/

/-- The text of a sign. -/
def sign (negative : Bool) : List Char := if negative then ['-'] else []

theorem decimals_minus {acc : ℕ} {cs : List Char} : decimals u acc ('-' :: cs) = none := rfl

/-- `int` reads one optional minus sign and at least one decimal digit. -/
theorem pyInt_eq_some {cs : List Char} {mc : ℤ} :
    pyInt u cs = some mc ↔ ∃ negative digits n, cs = sign negative ++ digits ∧ digits ≠ [] ∧
      decimals u 0 digits = some n ∧ mc = if negative then -(n : ℤ) else n := by
  constructor
  · intro h
    unfold pyInt at h
    split at h
    · cases h
    · rename_i digits
      split_ifs at h with hempty
      cases hn : decimals u 0 digits with
      | none =>
          rw [hn] at h
          cases h
      | some n =>
          rw [hn] at h
          cases h
          exact ⟨true, digits, n, rfl, hempty, hn, rfl⟩
    · rename_i hnonempty _
      cases hn : decimals u 0 cs with
      | none =>
          rw [hn] at h
          cases h
      | some n =>
          rw [hn] at h
          cases h
          exact ⟨false, cs, n, rfl, hnonempty, hn, rfl⟩
  · intro h
    obtain ⟨negative, digits, n, hcs, hnonempty, hn, hmc⟩ := h
    subst hcs hmc
    cases negative with
    | true =>
        have hread : pyInt u ('-' :: digits) = (decimals u 0 digits).map fun n => -(n : ℤ) := by
          change (if digits = [] then none else _) = _
          rw [if_neg hnonempty]
        change pyInt u ('-' :: digits) = _
        rw [hread, hn]
        rfl
    | false =>
        cases digits with
        | nil => exact absurd rfl hnonempty
        | cons c rest =>
            by_cases hc : c = '-'
            · rw [hc, decimals_minus] at hn
              cases hn
            · have hread : pyInt u (c :: rest) = (decimals u 0 (c :: rest)).map fun n => (n : ℤ) := by
                unfold pyInt
                split
                · rename_i h
                  cases h
                · rename_i h
                  cases h
                  exact absurd rfl hc
                · cases decimals u 0 (c :: rest) <;> rfl
              change pyInt u (c :: rest) = _
              rw [hread, hn]
              rfl

theorem head_of_decimals {digits : List Char} {acc n : ℕ} (h : decimals u acc digits = some n) :
    digits.dropWhile (· == '-') = digits := by
  cases digits with
  | nil => rfl
  | cons c rest =>
      by_cases hc : c = '-'
      · subst hc
        cases h
      · rw [List.dropWhile_cons_of_neg]
        simpa using hc

theorem dropWhile_sign {negative : Bool} {digits : List Char} :
    (sign negative ++ digits).dropWhile (· == '-') = digits.dropWhile (· == '-') := by
  cases negative <;> rfl

/-- The key of the cursor reads as hyphens with digits behind them. -/
def PassesDigitTest (u : Unicode) (sortKey : String) : Prop :=
  ∃ hyphens digits, sortKey.toList = List.replicate hyphens '-' ++ digits ∧ digits ≠ [] ∧
    ∀ c ∈ digits, isDigit u c = true

/-- The key of the cursor is one optional minus sign and at most 4300 decimal digits, with a value
of 64 bits. -/
def FitsCount (u : Unicode) (sortKey : String) : Prop :=
  ∃ negative digits n, sortKey.toList = sign negative ++ digits ∧ digits ≠ [] ∧
    decimals u 0 digits = some n ∧ digits.length ≤ 4300 ∧
    -2 ^ 63 ≤ (if negative then -(n : ℤ) else n) ∧ (if negative then -(n : ℤ) else n) < 2 ^ 63

theorem passesDigitTest_iff : passesDigitTest u sortKey = true ↔ PassesDigitTest u sortKey := by
  simp only [passesDigitTest, Bool.and_eq_true, decide_eq_true_eq, List.all_eq_true]
  constructor
  · intro h
    refine ⟨(sortKey.toList.takeWhile (· == '-')).length, sortKey.toList.dropWhile (· == '-'), ?_,
      h.1, h.2⟩
    have hhyphens : sortKey.toList.takeWhile (· == '-') =
        List.replicate (sortKey.toList.takeWhile (· == '-')).length '-' := by
      rw [List.eq_replicate_iff]
      refine ⟨rfl, ?_⟩
      intro c hc
      have hall : (sortKey.toList.takeWhile (· == '-')).all (· == '-') = true := List.all_takeWhile
      simpa using List.all_eq_true.mp hall c hc
    rw [← hhyphens, List.takeWhile_append_dropWhile]
  · intro h
    obtain ⟨hyphens, digits, hkey, hnonempty, hall⟩ := h
    have hdrop : sortKey.toList.dropWhile (· == '-') = digits := by
      rw [hkey, List.dropWhile_append_of_pos]
      · cases digits with
        | nil => rfl
        | cons c rest =>
            rw [List.dropWhile_cons_of_neg]
            intro hc
            have hdigit := hall c List.mem_cons_self
            rw [beq_iff_eq.mp hc] at hdigit
            cases hdigit
      · intro c hc
        rw [List.eq_of_mem_replicate hc]
        rfl
    rw [hdrop]
    exact ⟨hnonempty, hall⟩

/-- The conversion and the driver take a count exactly where it fits. -/
theorem bind_toInt_eq_ok :
    (∃ mc, (toInt u sortKey >>= bindInteger) = .ok mc) ↔ FitsCount u sortKey := by
  constructor
  · intro h
    obtain ⟨mc, h⟩ := h
    obtain ⟨n, hread, hbind⟩ := bind_eq_ok.mp h
    unfold toInt at hread
    cases hint : pyInt u sortKey.toList with
    | none =>
        rw [hint] at hread
        cases hread
    | some value =>
        rw [hint] at hread
        dsimp only at hread
        split_ifs at hread with hlong
        cases hread
        unfold bindInteger at hbind
        split_ifs at hbind with hrange
        obtain ⟨negative, digits, n, hkey, hnonempty, hn, hvalue⟩ := pyInt_eq_some.mp hint
        rw [hvalue] at hrange
        refine ⟨negative, digits, n, hkey, hnonempty, hn, ?_, hrange⟩
        rw [hkey, dropWhile_sign, head_of_decimals hn] at hlong
        exact not_lt.mp hlong
  · intro h
    obtain ⟨negative, digits, n, hkey, hnonempty, hn, hshort, hrange⟩ := h
    have hint := pyInt_eq_some.mpr ⟨negative, digits, n, hkey, hnonempty, hn, rfl⟩
    refine ⟨_, bind_eq_ok.mpr ⟨if negative then -(n : ℤ) else n, ?_, if_pos hrange⟩⟩
    unfold toInt
    rw [hint]
    dsimp only
    rw [hkey, dropWhile_sign, head_of_decimals hn]
    exact if_neg (not_lt.mpr hshort)

/-- What the conversion and the driver raise is not an error of the cursor. -/
theorem raisesOnly_bind_toInt :
    RaisesOnly (fun e => e ≠ .invalidCursor) (toInt u sortKey >>= bindInteger) := by
  apply RaisesOnly.bind
  · unfold toInt
    split
    · exact raisesOnly_error.mpr (by decide)
    · split_ifs
      · exact raisesOnly_error.mpr (by decide)
      · exact raisesOnly_ok
  · intro n _
    unfold bindInteger
    split_ifs
    · exact raisesOnly_ok
    · exact raisesOnly_error.mpr (by decide)

/-! ## Listings -/

/-- The listing is a page or `InvalidCursor`. -/
def Answered (r : Except DiscoverError Page) : Prop :=
  (∃ page, r = .ok page) ∨ r = .error .invalidCursor

theorem answered_keyset {sort : SortMode} {lastId : String}
    {page : (Community → Bool) → Page} :
    Answered ((keyset u sort sortKey lastId).map page) ↔
      (sort = .members → PassesDigitTest u sortKey → FitsCount u sortKey) := by
  cases sort with
  | name =>
      constructor
      · intro _ hname
        cases hname
      · intro _
        exact Or.inl ⟨_, rfl⟩
  | members =>
      rw [← passesDigitTest_iff, ← bind_toInt_eq_ok, keyset]
      cases htest : passesDigitTest u sortKey with
      | false =>
          constructor
          · intro _ _ htrue
            cases htrue
          · intro _
            exact Or.inr rfl
      | true =>
          rw [Bool.not_true, if_neg Bool.false_ne_true, ← bind_assoc]
          cases hcount : toInt u sortKey >>= bindInteger with
          | ok mc =>
              constructor
              · intro _ _ _
                exact ⟨mc, rfl⟩
              · intro _
                exact Or.inl ⟨_, rfl⟩
          | error e =>
              constructor
              · intro h
                rcases h with ⟨page, hpage⟩ | hcursor
                · cases hpage
                · cases hcursor
                  exact absurd rfl (raisesOnly_bind_toInt _ hcount)
              · intro h
                obtain ⟨mc, hmc⟩ := h rfl rfl
                cases hmc

end

/-- Listing answers with a page or `InvalidCursor` on every cursor except one kind: those made for
the sort by members whose key passes the digit test and is no integer that the code can use. -/
theorem answered_iff (u : Unicode) (q category : Option String) (sort : String)
    (cursor : Option PyStr) (db : Db) :
    Answered (discoverPage u q category sort cursor db) ↔
      ∀ token sortKey lastId, cursor = some token → token ≠ [] → sort ≠ "name" →
        decodeToken token .members = .ok (sortKey, lastId) →
        PassesDigitTest u sortKey → FitsCount u sortKey := by
  unfold discoverPage
  dsimp only
  cases cursor with
  | none =>
      constructor
      · intro _ token sortKey lastId htoken
        cases htoken
      · intro _
        exact Or.inl ⟨_, rfl⟩
  | some token =>
      by_cases hempty : token = []
      · subst hempty
        constructor
        · intro _ token sortKey lastId htoken hnonempty
          cases htoken
          exact absurd rfl hnonempty
        · intro _
          exact Or.inl ⟨_, rfl⟩
      · have hfilter : (some token).filter (fun t : PyStr => t ≠ []) = some token := by
          simp [Option.filter, hempty]
        rw [hfilter]
        dsimp only
        cases hdecoded : decodeToken token (.clamp sort) with
        | error e =>
            constructor
            · intro _ token' sortKey lastId htoken _ hsort hok
              cases htoken
              rw [SortMode.clamp, if_neg hsort, hok] at hdecoded
              cases hdecoded
            · intro _
              exact Or.inr rfl
        | ok parts =>
            obtain ⟨sortKey, lastId⟩ := parts
            dsimp only
            rw [answered_keyset]
            constructor
            · intro h token' sortKey' lastId' htoken _ hsort hok
              cases htoken
              have hmembers : SortMode.clamp sort = .members := if_neg hsort
              rw [hmembers] at hdecoded h
              rw [hdecoded] at hok
              cases hok
              exact h rfl
            · intro h hmembers
              have hsort : sort ≠ "name" := by
                intro hname
                rw [SortMode.clamp, if_pos hname] at hmembers
                cases hmembers
              rw [hmembers] at hdecoded
              exact h token sortKey lastId rfl hempty hsort hdecoded

/-- A key with a second minus sign is a `ValueError`, whatever the digits outside ASCII are. -/
theorem a_second_sign_is_raised : ¬Answered (discoverPage ⟨fun _ => false, fun _ => none⟩ none none
    "members" (some (codes (encodeCursor .members "--5" "01"))) {}) := by
  have hraised : discoverPage ⟨fun _ => false, fun _ => none⟩ none none "members"
      (some (codes (encodeCursor .members "--5" "01"))) {} = .error .valueError := by
    have hdecoded : decodeToken (codes (encodeCursor .members "--5" "01")) .members =
        .ok ("--5", "01") := by
      rw [decodeToken, SignedBytes.encode_codes]
      exact Directory.decodeCursor_encodeCursor .members .members "--5" (by decide)
    have hnonempty : codes (encodeCursor .members "--5" "01") ≠ [] := by
      intro hempty
      rw [hempty] at hdecoded
      cases hdecoded
    have hfilter : (some (codes (encodeCursor .members "--5" "01"))).filter
        (fun t : PyStr => t ≠ []) = some (codes (encodeCursor .members "--5" "01")) := by
      simp [Option.filter, hnonempty]
    have hclamp : SortMode.clamp "members" = .members := rfl
    unfold discoverPage
    dsimp only
    rw [hfilter, hclamp]
    dsimp only
    rw [hdecoded]
    rfl
  rw [hraised]
  intro hanswered
  rcases hanswered with ⟨page, hpage⟩ | hcursor
  · cases hpage
  · cases hcursor

end AikoIsland.CursorErrors
