import AikoIsland.LogRedaction

/-!
# The filter of log records

The filter rewrites the format string and every argument of a record, and then looks at
the message they make. What that message still shows gives a record with the redacted
message and no arguments, and a message that cannot be made one that is withheld.

Such a record always makes a message, and no value of a credential's parameter is in it.
The rest holds up to two slips. A run of digits stays if it stands in a longer word. The
arguments are lost also where nothing spanned the format string and the arguments: to a
number with a long run of its own, and to a conversion that took an object but does not
take the object's text. `redacted_iff` says that nothing else goes wrong.
-/
namespace AikoIsland.LogRecords
open Tables WordRuns LogRedaction

/-! ## Records -/

inductive Arg (ν ω : Type)
  | str (text : PyStr)
  /-- An integer, a floating-point number or a truth value. -/
  | number (n : ν)
  | none
  | object (o : ω)

inductive Args (ν κ ω : Type)
  | tuple (items : List (Arg ν ω))
  | dict (entries : List (κ × Arg ν ω))
  | other (o : ω)

inductive Msg (ω : Type)
  | str (text : PyStr)
  | object (o : ω)

structure LogRecord (ν κ ω : Type) where
  msg : Msg ω
  args : Args ν κ ω

/-- What a record meets in the language. An error is the name of the exception's class. -/
structure Language (ν κ ω : Type) where
  chars : Characters
  str : ω → Except PyStr PyStr
  strNumber : ν → PyStr
  truth : ω → Except PyStr Bool
  percent : PyStr → Args ν κ ω → Except PyStr PyStr
  str_error : ∀ o name, str o = .error name → ∀ c ∈ name, c ≠ questionMark ∧ c ≠ ampersand
  truth_error : ∀ o name, truth o = .error name → ∀ c ∈ name, c ≠ questionMark ∧ c ≠ ampersand
  percent_error : ∀ text args name, percent text args = .error name →
    ∀ c ∈ name, c ≠ questionMark ∧ c ≠ ampersand

variable {ν κ ω : Type} (py : Language ν κ ω)

def strMsg : Msg ω → Except PyStr PyStr
  | .str text => .ok text
  | .object o => py.str o

def truthArgs : Args ν κ ω → Except PyStr Bool
  | .tuple items => .ok (!items.isEmpty)
  | .dict entries => .ok (!entries.isEmpty)
  | .other o => py.truth o

/-- `LogRecord.getMessage`. -/
def getMessage (record : LogRecord ν κ ω) : Except PyStr PyStr := do
  let text ← strMsg py record.msg
  let formatted ← truthArgs py record.args
  if formatted then py.percent text record.args else return text

/-! ## The filter -/

/-- `_redact_arg`. -/
def redactArg : Arg ν ω → Arg ν ω
  | .str text => .str (redact py.chars text)
  | .number n => .number n
  | .none => .none
  | .object o =>
      match py.str o with
      | .error _ => .object o
      | .ok asText =>
          let cleaned := redact py.chars asText
          if cleaned ≠ asText then .str cleaned else .object o

def redactMsg : Msg ω → Msg ω
  | .str text => .str (redact py.chars text)
  | .object o => .object o

def redactArgs : Args ν κ ω → Args ν κ ω
  | .tuple items => .tuple (items.map (redactArg py))
  | .dict entries => .dict (entries.map fun entry => (entry.1, redactArg py entry.2))
  | .other o => .other o

def redactPieces (record : LogRecord ν κ ω) : LogRecord ν κ ω :=
  ⟨redactMsg py record.msg, redactArgs py record.args⟩

def withheld (name : PyStr) : PyStr :=
  codes "<log record withheld: credential redaction failed (" ++ name ++ codes ")>"

/-- A record with a text and no arguments. -/
def plain (text : PyStr) : LogRecord ν κ ω := ⟨.str text, .tuple []⟩

def rewrite (record : LogRecord ν κ ω) : LogRecord ν κ ω :=
  let pieces := redactPieces py record
  match getMessage py pieces with
  | .ok message =>
      let cleaned := redact py.chars message
      if cleaned ≠ message then plain cleaned else pieces
  | .error name => plain (withheld name)

/-- `RedactCredentials.filter`: what it returns, and what becomes of the record. -/
def filter (record : LogRecord ν κ ω) : Bool × LogRecord ν κ ω := (true, rewrite py record)

/-! ## What is asked of it -/

/-- A text that shows nothing. -/
def Clean (text : PyStr) : Prop := redact py.chars text = text

def CleanMsg (msg : Msg ω) : Prop := ∀ text, strMsg py msg = .ok text → Clean py text

def CleanArg : Arg ν ω → Prop
  | .str text => Clean py text
  | .number n => Clean py (py.strNumber n)
  | .none => True
  | .object o => ∀ text, py.str o = .ok text → Clean py text

/-- A tuple stays a tuple of the same length, with the same numbers. -/
def KeepsArgs (record after : LogRecord ν κ ω) : Prop :=
  ∀ items, record.args = .tuple items → ∃ items', after.args = .tuple items' ∧
    List.Forall₂ (fun a a' => ∀ n, a = Arg.number n → a' = Arg.number n) items items'

/-- A credential that neither the format string nor an argument shows alone: the message of the
redacted pieces shows it, or the redacted format string has no place for the arguments. -/
def Spans (record : LogRecord ν κ ω) : Prop :=
  match getMessage py (redactPieces py record) with
  | .ok message => ¬ Clean py message ∧ CleanMsg py (redactMsg py record.msg) ∧
      ∀ items, record.args = .tuple items → ∀ a ∈ items, CleanArg py (redactArg py a)
  | .error _ => ∃ name, getMessage py ⟨redactMsg py record.msg, record.args⟩ = .error name

structure Redacted (record after : LogRecord ν κ ω) : Prop where
  message : ∃ text, getMessage py after = .ok text ∧ SecretsMarked py.chars text ∧ NoLongHex text
  shape : KeepsArgs record after ∨ Spans py record
  again : filter py after = (true, after)

/-- No text that is not redacted alone shows anything. -/
def OthersClean (record : LogRecord ν κ ω) (items : List (Arg ν ω)) : Prop :=
  (∀ n, Arg.number n ∈ items → Clean py (py.strNumber n)) ∧
    ∀ o text, record.msg = .object o → py.str o = .ok text → Clean py text

/-- What the redacted pieces make holds long runs only as words of their own, and a record whose
arguments are given up had a reason in the format string. -/
def Coverable (record : LogRecord ν κ ω) : Prop :=
  match getMessage py (redactPieces py record) with
  | .ok message => StandAlone py.chars (subSecret py.chars 0 message) ∧
      (¬ Clean py message →
        ∀ items, record.args = .tuple items → items ≠ [] → OthersClean py record items)
  | .error name => NoLongHex name ∧
      ∀ items, record.args = .tuple items → items ≠ [] →
        ∃ name, getMessage py ⟨redactMsg py record.msg, record.args⟩ = .error name

/-! ## Pieces -/

section
variable {py} {record : LogRecord ν κ ω} {text name : PyStr}

theorem clean_redact (text : PyStr) : Clean py (redact py.chars text) :=
  redact_redact text

theorem redactArg_clean {a : Arg ν ω} (h : CleanArg py a) : redactArg py a = a := by
  cases a with
  | str text => exact congrArg Arg.str h
  | number n => rfl
  | none => rfl
  | object o =>
      rw [redactArg]
      cases hstr : py.str o with
      | error name => rfl
      | ok asText =>
          have hclean : redact py.chars asText = asText := h asText hstr
          simp [hclean]

/-- Alone, only a number shows what it did. -/
theorem cleanArg_redactArg (a : Arg ν ω) :
    CleanArg py (redactArg py a) ↔ ∀ n, a = .number n → Clean py (py.strNumber n) := by
  cases a with
  | str text =>
      have hclean : CleanArg py (redactArg py (.str text)) := clean_redact text
      simp [hclean]
  | number n => simp [redactArg, CleanArg]
  | none => simp [redactArg, CleanArg]
  | object o =>
      have hclean : CleanArg py (redactArg py (.object o)) := by
        rw [redactArg]
        cases hstr : py.str o with
        | error name =>
            intro text htext
            rw [hstr] at htext
            cases htext
        | ok asText =>
            by_cases hsame : redact py.chars asText = asText
            · have hkept : CleanArg py (Arg.object o : Arg ν ω) := by
                intro text htext
                rw [hstr] at htext
                cases htext
                exact hsame
              simpa [hsame] using hkept
            · have hcut : CleanArg py (Arg.str (redact py.chars asText) : Arg ν ω) :=
                clean_redact asText
              simpa [hsame] using hcut
      simp [hclean]

theorem redactArg_redactArg (a : Arg ν ω) : redactArg py (redactArg py a) = redactArg py a := by
  cases a with
  | number n => rfl
  | none => rfl
  | str text => exact redactArg_clean ((cleanArg_redactArg _).mpr fun n h => by cases h)
  | object o => exact redactArg_clean ((cleanArg_redactArg _).mpr fun n h => by cases h)

theorem redactPieces_redactPieces (record : LogRecord ν κ ω) :
    redactPieces py (redactPieces py record) = redactPieces py record := by
  obtain ⟨msg, args⟩ := record
  have hmsg : redactMsg py (redactMsg py msg) = redactMsg py msg := by
    cases msg with
    | str text => exact congrArg Msg.str (redact_redact text)
    | object o => rfl
  have hargs : redactArgs py (redactArgs py args) = redactArgs py args := by
    cases args with
    | tuple items => simp [redactArgs, redactArg_redactArg]
    | dict entries => simp [redactArgs, redactArg_redactArg]
    | other o => rfl
  simp [redactPieces, hmsg, hargs]

theorem cleanMsg_redactMsg {msg : Msg ω} : CleanMsg py (redactMsg py msg) ↔
    ∀ o text, msg = .object o → py.str o = .ok text → Clean py text := by
  cases msg with
  | str text =>
      have hclean : CleanMsg py (redactMsg py (.str text)) := by
        intro other h
        cases h
        exact clean_redact text
      simp [hclean]
  | object o =>
      constructor
      · intro h o' text ho htext
        cases ho
        exact h text htext
      · intro h text htext
        exact h o text rfl htext

/-! ## Three outcomes -/

theorem getMessage_plain (text : PyStr) : getMessage py (plain text) = .ok text := rfl

theorem rewrite_kept (h : getMessage py (redactPieces py record) = .ok text)
    (hclean : Clean py text) : rewrite py record = redactPieces py record := by
  have hsame : redact py.chars text = text := hclean
  simp [rewrite, h, hsame]

theorem rewrite_collapsed (h : getMessage py (redactPieces py record) = .ok text)
    (hshown : ¬ Clean py text) : rewrite py record = plain (redact py.chars text) := by
  have hother : redact py.chars text ≠ text := hshown
  simp [rewrite, h, hother]

theorem rewrite_withheld (h : getMessage py (redactPieces py record) = .error name) :
    rewrite py record = plain (withheld name) := by
  simp [rewrite, h]

/-- A clean text without arguments stays as it is. -/
theorem filter_plain (h : Clean py text) :
    filter py (plain text : LogRecord ν κ ω) = (true, plain text) := by
  have hsame : redact py.chars text = text := h
  have hpieces : redactPieces py (plain text : LogRecord ν κ ω) = plain text := by
    simp [redactPieces, plain, redactMsg, redactArgs, hsame]
  have hmessage : getMessage py (redactPieces py (plain text : LogRecord ν κ ω)) = .ok text := by
    rw [hpieces, getMessage_plain]
  rw [filter, rewrite_kept hmessage h, hpieces]

theorem filter_kept (h : getMessage py (redactPieces py record) = .ok text)
    (hclean : Clean py text) :
    filter py (redactPieces py record) = (true, redactPieces py record) := by
  have hmessage : getMessage py (redactPieces py (redactPieces py record)) = .ok text := by
    rw [redactPieces_redactPieces, h]
  rw [filter, rewrite_kept hmessage hclean, redactPieces_redactPieces]

theorem keepsArgs_redactPieces (record : LogRecord ν κ ω) :
    KeepsArgs record (redactPieces py record) := by
  intro items hitems
  refine ⟨items.map (redactArg py), ?_, ?_⟩
  · simp [redactPieces, redactArgs, hitems]
  · rw [List.forall₂_map_right_iff, List.forall₂_same]
    rintro _ _ n rfl
    rfl

/-- Without arguments only the empty tuple is kept. -/
theorem keepsArgs_plain_or {P : Prop} : (KeepsArgs record (plain text) ∨ P) ↔
    ∀ items, record.args = .tuple items → items ≠ [] → P := by
  constructor
  · rintro (hkept | hp) items hitems hne
    · obtain ⟨items', hnil, hsame⟩ := hkept items hitems
      cases hnil
      cases hsame
      exact absurd rfl hne
    · exact hp
  · intro h
    cases hargs : record.args with
    | tuple items =>
        cases items with
        | nil =>
            left
            intro items hitems
            rw [hargs] at hitems
            cases hitems
            exact ⟨[], rfl, List.Forall₂.nil⟩
        | cons a items =>
            right
            exact h (a :: items) hargs (List.cons_ne_nil a items)
    | dict entries =>
        left
        intro items hitems
        rw [hargs] at hitems
        cases hitems
    | other o =>
        left
        intro items hitems
        rw [hargs] at hitems
        cases hitems

/-- The name of the exception of a message that cannot be made. -/
theorem plain_of_getMessage (h : getMessage py record = .error name) :
    ∀ c ∈ name, c ≠ questionMark ∧ c ≠ ampersand := by
  rw [getMessage] at h
  cases hmsg : strMsg py record.msg with
  | error ex =>
      rw [hmsg] at h
      cases h
      cases hobject : record.msg with
      | str text =>
          rw [hobject] at hmsg
          cases hmsg
      | object o =>
          rw [hobject] at hmsg
          exact py.str_error o name hmsg
  | ok text =>
      rw [hmsg] at h
      cases htruth : truthArgs py record.args with
      | error ex =>
          rw [htruth] at h
          cases h
          cases hargs : record.args with
          | tuple items =>
              rw [hargs] at htruth
              cases htruth
          | dict entries =>
              rw [hargs] at htruth
              cases htruth
          | other o =>
              rw [hargs] at htruth
              exact py.truth_error o name htruth
      | ok formatted =>
          rw [htruth] at h
          cases formatted with
          | false => cases h
          | true => exact py.percent_error text record.args name h

theorem withheld_eq (name : PyStr) : withheld name =
    codes "<log record withheld" ++ 0x3A :: (codes " credential redaction failed " ++
      0x28 :: (name ++ 0x29 :: [0x3E])) := by
  have hstart : codes "<log record withheld: credential redaction failed (" =
      codes "<log record withheld" ++ 0x3A :: (codes " credential redaction failed " ++ [0x28]) := by
    decide
  have hbehind : codes ")>" = 0x29 :: [0x3E] := by
    decide
  rw [withheld, hstart, hbehind]
  simp

theorem noLongHex_withheld : NoLongHex (withheld name) ↔ NoLongHex name := by
  have hfirst : ¬ HasRun isHex 32 (codes "<log record withheld") := noLongHex_of_short (by decide)
  have hsecond : ¬ HasRun isHex 32 (codes " credential redaction failed ") :=
    noLongHex_of_short (by decide)
  have hlast : ¬ HasRun isHex 32 [0x3E] := noLongHex_of_short (by decide)
  rw [NoLongHex, NoLongHex, withheld_eq, hasRun_append_cons (by decide),
    hasRun_append_cons (by decide), hasRun_append_cons (by decide)]
  simp [hfirst, hsecond, hlast]

theorem plain_withheld (h : ∀ c ∈ name, c ≠ questionMark ∧ c ≠ ampersand) :
    ∀ c ∈ withheld name, c ≠ questionMark ∧ c ≠ ampersand := by
  have hstart : ∀ c ∈ codes "<log record withheld: credential redaction failed (",
      c ≠ questionMark ∧ c ≠ ampersand := by
    decide
  have hbehind : ∀ c ∈ codes ")>", c ≠ questionMark ∧ c ≠ ampersand := by
    decide
  intro c hc
  rcases List.mem_append.mp hc with hc | hc
  · rcases List.mem_append.mp hc with hc | hc
    · exact hstart c hc
    · exact h c hc
  · exact hbehind c hc

/-! ## When the filter does what it should -/

theorem redacted_kept (h : getMessage py (redactPieces py record) = .ok text)
    (hclean : Clean py text) : Redacted py record (redactPieces py record) ↔
      StandAlone py.chars (subSecret py.chars 0 text) := by
  have hsame : redact py.chars text = text := hclean
  rw [← noLongHex_redact, hsame]
  constructor
  · rintro ⟨⟨other, hother, _, hhex⟩, _, _⟩
    rw [h] at hother
    cases hother
    exact hhex
  · intro hhex
    constructor
    · refine ⟨text, h, ?_, hhex⟩
      rw [← hsame]
      exact secretsMarked_redact text
    · exact Or.inl (keepsArgs_redactPieces record)
    · exact filter_kept h hclean

theorem redacted_collapsed (h : getMessage py (redactPieces py record) = .ok text)
    (hshown : ¬ Clean py text) : Redacted py record (plain (redact py.chars text)) ↔
      StandAlone py.chars (subSecret py.chars 0 text) ∧
        ∀ items, record.args = .tuple items → items ≠ [] → OthersClean py record items := by
  -- with arguments in a tuple, what spans is what no other text shows
  have hspans (items : List (Arg ν ω)) (hitems : record.args = .tuple items) :
      Spans py record ↔ OthersClean py record items := by
    have hnumbers : (∀ a ∈ items, CleanArg py (redactArg py a)) ↔
        ∀ n, Arg.number n ∈ items → Clean py (py.strNumber n) := by
      constructor
      · intro hall n hn
        exact (cleanArg_redactArg _).mp (hall _ hn) n rfl
      · intro hall a ha
        rw [cleanArg_redactArg]
        rintro n rfl
        exact hall n ha
    have htuple : (∀ items', record.args = .tuple items' →
        ∀ a ∈ items', CleanArg py (redactArg py a)) ↔
          ∀ a ∈ items, CleanArg py (redactArg py a) := by
      rw [hitems]
      simp
    simp only [Spans, h]
    rw [htuple, hnumbers, cleanMsg_redactMsg, OthersClean]
    constructor
    · rintro ⟨_, hmsg, hargs⟩
      exact ⟨hargs, hmsg⟩
    · rintro ⟨hargs, hmsg⟩
      exact ⟨hshown, hmsg, hargs⟩
  rw [← noLongHex_redact]
  constructor
  · rintro ⟨⟨other, hother, _, hhex⟩, hshape, _⟩
    rw [getMessage_plain] at hother
    cases hother
    refine ⟨hhex, fun items hitems hne => ?_⟩
    exact (hspans items hitems).mp (keepsArgs_plain_or.mp hshape items hitems hne)
  · rintro ⟨hhex, hothers⟩
    constructor
    · exact ⟨_, getMessage_plain _, secretsMarked_redact text, hhex⟩
    · apply keepsArgs_plain_or.mpr
      intro items hitems hne
      exact (hspans items hitems).mpr (hothers items hitems hne)
    · exact filter_plain (clean_redact text)

theorem redacted_withheld (h : getMessage py (redactPieces py record) = .error name) :
    Redacted py record (plain (withheld name)) ↔ NoLongHex name ∧
      ∀ items, record.args = .tuple items → items ≠ [] →
        ∃ name, getMessage py ⟨redactMsg py record.msg, record.args⟩ = .error name := by
  have hplain := plain_withheld (plain_of_getMessage h)
  have hspans : Spans py record ↔
      ∃ name, getMessage py ⟨redactMsg py record.msg, record.args⟩ = .error name := by
    simp only [Spans, h]
  rw [← noLongHex_withheld]
  constructor
  · rintro ⟨⟨other, hother, _, hhex⟩, hshape, _⟩
    rw [getMessage_plain] at hother
    cases hother
    rw [hspans] at hshape
    exact ⟨hhex, keepsArgs_plain_or.mp hshape⟩
  · rintro ⟨hhex, hplace⟩
    constructor
    · exact ⟨_, getMessage_plain _, secretsMarked_of_plain hplain, hhex⟩
    · rw [hspans]
      exact keepsArgs_plain_or.mpr hplace
    · exact filter_plain (redact_of_plain hplain hhex)

variable (py) in
/-- The filter does all that is asked of it on the records that its patterns cover, and on no
other. -/
theorem redacted_iff (record : LogRecord ν κ ω) :
    Redacted py record (filter py record).2 ↔ Coverable py record := by
  cases hmessage : getMessage py (redactPieces py record) with
  | ok text =>
      simp only [Coverable, hmessage]
      by_cases hclean : Clean py text
      · rw [filter, rewrite_kept hmessage hclean, redacted_kept hmessage hclean]
        simp [hclean]
      · rw [filter, rewrite_collapsed hmessage hclean, redacted_collapsed hmessage hclean]
        simp [hclean]
  | error name =>
      simp only [Coverable, hmessage]
      rw [filter, rewrite_withheld hmessage, redacted_withheld hmessage]

variable (py) in
/-- Every record makes a message, and no credential's parameter shows its value there. -/
theorem getMessage_filter (record : LogRecord ν κ ω) :
    ∃ text, getMessage py (filter py record).2 = .ok text ∧ SecretsMarked py.chars text := by
  cases hmessage : getMessage py (redactPieces py record) with
  | ok text =>
      by_cases hclean : Clean py text
      · have hsame : redact py.chars text = text := hclean
        refine ⟨text, ?_, ?_⟩
        · rw [filter, rewrite_kept hmessage hclean, hmessage]
        · rw [← hsame]
          exact secretsMarked_redact text
      · refine ⟨redact py.chars text, ?_, secretsMarked_redact text⟩
        rw [filter, rewrite_collapsed hmessage hclean, getMessage_plain]
  | error name =>
      refine ⟨withheld name, ?_, ?_⟩
      · rw [filter, rewrite_withheld hmessage, getMessage_plain]
      · exact secretsMarked_of_plain (plain_withheld (plain_of_getMessage hmessage))

end

/-! ## A device's token -/

def lowerAscii (c : ℕ) : ℕ := if 0x41 ≤ c ∧ c ≤ 0x5A then c + 0x20 else c

/-- The characters of ASCII. -/
def ascii : Characters where
  isWord c := 0x30 ≤ c && c ≤ 0x39 || 0x41 ≤ c && c ≤ 0x5A || 0x61 ≤ c && c ≤ 0x7A || c = 0x5F
  isSpace c := 0x09 ≤ c && c ≤ 0x0D || 0x1C ≤ c && c ≤ 0x20
  sameLetter letter c := lowerAscii letter = lowerAscii c
  isWord_ascii := by
    intro c h
    simp only [isHex, Bool.or_eq_true, Bool.and_eq_true, decide_eq_true_eq] at h ⊢
    omega
  isWord_punctuation := by decide
  isSpace_word := by
    intro c h
    simp only [Bool.or_eq_true, Bool.and_eq_true, decide_eq_true_eq] at h
    simp only [Bool.or_eq_false_iff, Bool.and_eq_false_iff, decide_eq_false_iff_not]
    omega
  isSpace_punctuation := by decide
  sameLetter_self := by simp
  sameLetter_word := by
    intro letter c hword hsame
    have hlower : lowerAscii letter = lowerAscii c := of_decide_eq_true hsame
    unfold lowerAscii at hlower
    simp only [Bool.or_eq_true, Bool.and_eq_true, decide_eq_true_eq] at hword ⊢
    split_ifs at hlower <;> omega

/-- `%` where the only conversion is `%s`. -/
def percentS : PyStr → List PyStr → Except PyStr PyStr
  | [], [] => .ok []
  | [], _ :: _ => .error (codes "TypeError")
  | 0x25 :: 0x73 :: rest, text :: texts => (percentS rest texts).map fun s => text ++ s
  | c :: rest, texts =>
      if c = 0x25 then .error (codes "TypeError") else (percentS rest texts).map fun s => c :: s

theorem percentS_error {text name : PyStr} {texts : List PyStr}
    (h : percentS text texts = .error name) : name = codes "TypeError" := by
  fun_induction percentS text texts with
  | case1 => cases h
  | case2 => exact (Except.error.inj h).symm
  | case3 rest text texts ih =>
      cases hrest : percentS rest texts with
      | ok s =>
          rw [hrest] at h
          cases h
      | error ex =>
          rw [hrest] at h
          exact ih (hrest.trans h)
  | case4 => exact (Except.error.inj h).symm
  | case5 c rest texts _ _ ih =>
      cases hrest : percentS rest texts with
      | ok s =>
          rw [hrest] at h
          cases h
      | error ex =>
          rw [hrest] at h
          exact ih (hrest.trans h)

def textOf : Arg ℤ PyStr → PyStr
  | .str text => text
  | .number n => codes (toString n)
  | .none => codes "None"
  | .object o => o

/-- Objects that are their text, and arguments in a tuple. -/
def textLanguage : Language ℤ PyStr PyStr where
  chars := ascii
  str := .ok
  strNumber n := codes (toString n)
  truth o := .ok (o ≠ [])
  percent text
    | .tuple items => percentS text (items.map textOf)
    | _ => .error (codes "TypeError")
  str_error := by
    intro o name h
    cases h
  truth_error := by
    intro o name h
    cases h
  percent_error := by
    intro text args name h
    have hname : name = codes "TypeError" := by
      cases args with
      | tuple items => exact percentS_error h
      | dict entries => exact (Except.error.inj h).symm
      | other o => exact (Except.error.inj h).symm
    rw [hname]
    decide

def deviceToken : PyStr :=
  codes "0123456789abcdef0123456789abcdef0123456789abcdef0123456789abcdef"

/-- Behind an underscore a token stands in a longer word. -/
theorem a_token_in_a_word_stays :
    let record : LogRecord ℤ PyStr PyStr := plain (codes "device_" ++ deviceToken)
    getMessage textLanguage record = .ok (codes "device_" ++ deviceToken) ∧
      ¬ Redacted textLanguage record (filter textLanguage record).2 := by
  have hsame : getMessage textLanguage
      (filter textLanguage (plain (codes "device_" ++ deviceToken))).2 =
        .ok (codes "device_" ++ deviceToken) := by
    rfl
  constructor
  · rfl
  · rintro ⟨⟨text, htext, _, hhex⟩, _, _⟩
    rw [hsame] at htext
    cases htext
    apply hhex
    refine ⟨deviceToken.take 32, ?_, by decide, by decide⟩
    exact (List.take_prefix 32 deviceToken).isInfix.trans (List.suffix_append _ _).isInfix

/-- A token in two parts is found in the message. -/
example : (filter textLanguage ⟨.str (codes "GET %s=%s"),
    .tuple [.str (codes "/ws?token"), .str (codes "eyJ")]⟩).2 =
      plain (codes "GET /ws?token=<redacted>") := by
  rfl

end AikoIsland.LogRecords
