import AikoIsland.PercentEncoding
import AikoIsland.Tables
import Mathlib.Data.List.DropRight

/-!
# The door to the database

`open_only` writes the file behind a database URL as a `file:` URI that cannot create.
A plain path is taken as it stands and a `file:` URI is decoded, and what comes out is
quoted again. The driver opens a plain name as it stands, and of a `file:` URI with
`uri=true` the path behind its authority, with every escape decoded to a byte and
everything from an escaped NUL on left out.

The two readers of a URI are not one. The parser of the program drops tabs and line
breaks, and puts a mark in place of bytes that are no UTF-8. What it quotes names the
file of the URL if and only if the path has none of the first and decodes to UTF-8
without NUL.
-/
namespace AikoIsland.OpenOnly
open Tables Utf8 PercentEncoding

inductive QueryValue where
  | one (value : String)
  | several (values : List String)
  deriving DecidableEq

/-- What `make_url` makes of a database URL. -/
structure Url where
  isSqlite : Bool
  database : Option PyStr
  query : String → Option QueryValue

/-- Characters that can be encoded, and no NUL. -/
def IsText (s : PyStr) : Prop := ∀ c ∈ s, c ≠ 0 ∧ IsScalar c

/-- The URLs that a setting can hold. -/
structure SettingUrl extends Url where
  isText : ∀ name ∈ database, IsText name

def bytesOf (s : PyStr) : List UInt8 := s.flatMap encodeChar

def slash : ℕ := 0x2F

def fileScheme : PyStr := codes "file:"

def memoryName : PyStr := codes ":memory:"

def localhost : PyStr := codes "localhost"

/-! ## The code -/

/-- The driver, the path library and the file system: which values are true, which network
locations a URL may have, `Path(name).resolve()`, and the file at a path. A resolved path is
absolute, stays itself and leads to the same file. `resolve_text` is an assumption on the file
system: the links and the working directory that a text is resolved through are named in UTF-8. -/
structure Driver (F : Type) where
  asBool : QueryValue → Bool
  checkNetloc : PyStr → Bool
  resolve : PyStr → Option PyStr
  file : List UInt8 → Option F
  asBool_true : asBool (.one "true") = true
  checkNetloc_nil : checkNetloc [] = true
  checkNetloc_localhost : checkNetloc localhost = true
  resolve_root : ∀ p q, resolve p = some q → ∃ rest, q = slash :: rest ∧ rest.head? ≠ some slash
  resolve_resolve : ∀ p q, resolve p = some q → resolve q = some q
  resolve_text : ∀ p q, resolve p = some q → IsText p → IsText q
  resolve_isSome : ∀ p, IsText p → (file (bytesOf p)).isSome → (resolve p).isSome
  file_resolve : ∀ p q, resolve p = some q → IsText p → file (bytesOf q) = file (bytesOf p)

/-- Tabs and line breaks, which `urlsplit` takes out. -/
def isUnsafe (c : ℕ) : Bool := c = 0x09 || c = 0x0A || c = 0x0D

/-- What stands between two slashes and the first of some characters, and what follows. -/
def splitAuthority (stops : ℕ → Bool) (url : PyStr) : PyStr × PyStr :=
  if [slash, slash].isPrefixOf url then
    ((url.drop 2).takeWhile fun c => !stops c, (url.drop 2).dropWhile fun c => !stops c)
  else ([], url)

/-- What the query and the fragment begin with. -/
def endsPath (c : ℕ) : Bool := c = 0x3F || c = 0x23

def pathPart (url : PyStr) : PyStr := url.takeWhile fun c => !endsPath c

/-- `urlsplit(name).path`; `none` is a `ValueError`. -/
def urlsplitPath (checkNetloc : PyStr → Bool) (name : PyStr) : Option PyStr :=
  let url := (name.filter fun c => !isUnsafe c).drop fileScheme.length
  let (netloc, rest) := splitAuthority (fun c => c = slash || endsPath c) url
  if checkNetloc netloc then some (pathPart rest) else none

section
variable {F : Type} (driver : Driver F)

/-- `sqlite_file`; the outer `none` is an exception. -/
def sqliteFile (url : Url) : Option (Option PyStr) :=
  match url.database with
  | none => some none
  | some name =>
      if !url.isSqlite || name = [] || name = memoryName then some none
      else if fileScheme.isPrefixOf name then
        if url.query "mode" = some (.one "memory") then some none
        else
          match urlsplitPath driver.checkNetloc name with
          | none => none
          | some path =>
              let name := unquote path
              if name = [] || name = memoryName then some none
              else (driver.resolve name).map some
      else (driver.resolve name).map some

/-- Read-only stays so. -/
def openMode (url : Url) : String :=
  if url.query "mode" = some (.one "ro") then "ro" else "rw"

/-- The URL that opens a file and cannot create one. -/
def openOnlyUrl (url : Url) (quoted : PyStr) : Url where
  isSqlite := url.isSqlite
  database := some (fileScheme ++ quoted)
  query key :=
    if key = "uri" then some (.one "true")
    else if key = "mode" then some (.one (openMode url))
    else url.query key

/-- `open_only`. -/
def openOnly (url : Url) : Option Url :=
  match sqliteFile driver url with
  | none => none
  | some none => some url
  | some (some db) => (quote [0x2F] db).map (openOnlyUrl url)

/-! ## What the driver opens -/

inductive Named (F : Type) where
  | refused
  | noFile
  | file (f : F)

/-- The path of a URI behind its authority. -/
def uriText (uri : PyStr) : Option PyStr :=
  let (authority, rest) := splitAuthority (fun c => c = slash) uri
  if authority = [] || authority = localhost then some (pathPart rest) else none

def uriPath (uri : PyStr) : Option (List UInt8) :=
  (uriText uri).map fun text => (unquoteToBytes (bytesOf text)).takeWhile fun b => b ≠ 0

def fileAt (path : List UInt8) : Named F :=
  match driver.file path with
  | none => .refused
  | some f => .file f

/-- The file that the driver opens for a URL. -/
def named (url : Url) : Named F :=
  match url.database with
  | none => .noFile
  | some name =>
      if !url.isSqlite || name = [] || name = memoryName then .noFile
      else if fileScheme.isPrefixOf name && (url.query "uri").any driver.asBool then
        if url.query "mode" = some (.one "memory") then .noFile
        else
          match uriPath (name.drop fileScheme.length) with
          | none => .refused
          | some path =>
              if path = [] || path = bytesOf memoryName then .noFile else fileAt driver path
      else fileAt driver (bytesOf name)

/-- A URL without a file stays as it is. Any other becomes one that names the same file, to the
program and to the driver, stays the same from then on, and is opened read-only if it was and
otherwise to read and write. Nothing is asked of a URL that the driver refuses: of a URI whose
authority is neither empty nor `localhost` the program keeps the path alone, and what it makes of
it can name a file. -/
structure OpensTheSameFile (url : Url) : Prop where
  noFile : named driver url = .noFile → openOnly driver url = some url
  file : ∀ f, named driver url = .file f → ∃ path out,
    sqliteFile driver url = some (some path) ∧ openOnly driver url = some out ∧
    sqliteFile driver out = some (some path) ∧ openOnly driver out = some out ∧
    named driver out = .file f ∧ out.query "uri" = some (.one "true") ∧
    out.query "mode" = some (.one (openMode url))

end

/-- Both readers find the same path in a URI: no tab and no line break, and UTF-8 without NUL. -/
def ReadAlike (uri : PyStr) : Prop :=
  ∀ text ∈ uriText uri, (∀ c ∈ text, isUnsafe c = false) ∧
    ∃ path, IsText path ∧ unquoteToBytes (bytesOf text) = bytesOf path

/-- A name with the scheme of a URI is one that both readers read alike, or names no file. -/
def Faithful (url : Url) : Prop :=
  ∀ name ∈ url.database, url.isSqlite → fileScheme.isPrefixOf name →
    url.query "uri" = some (.one "true") ∧
      (url.query "mode" = some (.one "memory") ∨ ReadAlike (name.drop fileScheme.length))

/-- A URI whose path has a tab or a line break, and an escaped NUL. -/
def Muddled (url : Url) : Prop :=
  ∃ name ∈ url.database, fileScheme.isPrefixOf name ∧
    ∃ text ∈ uriText (name.drop fileScheme.length),
      0 ∈ unquoteToBytes (bytesOf text) ∧ ∃ c ∈ text, isUnsafe c = true

/-! ## Texts and their bytes -/

section
variable {s p : PyStr} {c : ℕ}

theorem IsText.isScalar (h : IsText s) : ∀ c ∈ s, IsScalar c := fun c hc => (h c hc).2

theorem bytesOf_cons (c : ℕ) (s : PyStr) : bytesOf (c :: s) = encodeChar c ++ bytesOf s :=
  List.flatMap_cons

theorem bytesOf_append (s p : PyStr) : bytesOf (s ++ p) = bytesOf s ++ bytesOf p :=
  List.flatMap_append

theorem encodeChar_ascii (h : c < 0x80) : encodeChar c = [UInt8.ofNat c] := by
  rw [encodeChar, if_pos h]

theorem bytesOf_injective (hs : IsText s) (hp : IsText p) (h : bytesOf s = bytesOf p) : s = p := by
  have hdecode (t : PyStr) (ht : IsText t) : decode [] (bytesOf t) = t :=
    decode_encode (encode_eq_some.mpr ⟨ht.isScalar, rfl⟩)
  rw [← hdecode s hs, h, hdecode p hp]

/-- An ASCII byte is in the bytes of a text if and only if it is in the text. -/
theorem mem_bytesOf (hs : ∀ c ∈ s, IsScalar c) {b : UInt8} (hb : b.toNat < 0x80) :
    b ∈ bytesOf s ↔ b.toNat ∈ s := by
  have hfilter := filter_flatMap_encodeChar hs
  have hbytes : b ∈ bytesOf s ↔
      b.toNat ∈ ((s.flatMap encodeChar).map UInt8.toNat).filter (· < 0x80) := by
    rw [List.mem_filter, List.mem_map]
    constructor
    · exact fun h => ⟨⟨b, h, rfl⟩, by simpa using hb⟩
    · rintro ⟨⟨d, hd, heq⟩, _⟩
      rwa [UInt8.toNat_inj.mp heq] at hd
  rw [hbytes, hfilter, List.mem_filter]
  simp [hb]

theorem zero_notMem_bytesOf (h : IsText s) : 0 ∉ bytesOf s := by
  rw [mem_bytesOf h.isScalar (by decide)]
  exact fun hmem => (h 0 hmem).1 rfl

theorem takeWhile_bytesOf (h : IsText s) : (bytesOf s).takeWhile (fun b => b ≠ 0) = bytesOf s := by
  rw [List.takeWhile_eq_self_iff]
  intro b hb
  have hne : b ≠ 0 := fun hzero => zero_notMem_bytesOf h (hzero ▸ hb)
  simpa using hne

theorem head_encodeChar (hc : IsScalar c) (h : (encodeChar c).head? = some 0x2F) : c = slash := by
  by_cases hascii : c < 0x80
  · rw [encodeChar_ascii hascii, List.head?_cons, Option.some_inj] at h
    have hnat := congrArg UInt8.toNat h
    rwa [toNat_ofNat (by omega)] at hnat
  · have hmem : (0x2F : UInt8) ∈ encodeChar c := List.mem_of_head? h
    have hhigh := high_encodeChar hc (not_lt.mp hascii) _ hmem
    exact absurd hhigh (by decide)

/-! ## A quoted path -/

variable {quoted : PyStr}

theorem quote_eq_some : quote [0x2F] p = some quoted ↔
    (∀ c ∈ p, IsScalar c) ∧
      quoted = ((bytesOf p).flatMap (quoteByte [0x2F])).map UInt8.toNat := by
  unfold quote
  rw [Option.map_eq_some_iff]
  constructor
  · rintro ⟨bytes, hbytes, rfl⟩
    obtain ⟨hscalar, rfl⟩ := encode_eq_some.mp hbytes
    exact ⟨hscalar, rfl⟩
  · rintro ⟨hscalar, rfl⟩
    exact ⟨_, encode_eq_some.mpr ⟨hscalar, rfl⟩, rfl⟩

/-- A quoted path has no tab, no line break and no end of a path. -/
theorem quoted_clean (h : quote [0x2F] p = some quoted) :
    ∀ c ∈ quoted, isUnsafe c = false ∧ endsPath c = false := by
  obtain ⟨_, rfl⟩ := quote_eq_some.mp h
  intro c hc
  obtain ⟨b, hb, rfl⟩ := List.mem_map.mp hc
  obtain ⟨d, _, hb⟩ := List.mem_flatMap.mp hb
  rcases mem_quoteByte hb with hsafe | hslash | rfl
  · unfold isAlwaysSafe at hsafe
    unfold isUnsafe endsPath
    simp at hsafe ⊢
    omega
  · rw [List.mem_singleton] at hslash
    rw [hslash]
    decide
  · decide

/-- A quoted path begins with one slash if the path does. -/
theorem quoted_root {rest : PyStr} (h : quote [0x2F] (slash :: rest) = some quoted)
    (hrest : rest.head? ≠ some slash) :
    ∃ more, quoted = slash :: more ∧ more.head? ≠ some slash := by
  obtain ⟨hscalar, rfl⟩ := quote_eq_some.mp h
  refine ⟨((bytesOf rest).flatMap (quoteByte [0x2F])).map UInt8.toNat, rfl, ?_⟩
  cases rest with
  | nil => simp [bytesOf]
  | cons c rest =>
      have hc : IsScalar c := hscalar c (by simp)
      have hne : c ≠ slash := fun hc => hrest (by rw [hc]; rfl)
      have hpos := length_encodeChar_pos c
      rw [bytesOf_cons]
      cases hbytes : encodeChar c with
      | nil =>
          rw [hbytes] at hpos
          cases hpos
      | cons b tail =>
          have hb : b ≠ 0x2F := fun hb => hne (head_encodeChar hc (by rw [hbytes, hb]; rfl))
          have hnat : b.toNat ≠ slash := fun hn => hb (UInt8.toNat_inj.mp hn)
          rw [List.cons_append, List.flatMap_cons]
          unfold quoteByte
          split_ifs
          · simpa using hnat
          · simp [percent, slash]

theorem bytesOf_quoted (h : quote [0x2F] p = some quoted) :
    unquoteToBytes (bytesOf quoted) = bytesOf p := by
  obtain ⟨_, rfl⟩ := quote_eq_some.mp h
  rw [bytesOf, flatMap_encodeChar_map (ascii_quote (by simp) _),
    unquoteToBytes_flatMap_quoteByte (by decide)]

theorem pathPart_eq_self (h : ∀ c ∈ s, endsPath c = false) : pathPart s = s := by
  rw [pathPart, List.takeWhile_eq_self_iff]
  intro c hc
  simp [h c hc]

/-- One slash at the front is no authority. -/
theorem splitAuthority_root {stops : ℕ → Bool} {more : PyStr} (h : more.head? ≠ some slash) :
    splitAuthority stops (slash :: more) = ([], slash :: more) := by
  rw [splitAuthority, if_neg]
  cases more with
  | nil => decide
  | cons c more =>
      have hne : slash ≠ c := fun hc => h (by rw [hc]; rfl)
      simp [List.isPrefixOf, hne]

/-- Both readers find a quoted path. -/
theorem read_quoted (checkNetloc : PyStr → Bool) (hnil : checkNetloc [] = true) {rest : PyStr}
    (h : quote [0x2F] (slash :: rest) = some quoted) (hrest : rest.head? ≠ some slash) :
    urlsplitPath checkNetloc (fileScheme ++ quoted) = some quoted ∧
      uriText quoted = some quoted := by
  obtain ⟨more, rfl, hmore⟩ := quoted_root h hrest
  have hclean := quoted_clean h
  have hpath : pathPart (slash :: more) = slash :: more := pathPart_eq_self fun c hc =>
    (hclean c hc).2
  constructor
  · have hfilter : (fileScheme ++ slash :: more).filter (fun c => !isUnsafe c) =
        fileScheme ++ slash :: more := by
      have hquoted : (slash :: more).filter (fun c => !isUnsafe c) = slash :: more :=
        List.filter_eq_self.mpr fun c hc => by simp [(hclean c hc).1]
      rw [List.filter_append, hquoted]
      rfl
    rw [urlsplitPath, hfilter, List.drop_left, splitAuthority_root hmore]
    dsimp only
    rw [if_pos hnil, hpath]
  · rw [uriText, splitAuthority_root hmore]
    dsimp only
    rw [if_pos (by simp), hpath]

end

section
variable {F : Type} {driver : Driver F} {url : Url} {name path quoted : PyStr}

/-! ## Names and URIs -/

theorem uri_ne (h : fileScheme.isPrefixOf name = true) : name ≠ [] ∧ name ≠ memoryName := by
  constructor
  · rintro rfl
    revert h
    decide
  · rintro rfl
    revert h
    decide

variable (driver) in
theorem sqliteFile_uri (hsqlite : url.isSqlite = true) (hdatabase : url.database = some name)
    (huri : fileScheme.isPrefixOf name = true) (hmode : url.query "mode" ≠ some (.one "memory")) :
    sqliteFile driver url =
      match urlsplitPath driver.checkNetloc name with
      | none => none
      | some path =>
          if unquote path = [] || unquote path = memoryName then some none
          else (driver.resolve (unquote path)).map some := by
  obtain ⟨hempty, hmemory⟩ := uri_ne huri
  unfold sqliteFile
  rw [hdatabase]
  dsimp only
  rw [if_neg (by simp [hsqlite, hempty, hmemory]), if_pos huri, if_neg hmode]

variable (driver) in
theorem sqliteFile_plain (hsqlite : url.isSqlite = true) (hdatabase : url.database = some name)
    (hempty : name ≠ []) (hmemory : name ≠ memoryName)
    (hplain : fileScheme.isPrefixOf name = false) :
    sqliteFile driver url = (driver.resolve name).map some := by
  unfold sqliteFile
  rw [hdatabase]
  dsimp only
  rw [if_neg (by simp [hsqlite, hempty, hmemory]), if_neg (by simp [hplain])]

variable (driver) in
theorem named_uri (hsqlite : url.isSqlite = true) (hdatabase : url.database = some name)
    (huri : fileScheme.isPrefixOf name = true) (htrue : url.query "uri" = some (.one "true"))
    (hmode : url.query "mode" ≠ some (.one "memory")) :
    named driver url =
      match uriPath (name.drop fileScheme.length) with
      | none => .refused
      | some path =>
          if path = [] || path = bytesOf memoryName then .noFile else fileAt driver path := by
  obtain ⟨hempty, hmemory⟩ := uri_ne huri
  unfold named
  rw [hdatabase]
  dsimp only
  rw [if_neg (by simp [hsqlite, hempty, hmemory]),
    if_pos (by simp [huri, htrue, driver.asBool_true]), if_neg hmode]

variable (driver) in
theorem named_plain (hsqlite : url.isSqlite = true) (hdatabase : url.database = some name)
    (hempty : name ≠ []) (hmemory : name ≠ memoryName)
    (hplain : fileScheme.isPrefixOf name = false ∨ (url.query "uri").any driver.asBool = false) :
    named driver url = fileAt driver (bytesOf name) := by
  unfold named
  rw [hdatabase]
  dsimp only
  rw [if_neg (by simp [hsqlite, hempty, hmemory]), if_neg]
  rcases hplain with h | h <;> simp [h]

theorem isPrefixOf_append (s : PyStr) : fileScheme.isPrefixOf (fileScheme ++ s) = true := by
  rw [List.isPrefixOf_iff_prefix]
  exact List.prefix_append _ _

theorem query_openOnlyUrl (url : Url) (quoted : PyStr) :
    (openOnlyUrl url quoted).query "mode" = some (.one (openMode url)) ∧
      (openMode url = "ro" ∨ openMode url = "rw") := by
  constructor
  · rfl
  · unfold openMode
    split_ifs <;> simp

theorem openOnlyUrl_openOnlyUrl (url : Url) (quoted : PyStr) :
    openOnlyUrl (openOnlyUrl url quoted) quoted = openOnlyUrl url quoted := by
  have hmode : openMode (openOnlyUrl url quoted) = openMode url := by
    obtain ⟨hquery, hcases⟩ := query_openOnlyUrl url quoted
    rw [openMode, hquery]
    rcases hcases with h | h <;> rw [h] <;> decide
  rw [openOnlyUrl, hmode]
  unfold openOnlyUrl
  congr 1
  funext key
  dsimp only
  split_ifs <;> rfl

/-- What becomes of the path of a file: a URL that names it and stays the same. -/
theorem openOnlyUrl_spec {p : PyStr} (hsqlite : url.isSqlite = true)
    (hresolve : driver.resolve p = some path) (htext : IsText path)
    (h : quote [0x2F] path = some quoted) :
    sqliteFile driver (openOnlyUrl url quoted) = some (some path) ∧
      openOnly driver (openOnlyUrl url quoted) = some (openOnlyUrl url quoted) ∧
      named driver (openOnlyUrl url quoted) = fileAt driver (bytesOf path) := by
  obtain ⟨rest, rfl, hrest⟩ := driver.resolve_root p path hresolve
  obtain ⟨hsplit, huri⟩ := read_quoted driver.checkNetloc driver.checkNetloc_nil h hrest
  have hstarts := isPrefixOf_append quoted
  have hsame : (openOnlyUrl url quoted).isSqlite = true := hsqlite
  have hdatabase : (openOnlyUrl url quoted).database = some (fileScheme ++ quoted) := rfl
  have hmode : (openOnlyUrl url quoted).query "mode" ≠ some (.one "memory") := by
    obtain ⟨hquery, hcases⟩ := query_openOnlyUrl url quoted
    rw [hquery]
    rcases hcases with h | h <;> rw [h] <;> decide
  have hfile : sqliteFile driver (openOnlyUrl url quoted) = some (some (slash :: rest)) := by
    rw [sqliteFile_uri driver hsame hdatabase hstarts hmode, hsplit]
    dsimp only
    rw [unquote_quote (by decide) (by simp) h, if_neg (by simp [slash, memoryName, codes]),
      driver.resolve_resolve p _ hresolve]
    rfl
  constructor
  · exact hfile
  constructor
  · unfold openOnly
    rw [hfile]
    dsimp only
    rw [h, Option.map_some, openOnlyUrl_openOnlyUrl]
  · have hbytes : bytesOf (slash :: rest) = 0x2F :: bytesOf rest := rfl
    rw [named_uri driver hsame hdatabase hstarts rfl hmode, List.drop_left, uriPath, huri,
      Option.map_some, bytesOf_quoted h, takeWhile_bytesOf htext]
    dsimp only
    rw [if_neg]
    rw [hbytes]
    simp [bytesOf, memoryName, codes, encodeChar]

/-- The files of a URL whose path both readers find. -/
theorem opens_of_path {p : PyStr} (hsqlite : url.isSqlite = true) (htext : IsText p)
    (hfile : sqliteFile driver url = (driver.resolve p).map some)
    (hnamed : named driver url = fileAt driver (bytesOf p)) : OpensTheSameFile driver url := by
  constructor
  · intro hno
    rw [hnamed, fileAt] at hno
    cases h : driver.file (bytesOf p) with
    | none =>
        rw [h] at hno
        cases hno
    | some f =>
        rw [h] at hno
        cases hno
  · intro f hf
    have hsome : driver.file (bytesOf p) = some f := by
      rw [hnamed, fileAt] at hf
      cases h : driver.file (bytesOf p) with
      | none =>
          rw [h] at hf
          cases hf
      | some g =>
          rw [h] at hf
          cases hf
          rfl
    obtain ⟨path, hpath⟩ := Option.isSome_iff_exists.mp
      (driver.resolve_isSome p htext (by rw [hsome]; rfl))
    have hpathText := driver.resolve_text p path hpath htext
    obtain ⟨quoted, hquoted⟩ : ∃ quoted, quote [0x2F] path = some quoted :=
      ⟨_, quote_eq_some.mpr ⟨hpathText.isScalar, rfl⟩⟩
    obtain ⟨hagain, hstays, hopened⟩ := openOnlyUrl_spec hsqlite hpath hpathText hquoted
    rw [hpath, Option.map_some] at hfile
    refine ⟨path, openOnlyUrl url quoted, hfile, ?_, hagain, hstays, ?_, rfl, rfl⟩
    · rw [openOnly, hfile]
      dsimp only
      rw [hquoted, Option.map_some]
    · rw [hopened, fileAt, driver.file_resolve p path hpath htext, hsome]

theorem opens_of_noFile (hfile : sqliteFile driver url = some none)
    (hnamed : ∀ f, named driver url ≠ .file f) : OpensTheSameFile driver url := by
  constructor
  · intro _
    rw [openOnly, hfile]
  · exact fun f hf => absurd hf (hnamed f)

end

/-! ## The two readers -/

section
variable {s u text : PyStr}

/-- What `urlsplit` keeps of a text. -/
def kept (s : PyStr) : PyStr := s.filter fun c => !isUnsafe c

theorem kept_append (s u : PyStr) : kept (s ++ u) = kept s ++ kept u :=
  List.filter_append _ _

theorem kept_eq_self (h : ∀ c ∈ s, isUnsafe c = false) : kept s = s :=
  List.filter_eq_self.mpr fun c hc => by simp [h c hc]

theorem pathPart_kept (s : PyStr) : pathPart (kept s) = kept (pathPart s) := by
  induction s with
  | nil => rfl
  | cons c s ih =>
      unfold kept pathPart at ih ⊢
      cases hends : endsPath c with
      | true =>
          have hsafe : isUnsafe c = false := by
            have hstop : c = 0x3F ∨ c = 0x23 := by simpa [endsPath] using hends
            rcases hstop with rfl | rfl <;> decide
          simp [hends, hsafe]
      | false =>
          cases hraw : isUnsafe c with
          | true => simp [hends, hraw, ih]
          | false => simp [hends, hraw, ih]

theorem pathPart_append (hs : ∀ c ∈ s, endsPath c = false) (u : PyStr) :
    pathPart (s ++ u) = s ++ pathPart u :=
  List.takeWhile_append_of_pos fun c hc => by simp [hs c hc]

theorem isPrefixOf_iff : [slash, slash].isPrefixOf s = true ↔ ∃ r, s = slash :: slash :: r := by
  rw [List.isPrefixOf_iff_prefix]
  constructor
  · rintro ⟨r, rfl⟩
    exact ⟨r, rfl⟩
  · rintro ⟨r, rfl⟩
    exact ⟨r, rfl⟩

theorem splitAuthority_cons (stops : ℕ → Bool) (r : PyStr) :
    splitAuthority stops (slash :: slash :: r) =
      (r.takeWhile fun c => !stops c, r.dropWhile fun c => !stops c) :=
  if_pos (isPrefixOf_iff.mpr ⟨r, rfl⟩)

theorem splitAuthority_of_not {stops : ℕ → Bool} (h : [slash, slash].isPrefixOf s = false) :
    splitAuthority stops s = ([], s) :=
  if_neg (by simp [h])

/-- The stops of `urlsplit` and of the driver. -/
theorem urlsplitPath_eq (checkNetloc : PyStr → Bool) (u : PyStr) :
    urlsplitPath checkNetloc (fileScheme ++ u) =
      let split := splitAuthority (fun c => c = slash || endsPath c) (kept u)
      if checkNetloc split.1 then some (pathPart split.2) else none := by
  have hkept : (fileScheme ++ u).filter (fun c => !isUnsafe c) = fileScheme ++ kept u :=
    kept_append fileScheme u
  rw [urlsplitPath, hkept, List.drop_left]

/-- For a URI that the driver takes, `urlsplit` finds the same path without the tabs and the line
breaks, unless one of them stood between two slashes at the front; then it finds an end of it. -/
theorem urlsplitPath_of_uriText {F : Type} (driver : Driver F) (h : uriText u = some text) :
    urlsplitPath driver.checkNetloc (fileScheme ++ u) = some (kept text) ∨
      (∃ c ∈ text, isUnsafe c = true) ∧
        ∀ path, urlsplitPath driver.checkNetloc (fileScheme ++ u) = some path →
          ∃ front, kept text = front ++ path ∧ (path = [] ∨ path.head? = some slash) := by
  rw [urlsplitPath_eq]
  unfold uriText at h
  cases hstarts : [slash, slash].isPrefixOf u with
  | true =>
      left
      obtain ⟨r, rfl⟩ := isPrefixOf_iff.mp hstarts
      rw [splitAuthority_cons] at h
      dsimp only at h
      split_ifs at h with hauthority
      rw [← Option.some_inj.mp h, ← pathPart_kept]
      rw [Bool.or_eq_true, decide_eq_true_eq, decide_eq_true_eq] at hauthority
      have hr := List.takeWhile_append_dropWhile (p := fun c : ℕ => !(decide (c = slash))) (l := r)
      have hhead := List.head?_dropWhile_not (fun c : ℕ => !(decide (c = slash))) r
      generalize r.takeWhile (fun c => !(decide (c = slash))) = authority at hr hauthority
      generalize r.dropWhile (fun c => !(decide (c = slash))) = rest at hr hhead
      have hchecked : driver.checkNetloc authority = true ∧ kept authority = authority ∧
          ∀ c ∈ authority, (!(decide (c = slash) || endsPath c)) = true := by
        rcases hauthority with rfl | rfl
        · exact ⟨driver.checkNetloc_nil, rfl, by simp⟩
        · exact ⟨driver.checkNetloc_localhost, by decide, by decide⟩
      have hkept : kept (slash :: slash :: r) = slash :: slash :: (authority ++ kept rest) := by
        have hslashes : kept [slash, slash] = [slash, slash] := by decide
        rw [← hr, ← hchecked.2.1, ← kept_append, hchecked.2.1]
        exact (kept_append [slash, slash] _).trans (by rw [hslashes]; rfl)
      have hrest : (kept rest).takeWhile (fun c => !(decide (c = slash) || endsPath c)) = [] ∧
          (kept rest).dropWhile (fun c => !(decide (c = slash) || endsPath c)) = kept rest := by
        cases rest with
        | nil => exact ⟨rfl, rfl⟩
        | cons c rest =>
            have hslash : c = slash := by simpa using hhead
            rw [hslash]
            exact ⟨rfl, rfl⟩
      rw [hkept, splitAuthority_cons]
      dsimp only
      rw [List.takeWhile_append_of_pos hchecked.2.2, List.dropWhile_append_of_pos hchecked.2.2,
        hrest.1, hrest.2, List.append_nil, if_pos hchecked.1]
  | false =>
      rw [splitAuthority_of_not hstarts] at h
      dsimp only at h
      rw [if_pos (by simp)] at h
      rw [← Option.some_inj.mp h, ← pathPart_kept]
      cases hkept : [slash, slash].isPrefixOf (kept u) with
      | false =>
          left
          rw [splitAuthority_of_not hkept]
          dsimp only
          rw [if_pos driver.checkNetloc_nil]
      | true =>
          right
          obtain ⟨w, hw⟩ := isPrefixOf_iff.mp hkept
          have hslashes : pathPart (slash :: slash :: w) = slash :: slash :: pathPart w :=
            pathPart_append (s := [slash, slash]) (by decide) w
          constructor
          · by_contra hnone
            have hself : kept (pathPart u) = pathPart u :=
              kept_eq_self fun c hc => by simpa using fun hraw => hnone ⟨c, hc, hraw⟩
            have hprefixed : [slash, slash] <+: u := by
              have hpath : pathPart u <+: u := List.takeWhile_prefix _
              rw [← hself, ← pathPart_kept, hw, hslashes] at hpath
              exact (List.prefix_append [slash, slash] _).trans hpath
            rw [← List.isPrefixOf_iff_prefix, hstarts] at hprefixed
            cases hprefixed
          · intro path hpath
            rw [hw, splitAuthority_cons] at hpath
            dsimp only at hpath
            split_ifs at hpath with hchecked
            rw [Option.some_inj] at hpath
            rw [hw, hslashes]
            have hsplit := List.takeWhile_append_dropWhile
              (p := fun c : ℕ => !(decide (c = slash) || endsPath c)) (l := w)
            have hnetloc : ∀ c ∈ w.takeWhile (fun c => !(decide (c = slash) || endsPath c)),
                endsPath c = false := by
              intro c hc
              have hstays := List.mem_takeWhile_imp hc
              simp at hstays
              exact hstays.2
            have hhead := List.head?_dropWhile_not
              (fun c : ℕ => !(decide (c = slash) || endsPath c)) w
            generalize w.dropWhile (fun c => !(decide (c = slash) || endsPath c)) = rest
              at hpath hsplit hhead
            refine ⟨slash :: slash :: w.takeWhile (fun c => !(decide (c = slash) || endsPath c)),
              ?_, ?_⟩
            · rw [← hpath]
              conv_lhs => rw [← hsplit, pathPart_append hnetloc]
              rfl
            · rw [← hpath]
              cases rest with
              | nil => exact Or.inl rfl
              | cons c rest =>
                  cases hends : endsPath c with
                  | true =>
                      left
                      rw [pathPart, List.takeWhile_cons_of_neg (by simp [hends])]
                  | false =>
                      right
                      have hslash : c = slash := by simpa [hends] using hhead
                      rw [pathPart, List.takeWhile_cons_of_pos (by simp [hends]), hslash]
                      rfl

theorem urlsplitPath_of_safe {F : Type} (driver : Driver F) (h : uriText u = some text)
    (hsafe : ∀ c ∈ text, isUnsafe c = false) :
    urlsplitPath driver.checkNetloc (fileScheme ++ u) = some text := by
  rcases urlsplitPath_of_uriText driver h with hkept | ⟨⟨c, hc, hraw⟩, _⟩
  · rw [hkept, kept_eq_self hsafe]
  · rw [hsafe c hc] at hraw
    cases hraw

end

/-! ## When the file is the same -/

section
variable {F : Type} {driver : Driver F} {url : Url} {name u text : PyStr}

theorem exists_uri (h : fileScheme.isPrefixOf name = true) : ∃ u, name = fileScheme ++ u ∧
    name.drop fileScheme.length = u := by
  obtain ⟨u, rfl⟩ := List.isPrefixOf_iff_prefix.mp h
  exact ⟨u, rfl, List.drop_left⟩

theorem mem_of_uriText (h : uriText u = some text) {c : ℕ} (hc : c ∈ text) : c ∈ u := by
  unfold uriText at h
  dsimp only at h
  split_ifs at h
  rw [← Option.some_inj.mp h] at hc
  have hrest := (List.takeWhile_prefix _).subset hc
  unfold splitAuthority at hrest
  split_ifs at hrest
  · exact List.mem_of_mem_drop ((List.dropWhile_sublist _).subset hrest)
  · exact hrest

theorem bytesOf_eq_nil {s : PyStr} (h : IsText s) : bytesOf s = [] ↔ s = [] := by
  constructor
  · exact fun hs => bytesOf_injective h (fun c hc => nomatch hc) hs
  · rintro rfl
    rfl

theorem bytesOf_eq_memory {s : PyStr} (h : IsText s) :
    bytesOf s = bytesOf memoryName ↔ s = memoryName := by
  have hmemory : IsText memoryName := by
    unfold IsText
    decide
  constructor
  · exact fun hs => bytesOf_injective h hmemory hs
  · rintro rfl
    rfl

theorem opens_of_uri (hsqlite : url.isSqlite = true)
    (hdatabase : url.database = some (fileScheme ++ u))
    (htrue : url.query "uri" = some (.one "true")) (hmode : url.query "mode" ≠ some (.one "memory"))
    (hu : IsText u) (h : ReadAlike u) : OpensTheSameFile driver url := by
  have hstarts := isPrefixOf_append u
  have hnamed := named_uri driver hsqlite hdatabase hstarts htrue hmode
  rw [List.drop_left, uriPath] at hnamed
  cases huri : uriText u with
  | none =>
      rw [huri] at hnamed
      constructor
      · intro hno
        rw [hnamed] at hno
        cases hno
      · intro f hf
        rw [hnamed] at hf
        cases hf
  | some text =>
      obtain ⟨hsafe, path, hpath, hbytes⟩ := h text huri
      have hsplit := urlsplitPath_of_safe driver huri hsafe
      have hscalar : ∀ c ∈ text, IsScalar c := fun c hc => (hu c (mem_of_uriText huri hc)).2
      have hunquote : unquote text = path := by
        rw [unquote_eq hscalar]
        exact (congrArg _ hbytes).trans (decode_encode (encode_eq_some.mpr ⟨hpath.isScalar, rfl⟩))
      have hfile := sqliteFile_uri driver hsqlite hdatabase hstarts hmode
      rw [hsplit] at hfile
      dsimp only at hfile
      rw [hunquote] at hfile
      rw [huri, Option.map_some, hbytes, takeWhile_bytesOf hpath] at hnamed
      dsimp only at hnamed
      by_cases hempty : path = [] ∨ path = memoryName
      · rw [if_pos (by simpa using hempty)] at hfile
        apply opens_of_noFile hfile
        intro f
        rw [hnamed, if_pos (by simpa [bytesOf_eq_nil hpath, bytesOf_eq_memory hpath] using hempty)]
        simp
      · rw [if_neg (by simpa using hempty)] at hfile
        rw [if_neg (by simpa [bytesOf_eq_nil hpath, bytesOf_eq_memory hpath] using hempty)] at hnamed
        exact opens_of_path hsqlite hpath hfile hnamed

theorem opens_of_faithful (url : SettingUrl) (h : Faithful url.toUrl) :
    OpensTheSameFile driver url.toUrl := by
  cases hdatabase : url.database with
  | none =>
      apply opens_of_noFile
      · rw [sqliteFile, hdatabase]
      · intro f
        rw [named, hdatabase]
        simp
  | some name =>
      have htext := url.isText name hdatabase
      by_cases hnone : (!url.isSqlite || name = [] || name = memoryName) = true
      · apply opens_of_noFile
        · rw [sqliteFile, hdatabase]
          dsimp only
          rw [if_pos hnone]
        · intro f
          rw [named, hdatabase]
          dsimp only
          rw [if_pos hnone]
          simp
      · obtain ⟨⟨hsqlite, hempty⟩, hmemory⟩ :
            (url.isSqlite = true ∧ name ≠ []) ∧ name ≠ memoryName := by simpa using hnone
        cases hstarts : fileScheme.isPrefixOf name with
        | false =>
            exact opens_of_path hsqlite htext
              (sqliteFile_plain driver hsqlite hdatabase hempty hmemory hstarts)
              (named_plain driver hsqlite hdatabase hempty hmemory (Or.inl hstarts))
        | true =>
            obtain ⟨htrue, hmode⟩ := h name hdatabase hsqlite hstarts
            obtain ⟨u, rfl, hdrop⟩ := exists_uri hstarts
            by_cases hmem : url.query "mode" = some (.one "memory")
            · apply opens_of_noFile
              · rw [sqliteFile, hdatabase]
                dsimp only
                rw [if_neg hnone, if_pos hstarts, if_pos hmem]
              · intro f
                rw [named, hdatabase]
                dsimp only
                rw [if_neg hnone, if_pos (by simp [hstarts, htrue, driver.asBool_true]), if_pos hmem]
                simp
            · rcases hmode with hmode | hread
              · exact absurd hmode hmem
              · rw [hdrop] at hread
                exact opens_of_uri hsqlite hdatabase htrue hmem
                  (fun c hc => htext c (List.mem_append_right _ hc)) hread

end

/-! ## A root directory without links -/

section
variable {s p : PyStr}

theorem dropWhile_bytesOf (h : ∀ c ∈ p, IsScalar c) :
    (bytesOf p).dropWhile (fun b => b = 0x2F) = bytesOf (p.dropWhile fun c => c = slash) := by
  induction p with
  | nil => rfl
  | cons c p ih =>
      have hc := h c List.mem_cons_self
      rw [bytesOf_cons]
      by_cases hslash : c = slash
      · rw [hslash, List.dropWhile_cons_of_pos (by simp),
          ← ih fun d hd => h d (List.mem_cons_of_mem c hd)]
        rfl
      · have hpos := length_encodeChar_pos c
        rw [List.dropWhile_cons_of_neg (by simpa using hslash), bytesOf_cons]
        cases hbytes : encodeChar c with
        | nil =>
            rw [hbytes] at hpos
            cases hpos
        | cons b tail =>
            have hb : b ≠ 0x2F := fun hb => hslash (head_encodeChar hc (by rw [hbytes, hb]; rfl))
            rw [List.cons_append, List.dropWhile_cons_of_neg (by simpa using hb)]

theorem zero_notMem_root (h : 0 ∉ p) : 0 ∉ slash :: p.dropWhile fun c => c = slash := by
  rw [List.mem_cons, not_or]
  constructor
  · decide
  · exact fun hmem => h ((List.dropWhile_sublist _).subset hmem)

/-- Everything is found from the root, and nothing is a link. -/
def plainRoot : Driver (List UInt8) where
  asBool value := value = .one "true"
  checkNetloc _ := true
  resolve p := if 0 ∈ p then none else some (slash :: p.dropWhile fun c => c = slash)
  file path := some (0x2F :: path.dropWhile fun b => b = 0x2F)
  asBool_true := by decide
  checkNetloc_nil := rfl
  checkNetloc_localhost := rfl
  resolve_root := by
    intro p q h
    split_ifs at h
    refine ⟨_, (Option.some_inj.mp h).symm, ?_⟩
    have hhead := List.head?_dropWhile_not (fun c : ℕ => c = slash) p
    intro hslash
    rw [hslash] at hhead
    simp at hhead
  resolve_resolve := by
    intro p q h
    split_ifs at h with hzero
    rw [← Option.some_inj.mp h, if_neg (zero_notMem_root hzero),
      List.dropWhile_cons_of_pos (by simp), List.dropWhile_idempotent]
  resolve_text := by
    intro p q h htext c hc
    split_ifs at h
    rw [← Option.some_inj.mp h, List.mem_cons] at hc
    rcases hc with rfl | hc
    · decide
    · exact htext c ((List.dropWhile_sublist _).subset hc)
  resolve_isSome := by
    intro p htext _
    rw [if_neg fun hzero => (htext 0 hzero).1 rfl]
    rfl
  file_resolve := by
    intro p q h htext
    split_ifs at h
    have hbytes : bytesOf (slash :: p.dropWhile fun c => c = slash) =
        0x2F :: bytesOf (p.dropWhile fun c => c = slash) := rfl
    rw [← Option.some_inj.mp h, hbytes, List.dropWhile_cons_of_pos (by simp),
      ← dropWhile_bytesOf htext.isScalar, List.dropWhile_idempotent]

/-- The ASCII characters that are no slashes. -/
def weight (s : List ℕ) : ℕ := (s.filter (· < 0x80)).countP (· ≠ slash)

def counts (b : UInt8) : Bool := b.toNat < 0x80 && b.toNat ≠ slash

theorem weight_map (bytes : List UInt8) : weight (bytes.map UInt8.toNat) = bytes.countP counts := by
  rw [weight, List.countP_filter, List.countP_map]
  apply List.countP_congr
  intro b _
  simp [counts, and_comm]

theorem weight_decode (bytes : List UInt8) :
    weight (decode replacement bytes) = bytes.countP counts := by
  rw [weight, filter_decode (by decide), ← weight_map, weight]

theorem countP_bytesOf (h : ∀ c ∈ s, IsScalar c) : (bytesOf s).countP counts = weight s := by
  rw [← weight_map, weight, bytesOf, filter_flatMap_encodeChar h, weight]

theorem weight_sublist (h : s.Sublist p) : weight s ≤ weight p :=
  (h.filter _).countP_le

theorem countP_root (bytes : List UInt8) :
    (0x2F :: bytes.dropWhile fun b => b = 0x2F).countP counts = bytes.countP counts := by
  induction bytes with
  | nil => rfl
  | cons b bytes ih =>
      by_cases hb : b = 0x2F
      · rw [hb, List.dropWhile_cons_of_pos (by simp), ih]
        rfl
      · rw [List.dropWhile_cons_of_neg (by simpa using hb)]
        rfl

theorem countP_unquoteToBytes_le (bytes : List UInt8) :
    (unquoteToBytes bytes).countP counts ≤ bytes.countP counts := by
  induction bytes with
  | nil => exact le_rfl
  | cons b bytes ih =>
      have hpercent : counts percent = true := by decide
      have hcons := countP_unquoteToBytes_cons hpercent b bytes
      rw [← List.singleton_append, List.countP_append]
      exact hcons.trans (Nat.add_le_add_left ih _)

/-! ## What the root directory tells apart -/

variable {url : Url} {name u text : PyStr}

theorem resolve_of_found {q : PyStr} {none' : Bool}
    (h : (if none' then some none else (plainRoot.resolve name).map some) = some (some q)) :
    plainRoot.resolve name = some q := by
  cases none' with
  | true => cases h
  | false =>
      obtain ⟨_, hresolve, hsame⟩ := Option.map_eq_some_iff.mp h
      rw [hresolve, Option.some_inj.mp hsame]

/-- What a file at the root says about the path that the program found. -/
theorem root_of_same (found : PyStr) {bytes : List UInt8} (hsqlite : url.isSqlite = true)
    (hnamed : named plainRoot url = fileAt plainRoot bytes)
    (hfile : ∀ path, sqliteFile plainRoot url = some (some path) →
      plainRoot.resolve found = some path)
    (h : OpensTheSameFile plainRoot url) :
    0 ∉ found ∧ IsText (slash :: found.dropWhile fun c => c = slash) ∧
      bytes.dropWhile (fun b => b = 0x2F) = bytesOf (found.dropWhile fun c => c = slash) := by
  obtain ⟨path, out, hpath, hout, _, _, hsame, _, _⟩ := h.file _ hnamed
  have hresolve := hfile path hpath
  obtain ⟨hzero, hroot⟩ : 0 ∉ found ∧ slash :: found.dropWhile (fun c => c = slash) = path := by
    unfold plainRoot at hresolve
    dsimp only at hresolve
    split_ifs at hresolve with hzero
    exact ⟨hzero, Option.some_inj.mp hresolve⟩
  rw [openOnly, hpath] at hout
  obtain ⟨quoted, hquoted, rfl⟩ := Option.map_eq_some_iff.mp hout
  have hscalar := (quote_eq_some.mp hquoted).1
  have htext : IsText path := by
    intro c hc
    have hne : c ≠ 0 := by
      rintro rfl
      rw [← hroot] at hc
      exact zero_notMem_root hzero hc
    exact ⟨hne, hscalar c hc⟩
  rw [(openOnlyUrl_spec hsqlite hresolve htext hquoted).2.2] at hsame
  constructor
  · exact hzero
  constructor
  · rw [hroot]
    exact htext
  · have hbytes : bytesOf path = 0x2F :: bytesOf (found.dropWhile fun c => c = slash) := by
      rw [← hroot]
      rfl
    rw [hbytes] at hsame
    unfold fileAt plainRoot at hsame
    dsimp only at hsame
    rw [List.dropWhile_cons_of_pos (by simp), dropWhile_bytesOf, List.dropWhile_idempotent] at hsame
    · simpa using hsame.symm
    · rw [← hroot] at hscalar
      exact fun c hc => hscalar c (List.mem_cons_of_mem slash hc)

/-- The path that the program found counts as much as the one that the driver opens. -/
theorem weight_of_same {found : PyStr} {bytes : List UInt8}
    (htext : IsText (slash :: found.dropWhile fun c => c = slash))
    (h : bytes.dropWhile (fun b => b = 0x2F) = bytesOf (found.dropWhile fun c => c = slash)) :
    bytes.countP counts = weight found := by
  have hfound : weight (found.dropWhile fun c => c = slash) = weight found := by
    induction found with
    | nil => rfl
    | cons c found ih =>
        by_cases hslash : c = slash
        · rw [hslash, List.dropWhile_cons_of_pos (by simp)] at htext h ⊢
          exact ih htext h
        · rw [List.dropWhile_cons_of_neg (by simpa using hslash)]
  have hscalar : ∀ c ∈ found.dropWhile (fun c => c = slash), IsScalar c := fun c hc =>
    (htext c (List.mem_cons_of_mem slash hc)).2
  rw [← countP_root, h, ← hfound, ← countP_bytesOf hscalar]
  rfl

def isUnsafeByte (b : UInt8) : Bool := isUnsafe b.toNat

theorem memoryName_safe : ∀ b ∈ unquoteToBytes (bytesOf memoryName), isUnsafeByte b = false := by
  have hall : (unquoteToBytes (bytesOf memoryName)).all (fun b => !isUnsafeByte b) = true := by
    decide
  intro b hb
  simpa using List.all_eq_true.mp hall b hb

theorem isUnsafeByte_spec (b : UInt8) (h : isUnsafeByte b = true) :
    b ≠ percent ∧ hexValue b = none ∧ counts b = true := by
  have hcases : b = 0x09 ∨ b = 0x0A ∨ b = 0x0D := by
    simp only [← UInt8.toNat_inj]
    simpa [isUnsafeByte, isUnsafe, or_assoc] using h
  rcases hcases with rfl | rfl | rfl <;> decide

theorem bytesOf_kept (h : ∀ c ∈ text, IsScalar c) :
    bytesOf (kept text) = (bytesOf text).filter fun b => !isUnsafeByte b := by
  induction text with
  | nil => rfl
  | cons c text ih =>
      have hc := h c List.mem_cons_self
      have htext := ih fun d hd => h d (List.mem_cons_of_mem c hd)
      unfold kept at htext ⊢
      rw [bytesOf_cons, List.filter_append, ← htext, List.filter_cons]
      by_cases hascii : c < 0x80
      · have hbyte : isUnsafeByte (UInt8.ofNat c) = isUnsafe c := by
          rw [isUnsafeByte, toNat_ofNat (by omega)]
        rw [encodeChar_ascii hascii]
        cases hraw : isUnsafe c with
        | true => simp [hbyte, hraw]
        | false => simp [hbyte, hraw, bytesOf_cons, encodeChar_ascii hascii]
      · have hsafe : isUnsafe c = false := by
          unfold isUnsafe
          simp
          omega
        have hkeep : (encodeChar c).filter (fun b => !isUnsafeByte b) = encodeChar c := by
          rw [List.filter_eq_self]
          intro b hb
          have hhigh := high_encodeChar hc (not_lt.mp hascii) b hb
          unfold isUnsafeByte isUnsafe
          simp
          omega
        rw [if_pos (by simp [hsafe]), bytesOf_cons, hkeep]

/-- A path that `urlsplit` found reads to no more than what the driver reads. -/
theorem countP_of_uriText {F : Type} {driver : Driver F} {path : PyStr} (hu : IsText u)
    (huri : uriText u = some text)
    (hpath : urlsplitPath driver.checkNetloc (fileScheme ++ u) = some path) :
    (unquoteToBytes (bytesOf path)).countP counts + (bytesOf text).countP isUnsafeByte ≤
      (unquoteToBytes (bytesOf text)).countP counts := by
  have hscalar : ∀ c ∈ text, IsScalar c := fun c hc => (hu c (mem_of_uriText huri hc)).2
  have hpercent : counts percent = true := by decide
  have hkept := countP_unquoteToBytes_filter hpercent isUnsafeByte_spec (bytesOf text)
  rw [← bytesOf_kept hscalar] at hkept
  have hle : (unquoteToBytes (bytesOf path)).countP counts ≤
      (unquoteToBytes (bytesOf (kept text))).countP counts := by
    rcases urlsplitPath_of_uriText driver huri with hsame | ⟨_, hend⟩
    · rw [hsame, Option.some_inj] at hpath
      rw [hpath]
    · obtain ⟨front, hfront, hpath⟩ := hend path hpath
      rw [hfront, bytesOf_append]
      rcases hpath with rfl | hslash
      · exact Nat.zero_le _
      · obtain ⟨rest, rfl⟩ : ∃ rest, path = slash :: rest := by
          cases path with
          | nil => cases hslash
          | cons c rest => exact ⟨rest, by rw [Option.some_inj.mp hslash]⟩
        have hbytes : bytesOf (slash :: rest) = 0x2F :: bytesOf rest := rfl
        rw [hbytes, unquoteToBytes_append (by decide) (by decide), List.countP_append,
          unquoteToBytes_cons_of_ne (by decide)]
        exact Nat.le_add_left _ _
  omega

theorem raw_mem_bytesOf (h : ∀ c ∈ text, IsScalar c) {c : ℕ} (hc : c ∈ text)
    (hraw : isUnsafe c = true) : ∃ b ∈ bytesOf text, isUnsafeByte b = true := by
  have hlt : c < 0x80 := by
    unfold isUnsafe at hraw
    simp at hraw
    omega
  have hnat : (UInt8.ofNat c).toNat = c := toNat_ofNat (by omega)
  refine ⟨UInt8.ofNat c, ?_, by rw [isUnsafeByte, hnat, hraw]⟩
  rw [mem_bytesOf h (by rw [hnat]; exact hlt), hnat]
  exact hc

theorem zero_mem_unquote (h : ∀ c ∈ text, IsScalar c)
    (hzero : 0 ∈ unquoteToBytes (bytesOf text)) : 0 ∈ unquote text := by
  have hfilter : (0 : ℕ) ∈
      ((unquoteToBytes (bytesOf text)).map UInt8.toNat).filter (· < 0x80) :=
    List.mem_filter.mpr ⟨List.mem_map.mpr ⟨0, hzero, rfl⟩, by decide⟩
  have hreplacement : ∀ c ∈ replacement, 0x80 ≤ c := by decide
  rw [← filter_decode hreplacement] at hfilter
  rw [unquote_eq h]
  exact (List.mem_filter.mp hfilter).1

theorem urlsplitPath_sublist {checkNetloc : PyStr → Bool} {path : PyStr}
    (h : urlsplitPath checkNetloc (fileScheme ++ u) = some path) : path.Sublist u := by
  rw [urlsplitPath_eq] at h
  dsimp only at h
  split_ifs at h
  rw [← Option.some_inj.mp h]
  have hrest : (splitAuthority (fun c => decide (c = slash) || endsPath c) (kept u)).2.Sublist
      (kept u) := by
    unfold splitAuthority
    split_ifs
    · exact (List.dropWhile_sublist _).trans (List.drop_sublist _ _)
    · exact List.Sublist.refl _
  exact (List.takeWhile_sublist _).trans (hrest.trans List.filter_sublist)

/-- A name with the scheme that is no URI to the driver is a file of its own. -/
theorem uri_of_same (hsqlite : url.isSqlite = true)
    (hdatabase : url.database = some (fileScheme ++ u)) (hu : IsText (fileScheme ++ u))
    (h : OpensTheSameFile plainRoot url) : url.query "uri" = some (.one "true") := by
  have hstarts := isPrefixOf_append u
  obtain ⟨hempty, hmemory⟩ := uri_ne hstarts
  by_contra htrue
  have hfalse : (url.query "uri").any plainRoot.asBool = false := by
    cases hquery : url.query "uri" with
    | none => rfl
    | some value =>
        have hne : value ≠ .one "true" := fun hvalue => htrue (by rw [hquery, hvalue])
        simpa [plainRoot] using hne
  have hnamed := named_plain plainRoot hsqlite hdatabase hempty hmemory (Or.inr hfalse)
  obtain ⟨_, _, hfile, _⟩ := h.file _ hnamed
  have hmode : url.query "mode" ≠ some (.one "memory") := by
    intro hmode
    have hnone : sqliteFile plainRoot url = some none := by
      rw [sqliteFile, hdatabase]
      dsimp only
      rw [if_neg (by simp [hsqlite, hempty, hmemory]), if_pos hstarts, if_pos hmode]
    rw [hnone] at hfile
    cases hfile
  have huri := sqliteFile_uri plainRoot hsqlite hdatabase hstarts hmode
  cases hsplit : urlsplitPath plainRoot.checkNetloc (fileScheme ++ u) with
  | none =>
      rw [hsplit, hfile] at huri
      cases huri
  | some path =>
      rw [hsplit] at huri
      dsimp only at huri
      have hsublist := urlsplitPath_sublist hsplit
      have hscalar : ∀ c ∈ path, IsScalar c := fun c hc =>
        (hu c (List.mem_append_right _ (hsublist.subset hc))).2
      obtain ⟨hzero, htext, hbytes⟩ := root_of_same (unquote path) hsqlite hnamed
        (fun q hq => resolve_of_found (huri.symm.trans hq)) h
      have hweight := weight_of_same htext hbytes
      rw [countP_bytesOf hu.isScalar, unquote_eq hscalar, weight_decode] at hweight
      have hle := countP_unquoteToBytes_le (path.flatMap encodeChar)
      have hpath : (path.flatMap encodeChar).countP counts = weight path := countP_bytesOf hscalar
      have hmono := weight_sublist hsublist
      have hscheme : weight (fileScheme ++ u) = 5 + weight u := by
        rw [weight, List.filter_append, List.countP_append]
        rfl
      omega

/-- Slashes before a text are a text. -/
theorem text_of_dropWhile {found : PyStr} {bytes : List UInt8}
    (htext : IsText (slash :: found.dropWhile fun c => c = slash))
    (h : bytes.dropWhile (fun b => b = 0x2F) = bytesOf (found.dropWhile fun c => c = slash)) :
    ∃ path, IsText path ∧ bytes = bytesOf path := by
  have hslashes : ∀ b ∈ bytes.takeWhile (fun b => b = 0x2F), b = 0x2F := fun b hb => by
    simpa using List.mem_takeWhile_imp hb
  refine ⟨(bytes.takeWhile fun b => b = 0x2F).map UInt8.toNat ++
    found.dropWhile fun c => c = slash, ?_, ?_⟩
  · intro c hc
    rcases List.mem_append.mp hc with hc | hc
    · obtain ⟨b, hb, rfl⟩ := List.mem_map.mp hc
      rw [hslashes b hb]
      decide
    · exact htext c (List.mem_cons_of_mem slash hc)
  · rw [bytesOf_append, ← h, bytesOf, flatMap_encodeChar_map]
    · exact List.takeWhile_append_dropWhile.symm
    · intro b hb
      rw [hslashes b hb]
      decide

/-- A URI that both readers do not read alike names two files, or none to the program. -/
theorem readAlike_of_same (hsqlite : url.isSqlite = true)
    (hdatabase : url.database = some (fileScheme ++ u)) (hu : IsText u)
    (htrue : url.query "uri" = some (.one "true"))
    (hmode : url.query "mode" ≠ some (.one "memory"))
    (hnul : ∀ text ∈ uriText u, 0 ∈ unquoteToBytes (bytesOf text) → ∀ c ∈ text, isUnsafe c = false)
    (h : OpensTheSameFile plainRoot url) : ReadAlike u := by
  intro text htext
  have hstarts := isPrefixOf_append u
  have hscalar : ∀ c ∈ text, IsScalar c := fun c hc => (hu c (mem_of_uriText htext hc)).2
  have hnamed := named_uri plainRoot hsqlite hdatabase hstarts htrue hmode
  have hfile := sqliteFile_uri plainRoot hsqlite hdatabase hstarts hmode
  rw [List.drop_left, uriPath, htext, Option.map_some] at hnamed
  dsimp only at hnamed
  by_cases hzero : 0 ∈ unquoteToBytes (bytesOf text)
  · -- The program asks for a path with a NUL.
    have hsplit := urlsplitPath_of_safe plainRoot htext (hnul text htext hzero)
    have hmem := zero_mem_unquote hscalar hzero
    have hraised : sqliteFile plainRoot url = none := by
      rw [hfile, hsplit]
      dsimp only
      rw [if_neg]
      · unfold plainRoot
        dsimp only
        rw [if_pos hmem]
        rfl
      · rw [Bool.or_eq_true, decide_eq_true_eq, decide_eq_true_eq]
        rintro (hempty | hmemory)
        · rw [hempty] at hmem
          cases hmem
        · rw [hmemory] at hmem
          revert hmem
          decide
    split_ifs at hnamed with hnone
    · have hopen := h.noFile hnamed
      rw [openOnly, hraised] at hopen
      cases hopen
    · obtain ⟨_, _, hfound, _⟩ := h.file _ hnamed
      rw [hraised] at hfound
      cases hfound
  · have hself : (unquoteToBytes (bytesOf text)).takeWhile (fun b => decide (b ≠ 0)) =
        unquoteToBytes (bytesOf text) := by
      rw [List.takeWhile_eq_self_iff]
      intro b hb
      have hne : b ≠ 0 := fun hb' => hzero (hb' ▸ hb)
      simpa using hne
    rw [hself] at hnamed
    split_ifs at hnamed with hnone
    · rw [Bool.or_eq_true, decide_eq_true_eq, decide_eq_true_eq] at hnone
      have hclean : ∀ b ∈ unquoteToBytes (bytesOf text), isUnsafeByte b = false := by
        rcases hnone with hempty | hmemory
        · rw [hempty]
          simp
        · rw [hmemory]
          exact memoryName_safe
      constructor
      · intro c hc
        by_contra hraw
        obtain ⟨b, hb, hbyte⟩ := raw_mem_bytesOf hscalar hc (by simpa using hraw)
        obtain ⟨hne, hhex, _⟩ := isUnsafeByte_spec b hbyte
        rw [hclean b (mem_unquoteToBytes hhex hne hb)] at hbyte
        cases hbyte
      · rcases hnone with hempty | hmemory
        · exact ⟨[], by simp [IsText], hempty⟩
        · refine ⟨memoryName, ?_, hmemory⟩
          unfold IsText
          decide
    · cases hsplit : urlsplitPath plainRoot.checkNetloc (fileScheme ++ u) with
      | none =>
          rw [hsplit] at hfile
          obtain ⟨_, _, hfound, _⟩ := h.file _ hnamed
          rw [hfile] at hfound
          cases hfound
      | some path =>
          rw [hsplit] at hfile
          dsimp only at hfile
          have hpathScalar : ∀ c ∈ path, IsScalar c := fun c hc =>
            (hu c ((urlsplitPath_sublist hsplit).subset hc)).2
          obtain ⟨_, hroot, hbytes⟩ := root_of_same (unquote path) hsqlite hnamed
            (fun q hq => resolve_of_found (hfile.symm.trans hq)) h
          have hweight := weight_of_same hroot hbytes
          have hcount := countP_of_uriText hu htext hsplit
          rw [unquote_eq hpathScalar, weight_decode] at hweight
          have hsafe : ∀ c ∈ text, isUnsafe c = false := by
            intro c hc
            by_contra hraw
            obtain ⟨b, hb, hbyte⟩ := raw_mem_bytesOf hscalar hc (by simpa using hraw)
            have hpos : 0 < (bytesOf text).countP isUnsafeByte :=
              List.countP_pos_iff.mpr ⟨b, hb, hbyte⟩
            have hle : (unquoteToBytes (bytesOf text)).countP counts ≤
                (unquoteToBytes (bytesOf path)).countP counts := hweight.le
            omega
          exact ⟨hsafe, text_of_dropWhile hroot hbytes⟩

/-- A URL names one file to the program and to the driver, on every file system, if its name is
faithful, and only if, unless its path has both a tab or a line break and an escaped NUL. -/
theorem open_only_names_the_same_file (url : SettingUrl) :
    (Faithful url.toUrl → ∀ (F : Type) (driver : Driver F), OpensTheSameFile driver url.toUrl) ∧
      (¬Muddled url.toUrl → (∀ (F : Type) (driver : Driver F), OpensTheSameFile driver url.toUrl) →
        Faithful url.toUrl) := by
  constructor
  · exact fun h F driver => opens_of_faithful url h
  · intro hmuddled h name hdatabase hsqlite hstarts
    have htext := url.isText name hdatabase
    obtain ⟨u, rfl, hdrop⟩ := exists_uri hstarts
    have hroot := h _ plainRoot
    have hu : IsText u := fun c hc => htext c (List.mem_append_right _ hc)
    have htrue := uri_of_same hsqlite hdatabase htext hroot
    constructor
    · exact htrue
    · by_cases hmode : url.query "mode" = some (.one "memory")
      · exact Or.inl hmode
      · right
        rw [hdrop]
        apply readAlike_of_same hsqlite hdatabase hu htrue hmode _ hroot
        intro text huri hzero c hc
        by_contra hraw
        apply hmuddled
        refine ⟨_, hdatabase, hstarts, text, by rw [hdrop]; exact huri, hzero, c, hc, ?_⟩
        simpa using hraw

end

/-! ## Two URIs -/

def uriTrue (key : String) : Option QueryValue := if key = "uri" then some (.one "true") else none

/-- A byte that is no UTF-8: the driver opens the file with that byte, and the program the one with
a mark in its place. -/
theorem an_undecodable_name_is_another_file :
    ¬OpensTheSameFile plainRoot ⟨true, some (codes "file:/data/%FF.db"), uriTrue⟩ := by
  intro h
  have hnamed : named plainRoot ⟨true, some (codes "file:/data/%FF.db"), uriTrue⟩ =
      fileAt plainRoot (unquoteToBytes (bytesOf (codes "/data/%FF.db"))) := by
    rfl
  have hfile : sqliteFile plainRoot ⟨true, some (codes "file:/data/%FF.db"), uriTrue⟩ =
      some (plainRoot.resolve (unquote (codes "/data/%FF.db"))) := by
    rfl
  obtain ⟨_, _, hbytes⟩ := root_of_same (unquote (codes "/data/%FF.db")) rfl hnamed
    (fun q hq => Option.some_inj.mp (hfile.symm.trans hq)) h
  revert hbytes
  decide

theorem open_only_names_the_same_file_escaped :
    OpensTheSameFile plainRoot ⟨true, some (codes "file:/data/50%25%20off.db"), uriTrue⟩ := by
  let url : SettingUrl := {
    isSqlite := true
    database := some (codes "file:/data/50%25%20off.db")
    query := uriTrue
    isText := by
      intro name hname
      cases hname
      unfold IsText
      decide }
  apply (open_only_names_the_same_file url).1
  intro name hname _ _
  cases hname
  constructor
  · rfl
  · right
    intro text htext
    cases htext
    constructor
    · decide
    · refine ⟨codes "/data/50% off.db", ?_, by decide⟩
      unfold IsText
      decide

end AikoIsland.OpenOnly
