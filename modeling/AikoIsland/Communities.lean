import AikoIsland.Gateway
import AikoIsland.Signing

/-!
# Communities: the directory and joining

`discover` reads one page of the public communities and names a cursor, which is
the sort, the key and the id of its last row in padded base64url. `join` inserts
the membership row in a savepoint and bumps the stored count in a second
statement.

The decoder is Python's, which skips what is not in the alphabet and stops at the
padding. What `isdigit` and `int` make of characters outside ASCII is a parameter.
`LIKE` and `lower` are those of SQLite and fold ASCII only; `LIKE` reads a text up
to its first U+0000, and refuses a pattern of more bytes than a limit, which is a
parameter.
-/
namespace AikoIsland.Communities
open Tables Gateway Signing WriterLock

def pageSize : ℕ := 20

def categoryValue : Category → String
  | .general => "general"
  | .tech => "tech"
  | .gaming => "gaming"
  | .social => "social"
  | .music => "music"
  | .education => "education"
  | .other => "other"

/-- `discoverable_predicate`, which is also the write predicate of a new join. -/
def discoverable (c : Community) : Bool :=
  decide (c.visibility = .public_) && c.takenDownAt.isNone

/-! ## Cursors -/

inductive SortMode where
  | members
  | name
  deriving DecidableEq, Repr

def SortMode.text : SortMode → String
  | .members => "members"
  | .name => "name"

/-- An unknown sort falls back to `members`. -/
def SortMode.clamp (sort : String) : SortMode := if sort = "name" then .name else .members

inductive CursorError where
  | invalidCursor
  | valueError
  | operationalError
  deriving DecidableEq, Repr

def cursorSep : Char := Char.ofNat 0x1f

def decodeUtf8 (b : Bytes) : Option String := String.fromUTF8? b.toByteArray

/-- `raw.split(sep, 1)` into two parts. -/
def splitOnce (sep : Char) (cs : List Char) : Option (List Char × List Char) :=
  if sep ∈ cs then some (cs.takeWhile (· ≠ sep), (cs.dropWhile (· ≠ sep)).tail) else none

/-- `raw.rsplit(sep, 1)` into two parts. -/
def rsplitOnce (sep : Char) (cs : List Char) : Option (List Char × List Char) :=
  (splitOnce sep cs.reverse).map fun parts => (parts.2.reverse, parts.1.reverse)

def encodeCursor (sort : SortMode) (sortKey communityId : String) : String :=
  let raw := sort.text.toList ++ cursorSep :: sortKey.toList ++ cursorSep :: communityId.toList
  String.ofList (urlsafeB64encode (utf8 (String.ofList raw)))

def decodeCursor (token : String) (expected : SortMode) : Except CursorError (String × String) :=
  match (urlsafeB64decode token.toList).bind decodeUtf8 with
  | none => .error .invalidCursor
  | some raw =>
      match splitOnce cursorSep raw.toList with
      | none => .error .invalidCursor
      | some (sort, rest) =>
          match rsplitOnce cursorSep rest with
          | none => .error .invalidCursor
          | some (sortKey, communityId) =>
              if String.ofList sort ≠ expected.text then .error .invalidCursor
              else .ok (String.ofList sortKey, String.ofList communityId)

/-- What Python makes of a digit outside ASCII. -/
structure Unicode where
  isDigit : Char → Bool
  decimal : Char → Option ℕ

def isDigit (u : Unicode) (c : Char) : Bool := if c.toNat < 128 then c.isDigit else u.isDigit c

def decimalOf (u : Unicode) (c : Char) : Option ℕ :=
  if c.toNat < 128 then (if c.isDigit then some (c.toNat - 48) else none) else u.decimal c

def decimals (u : Unicode) (acc : ℕ) : List Char → Option ℕ
  | [] => some acc
  | c :: cs => (decimalOf u c).bind fun d => decimals u (acc * 10 + d) cs

/-- `int(text)` on texts of digits with minus signs before them. -/
def pyInt (u : Unicode) : List Char → Option ℤ
  | [] => none
  | '-' :: cs => if cs = [] then none else (decimals u 0 cs).map fun n => -(n : ℤ)
  | cs => (decimals u 0 cs).map fun n => (n : ℤ)

/-- The count in a cursor. -/
def countOf (u : Unicode) (sortKey : String) : Except CursorError ℤ :=
  let stripped := sortKey.toList.dropWhile (· == '-')
  if stripped = [] ∨ !stripped.all (isDigit u) then .error .invalidCursor
  else
    match pyInt u sortKey.toList with
    | none => .error .valueError
    | some mc => .ok mc

/-! ## The directory -/

/-- `LIKE` with the escape character `\`. -/
def like : List Char → List Char → Bool
  | [], text => text.isEmpty
  | '%' :: p, text => text.tails.any fun rest => like p rest
  | '_' :: p, text =>
      match text with
      | [] => false
      | _ :: rest => like p rest
  | ['\\'], _ => false
  | '\\' :: c :: p, text =>
      match text with
      | [] => false
      | x :: rest => x.toLower == c.toLower && like p rest
  | c :: p, text =>
      match text with
      | [] => false
      | x :: rest => x.toLower == c.toLower && like p rest

def escapeLike (q : List Char) : List Char :=
  q.flatMap fun c => if c = '\\' ∨ c = '%' ∨ c = '_' then ['\\', c] else [c]

def nul : Char := Char.ofNat 0

/-- What `LIKE` reads of a text. -/
def beforeNul (cs : List Char) : List Char := cs.takeWhile (· ≠ nul)

/-- `lower(name) LIKE lower(pattern)`. -/
def ilike (name pattern : List Char) : Bool :=
  like (beforeNul (pattern.map Char.toLower)) (beforeNul (name.map Char.toLower))

def searchPattern (q : String) : List Char := '%' :: escapeLike q.toList ++ ['%']

def inCategory (category : Option String) (c : Community) : Bool :=
  match category with
  | none => true
  | some category => category = "" || categoryValue c.category = category

/-- The conditions of a listing without the cursor. -/
def listed (q category : Option String) (c : Community) : Bool :=
  discoverable c &&
    (match q with
      | none => true
      | some q => q = "" || ilike c.name.toList (searchPattern q)) &&
    inCategory category c

/-- `LIKE` refuses the pattern on the first row that it is evaluated for: the conditions before it
keep the rows that are public and not taken down. -/
def tooComplex (maxPattern : ℕ) (q : Option String) (db : Db) : Bool :=
  match q with
  | none => false
  | some q => q ≠ "" && maxPattern < (utf8 (String.ofList (searchPattern q))).length &&
      db.communities.any discoverable

def after (u : Unicode) (sort : SortMode) (sortKey lastId : String) :
    Except CursorError (Community → Bool) :=
  match sort with
  | .members =>
      match countOf u sortKey with
      | .error e => .error e
      | .ok mc => .ok fun c =>
          c.memberCount < mc || c.memberCount = mc && lastId < c.id
  | .name => .ok fun c => sortKey < c.name || c.name = sortKey && lastId < c.id

/-- `ORDER BY`. -/
def inOrder (sort : SortMode) (a b : Community) : Prop :=
  match sort with
  | .members => b.memberCount < a.memberCount ∨ a.memberCount = b.memberCount ∧ a.id ≤ b.id
  | .name => a.name < b.name ∨ a.name = b.name ∧ a.id ≤ b.id

instance (sort : SortMode) : DecidableRel (inOrder sort) := fun a b =>
  match sort with
  | .members => inferInstanceAs
      (Decidable (b.memberCount < a.memberCount ∨ a.memberCount = b.memberCount ∧ a.id ≤ b.id))
  | .name => inferInstanceAs (Decidable (a.name < b.name ∨ a.name = b.name ∧ a.id ≤ b.id))

def sortKeyOf (sort : SortMode) (c : Community) : String :=
  match sort with
  | .members => toString c.memberCount
  | .name => c.name

/-- The rows that a cursor leaves, or all of them. -/
def beyond (u : Unicode) (sort : SortMode) (cursor : Option String) :
    Except CursorError (Community → Bool) :=
  match cursor with
  | none => .ok fun _ => true
  | some token =>
      if token = "" then .ok fun _ => true
      else
        match decodeCursor token sort with
        | .error e => .error e
        | .ok (sortKey, lastId) => after u sort sortKey lastId

def discover (maxPattern : ℕ) (u : Unicode) (q category : Option String) (sort : String)
    (cursor : Option String) (db : Db) : Except CursorError (List Community × Option String) :=
  let sort := SortMode.clamp sort
  match beyond u sort cursor with
  | .error e => .error e
  | .ok keep =>
      if tooComplex maxPattern q db then .error .operationalError
      else
        let found := db.communities.filter fun c => listed q category c && keep c
        let rows := (found.insertionSort (inOrder sort)).take (pageSize + 1)
        let page := rows.take pageSize
        let nextCursor :=
          if pageSize < rows.length then
            page.getLast?.map fun last => encodeCursor sort (sortKeyOf sort last) last.id
          else none
        .ok (page, nextCursor)

/-! ## Joining -/

/-- The community is public and not taken down. -/
def joinable (communityId : String) (db : Db) : Bool :=
  db.communities.any fun c => c.id = communityId && discoverable c

/-- `acl.visible_channels_in_community`. -/
def visibleChannelsInCommunity (viewerId communityId : String) (db : Db) : List Channel :=
  (db.channels.filter fun c => c.communityId = some communityId &&
    db.readablePredicate viewerId c && c.kind ≠ .dm).insertionSort fun a b => a.id ≤ b.id

/-- `_new_join_insert`: no row, and no error, when the community is not joinable. -/
def newJoinInsert (communityId userId : String) (db : Db) : Option Db :=
  if joinable communityId db then db.insertCommunityMembership ⟨communityId, userId⟩ else some db

/-- The row count of the INSERT in its savepoint, or `none` on an `IntegrityError`. -/
def executeNewJoin (communityId userId : String) : Body (Option ℕ) :=
  .write true (.communityInsert communityId userId) (newJoinInsert communityId userId)
    (fun db => .ret (some (if joinable communityId db then 1 else 0))) fun _ => .ret none

def bumpMemberCount (communityId : String) (db : Db) : Db :=
  { db with communities := db.communities.map fun c =>
      if c.id = communityId then { c with memberCount := c.memberCount + 1 } else c }

/-- The community, the channels to subscribe to, and whether a row was inserted. The row locks
are no statements on SQLite. -/
def join (viewerId communityId : String) : Body (Community × List Channel × Bool) := do
  let existing ← select fun db => db.communityMemberships.find? fun m =>
    m.communityId = communityId && m.userId = viewerId
  if existing.isSome then
    match ← select fun db => db.communities.find? fun c =>
        c.id = communityId && c.takenDownAt.isNone with
    | none => throwExn (.communityNotFound communityId)
    | some community =>
        let channels ← select (visibleChannelsInCommunity viewerId communityId)
        commit
        return (community, channels, false)
  else
    let locked ← select (joinable communityId)
    if !locked then throwExn (.communityNotFound communityId)
    else
      let rowcount ← executeNewJoin communityId viewerId
      if rowcount = some 0 then throwExn (.communityNotFound communityId)
      else
        let inserted := rowcount = some 1
        if inserted then
          execute (bumpMemberCount communityId) (fun _ => ()) .plain
        match ← select fun db => db.communities.find? fun c => c.id = communityId with
        | none => throwExn .noResultFound
        | some community =>
            let channels ← select (visibleChannelsInCommunity viewerId communityId)
            commit
            return (community, channels, inserted)

end AikoIsland.Communities
