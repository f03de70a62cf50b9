import AikoIsland.Realtime

/-!
# Read positions by compare-and-swap

`set_positions` refuses a malformed batch by shape, bounds every watermark of a
readable channel by what the caller can see or has stored, and then applies the
entries one conditional statement each: an insert for base 0, an update that
names the stored version otherwise. Readability is decided again inside that
statement. The outcome is read back under the lock, and one commit ends the
call.

A dict of entries is a list without a repeated channel. Channel ids and
watermarks are Python texts; a watermark that passed the shape check is ASCII.
`check_bounds` hands on which stored value it compared with, for the label of
the write: nothing reads it.
-/
namespace AikoIsland.ReadPositions
open Tables Gateway Messages Realtime WriterLock Footprint

/-! ## Entries -/

def maxSeq : ℤ := 2 ^ 63 - 1

def maxBaseSeq : ℤ := maxSeq - 1

/-- `[0-9A-HJKMNP-TV-Z]`. -/
def crockfordCode (n : ℕ) : Bool :=
  (48 ≤ n && n ≤ 57) || (65 ≤ n && n ≤ 72) || n = 74 || n = 75 || n = 77 || n = 78 ||
    (80 ≤ n && n ≤ 84) || (86 ≤ n && n ≤ 90)

/-- `_CANONICAL_ULID.fullmatch`. -/
def canonicalUlid : PyStr → Bool
  | [] => false
  | c :: cs => (48 ≤ c && c ≤ 55) && cs.length = 25 && cs.all crockfordCode

/-- One entry of the body, as it came. -/
structure Entry where
  channelId : PyStr
  lastRead : PyStr
  baseSeq : ℤ
  deriving DecidableEq, Repr

/-- The body: a dict keyed by channel. -/
structure Positions where
  entries : List Entry
  keys : (entries.map (·.channelId)).Nodup

/-- An entry that passed the shape check. -/
structure ValidEntry where
  channelId : PyStr
  lastRead : String
  baseSeq : ℤ
  canonical : lastRead = "" ∨ canonicalUlid (codes lastRead) = true
  base_nonneg : 0 ≤ baseSeq
  base_le : baseSeq ≤ maxBaseSeq

def asciiText (s : PyStr) : String := String.ofList (s.map Char.ofNat)

theorem codes_asciiText {s : PyStr} (h : ∀ n ∈ s, n < 128) : codes (asciiText s) = s := by
  simp only [codes, asciiText, String.toList_ofList, List.map_map]
  conv_rhs => rw [← List.map_id s]
  refine List.map_congr_left fun n hn => ?_
  have hvalid : n.isValidChar := Or.inl (by have := h n hn; omega)
  rw [id, Function.comp_apply, Char.ofNat, dif_pos hvalid]
  rfl

theorem lt_of_canonicalUlid {s : PyStr} (h : canonicalUlid s = true) : ∀ n ∈ s, n < 128 := by
  cases s with
  | nil => cases h
  | cons c cs =>
      simp only [canonicalUlid, Bool.and_eq_true, decide_eq_true_eq, List.all_eq_true] at h
      obtain ⟨⟨⟨_, hc⟩, _⟩, hcs⟩ := h
      intro n hn
      rcases List.mem_cons.mp hn with rfl | hn
      · omega
      · have hcode := hcs n hn
        simp only [crockfordCode, Bool.or_eq_true, Bool.and_eq_true, decide_eq_true_eq] at hcode
        omega

/-- `_validate`: the entry in its typed form, or why it is refused. -/
def validate (e : Entry) : Except String ValidEntry :=
  if e.channelId = [] then .error "channel_id must not be empty"
  else if hshape : e.lastRead = [] ∨ canonicalUlid e.lastRead = true then
    if hbase : 0 ≤ e.baseSeq ∧ e.baseSeq ≤ maxBaseSeq then
      .ok { channelId := e.channelId
            lastRead := asciiText e.lastRead
            baseSeq := e.baseSeq
            canonical := by
              rcases hshape with hempty | hcanonical
              · left
                rw [hempty]
                rfl
              · right
                rw [codes_asciiText (lt_of_canonicalUlid hcanonical)]
                exact hcanonical
            base_nonneg := hbase.1
            base_le := hbase.2 }
    else .error "base_seq must be between 0 and 9223372036854775806"
  else .error ("last_read must be a canonical ULID (uppercase Crockford, first character 0-7) " ++
    "or the empty floor ''")

/-- The first malformed entry is named, before anything is read or written. -/
def validateAll : List Entry → Except (PyStr × String) (List ValidEntry)
  | [] => .ok []
  | e :: es =>
      match validate e with
      | .error why => .error (e.channelId, why)
      | .ok v =>
          match validateAll es with
          | .error refusal => .error refusal
          | .ok vs => .ok (v :: vs)

/-! ## The stored rows -/

def positionKey (userId channelId : String) (r : ChannelReadPosition) : Bool :=
  r.userId = userId && r.channelId = channelId

/-- The stored watermark and version, if there is a row. -/
def stored (userId channelId : String) (db : Db) : Option (String × ℤ) :=
  (db.readPositions.find? (positionKey userId channelId)).map fun r => (r.lastRead, r.seq)

/-- The row of base 0 is selected from the user and the readable channel. -/
def insertPosition (userId channelId lastRead : String) (now : Time) (db : Db) : Db :=
  if (db.userById userId).isSome && (db.readableChannel userId channelId).isSome &&
      !db.readPositions.any (positionKey userId channelId) then
    { db with readPositions := db.readPositions ++ [⟨userId, channelId, lastRead, 1, now⟩] }
  else db

def swapPosition (userId channelId lastRead : String) (baseSeq : ℤ) (now : Time) (db : Db) : Db :=
  if (db.readableChannel userId channelId).isSome then
    { db with readPositions := db.readPositions.map fun r =>
        if positionKey userId channelId r && r.seq = baseSeq then
          { r with lastRead := lastRead, seq := baseSeq + 1, updatedAt := now }
        else r }
  else db

/-- The one conditional statement of an entry. -/
def applyEntry (userId channelId : String) (e : ValidEntry) (now : Time) (db : Db) : Db :=
  if e.baseSeq = 0 then insertPosition userId channelId e.lastRead now db
  else swapPosition userId channelId e.lastRead e.baseSeq now db

/-- `_write`. -/
def writePosition (userId channelId : String) (e : ValidEntry) (now : Time)
    (bounded : Option String) : Body Unit :=
  execute (applyEntry userId channelId e now) (fun _ => ())
    (.readPosition userId channelId e.lastRead bounded)

/-! ## The bound -/

/-- The stored watermarks that a call compared with, by channel. -/
abbrev Compared := List (String × String)

def storedRead (userId channelId : String) (db : Db) : String :=
  ((stored userId channelId db).map (·.1)).getD ""

/-- Some entry of the channel is past the later of the two, or there is nothing to be at. -/
def pastBound (entries : List ValidEntry) (visible : List (String × String))
    (held : String → String) (channelId : String) : Bool :=
  let bound := max ((visible.lookup channelId).getD "") (held channelId)
  bound = "" || entries.any fun e => e.channelId = codes channelId && decide (bound < e.lastRead)

def checkBounds (userId : String) (entries : List ValidEntry) : Body Compared := do
  let ids := (entries.filter fun e => e.lastRead ≠ "").map (·.channelId)
  -- the route takes at most a thousand positions, fewer than the parameters of a statement
  let readable ← filterReadableIds (ids.length + 1) userId ids
  if readable = [] then
    return []
  else
    let visible ← latestUlids readable userId
    let held ← select fun db channelId => storedRead userId channelId db
    match readable.find? (pastBound entries visible held) with
    | some channelId =>
        throwExn (.invalidReadPosition (codes channelId)
          "last_read is past the newest item you can see")
    | none => return readable.map fun c => (c, held c)

/-! ## The call -/

inductive Outcome where
  | applied
  | conflict
  | skipped
  deriving DecidableEq, Repr

structure EntryResult where
  outcome : Outcome
  lastRead : Option String := none
  seq : Option ℤ := none
  deriving DecidableEq, Repr

/-- The read-back: `none` when the channel cannot be read, else what is held there. -/
def readBack (userId channelId : String) (db : Db) : Option (Option (String × ℤ)) :=
  (db.readableChannel userId channelId).map fun _ => stored userId channelId db

def resultOf (e : ValidEntry) : Option (Option (String × ℤ)) → EntryResult
  | none => ⟨.skipped, none, none⟩
  | some none => ⟨.conflict, none, some 0⟩
  | some (some (lastRead, seq)) =>
      if seq = e.baseSeq + 1 ∧ lastRead = e.lastRead then ⟨.applied, some lastRead, some seq⟩
      else ⟨.conflict, some lastRead, some seq⟩

def writeEntries (userId : String) (now : Time) (compared : Compared) :
    List ValidEntry → Body (List (PyStr × EntryResult))
  | [] => return []
  | e :: es => do
      let channelId ← bindText e.channelId
      writePosition userId channelId e now (compared.lookup channelId)
      let row ← select (readBack userId channelId)
      let results ← writeEntries userId now compared es
      return (e.channelId, resultOf e row) :: results

def setPositions (userId : String) (positions : Positions) (now : Time) :
    Body (List (PyStr × EntryResult)) := do
  match validateAll positions.entries with
  | .error (channelId, why) => throwExn (.invalidReadPosition channelId why)
  | .ok [] => return []
  | .ok entries =>
      let compared ← checkBounds userId entries
      let results ← writeEntries userId now compared entries
      commit
      return results

end AikoIsland.ReadPositions
