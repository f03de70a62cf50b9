import AikoIsland.Grouping
import AikoIsland.Messages
import Mathlib.Data.Prod.Lex

/-!
# Emoji reactions

One row for a message, a user and an emoji. `add_reaction` and `remove_reaction`
validate the emoji themselves. The insert is an upsert: on a conflict it writes
the envelope into a row that has none, and nothing else; an unsigned add leaves
the row alone.

`aggregate_for_messages` asks three queries. SQL gives their rows in no promised
order, so a `RowOrder` arranges each answer, and the results hold under every one.
-/
namespace AikoIsland.Reactions
open Tables Gateway Messages WriterLock OrderedDict

/-- `MAX_EMOJI_LEN`. -/
def maxEmojiLen : ℕ := 64

/-- `MAX_REACTIONS_PER_USER_PER_MESSAGE`. -/
def maxReactionsPerUserPerMessage : ℕ := 20

/-- `MAX_EMOJIS_PROJECTED_PER_MESSAGE`. -/
def maxEmojisProjectedPerMessage : ℕ := 50

/-- `MAX_REACTORS_PROJECTED_PER_EMOJI`. -/
def maxReactorsProjectedPerEmoji : ℕ := 20

/-! ## The emoji -/

/-- The code points that `str.strip()` takes away. -/
def isSpace (c : ℕ) : Bool :=
  (9 ≤ c && c ≤ 13) || (0x1c ≤ c && c ≤ 0x20) || c = 0x85 || c = 0xa0 || c = 0x1680 ||
    (0x2000 ≤ c && c ≤ 0x200a) || c = 0x2028 || c = 0x2029 || c = 0x202f || c = 0x205f ||
    c = 0x3000

def strip (s : PyStr) : PyStr :=
  ((s.dropWhile isSpace).reverse.dropWhile isSpace).reverse

/-- `validate_emoji`; an argument that is no `str` is `none`. -/
def validateEmoji (emoji : Option PyStr) : Except Exn PyStr :=
  match emoji with
  | none => .error (.invalidEmoji "emoji must be a string")
  | some s =>
      if s = [] ∨ s ≠ strip s then
        .error (.invalidEmoji "emoji must be non-empty and surrounding-whitespace-free")
      else if maxEmojiLen < s.length then
        .error (.invalidEmoji ("emoji exceeds " ++ toString maxEmojiLen ++ " chars"))
      else if 0x2f ∈ s ∨ s.any (fun c => c < 0x20 || c = 0x7f) then
        .error (.invalidEmoji "emoji may not contain '/' or control characters")
      else .ok s

def liftExcept {α : Type} : Except Exn α → Body α
  | .ok a => pure a
  | .error e => throwExn e

/-! ## Rows -/

/-- The primary key. -/
def keyOf (r : MessageReaction) : String × String × String := (r.messageId, r.userId, r.emoji)

def reactionOf (messageId userId emoji : String) (db : Db) : Option MessageReaction :=
  db.reactions.find? fun r => keyOf r = (messageId, userId, emoji)

/-- `count(distinct emoji)` of the user on the message. -/
def distinctEmojis (messageId userId : String) (db : Db) : ℕ :=
  ((db.reactions.filter fun r => r.messageId = messageId && r.userId = userId).map
    (·.emoji)).dedup.length

/-- `INSERT ... ON CONFLICT`: DO UPDATE SET origin WHERE origin IS NULL for a signed row, DO NOTHING
for an unsigned one. -/
def upsertReaction (row : MessageReaction) (db : Db) : Db :=
  if keyOf row ∈ db.reactions.map keyOf then
    match row.origin with
    | some _ =>
        { db with reactions := db.reactions.map fun r =>
            if keyOf r = keyOf row ∧ r.origin = none then { r with origin := row.origin } else r }
    | none => db
  else { db with reactions := db.reactions ++ [row] }

def deleteReaction (messageId userId emoji : String) (db : Db) : Db :=
  { db with reactions := db.reactions.filter fun r => keyOf r ≠ (messageId, userId, emoji) }

def addReaction (userId messageId : String) (emoji : Option PyStr) (origin : Option Origin)
    (now : Time) : Body Bool := do
  let emoji ← liftExcept (validateEmoji emoji)
  let emoji ← bindText emoji
  let row : MessageReaction := ⟨messageId, userId, emoji, origin, now⟩
  match ← select (reactionOf messageId userId emoji) with
  | some _ =>
      execute (upsertReaction row) (fun _ => ()) .plain
      commit
      return false
  | none =>
      let distinct ← select (distinctEmojis messageId userId)
      if maxReactionsPerUserPerMessage ≤ distinct then
        throwExn .reactionLimitExceeded
      else
        execute (upsertReaction row) (fun _ => ()) .plain
        commit
        return true

def removeReaction (userId messageId : String) (emoji : Option PyStr) : Body Bool := do
  let emoji ← liftExcept (validateEmoji emoji)
  let emoji ← bindText emoji
  let rowcount ← execute (deleteReaction messageId userId emoji)
    (fun db => (db.reactions.filter fun r => keyOf r = (messageId, userId, emoji)).length) .plain
  commit
  return decide (0 < rowcount)

/-! ## Counting -/

/-- The rows that the viewer may count. -/
def visible (blockedUserIds : List String) (rows : List MessageReaction) : List MessageReaction :=
  rows.filter fun r => r.userId ∉ blockedUserIds

/-- `emoji_count`. -/
def emojiCount (messageId emoji : String) (blockedUserIds : List String) (db : Db) : ℕ :=
  (visible blockedUserIds
    (db.reactions.filter fun r => r.messageId = messageId && r.emoji = emoji)).length

/-- The order in which SQL gives the rows of the n-th query. -/
structure RowOrder where
  arrange : ℕ → {α : Type} → List α → List α
  perm : ∀ (n : ℕ) {α : Type} (rows : List α), (arrange n rows).Perm rows

structure Reactor where
  userId : String
  origin : Option Origin := none
  deriving DecidableEq, Repr

structure EmojiEntry where
  emoji : String
  count : ℕ
  reactedByMe : Bool
  reactors : List Reactor
  deriving DecidableEq, Repr

/-- A message and an emoji. -/
abbrev Group := String × String

def groupOf (r : MessageReaction) : Group := (r.messageId, r.emoji)

section
variable (order : RowOrder) (rows : List MessageReaction) (messageIds : List String)
  (viewerId : String) (blockedUserIds : List String)

/-- The first query: `GROUP BY (message_id, emoji)`, block-filtered. -/
def countsQuery : List (Group × ℕ) :=
  let groups := (visible blockedUserIds (rows.filter fun r => r.messageId ∈ messageIds)).map groupOf
  order.arrange 0 (groups.dedup.map fun g => (g, groups.count g))

/-- The second query: the viewer's own rows. -/
def mineQuery : List (Group × Option Origin) :=
  (order.arrange 1 (rows.filter fun r => r.messageId ∈ messageIds ∧ r.userId = viewerId)).map
    fun r => (groupOf r, r.origin)

/-- `(created_at, user_id)`, the order of the window. -/
def windowKey (r : MessageReaction) : ℕ ×ₗ String := toLex (r.createdAt, r.userId)

/-- `ROW_NUMBER() OVER (PARTITION BY message_id, emoji ORDER BY created_at, user_id)`. -/
def rowNumber (among : List MessageReaction) (r : MessageReaction) : ℕ :=
  (sortBy windowKey (among.filter fun r' => groupOf r' = groupOf r)).idxOf r + 1

/-- The third query: the first rows of each wanted group. -/
def sampleQuery (wanted : List Group) : List MessageReaction :=
  let among := visible blockedUserIds
    (rows.filter fun r => r.messageId ∈ messageIds ∧ groupOf r ∈ wanted)
  order.arrange 2 (among.filter fun r => rowNumber among r ≤ maxReactorsProjectedPerEmoji)

end

/-- `(-count, emoji)`. -/
def entryKey (count : ℕ) (emoji : String) : ℕᵒᵈ ×ₗ String := toLex (OrderDual.toDual count, emoji)

def countOf (counts : List (Group × ℕ)) (g : Group) : ℕ := (get counts g).getD 0

/-- The groups of a message that the wire carries: the top band, then the viewer's own. -/
def keepOf (counts : List (Group × ℕ)) (mine : List (Group × Option Origin)) (messageId : String)
    (emojis : List String) : List String :=
  let sorted := sortBy (fun e => entryKey (countOf counts (messageId, e)) e) emojis
  let keep := sorted.take maxEmojisProjectedPerMessage
  keep ++ (sorted.drop maxEmojisProjectedPerMessage).filter fun e =>
    (messageId, e) ∈ keys mine && e ∉ keep

/-- The sampled reactors of a group, with the viewer's own face in them. -/
def reactorsOf (sample : List (Group × List Reactor)) (mine : List (Group × Option Origin))
    (viewerId : String) (g : Group) : List Reactor :=
  let reactors := (get sample g).getD []
  match get mine g with
  | none => reactors
  | some origin =>
      if reactors.any fun r => r.userId = viewerId then reactors
      else reactors.take (maxReactorsProjectedPerEmoji - 1) ++ [⟨viewerId, origin⟩]

def entryOf (counts : List (Group × ℕ)) (mine : List (Group × Option Origin))
    (sample : List (Group × List Reactor)) (viewerId messageId emoji : String) : EmojiEntry where
  emoji := emoji
  count := countOf counts (messageId, emoji)
  reactedByMe := (get mine (messageId, emoji)).isSome
  reactors := reactorsOf sample mine viewerId (messageId, emoji)

def aggregateForMessages (order : RowOrder) (messageIds : List String) (viewerId : String)
    (blockedUserIds : List String) (db : Db) : List (String × List EmojiEntry) :=
  if messageIds = [] then []
  else
    let counts := fromPairs (countsQuery order db.reactions messageIds blockedUserIds)
    if counts = [] then []
    else
      let mine := fromPairs (mineQuery order db.reactions messageIds viewerId)
      let grouped := collect (fun c => c.1.1) (fun c => c.1.2) counts
      let projected := grouped.map fun p => (p.1, keepOf counts mine p.1 p.2)
      let wanted := projected.flatMap fun p => p.2.map fun e => (p.1, e)
      let sample := collect groupOf (fun r => Reactor.mk r.userId r.origin)
        (sampleQuery order db.reactions messageIds blockedUserIds wanted)
      projected.map fun p =>
        (p.1, sortBy (fun e => entryKey e.count e.emoji)
          (p.2.map (entryOf counts mine sample viewerId p.1)))

end AikoIsland.Reactions
