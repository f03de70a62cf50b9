import AikoIsland.Messages

/-!
# Direct messages: the pair's channel, and the channel operations around it

`get_or_create_dm` finds or creates the channel of an unordered pair under the
key `dm:<lo>:<hi>`. Creation inserts the channel and the memberships of both in
one transaction; when the flush is refused, the transaction is rolled back and
the channel that holds the key is adopted. Adopting restores the membership of
the caller only. `hard_delete_channel` is the attended cascade over one channel,
and the block operations are those of the moderation service.

`attached` says that the caller's object belongs to the session of the call: a
rollback expires it then, and reading an expired attribute raises. A savepoint
that fails expires nothing that the caller holds. The display view of a channel
is left out.
-/
namespace AikoIsland.DirectMessages
open Tables Gateway Memberships Messages WriterLock Footprint

/-! ## The key of a pair -/

/-- `_canonical_aiko_channel`: one key for the unordered pair. -/
def canonicalAikoChannel (aId bId : String) : String :=
  let (lo, hi) := if aId ≤ bId then (aId, bId) else (bId, aId)
  "dm:" ++ lo ++ ":" ++ hi

/-- `_member_ids`: the pair as a sorted set. -/
def memberIds (meId targetId : String) : List String :=
  if meId = targetId then [meId]
  else if meId ≤ targetId then [meId, targetId] else [targetId, meId]

theorem canonicalAikoChannel_comm (a b : String) :
    canonicalAikoChannel a b = canonicalAikoChannel b a := by
  unfold canonicalAikoChannel
  rcases le_total a b with hab | hba
  · by_cases hba : b ≤ a
    · rw [le_antisymm hab hba]
    · simp [hab, hba]
  · by_cases hab : a ≤ b
    · rw [le_antisymm hab hba]
    · simp [hab, hba]

theorem isDmChannelName_canonical (a b : String) :
    Db.isDmChannelName (canonicalAikoChannel a b) = true := by
  unfold canonicalAikoChannel
  split_ifs <;> simp [Db.isDmChannelName]

/-- The key is well formed and names the two ids, in this order. -/
def Names (aikoChannel x y : String) : Prop :=
  x.length = 26 ∧ y.length = 26 ∧ aikoChannel = "dm:" ++ x ++ ":" ++ y

theorem Names.unique {k x y x' y' : String} (h : Names k x y) (h' : Names k x' y') :
    x = x' ∧ y = y' := by
  obtain ⟨hx, _, hk⟩ := h
  obtain ⟨hx', _, hk'⟩ := h'
  rw [hk', ← String.toList_inj] at hk
  simp only [String.toList_append, List.append_assoc, List.append_cancel_left_eq] at hk
  have hlen : x'.toList.length = x.toList.length := by
    simp only [String.length_toList, hx, hx']
  obtain ⟨hlo, hhi⟩ := List.append_inj hk hlen
  rw [List.append_cancel_left_eq] at hhi
  exact ⟨(String.toList_inj.mp hlo).symm, (String.toList_inj.mp hhi).symm⟩

/-- The key of a pair names the pair, in one order, and nothing else. -/
theorem names_canonical {a b : String} (ha : a.length = 26) (hb : b.length = 26) :
    ∃ lo hi, Names (canonicalAikoChannel a b) lo hi ∧ (lo = a ∧ hi = b ∨ lo = b ∧ hi = a) := by
  unfold canonicalAikoChannel
  by_cases h : a ≤ b
  · rw [if_pos h]
    exact ⟨a, b, ⟨ha, hb, rfl⟩, Or.inl ⟨rfl, rfl⟩⟩
  · rw [if_neg h]
    exact ⟨b, a, ⟨hb, ha, rfl⟩, Or.inr ⟨rfl, rfl⟩⟩

theorem eq_of_names_canonical {a b x y : String} (ha : a.length = 26) (hb : b.length = 26)
    (h : Names (canonicalAikoChannel a b) x y) : x = a ∧ y = b ∨ x = b ∧ y = a := by
  obtain ⟨lo, hi, hnames, hab⟩ := names_canonical ha hb
  obtain ⟨rfl, rfl⟩ := h.unique hnames
  exact hab

theorem mem_memberIds {a b u : String} : u ∈ memberIds a b ↔ u = a ∨ u = b := by
  unfold memberIds
  split_ifs with h
  · subst h
    simp
  · simp
  · simp [or_comm]

/-! ## Opening a direct message -/

/-- `members_of`. -/
def membersOf (channelId : String) (db : Db) : List String :=
  ((db.memberships.filter fun m => m.channelId = channelId).map (·.userId)).insertionSort (· ≤ ·)

/-- `_ensure_memberships`: each missing row in a savepoint of its own; a refused one is there. -/
def ensureMemberships (channelId : String) (memberIds : List String) : Body Unit := do
  let present ← select fun db => (db.memberships.filter fun m =>
    m.channelId = channelId && m.userId ∈ memberIds).map (·.userId)
  (memberIds.filter fun uid => uid ∉ present).forM fun uid => do
    let _ ← flushNested (fun db => db.insertMembership ⟨channelId, uid, .member, true⟩) .plain
    return ()

/-- The channel that holds the key, with the caller's own membership ensured. -/
def adoptDm (channel : Channel) (aikoChannel : String) (meId : Body String) :
    Body (Channel × List String) :=
  if channel.kind ≠ .dm then throwExn (.dmKeyCollision aikoChannel)
  else do
    let me ← meId
    ensureMemberships channel.id [me]
    commit
    let members ← select (membersOf channel.id)
    return (channel, members)

def dmChannel (channelId aikoChannel : String) : Channel where
  id := channelId
  name := aikoChannel
  kind := .dm
  aikoChannel := aikoChannel
  isPrivate := true
  communityId := none

def flushMembers (channelId : String) : List String → Body Bool
  | [] => return true
  | uid :: rest => do
      if ← flush (fun db => db.insertMembership ⟨channelId, uid, .member, true⟩) .plain then
        flushMembers channelId rest
      else return false

/-- The flush of the new rows; `false` when a constraint refused one. -/
def flushDm (channelId aikoChannel : String) (memberIds : List String) : Body Bool := do
  if ← flush (fun db => db.insertChannel (dmChannel channelId aikoChannel))
      (.channelInsert channelId aikoChannel) then
    flushMembers channelId memberIds
  else return false

/-- An attribute of the caller after a rollback. -/
def expiredId (me : User) (attached : Bool) : Body String :=
  if attached then throwExn .missingGreenlet else return me.id

/-- `session.refresh`, then the answer. -/
def refreshedDm (channelId : String) : Body (Channel × List String) := do
  match ← select fun db => db.channels.find? fun c => c.id = channelId with
  | none => throwExn .invalidRequest
  | some channel =>
      let members ← select (membersOf channelId)
      return (channel, members)

/-- The handler of the refused flush: another request holds the key, or the refusal was not
about the key. -/
def adoptWinner (me : User) (attached : Bool) (aikoChannel : String) :
    Body (Channel × List String) := do
  rollback
  match ← select (channelByName aikoChannel) with
  | none => throwExn .integrityError
  | some winner => adoptDm winner aikoChannel (expiredId me attached)

def getOrCreateDm (me : User) (attached : Bool) (targetUserId channelId : String) :
    Body (Channel × List String) := do
  match ← getUser (if attached then [me] else []) targetUserId with
  | none => throwExn (.targetNotFound targetUserId)
  | some _ =>
      let aikoChannel := canonicalAikoChannel me.id targetUserId
      match ← select (channelByName aikoChannel) with
      | some existing => adoptDm existing aikoChannel (return me.id)
      | none =>
          if ← flushDm channelId aikoChannel (memberIds me.id targetUserId) then
            commit
            refreshedDm channelId
          else adoptWinner me attached aikoChannel

/-! ## The cascade over a channel -/

/-- The deletes of `hard_delete_channel`, children first. -/
def hardDeletes (channelId : String) : List (Db → Db) :=
  let ofChannel (db : Db) (messageId : String) : Bool :=
    db.messages.any fun m => m.id = messageId && m.channelId = channelId
  [fun db => { db with memberships := db.memberships.filter fun m => m.channelId ≠ channelId },
   fun db => { db with retractions := db.retractions.filter fun r => r.channelId ≠ channelId },
   fun db => { db with reports := db.reports.filter fun r => !ofChannel db r.messageId },
   fun db => { db with reactions := db.reactions.filter fun r => !ofChannel db r.messageId },
   fun db => { db with messages := db.messages.filter fun m => m.channelId ≠ channelId },
   fun db => { db with readPositions := db.readPositions.filter fun r => r.channelId ≠ channelId },
   fun db => { db with channels := db.channels.filter fun c => c.id ≠ channelId }]

/-- Flushes, does not commit; `false` when there was nothing to delete. -/
def hardDeleteChannel (aikoChannel : PyStr) : Body Bool := do
  if isDmChannelName aikoChannel then
    return false
  else
    let name ← bindText aikoChannel
    match ← select (channelByName name) with
    | none => return false
    | some channel =>
        (hardDeletes channel.id).forM fun f => execute f (fun _ => ()) .plain
        return true

/-! ## Blocks -/

def blockUser (identityMap : List User) (blockerId blockedId : String) : Body Unit := do
  if blockerId = blockedId then
    throwExn .cannotBlockSelf
  else
    match ← getUser identityMap blockedId with
    | none => throwExn .userNotFound
    | some _ =>
        let already ← select fun db => db.blocks.find? fun b =>
          b.blockerUserId = blockerId && b.blockedUserId = blockedId
        if already.isSome then
          return ()
        else
          flushOrRaise (fun db => db.insertBlock ⟨blockerId, blockedId⟩) .plain
          commit

/-- A block in either direction. -/
def BlockedBetween (s : Db) (aId bId : String) : Prop :=
  ∃ b ∈ s.blocks, b.blockerUserId = aId ∧ b.blockedUserId = bId ∨
    b.blockerUserId = bId ∧ b.blockedUserId = aId

theorem mem_blockedPairUserIds {s : Db} {u v : String} :
    u ∈ s.blockedPairUserIds v ↔ BlockedBetween s v u := by
  simp only [Db.blockedPairUserIds, List.mem_append, List.mem_map, List.mem_filter,
    decide_eq_true_eq, BlockedBetween]
  constructor
  · rintro (⟨b, ⟨hb, hv⟩, hu⟩ | ⟨b, ⟨hb, hv⟩, hu⟩)
    · exact ⟨b, hb, Or.inl ⟨hv, hu⟩⟩
    · exact ⟨b, hb, Or.inr ⟨hu, hv⟩⟩
  · rintro ⟨b, hb, ⟨hv, hu⟩ | ⟨hu, hv⟩⟩
    · exact Or.inl ⟨b, ⟨hb, hv⟩, hu⟩
    · exact Or.inr ⟨b, ⟨hb, hv⟩, hu⟩

def unblockUser (blockerId blockedId : String) : Body Unit := do
  execute (fun db => { db with blocks := db.blocks.filter fun b =>
    !(b.blockerUserId = blockerId && b.blockedUserId = blockedId) }) (fun _ => ()) .plain
  commit

end AikoIsland.DirectMessages
