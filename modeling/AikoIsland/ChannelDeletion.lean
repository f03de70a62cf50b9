import AikoIsland.DirectMessages
import AikoIsland.SoloRun

/-!
# Deleting a channel

Six tables refer to a channel or to its messages, and the foreign keys are off.
`hard_delete_channel` takes their rows away one table at a time, the messages
after everything that refers to them. When replies and retractions stay inside
their channel, nothing that refers to the channel or to one of its messages is
left, and every row of the other channels is where it was.

A name that SQLite cannot bind, one with a lone surrogate, names no channel; the
call then raises before its first statement.
-/
namespace AikoIsland.ChannelDeletion
open Tables Gateway Messages DirectMessages WriterLock

/-- The primary keys of the channels and of the messages. -/
structure Keyed (db : Db) : Prop where
  channels : (db.channels.map (·.id)).Nodup
  messages : (db.messages.map (·.id)).Nodup

/-- A reply and its parent, and a retraction and its target, are in one channel. -/
structure InOneChannel (db : Db) : Prop where
  replies : ∀ m ∈ db.messages, ∀ t ∈ db.messages, m.replyTo = some t.id →
    t.channelId = m.channelId
  targets : ∀ r ∈ db.retractions, ∀ t ∈ db.messages, r.targetMsgId = t.id →
    t.channelId = r.channelId

def messageIds (db : Db) (channelId : String) : List String :=
  (db.messages.filter fun m => m.channelId = channelId).map (·.id)

/-- No row refers to the channel or to one of the messages. -/
structure Unreferenced (db : Db) (channelId : String) (ids : List String) : Prop where
  channels : ∀ c ∈ db.channels, c.id ≠ channelId
  memberships : ∀ m ∈ db.memberships, m.channelId ≠ channelId
  messages : ∀ m ∈ db.messages, m.channelId ≠ channelId ∧ m.id ∉ ids
  replies : ∀ m ∈ db.messages, ∀ id ∈ ids, m.replyTo ≠ some id
  retractions : ∀ r ∈ db.retractions, r.channelId ≠ channelId ∧ r.targetMsgId ∉ ids
  reports : ∀ r ∈ db.reports, r.messageId ∉ ids
  reactions : ∀ r ∈ db.reactions, r.messageId ∉ ids
  readPositions : ∀ r ∈ db.readPositions, r.channelId ≠ channelId

/-- The rows that are of the channel, or of one of its messages, are gone; the others are where
they were, and the other tables as well. -/
def without (channelId : String) (ids : List String) (db : Db) : Db :=
  { db with
    channels := db.channels.filter fun c => c.id ≠ channelId
    memberships := db.memberships.filter fun m => m.channelId ≠ channelId
    messages := db.messages.filter fun m => m.channelId ≠ channelId
    retractions := db.retractions.filter fun r => r.channelId ≠ channelId
    reports := db.reports.filter fun r => r.messageId ∉ ids
    reactions := db.reactions.filter fun r => r.messageId ∉ ids
    readPositions := db.readPositions.filter fun r => r.channelId ≠ channelId }

theorem mem_messageIds {db : Db} {channelId id : String} :
    id ∈ messageIds db channelId ↔ ∃ m ∈ db.messages, m.channelId = channelId ∧ m.id = id := by
  simp only [messageIds, List.mem_map, List.mem_filter, decide_eq_true_eq, and_assoc]

/-- A message of another channel is none of the channel's messages. -/
theorem notMem_messageIds {db : Db} (h : Keyed db) {channelId : String} {m : Message}
    (hm : m ∈ db.messages) (hne : m.channelId ≠ channelId) : m.id ∉ messageIds db channelId := by
  intro hin
  obtain ⟨t, ht, hchannel, hid⟩ := mem_messageIds.mp hin
  have hsame : t = m := List.inj_on_of_nodup_map h.messages ht hm hid
  rw [hsame] at hchannel
  exact hne hchannel

theorem unreferenced_without {db : Db} (hkeys : Keyed db) (hone : InOneChannel db)
    (channelId : String) :
    Unreferenced (without channelId (messageIds db channelId) db) channelId
      (messageIds db channelId) where
  channels := by
    intro c hc
    simpa using (List.mem_filter.mp hc).2
  memberships := by
    intro m hm
    simpa using (List.mem_filter.mp hm).2
  messages := by
    intro m hm
    obtain ⟨hmem, hne⟩ := List.mem_filter.mp hm
    have hother : m.channelId ≠ channelId := by simpa using hne
    exact ⟨hother, notMem_messageIds hkeys hmem hother⟩
  replies := by
    intro m hm id hid hreply
    obtain ⟨hmem, hne⟩ := List.mem_filter.mp hm
    obtain ⟨t, ht, hchannel, rfl⟩ := mem_messageIds.mp hid
    have hsame : t.channelId = m.channelId := hone.replies m hmem t ht hreply
    rw [hchannel] at hsame
    simp [← hsame] at hne
  retractions := by
    intro r hr
    obtain ⟨hmem, hne⟩ := List.mem_filter.mp hr
    have hother : r.channelId ≠ channelId := by simpa using hne
    constructor
    · exact hother
    · intro hin
      obtain ⟨t, ht, hchannel, hid⟩ := mem_messageIds.mp hin
      have hsame : t.channelId = r.channelId := hone.targets r hmem t ht hid.symm
      exact hother (hsame.symm.trans hchannel)
  reports := by
    intro r hr
    simpa using (List.mem_filter.mp hr).2
  reactions := by
    intro r hr
    simpa using (List.mem_filter.mp hr).2
  readPositions := by
    intro r hr
    simpa using (List.mem_filter.mp hr).2

/-! ## The deletes -/

/-- The subquery on the messages answers as the list of their ids. -/
theorem ofChannel_eq (db : Db) (channelId messageId : String) :
    (db.messages.any fun m => m.id = messageId && m.channelId = channelId) =
      decide (messageId ∈ messageIds db channelId) := by
  rw [Bool.eq_iff_iff, decide_eq_true_iff, mem_messageIds, List.any_eq_true]
  constructor
  · intro h
    obtain ⟨m, hm, hb⟩ := h
    simp only [Bool.and_eq_true, decide_eq_true_eq] at hb
    exact ⟨m, hm, hb.2, hb.1⟩
  · intro h
    obtain ⟨m, hm, hchannel, hid⟩ := h
    exact ⟨m, hm, by simp [hchannel, hid]⟩

/-- Children first: the messages are still there when the subqueries read them. -/
theorem foldl_hardDeletes (channelId : String) (db : Db) :
    (hardDeletes channelId).foldl (fun s f => f s) db =
      without channelId (messageIds db channelId) db := by
  simp only [hardDeletes, List.foldl_cons, List.foldl_nil, without, ofChannel_eq, decide_not]
  rfl

theorem run_deletes (fs : List (Db → Db)) (x : Point Db Memory) :
    (fs.forM fun f => execute f (fun _ => ()) .plain : Body Unit).run x =
      (.ok (), match fs with
        | [] => x
        | _ :: _ => { x with work := some (fs.foldl (fun s f => f s) x.view) }) := by
  induction fs generalizing x with
  | nil => rfl
  | cons f fs ih =>
      change (execute f (fun _ => ()) .plain >>= fun _ =>
        fs.forM fun f => execute f (fun _ => ()) .plain : Body Unit).run x = _
      rw [Request.run_bind, execute, Request.run_exec]
      dsimp only
      rw [ih]
      cases fs with
      | nil => rfl
      | cons g gs => rfl

theorem run_hardDeleteChannel {aikoChannel : PyStr} {name : String}
    (hdm : isDmChannelName aikoChannel = false) (hname : encode aikoChannel = some name)
    (x : Point Db Memory) :
    (hardDeleteChannel aikoChannel).run x =
      match channelByName name x.view with
      | none => (.ok false, x)
      | some channel => (.ok true, { x with
          work := some (without channel.id (messageIds x.view channel.id) x.view) }) := by
  rw [hardDeleteChannel, if_neg (by simp [hdm]), bindText_eq hname, Request.run_bind,
    Request.run_pure]
  dsimp only
  rw [Request.run_bind, select, Request.run_query]
  dsimp only
  cases channelByName name x.view with
  | none => rfl
  | some channel =>
      dsimp only
      rw [Request.run_bind, run_deletes, foldl_hardDeletes]
      rfl

/-- No channel has this name. -/
def Absent (db : Db) (aikoChannel : PyStr) : Prop :=
  ∀ c ∈ db.channels, codes c.aikoChannel ≠ aikoChannel

theorem channelByName_of_absent {db : Db} {aikoChannel : PyStr} {name : String}
    (h : Absent db aikoChannel) (hname : encode aikoChannel = some name) :
    channelByName name db = none := by
  rw [channelByName, List.find?_eq_none]
  intro c hc heq
  apply h c hc
  rw [decide_eq_true_iff] at heq
  rw [heq]
  exact codes_encode hname

/-! ## The result -/

/-- What the call does for every name and store. -/
structure Deletion (aikoChannel : PyStr) (x : Point Db Memory) : Prop where
  reserved : isDmChannelName aikoChannel = true →
    (hardDeleteChannel aikoChannel).run x = (.ok false, x)
  absent : ∀ name, encode aikoChannel = some name → Absent x.view aikoChannel →
    (hardDeleteChannel aikoChannel).run x = (.ok false, x)
  deleted : isDmChannelName aikoChannel = false → ∀ name, encode aikoChannel = some name →
    ∀ channel, channelByName name x.view = some channel →
      ∃ after, (hardDeleteChannel aikoChannel).run x = (.ok true, { x with work := some after }) ∧
        Unreferenced after channel.id (messageIds x.view channel.id) ∧
        after = without channel.id (messageIds x.view channel.id) x.view
  unencodable : isDmChannelName aikoChannel = false → encode aikoChannel = none →
    (hardDeleteChannel aikoChannel).run x = (.error .unicodeEncodeError, x)

/-- A channel is deleted with all that refers to it, and with nothing else. -/
theorem hard_delete_is_complete_and_contained (aikoChannel : PyStr) (x : Point Db Memory)
    (hkeys : Keyed x.view) (hone : InOneChannel x.view) : Deletion aikoChannel x where
  reserved := by
    intro hdm
    rw [hardDeleteChannel, if_pos hdm]
    rfl
  absent := by
    intro name hname habsent
    cases hdm : isDmChannelName aikoChannel with
    | true =>
        rw [hardDeleteChannel, if_pos hdm]
        rfl
    | false =>
        rw [run_hardDeleteChannel hdm hname, channelByName_of_absent habsent hname]
  deleted := by
    intro hdm name hname channel hchannel
    have hrun := run_hardDeleteChannel hdm hname x
    rw [hchannel] at hrun
    exact ⟨_, hrun, unreferenced_without hkeys hone channel.id, rfl⟩
  unencodable := by
    intro hdm hnone
    rw [hardDeleteChannel, if_neg (by simp [hdm]), bindText, hnone]
    rfl

def doomedChannel : Channel := { id := "C1", name := "doomed", aikoChannel := "doomed" }

def keptChannel : Channel := { id := "C2", name := "kept", aikoChannel := "kept" }

def firstMessage : Message := { id := "M1", channelId := "C1", senderUserId := none, body := "hi" }

def replyMessage : Message where
  id := "M2"
  channelId := "C1"
  senderUserId := none
  body := "re"
  replyTo := some "M1"

def keptMessage : Message := { id := "MK", channelId := "C2", senderUserId := none, body := "stay" }

/-- Two channels, a reply and a retraction in the first. -/
def twoChannels : Db where
  channels := [doomedChannel, keptChannel]
  memberships := [⟨"C1", "U1", .member, true⟩, ⟨"C2", "U1", .member, true⟩]
  messages := [firstMessage, replyMessage, keptMessage]
  retractions := [⟨"R1", "M1", "C1", 0⟩]
  reactions := [{ messageId := "M1", userId := "U1", emoji := "x" }]

theorem hard_delete_two_channels :
    Keyed twoChannels ∧ InOneChannel twoChannels ∧
      Deletion (codes "doomed") ⟨twoChannels, {}, none⟩ := by
  have hkeys : Keyed twoChannels := by
    constructor
    · decide
    · decide
  have hone : InOneChannel twoChannels := by
    constructor
    · decide
    · decide
  exact ⟨hkeys, hone,
    hard_delete_is_complete_and_contained (codes "doomed") ⟨twoChannels, {}, none⟩ hkeys hone⟩

/-- A lone surrogate names no channel, and the call raises. -/
theorem hard_delete_of_a_surrogate_raises :
    ¬∀ (aikoChannel : PyStr) (x : Point Db Memory), Keyed x.view → InOneChannel x.view →
      Absent x.view aikoChannel → (hardDeleteChannel aikoChannel).run x = (.ok false, x) := by
  intro h
  have hempty : Point.view (⟨{}, {}, none⟩ : Point Db Memory) = ({} : Db) := rfl
  have hrun := h [0xD800] ⟨{}, {}, none⟩
    (by rw [hempty]; exact ⟨List.nodup_nil, List.nodup_nil⟩)
    (by rw [hempty]; exact ⟨fun m hm => absurd hm List.not_mem_nil,
      fun r hr => absurd hr List.not_mem_nil⟩)
    (by rw [hempty]; exact fun c hc => absurd hc List.not_mem_nil)
  have hraise : (hardDeleteChannel [0xD800]).run (⟨{}, {}, none⟩ : Point Db Memory) =
      (.error .unicodeEncodeError, ⟨{}, {}, none⟩) := rfl
  rw [hraise] at hrun
  cases congrArg Prod.fst hrun

end AikoIsland.ChannelDeletion
