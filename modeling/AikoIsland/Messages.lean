import AikoIsland.SigningKeys
import AikoIsland.Memberships
import Mathlib.Data.String.Basic

/-!
# Messages: the two ways in, the history page and the fence

`create_outbound` persists a gateway send, idempotent on the client id;
`persist_inbound` persists a bus message and upserts its channel in the same
transaction. `get_history` reads messages and retractions in two statements,
each limited on its own, and merges them; `latest_ulids` is the fence.

Text that arrives from outside is a list of code points, lone surrogates
included: binding it to a statement raises `UnicodeEncodeError` when it has no
UTF-8 form. Minted ids and clock readings are arguments, and a bus timestamp is
the outcome of converting it. Wire views are the rows themselves.
-/
namespace AikoIsland.Messages
open Tables Gateway Memberships SigningKeys WriterLock RelyGuarantee Footprint

/-! ## Texts from outside -/

/-- The UTF-8 form that SQLite needs, unless a lone surrogate is in the way. -/
def encode (s : PyStr) : Option String :=
  if s.all fun n => decide n.isValidChar then some (String.ofList (s.map Char.ofNat)) else none

def bindText (s : PyStr) : Body String :=
  match encode s with
  | some t => pure t
  | none => throwExn .unicodeEncodeError

def bindOptional : Option PyStr → Body (Option String)
  | none => pure none
  | some s => do
      let t ← bindText s
      return some t

/-- `aiko_channel.startswith("dm:")`. -/
def isDmChannelName (s : PyStr) : Bool := [100, 109, 58].isPrefixOf s

theorem codes_encode {s : PyStr} {t : String} (h : encode s = some t) : codes t = s := by
  unfold encode at h
  split_ifs at h with hvalid
  obtain rfl := Option.some.inj h
  simp only [List.all_eq_true, decide_eq_true_eq] at hvalid
  simp only [codes, String.toList_ofList, List.map_map]
  conv_rhs => rw [← List.map_id s]
  refine List.map_congr_left fun n hn => ?_
  rw [id, Function.comp_apply, Char.ofNat, dif_pos (hvalid n hn)]
  rfl

/-- A name outside the reserved namespace stays outside as a text. -/
theorem isDmChannelName_encode {s : PyStr} {t : String} (h : encode s = some t)
    (hdm : isDmChannelName s = false) : Db.isDmChannelName t = false := by
  by_contra hne
  have hprefix : "dm:".toList <+: t.toList := by
    simpa [Db.isDmChannelName, List.isPrefixOf_iff_prefix] using hne
  have hcodes : codes "dm:" <+: s := by
    rw [← codes_encode h]
    exact hprefix.map Char.toNat
  have hlit : codes "dm:" = [100, 109, 58] := by decide
  rw [hlit, ← List.isPrefixOf_iff_prefix] at hcodes
  rw [isDmChannelName, hcodes] at hdm
  cases hdm

theorem bindText_eq {s : PyStr} {t : String} (h : encode s = some t) : bindText s = pure t := by
  simp [bindText, h]

/-! ## Channels on the bus -/

def channelByName (name : String) (db : Db) : Option Channel :=
  db.channels.find? fun c => c.aikoChannel = name

def upsertedChannel (channelId name : String) : Channel where
  id := channelId
  name := name
  kind := .standard
  aikoChannel := name
  isPrivate := false

theorem upsertedChannel_checks (channelId : String) {name : String}
    (h : Db.isDmChannelName name = false) :
    Db.channelChecks (upsertedChannel channelId name) = true := by
  simp [Db.channelChecks, upsertedChannel, h]

/-- Flushes, does not commit: the caller owns the transaction. -/
def upsertChannel (aikoChannel : PyStr) (channelId : String) : Body Channel := do
  if isDmChannelName aikoChannel then
    throwExn (.reservedDmChannel aikoChannel)
  else
    let name ← bindText aikoChannel
    match ← select (channelByName name) with
    | some existing => return existing
    | none =>
        let channel := upsertedChannel channelId name
        flushOrRaise (fun db => db.insertChannel channel) (.channelInsert channelId name)
        return channel

/-! ## The bus side -/

/-- What converting the timestamp gives; zero is falsy, as absence is. -/
inductive Stamp where
  | absent
  | zero
  | instant (t : ℤ)
  | unrepresentable
  deriving DecidableEq, Repr

structure InboundMessage where
  username : Option PyStr
  channel : Option PyStr
  timestamp : Stamp := .absent
  message : PyStr
  deriving DecidableEq, Repr

def kindFor (senderUser : Option User) : SenderKind :=
  match senderUser with
  | some u => u.kind.senderKind
  | none => .unknown

def createdFrom (timestamp : Stamp) (now : Time) : Body ℤ :=
  match timestamp with
  | .absent => pure now
  | .zero => pure now
  | .instant t => pure t
  | .unrepresentable => throwExn (.valueError "timestamp out of range")

def senderOf (username : Option PyStr) : Body (Option User) :=
  match username with
  | none => pure none
  | some [] => pure none
  | some u => do
      let name ← bindText u
      select fun db => db.users.find? fun x => x.aikoUsername = name

def inboundRow (channel : Channel) (senderUser : Option User) (label : Option String)
    (body : String) (created : ℤ) (rowId : String) : Message where
  id := rowId
  channelId := channel.id
  senderUserId := senderUser.map (·.id)
  senderKind := kindFor senderUser
  senderLabel := label
  body := body
  aikoOrigin := true
  createdAt := created

/-- Upsert and lookups are done: insert the row and commit. -/
def insertInbound (msg : InboundMessage) (channel : Channel) (senderUser : Option User)
    (created : ℤ) (rowId : String) : Body Message := do
  let label ← bindOptional msg.username
  let body ← bindText msg.message
  let row := inboundRow channel senderUser label body created rowId
  flushOrRaise (fun db => db.insertMessage row) .plain
  commit
  return row

/-- `upsert_channel` with its refusal of a reserved name caught. -/
def channelOrReserved (name : PyStr) (channelId : String) : Body (Option Channel) :=
  (do
    let channel ← upsertChannel name channelId
    return some channel : Body (Option Channel)).handle fun e =>
      match e with
      | .reservedDmChannel _ => pure none
      | e => throwExn e

/-- `none` when the message carries no channel or names a reserved one. -/
def persistInbound (msg : InboundMessage) (channelId rowId : String) (now : Time) :
    Body (Option Message) :=
  match msg.channel with
  | none => pure none
  | some [] => pure none
  | some name => do
      match ← channelOrReserved name channelId with
      | none => return none
      | some channel =>
          let senderUser ← senderOf msg.username
          let created ← createdFrom msg.timestamp now
          let row ← insertInbound msg channel senderUser created rowId
          return some row

/-- The writes of an inbound message: its channel under one minted id, its row, if there is
one, under another. -/
inductive InboundWrite (channelId : String) (rowId : Option String) :
    Label → (Db → Option Db) → Prop
  | channel (name : String) : InboundWrite channelId rowId (.channelInsert channelId name)
      fun db => db.insertChannel (upsertedChannel channelId name)
  | message {m : Message} (hid : rowId = some m.id) (hclient : m.clientMsgId = none) :
      InboundWrite channelId rowId .plain fun db => db.insertMessage m

section
variable {W : Label → (Db → Option Db) → Prop} {A : Label → (Db → Memory → Memory) → Prop}

theorem uses_bindText (s : PyStr) : Uses W A (bindText s) := by
  unfold bindText
  split <;> exact trivial

theorem uses_bindOptional (s : Option PyStr) : Uses W A (bindOptional s) := by
  cases s with
  | none => exact trivial
  | some s => exact Uses.bind (uses_bindText s) fun _ => trivial

theorem uses_senderOf (username : Option PyStr) : Uses W A (senderOf username) := by
  unfold senderOf
  split
  · exact trivial
  · exact trivial
  · exact Uses.bind (uses_bindText _) fun _ => Uses.query _

theorem uses_createdFrom (timestamp : Stamp) (now : Time) :
    Uses W A (createdFrom timestamp now) := by
  cases timestamp <;> exact trivial

variable (channelId : String)

theorem uses_upsertChannel {name : PyStr}
    (hchannel : ∀ t, W (.channelInsert channelId t) fun db =>
      db.insertChannel (upsertedChannel channelId t)) :
    Uses W A (upsertChannel name channelId) := by
  unfold upsertChannel
  split_ifs
  · exact trivial
  · refine Uses.bind (uses_bindText name) fun t => Uses.bind (Uses.query _) fun existing => ?_
    cases existing with
    | some c => exact trivial
    | none => exact Uses.bind (uses_flushOrRaise (hchannel t)) fun _ => trivial

theorem uses_channelOrReserved {name : PyStr}
    (hchannel : ∀ t, W (.channelInsert channelId t) fun db =>
      db.insertChannel (upsertedChannel channelId t)) :
    Uses W A (channelOrReserved name channelId) := by
  refine Uses.handle (Uses.bind (uses_upsertChannel channelId hchannel) fun _ => trivial)
    fun e => ?_
  cases e <;> exact trivial

/-- What a bus message writes: its channel, and a row with its text under the minted id. -/
theorem uses_persistInbound_of (rowId : String) (msg : InboundMessage) (now : Time)
    (hchannel : ∀ t, W (.channelInsert channelId t) fun db =>
      db.insertChannel (upsertedChannel channelId t))
    (hmessage : ∀ m : Message, m.id = rowId → m.clientMsgId = none →
      encode msg.message = some m.body → W .plain fun db => db.insertMessage m) :
    Uses W A (persistInbound msg channelId rowId now) := by
  unfold persistInbound
  split
  · exact trivial
  · exact trivial
  · refine Uses.bind (uses_channelOrReserved channelId hchannel) fun channel => ?_
    cases channel with
    | none => exact trivial
    | some channel =>
        refine Uses.bind (uses_senderOf _) fun sender => ?_
        refine Uses.bind (uses_createdFrom _ _) fun created => Uses.bind ?_ fun _ => trivial
        refine Uses.bind (uses_bindOptional _) fun label => ?_
        cases hbody : encode msg.message with
        | none =>
            rw [bindText, hbody]
            exact trivial
        | some body =>
            rw [bindText_eq hbody]
            change Uses W A (flushOrRaise (fun db => db.insertMessage
              (inboundRow channel sender label body created rowId)) .plain >>= _)
            exact Uses.bind (uses_flushOrRaise (hmessage _ rfl rfl hbody)) fun _ =>
              Uses.bind (Uses.commitNow _) fun _ => trivial

theorem uses_persistInbound (rowId : String) (msg : InboundMessage) (now : Time) :
    Uses (InboundWrite channelId (some rowId)) A (persistInbound msg channelId rowId now) :=
  uses_persistInbound_of channelId rowId msg now .channel
    fun _ hid hclient _ => .message (by rw [hid]) hclient

end

theorem bindOptional_eq {o : Option PyStr} (h : ∀ s, o = some s → (encode s).isSome) :
    ∃ t, bindOptional o = pure t := by
  cases o with
  | none => exact ⟨none, rfl⟩
  | some s =>
      obtain ⟨t, ht⟩ := Option.isSome_iff_exists.mp (h s rfl)
      exact ⟨some t, by rw [bindOptional, bindText_eq ht]; rfl⟩

theorem createdFrom_eq {timestamp : Stamp} (h : timestamp ≠ .unrepresentable) (now : Time) :
    ∃ t, createdFrom timestamp now = pure t := by
  cases timestamp with
  | absent => exact ⟨now, rfl⟩
  | zero => exact ⟨now, rfl⟩
  | instant t => exact ⟨t, rfl⟩
  | unrepresentable => exact absurd rfl h

section
variable {π α : Type} {S : Spec π Db Memory Label} {p : π} {x : Point Db Memory}

/-- The sender's lookup reads and does not raise on a text with a UTF-8 form. -/
theorem safe_senderOf {username : Option PyStr} (h : ∀ s, username = some s → (encode s).isSome)
    (hx : S.inv x.db x.mem) {k : Option User → Body α} {Q : α → Point Db Memory → Prop}
    {E : Exn → Point Db Memory → Prop}
    (hk : ∀ u y, S.Env p x y → Safe S p (k u) Q E y) :
    Safe S p (senderOf username >>= k) Q E x := by
  unfold senderOf
  split
  · exact hk none x (Spec.Env.refl hx)
  · exact hk none x (Spec.Env.refl hx)
  · next u _ =>
      obtain ⟨t, ht⟩ := Option.isSome_iff_exists.mp (h u rfl)
      rw [bindText_eq ht]
      exact fun y hy => hk _ y hy

end

/-! ## The gateway side -/

/-- `dm_service.canonical_peer_ids`: the key's ids without `me`, or `none` when malformed. -/
def canonicalPeerIds (aikoChannel meId : String) : Option (List String) :=
  if !Db.isDmChannelName aikoChannel then none
  else
    let parts := ((aikoChannel.toList.drop 3).splitOn ':').map String.ofList
    if parts.length ≠ 2 || parts.any fun p => p.toList.length ≠ 26 then none
    else some ((parts.filter fun p => p ≠ meId).dedup.insertionSort (· ≤ ·))

def shouldFederate (channel : Channel) : Bool :=
  decide (channel.kind ≠ .dm) && !Db.isDmChannelName channel.aikoChannel

structure Outbound where
  body : PyStr
  clientMsgId : PyStr
  replyTo : Option String := none
  origin : Option Origin := none
  mentions : Option (List MentionSpan) := none
  deriving DecidableEq, Repr

/-- Ids minted and clocks read by one send. -/
structure Minted where
  msgId : String
  keyIds : List String := []
  now : Time := 0
  bumpedAt : Time := 0
  deriving DecidableEq, Repr

def outboundRow (user : User) (channel : Channel) (out : Outbound) (body clientMsgId : String)
    (minted : Minted) : Message where
  id := minted.msgId
  channelId := channel.id
  senderUserId := some user.id
  senderKind := user.kind.senderKind
  senderLabel := some user.displayName
  body := body
  replyTo := out.replyTo
  clientMsgId := some clientMsgId
  aikoOrigin := false
  origin := out.origin
  mentions := if out.mentions = some [] then none else out.mentions
  createdAt := minted.now

/-- A new DM send is refused under a block, or when the channel key names no pair. -/
def refuseBlockedDm (user : User) (channel : Channel) : Body Unit :=
  if channel.kind ≠ .dm then pure ()
  else
    match canonicalPeerIds channel.aikoChannel user.id with
    | none => throwExn .blockedDmSend
    | some [] => pure ()
    | some peerIds => do
        let blocked ← select fun db => db.blockedPairUserIds user.id
        if peerIds.any fun p => p ∈ blocked then throwExn .blockedDmSend else return ()

def recordOrigin (user : User) (out : Outbound) (minted : Minted) : Body Unit :=
  match out.origin with
  | none => pure ()
  | some origin =>
      recordSigningKey ⟨user.id, origin.senderPubkey, origin.keyVersion, user.tokenGeneration⟩
        minted.now minted.bumpedAt minted.keyIds

/-- The row and whether this call created it. -/
def createOutbound (user : User) (channel : Channel) (out : Outbound) (minted : Minted) :
    Body (Message × Bool) := do
  let clientMsgId ← bindText out.clientMsgId
  match ← select fun db => db.messages.find? fun m =>
      m.channelId = channel.id && m.clientMsgId = some clientMsgId with
  | some existing => return (existing, false)
  | none =>
      refuseBlockedDm user channel
      recordOrigin user out minted
      let body ← bindText out.body
      let row := outboundRow user channel out body clientMsgId minted
      flushOr .messageIntegrityError (fun db => db.insertMessage row)
        (.messageInsert row.id channel.id clientMsgId)
      commit
      return (row, true)

/-- The writes of a key observation under the user's session. -/
def OriginWrite (user : User) (t : Label) (f : Db → Option Db) : Prop :=
  ∃ o : KeyObservation, KeyWrite o t f ∧ o.userId = user.id ∧ o.generation = user.tokenGeneration

/-- The writes of a send: its row under the minted id, and the key it was signed with. -/
inductive SendWrite (user : User) (rowId : String) : Label → (Db → Option Db) → Prop
  | message {m : Message} {clientMsgId : String} (hid : m.id = rowId)
      (hclient : m.clientMsgId = some clientMsgId) :
      SendWrite user rowId (.messageInsert m.id m.channelId clientMsgId) fun db =>
        db.insertMessage m
  | key {t : Label} {f : Db → Option Db} (h : OriginWrite user t f) : SendWrite user rowId t f

theorem onlyKeys_of_originWrite {user : User} {t : Label} {f : Db → Option Db} {a b : Db}
    (h : OriginWrite user t f) (hf : f a = some b) : OnlyKeys a b := by
  obtain ⟨o, hkey, _⟩ := h
  exact onlyKeys_of_keyWrite hkey hf

/-- A send adds a message row or changes signing keys. -/
theorem sendWrite_cases {user : User} {rowId : String} {t : Label} {f : Db → Option Db} {a b : Db}
    (h : SendWrite user rowId t f) (hf : f a = some b) :
    OnlyKeys a b ∨ ∃ m, a.insertMessage m = some b := by
  cases h with
  | message _ _ => exact Or.inr ⟨_, hf⟩
  | key hkey => exact Or.inl (onlyKeys_of_originWrite hkey hf)

section
variable {A : Label → (Db → Memory → Memory) → Prop} (user : User) (channel : Channel)
  (out : Outbound) (minted : Minted)

theorem uses_refuseBlockedDm {W : Label → (Db → Option Db) → Prop} :
    Uses W A (refuseBlockedDm user channel) := by
  unfold refuseBlockedDm
  split_ifs
  · exact trivial
  · split
    · exact trivial
    · exact trivial
    · refine Uses.bind (Uses.query _) fun blocked => ?_
      split_ifs <;> exact trivial

theorem uses_recordOrigin : Uses (OriginWrite user) A (recordOrigin user out minted) := by
  unfold recordOrigin
  split
  · exact trivial
  · exact (uses_recordSigningKey _ _ _ _).mono (fun _ _ h => ⟨_, h, rfl, rfl⟩) fun _ _ h => h

theorem uses_createOutbound :
    Uses (SendWrite user minted.msgId) A (createOutbound user channel out minted) := by
  refine Uses.bind (uses_bindText _) fun clientMsgId => Uses.bind (Uses.query _) fun existing => ?_
  cases existing with
  | some existing => exact trivial
  | none =>
      refine Uses.bind (uses_refuseBlockedDm user channel) fun _ => ?_
      refine Uses.bind ((uses_recordOrigin user out minted).mono (fun _ _ h => .key h)
        fun _ _ h => h) fun _ => ?_
      refine Uses.bind (uses_bindText _) fun body => ?_
      exact Uses.bind (uses_flushOr
          (.message (m := outboundRow user channel out body clientMsgId minted) rfl rfl)) fun _ =>
        Uses.bind (Uses.commitNow _) fun _ => trivial

end

/-! ## History and fence -/

/-- No block in either direction; a NULL author is visible to everybody. -/
def notBlocked (db : Db) (viewerId : String) (m : Message) : Bool :=
  match m.senderUserId with
  | none => true
  | some sender => !db.blocks.any fun b =>
      (b.blockerUserId = viewerId && b.blockedUserId = sender) ||
        (b.blockedUserId = viewerId && b.blockerUserId = sender)

def visible (db : Db) (channelId viewerId : String) (m : Message) : Bool :=
  m.channelId = channelId && m.deletedAt.isNone && notBlocked db viewerId m

/-- A row of the heterogeneous history stream. -/
inductive Item where
  | message (m : Message)
  | retraction (r : Retraction)
  deriving DecidableEq, Repr

def Item.id : Item → String
  | .message m => m.id
  | .retraction r => r.id

def visibleMessages (db : Db) (channelId viewerId : String) : List Item :=
  (db.messages.filter (visible db channelId viewerId)).map .message

def channelRetractions (db : Db) (channelId : String) : List Item :=
  (db.retractions.filter fun r => r.channelId = channelId).map .retraction

def ascending (rows : List Item) : List Item := rows.insertionSort fun a b => a.id ≤ b.id

def descending (rows : List Item) : List Item := rows.insertionSort fun a b => b.id ≤ a.id

/-- One of the two statements of a page with `after`. -/
def afterRows (cursor : String) (limit : ℕ) (rows : List Item) : List Item :=
  (ascending (rows.filter fun r => cursor < r.id)).take limit

/-- One of the two statements of a page with `before`; an empty cursor does not bound it. -/
def beforeRows (cursor : Option String) (limit : ℕ) (rows : List Item) : List Item :=
  (descending (rows.filter fun r =>
    match cursor with
    | none => true
    | some c => c = "" || r.id < c)).take limit

def getHistory (channelId viewerId : String) (before after : Option String) (limit : ℕ) :
    Body (List Item) :=
  match after with
  | some cursor => do
      let msgs ← select fun db => afterRows cursor limit (visibleMessages db channelId viewerId)
      let rets ← select fun db => afterRows cursor limit (channelRetractions db channelId)
      return (ascending (msgs ++ rets)).take limit
  | none => do
      let msgs ← select fun db => beforeRows before limit (visibleMessages db channelId viewerId)
      let rets ← select fun db => beforeRows before limit (channelRetractions db channelId)
      return ((descending (msgs ++ rets)).take limit).reverse

/-- `max(..., default "")` over the ids of the rows. -/
def maxId (rows : List Item) : String := rows.foldl (fun acc r => max acc r.id) ""

theorem le_maxId {rows : List Item} {r : Item} (h : r ∈ rows) : r.id ≤ maxId rows := by
  have hacc : ∀ (rows : List Item) (acc : String),
      acc ≤ rows.foldl (fun acc r => max acc r.id) acc ∧
        ∀ r ∈ rows, r.id ≤ rows.foldl (fun acc r => max acc r.id) acc := by
    intro rows
    induction rows with
    | nil => exact fun acc => ⟨le_rfl, fun r hr => by cases hr⟩
    | cons s rows ih =>
        intro acc
        obtain ⟨hle, hall⟩ := ih (max acc s.id)
        constructor
        · exact (le_max_left acc s.id).trans hle
        · intro r hr
          rcases List.mem_cons.mp hr with rfl | hr
          · exact (le_max_right acc r.id).trans hle
          · exact hall r hr
  exact (hacc rows "").2 r h

theorem empty_le (s : String) : "" ≤ s := by
  rw [String.le_iff_toList_le, String.toList_empty]
  exact not_lt.mp (List.not_lt_nil _)

theorem maxId_le {rows : List Item} {bound : String} (h : ∀ r ∈ rows, r.id ≤ bound) :
    maxId rows ≤ bound := by
  have hacc : ∀ (rows : List Item) (acc : String), acc ≤ bound → (∀ r ∈ rows, r.id ≤ bound) →
      rows.foldl (fun acc r => max acc r.id) acc ≤ bound := by
    intro rows
    induction rows with
    | nil => exact fun acc hle _ => hle
    | cons s rows ih =>
        intro acc hle hall
        rw [List.forall_mem_cons] at hall
        exact ih (max acc s.id) (max_le hle hall.1) hall.2
  exact hacc rows "" (empty_le bound) h

theorem notBlocked_congr {a b : Db} (h : a.blocks = b.blocks) (viewerId : String) (m : Message) :
    notBlocked a viewerId m = notBlocked b viewerId m := by
  simp [notBlocked, h]

theorem visible_congr {a b : Db} (h : a.blocks = b.blocks) (channelId viewerId : String)
    (m : Message) : visible a channelId viewerId m = visible b channelId viewerId m := by
  simp [visible, notBlocked_congr h]

/-- Whoever may see a message of `sender` is outside the block set of its fanout. -/
theorem not_blockedPair_of_notBlocked {db : Db} {viewerId sender : String} {m : Message}
    (h : notBlocked db viewerId m = true) (hs : m.senderUserId = some sender) :
    viewerId ∉ db.blockedPairUserIds sender := by
  intro hmem
  rw [notBlocked, hs] at h
  simp only [Bool.not_eq_true', List.any_eq_false, Bool.or_eq_true, Bool.and_eq_true,
    decide_eq_true_eq, not_or, not_and] at h
  unfold Db.blockedPairUserIds at hmem
  rcases List.mem_append.mp hmem with hout | hin
  · obtain ⟨b, hb, hv⟩ := List.mem_map.mp hout
    obtain ⟨hb, hsend⟩ := List.mem_filter.mp hb
    exact (h b hb).2 hv (of_decide_eq_true hsend)
  · obtain ⟨b, hb, hv⟩ := List.mem_map.mp hin
    obtain ⟨hb, hsend⟩ := List.mem_filter.mp hb
    exact (h b hb).1 hv (of_decide_eq_true hsend)

/-- Two grouped statements for all the channels. -/
def latestUlids (channelIds : List String) (viewerId : String) :
    Body (List (String × String)) :=
  if channelIds = [] then pure []
  else do
    let msgs ← select fun db channelId => maxId (visibleMessages db channelId viewerId)
    let rets ← select fun db channelId => maxId (channelRetractions db channelId)
    return channelIds.map fun c => (c, max (msgs c) (rets c))

def latestUlid (channelId viewerId : String) : Body String := do
  let fences ← latestUlids [channelId] viewerId
  return (fences.lookup channelId).getD ""

end AikoIsland.Messages
