import AikoIsland.Messages
import AikoIsland.Accounts

/-!
# The WebSocket endpoint and the bus ingest

`_handle_send` is one transaction for the row followed by separate awaits: the
ack, the echo mark with the publish, and the fanout. `_handle_subscribe` adds
the readable channels to the connection before it reads their fences. The
endpoint passes the session gate in a session of its own, accepts, registers
and then serves frames until the socket is closed.

The peer is part of the input: whether a send to this connection raises, which
targets of a fanout are dead, whether the handshake is completed, whether a
ChatServer is discovered when a message is published. So is the number of
parameters that the driver takes in one statement. Shape checks
of the envelope and of the mention spans arrive as their outcome. Waking a
closed handset never raises and is left out. A receive on a socket that the
server has closed ends the connection.
-/
namespace AikoIsland.Realtime
open Tables Gateway Passkeys Memberships Accounts Messages WriterLock Footprint

/-! ## Sending -/

structure SendFrame where
  clientMsgId : PyStr
  channelId : PyStr
  body : PyStr
  replyTo : Option PyStr := none
  origin : Except String (Option Origin) := .ok none
  mentions : Except String (Option (List MentionSpan)) := .ok none
  minted : Minted
  sentAt : Time := 0
  discovered : Bool := true
  peerGone : Bool := false
  dead : List ℕ := []

/-- What the transaction of a send hands to the steps after it. -/
structure Persisted where
  row : Message
  created : Bool
  channel : Channel
  exclude : List String

/-- An error frame in place of a persisted row. -/
def refuse (conn : ℕ) (f : SendFrame) (code detail : String) : Body (Option Persisted) := do
  connSend conn (.error code detail f.clientMsgId) f.peerGone .plain
  return none

def isBlockedBetween (a b : String) : Body Bool :=
  if a = b then pure false
  else select fun db => db.blocks.any fun x =>
    (x.blockerUserId = a && x.blockedUserId = b) || (x.blockerUserId = b && x.blockedUserId = a)

/-- The reply target's checks: an error code with its text, or nothing. -/
def checkReplyTarget (user : User) (channel : Channel) (replyTo : Option PyStr) :
    Body (Option (String × String) × Option String) :=
  match replyTo with
  | none => pure (none, none)
  | some r => do
      let id ← bindText r
      match ← select fun db => db.messages.find? fun m => m.id = id with
      | none =>
          return (some ("no_reply_target", "reply target not found in this channel"), none)
      | some target =>
          if target.channelId ≠ channel.id then
            return (some ("no_reply_target", "reply target not found in this channel"), none)
          else
            match target.senderUserId with
            | none => return (none, some id)
            | some sender =>
                if channel.kind = .dm then return (none, some id)
                else if ← isBlockedBetween user.id sender then
                  return (some ("blocked", "cannot reply to a blocked user"), none)
                else return (none, some id)

/-- The row, or the refusal of a DM send as `none`. -/
def createOrRefuse (user : User) (channel : Channel) (out : Outbound) (minted : Minted) :
    Body (Option (Message × Bool)) :=
  (do
    let r ← createOutbound user channel out minted
    return some r : Body (Option (Message × Bool))).handle fun e =>
      match e with
      | .blockedDmSend => pure none
      | e => throwExn e

/-- After the checks of the frame: persist, and read the block set for the fanout. -/
def persistSend (conn : ℕ) (user : User) (channel : Channel) (f : SendFrame)
    (replyTo : Option String) (origin : Option Origin) (spans : Option (List MentionSpan)) :
    Body (Option Persisted) := do
  match ← createOrRefuse user channel ⟨f.body, f.clientMsgId, replyTo, origin, spans⟩ f.minted with
  | none => refuse conn f "no_channel" "channel not found"
  | some (row, created) =>
      let exclude ← select fun db => db.blockedPairUserIds user.id
      return some ⟨row, created, channel, exclude⟩

/-- The part of `_handle_send` inside its session. -/
def sendTransaction (conn : ℕ) (user : User) (f : SendFrame) : Body (Option Persisted) := do
  let channelId ← bindText f.channelId
  match ← readableChannel user.id channelId with
  | none => refuse conn f "no_channel" "channel not found"
  | some channel =>
      if !(← canPost user.id channel) then
        refuse conn f "forbidden" "cannot post to this channel"
      else
        match ← checkReplyTarget user channel f.replyTo with
        | (some (code, detail), _) => refuse conn f code detail
        | (none, replyTo) =>
            match f.origin, f.mentions with
            | .error detail, _ => refuse conn f "bad_origin" detail
            | .ok _, .error detail => refuse conn f "bad_mentions" detail
            | .ok origin, .ok spans => persistSend conn user channel f replyTo origin spans

def echoKey (user : User) (channel : Channel) (body : PyStr) : EchoKey :=
  ⟨codes channel.aikoChannel, codes user.aikoUsername, body⟩

/-- The mark comes first; `bus.send` returns whether a ChatServer was discovered. -/
def published (user : User) (channel : Channel) (row : Message) (body : PyStr) (sentAt : Time)
    (discovered : Bool) (m : Memory) : Memory :=
  ({ m with
    seen := markSent sentAt (echoKey user channel body) m.seen
    echoes := m.echoes ++ [EchoEvent.published sentAt (echoKey user channel body) discovered] }).log
      (.busSend row.id user.aikoUsername channel.aikoChannel body)

/-- `echo.mark_sent` and `bus.send`, with no await between them. -/
def publish (user : User) (channel : Channel) (row : Message) (body : PyStr) (sentAt : Time)
    (discovered : Bool) : Body Unit :=
  segment (fun _ m => published user channel row body sentAt discovered m) (fun _ => ()) .plain

def deliver (user : User) (f : SendFrame) (p : Persisted) : Body Unit := do
  if shouldFederate p.channel then
    publish user p.channel p.row f.body f.sentAt f.discovered
  fanout p.channel.id (.message p.row) p.exclude f.dead

def handleSend (conn : ℕ) (user : User) (f : SendFrame) : Body Unit := do
  match ← (sendTransaction conn user f).session with
  | none => return ()
  | some p =>
      connSend conn (.ack f.clientMsgId p.row.id p.row.createdAt) f.peerGone
        (.ackSend p.created f.peerGone)
      if p.created then deliver user f p

/-! ## Subscribing -/

def bindAll : List PyStr → Body (List String)
  | [] => return []
  | s :: ss => do
      let t ← bindText s
      let ts ← bindAll ss
      return t :: ts

def readFences (userId : String) : List String → Body (List (String × String))
  | [] => return []
  | c :: cs => do
      let fence ← latestUlid c userId
      let fences ← readFences userId cs
      return (c, fence) :: fences

/-- One SELECT with every id and the user as parameters; the driver takes so many at most. -/
def filterReadableIds (maxVariables : ℕ) (userId : String) (channelIds : List PyStr) :
    Body (List String) :=
  if channelIds = [] then pure []
  else if maxVariables < channelIds.length + 1 then throwExn (.raised "OperationalError")
  else do
    let ids ← bindAll channelIds
    select fun db => db.filterReadableIds userId ids

/-- Subscribed first, fence after. -/
def handleSubscribe (conn : ℕ) (userId : String) (channelIds : List PyStr) (maxVariables : ℕ)
    (peerGone : Bool) : Body Unit := do
  let accessible ← filterReadableIds maxVariables userId channelIds
  segment (fun _ m => m.subscribe conn accessible) (fun _ => ())
    (.subscribeAdd conn userId accessible)
  let fences ← readFences userId accessible
  connSend conn (.suback fences) peerGone .plain

/-! ## The endpoint -/

inductive InFrame where
  | bad (detail : String) (clientMsgId : PyStr) (peerGone : Bool)
  | subscribe (channelIds : List PyStr) (maxVariables : ℕ) (peerGone : Bool)
  | send (f : SendFrame)

/-- A send taken in from an open socket is recorded. -/
def takenIn (conn : ℕ) (userId : String) (frame : InFrame) (m : Memory) : Memory :=
  if conn ∈ m.closed then m
  else
    match frame with
    | .send _ => m.log (.sendFrame conn userId)
    | _ => m

/-- `receive_json`: false when the server has closed the socket. -/
def receive (conn : ℕ) (userId : String) (frame : InFrame) : Body Bool :=
  segment (fun _ m => takenIn conn userId frame m) (fun m => decide (conn ∉ m.closed)) .plain

def handleFrame (conn : ℕ) (user : User) : InFrame → Body Unit
  | .bad detail clientMsgId peerGone =>
      connSend conn (.error "bad_frame" detail clientMsgId) peerGone .plain
  | .subscribe channelIds maxVariables peerGone =>
      (handleSubscribe conn user.id channelIds maxVariables peerGone).session
  | .send f => handleSend conn user f

/-- The receive loop over the frames that the peer will send before it disconnects. -/
def receiveLoop (conn : ℕ) (user : User) : List InFrame → Body Unit
  | [] => return ()
  | frame :: frames => do
      if ← receive conn user.id frame then
        handleFrame conn user frame
        receiveLoop conn user frames
      else return ()

structure Handshake where
  token : Option Claims
  completes : Bool := true
  frames : List InFrame := []

def admittedBy (conn : ℕ) (token : Option Claims) (db : Db) (m : Memory) : Memory :=
  match gate token db with
  | .ok user => { m with admitted := (conn, user.id) :: m.admitted }
  | .error _ => m

/-- The gate's SELECT; a user it lets through is admitted until the endpoint is over. -/
def letIn (conn : ℕ) (token : Option Claims) : Body (Except Exn User) :=
  Request.atomically .plain (admittedBy conn token) fun db _ => gate token db

def notAdmitted (conn : ℕ) (m : Memory) : Memory :=
  { m with admitted := m.admitted.filter fun a => a.1 ≠ conn }

/-- `await websocket.accept()`; a peer that is gone ends the handshake. -/
def accept (conn : ℕ) (completes : Bool) : Body Unit := do
  segment (fun _ m => if completes then m else notAdmitted conn m) (fun _ => ()) .plain
  if completes then return () else throwExn .peerGone

def register (conn : ℕ) (userId : String) : Body Unit :=
  segment (fun _ m => m.register ⟨conn, userId, []⟩) (fun _ => ()) .plain

/-- The `finally` block: after it the endpoint is over. -/
def unregister (conn : ℕ) : Body Unit :=
  segment (fun _ m => notAdmitted conn (m.unregister conn)) (fun _ => ()) .plain

/-- The `try` block of the endpoint with its `finally`. -/
def serve (conn : ℕ) (user : User) (frames : List InFrame) : Body Unit := do
  (receiveLoop conn user frames).handle fun e => do
    unregister conn
    if e = .peerGone then return () else throwExn e
  unregister conn

def wsEndpoint (conn : ℕ) (h : Handshake) : Body Unit := do
  match ← letIn conn h.token with
  | .error _ => return ()
  | .ok user =>
      accept conn h.completes
      register conn user.id
      serve conn user h.frames

/-! ## The footprint of a socket -/

/-- The segments of a connection that is served. -/
inductive ServeSegment (conn : ℕ) (userId : String) : Label → (Db → Memory → Memory) → Prop
  | receive (frame : InFrame) :
      ServeSegment conn userId .plain fun _ m => takenIn conn userId frame m
  | reply (t : Label) (r : Reply) (raises : Bool) :
      ServeSegment conn userId t fun _ m => if raises then m else m.log (.reply conn r)
  | subscribe (ids : List String) :
      ServeSegment conn userId (.subscribeAdd conn userId ids) fun _ m => m.subscribe conn ids
  | publish (user : User) (channel : Channel) (row : Message) (body : PyStr) (sentAt : Time)
      (discovered : Bool) :
      ServeSegment conn userId .plain fun _ m => published user channel row body sentAt discovered m
  | fanout (channelId : String) (frame : Frame) (exclude : List String) :
      ServeSegment conn userId .plain fun db m => m.fanout db channelId frame exclude
  | drop (conns : List ℕ) :
      ServeSegment conn userId .plain fun _ m => conns.foldl Memory.unregister m

/-- The segments of the endpoint. -/
inductive SocketSegment (conn : ℕ) : Label → (Db → Memory → Memory) → Prop
  | letIn (token : Option Claims) : SocketSegment conn .plain (admittedBy conn token)
  | accept (completes : Bool) :
      SocketSegment conn .plain fun _ m => if completes then m else notAdmitted conn m
  | register (userId : String) :
      SocketSegment conn .plain fun _ m => m.register ⟨conn, userId, []⟩
  | finish : SocketSegment conn .plain fun _ m => notAdmitted conn (m.unregister conn)
  | serve {userId : String} {t : Label} {g : Db → Memory → Memory}
      (h : ServeSegment conn userId t g) :
      SocketSegment conn t g

/-- The writes of a socket that serves the user. -/
def ServeWrite (user : User) (t : Label) (f : Db → Option Db) : Prop :=
  ∃ rowId, SendWrite user rowId t f

/-- The writes of a socket. -/
def SocketWrite (t : Label) (f : Db → Option Db) : Prop := ∃ user, ServeWrite user t f

section
variable {W : Label → (Db → Option Db) → Prop} (conn : ℕ) {userId : String}

theorem uses_refuse (f : SendFrame) (code detail : String) :
    Uses W (ServeSegment conn userId) (refuse conn f code detail) :=
  Uses.bind (uses_connSend (.reply _ _ _)) fun _ => trivial

theorem uses_checkReplyTarget {A : Label → (Db → Memory → Memory) → Prop} (user : User)
    (channel : Channel) (replyTo : Option PyStr) :
    Uses W A (checkReplyTarget user channel replyTo) := by
  unfold checkReplyTarget
  split
  · exact trivial
  · refine Uses.bind (uses_bindText _) fun id => Uses.bind (Uses.query _) fun target => ?_
    cases target with
    | none => exact trivial
    | some target =>
        dsimp only
        split
        · exact trivial
        · split
          · exact trivial
          · split
            · exact trivial
            · refine Uses.bind ?_ fun blocked => ?_
              · unfold isBlockedBetween
                split_ifs
                · exact trivial
                · exact Uses.query _
              · split_ifs <;> exact trivial

theorem uses_persistSend (user : User) (channel : Channel) (f : SendFrame)
    (replyTo : Option String) (origin : Option Origin) (spans : Option (List MentionSpan)) :
    Uses (SendWrite user f.minted.msgId) (ServeSegment conn userId)
      (persistSend conn user channel f replyTo origin spans) := by
  refine Uses.bind (Uses.handle (Uses.bind (uses_createOutbound _ _ _ _) fun _ => trivial)
    fun e => ?_) fun r => ?_
  · cases e <;> exact trivial
  · cases r with
    | none => exact uses_refuse conn f _ _
    | some r => exact fun _ => trivial

theorem uses_sendTransaction (user : User) (f : SendFrame) :
    Uses (SendWrite user f.minted.msgId) (ServeSegment conn userId)
      (sendTransaction conn user f) := by
  refine Uses.bind (uses_bindText _) fun channelId => Uses.bind (Uses.query _) fun channel => ?_
  cases channel with
  | none => exact uses_refuse conn f _ _
  | some channel =>
      refine Uses.bind (uses_canPost _ _) fun ok => ?_
      split_ifs
      · exact uses_refuse conn f _ _
      · refine Uses.bind (uses_checkReplyTarget user channel f.replyTo) fun target => ?_
        match target with
        | (some (code, detail), _) => exact uses_refuse conn f code detail
        | (none, replyTo) =>
            dsimp only
            split
            · exact uses_refuse conn f _ _
            · exact uses_refuse conn f _ _
            · exact uses_persistSend conn user channel f _ _ _

theorem uses_deliver (user : User) (f : SendFrame) (p : Persisted) :
    Uses W (ServeSegment conn userId) (deliver user f p) := by
  have hfanout : Uses W (ServeSegment conn userId)
      (fanout p.channel.id (.message p.row) p.exclude f.dead) :=
    uses_fanout (.fanout _ _ _) fun conns => .drop conns
  unfold deliver
  split_ifs
  · exact Uses.bind (Uses.atomically (.publish user p.channel p.row f.body f.sentAt f.discovered))
      fun _ => hfanout
  · exact hfanout

theorem uses_handleSend (user : User) (f : SendFrame) :
    Uses (SendWrite user f.minted.msgId) (ServeSegment conn userId) (handleSend conn user f) := by
  refine Uses.bind (Uses.session (uses_sendTransaction conn user f)) fun p => ?_
  cases p with
  | none => exact trivial
  | some p =>
      refine Uses.bind (uses_connSend (.reply _ _ _)) fun _ => ?_
      split_ifs
      · exact uses_deliver conn user f p
      · exact trivial

theorem uses_bindAll {A : Label → (Db → Memory → Memory) → Prop} (ss : List PyStr) :
    Uses W A (bindAll ss) := by
  induction ss with
  | nil => exact trivial
  | cons s ss ih =>
      exact Uses.bind (uses_bindText s) fun _ => Uses.bind ih fun _ => trivial

theorem uses_filterReadableIds {A : Label → (Db → Memory → Memory) → Prop} (maxVariables : ℕ)
    (userId : String) (ids : List PyStr) :
    Uses W A (filterReadableIds maxVariables userId ids) := by
  unfold filterReadableIds
  split_ifs
  · exact trivial
  · exact trivial
  · exact Uses.bind (uses_bindAll ids) fun _ => Uses.query _

theorem uses_readFences {A : Label → (Db → Memory → Memory) → Prop} (userId : String)
    (ids : List String) : Uses W A (readFences userId ids) := by
  induction ids with
  | nil => exact trivial
  | cons c cs ih =>
      refine Uses.bind ?_ fun fence => Uses.bind ih fun _ => trivial
      exact fun _ _ => trivial

theorem uses_handleSubscribe (ids : List PyStr) (maxVariables : ℕ) (peerGone : Bool) :
    Uses W (ServeSegment conn userId)
      (handleSubscribe conn userId ids maxVariables peerGone) := by
  refine Uses.bind (uses_filterReadableIds maxVariables userId ids) fun accessible => ?_
  refine Uses.bind (Uses.atomically (.subscribe accessible)) fun _ => ?_
  exact Uses.bind (uses_readFences userId accessible) fun _ => uses_connSend (.reply _ _ _)

theorem uses_receiveLoop (user : User) (frames : List InFrame) :
    Uses (ServeWrite user) (ServeSegment conn user.id) (receiveLoop conn user frames) := by
  induction frames with
  | nil => exact trivial
  | cons frame frames ih =>
      refine Uses.bind (Uses.atomically (.receive frame)) fun alive => ?_
      split_ifs
      · refine Uses.bind ?_ fun _ => ih
        cases frame with
        | bad detail clientMsgId peerGone => exact uses_connSend (.reply _ _ _)
        | subscribe ids maxVariables peerGone =>
            exact (uses_handleSubscribe conn ids maxVariables peerGone).session
        | send f =>
            exact (uses_handleSend conn user f).mono (fun _ _ h => ⟨_, h⟩) fun _ _ h => h
      · exact trivial

theorem uses_serve (user : User) (frames : List InFrame) :
    Uses (ServeWrite user) (SocketSegment conn) (serve conn user frames) := by
  have hfinish : Uses (ServeWrite user) (SocketSegment conn) (unregister conn) :=
    Uses.atomically .finish
  have hloop : Uses (ServeWrite user) (SocketSegment conn) (receiveLoop conn user frames) :=
    (uses_receiveLoop conn user frames).mono (fun _ _ hw => hw) fun _ _ hs => .serve hs
  refine Uses.bind (Uses.handle hloop fun e => Uses.bind hfinish fun _ => ?_) fun _ => hfinish
  split_ifs <;> exact trivial

theorem uses_wsEndpoint (h : Handshake) :
    Uses SocketWrite (SocketSegment conn) (wsEndpoint conn h) := by
  refine Uses.bind (Uses.atomically (.letIn h.token)) fun r => ?_
  cases r with
  | error e => exact trivial
  | ok user =>
      refine Uses.bind ?_ fun _ => Uses.bind (Uses.atomically (.register user.id)) fun _ => ?_
      · refine Uses.bind (Uses.atomically (.accept h.completes)) fun _ => ?_
        split_ifs <;> exact trivial
      · exact (uses_serve conn user h.frames).mono (fun _ _ hw => ⟨user, hw⟩) fun _ _ hs => hs

end

/-! ## The bus ingest -/

structure IngestIds where
  channelId : String
  rowId : String
  now : Time := 0
  dead : List ℕ := []

def checked (now : Time) (channel : PyStr) (msg : InboundMessage) (m : Memory) : Memory :=
  let (dropped, seen) := isOwnEcho now channel msg.username msg.message m.seen
  { m with
    seen := seen
    echoes := m.echoes ++ [EchoEvent.checked now channel msg.username msg.message dropped] }

/-- The echo check, before any await; an empty channel skips it. -/
def ownEcho (msg : InboundMessage) (now : Time) : Body Bool :=
  match msg.channel with
  | none => pure false
  | some [] => pure false
  | some channel =>
      segment (fun _ m => checked now channel msg m)
        (fun m => (isOwnEcho now channel msg.username msg.message m.seen).1) .plain

/-- The session of `_ingest`: the row and the block set of its sender. -/
def ingestTransaction (msg : InboundMessage) (ids : IngestIds) :
    Body (Option (Message × List String)) := do
  match ← persistInbound msg ids.channelId ids.rowId ids.now with
  | none => return none
  | some row =>
      match row.senderUserId with
      | none => return some (row, [])
      | some sender =>
          let exclude ← select fun db => db.blockedPairUserIds sender
          return some (row, exclude)

/-- The `try` block of `_ingest`. -/
def ingestRow (msg : InboundMessage) (ids : IngestIds) : Body Unit := do
  match ← (ingestTransaction msg ids).session with
  | none => return ()
  | some (row, exclude) => fanout row.channelId (.message row) exclude ids.dead

/-- Every exception of the `try` block is logged and dropped; `true` when the message was its
own echo. -/
def ingest (msg : InboundMessage) (ids : IngestIds) : Body Bool := do
  if ← ownEcho msg ids.now then
    return true
  else
    (ingestRow msg ids).handle fun _ => return ()
    return false

section
variable {W : Label → (Db → Option Db) → Prop} {A : Label → (Db → Memory → Memory) → Prop}

theorem uses_ingestRow {msg : InboundMessage} {ids : IngestIds}
    (hpersist : Uses W A (persistInbound msg ids.channelId ids.rowId ids.now))
    (hsend : ∀ c f e, A .plain fun db m => m.fanout db c f e)
    (hdrop : ∀ conns : List ℕ, A .plain fun _ m => conns.foldl Memory.unregister m) :
    Uses W A (ingestRow msg ids) := by
  refine Uses.bind (Uses.session (Uses.bind hpersist fun row => ?_)) fun r => ?_
  · cases row with
    | none => exact trivial
    | some row =>
        cases hsender : row.senderUserId with
        | none =>
            simp only [hsender]
            exact trivial
        | some sender =>
            simp only [hsender]
            exact fun _ => trivial
  · cases r with
    | none => exact trivial
    | some r => exact uses_fanout (hsend _ _ _) hdrop

theorem uses_ingest {msg : InboundMessage} {ids : IngestIds}
    (hpersist : Uses W A (persistInbound msg ids.channelId ids.rowId ids.now))
    (hcheck : ∀ channel, A .plain fun _ m => checked ids.now channel msg m)
    (hsend : ∀ c f e, A .plain fun db m => m.fanout db c f e)
    (hdrop : ∀ conns : List ℕ, A .plain fun _ m => conns.foldl Memory.unregister m) :
    Uses W A (ingest msg ids) := by
  have hecho : Uses W A (ownEcho msg ids.now) := by
    unfold ownEcho
    split
    · exact trivial
    · exact trivial
    · exact Uses.atomically (hcheck _)
  refine Uses.bind hecho fun echo => ?_
  split_ifs
  · exact trivial
  · exact Uses.bind (Uses.handle (uses_ingestRow hpersist hsend hdrop) fun _ => trivial)
      fun _ => trivial

end

/-- One step of `_run_channel_worker`. -/
def channelWorkerStep (aikoChannel : PyStr) (channelId : String) : Body Unit :=
  ((do
    let _ ← upsertChannel aikoChannel channelId
    commit : Body Unit).session).handle fun _ => return ()

/-! ## Routes that drop live sockets -/

def banUserRoute (moderators : List String) (targetId moderatorId : String) (now : Time) :
    Body Unit := do
  (banUser moderators targetId moderatorId now).session
  disconnectUser targetId

def deleteMe (userId : String) : Body Unit := do
  (deleteUserAccount userId).session
  disconnectUser userId

/-- Returns the session that was issued. -/
def recoverFinalize (crypto : Crypto) (recoveryId finalizeToken credentialRowId : String)
    (now : Time) : Body Recovery.Session := do
  match ← (Recovery.finalizeRecovery crypto recoveryId finalizeToken credentialRowId now).session
  with
  | none => throwExn (.http 409 "recovery not finalizable")
  | some s =>
      disconnectUser s.userId
      return s

end AikoIsland.Realtime
