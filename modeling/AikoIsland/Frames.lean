import AikoIsland.Actuation
import AikoIsland.Mentions
import AikoIsland.Payload
import AikoIsland.Realtime

/-!
# Frames from the wire

A text frame is any JSON value. `parse_inbound` looks at its type and at the types
of its ids and of the body; `reply_to`, `origin` and `mentions` stay what they are.
The origin and the spans have validators of their own, the reply target none: it
goes to `session.get` and, when the row is created, into the row.

Binding a parameter raises on a lone surrogate and on an integer of more than 64
bits. What `session.get` makes of a list or an object, what binding a float, a
list or an object gives, and how many parameters one statement may have, are the
ORM's and the driver's, arguments here, and so is the `repr` in the texts of
errors. The connection accepts every reply. An integer
or a boolean is compared with a text column as a text.

`Realtime` has the same handler for frames whose parts are checked already; where
the reply target is a text and the version of the key fits, the two are equal.
-/
namespace AikoIsland.Frames
open Tables Gateway Memberships Messages Realtime JsonText WriterLock

/-! ## `parse_inbound` -/

/-- `items.get(key)`. -/
def field (items : List (PyStr × Json)) (key : String) : Json :=
  (OrderedDict.get items (codes key)).getD .null

def textOf : Json → Option PyStr
  | .str s => some s
  | _ => none

def isText (v : Json) (text : String) : Bool := textOf v = some (codes text)

/-- What `str.strip` removes. -/
def isSpace (c : ℕ) : Bool :=
  (9 ≤ c && c ≤ 13) || (28 ≤ c && c ≤ 32) || c ∈ Payload.wideSpaces

structure RawSend where
  clientMsgId : PyStr
  channelId : PyStr
  body : PyStr
  replyTo : Json
  origin : Json
  mentions : Json

inductive Inbound where
  | subscribe (channelIds : List PyStr)
  | send (f : RawSend)

section
variable (repr : Json → String)

/-- The frame, or the text of the `FrameError`. -/
def parseInbound : Json → Except String Inbound
  | .obj items =>
      if isText (field items "type") "subscribe" then
        match field items "channel_ids" with
        | .arr xs =>
            match xs.mapM textOf with
            | some ids => .ok (.subscribe ids)
            | none => .error "subscribe.channel_ids must be a list[str]"
        | _ => .error "subscribe.channel_ids must be a list[str]"
      else if isText (field items "type") "send" then
        match textOf (field items "client_msg_id"), textOf (field items "channel_id"),
          textOf (field items "body") with
        | some clientMsgId, some channelId, some body =>
            if body.all isSpace then .error "send.body must be non-empty"
            else .ok (.send ⟨clientMsgId, channelId, body, field items "reply_to",
              field items "origin", field items "mentions"⟩)
        | _, _, _ => .error "send requires client_msg_id, channel_id, body (str)"
      else .error ("unknown frame type: " ++ repr (field items "type"))
  | _ => .error "frame must be a JSON object"

/-- The id that an error refers to; one that is no text stands as its representation. -/
def refOf : Json → PyStr
  | .obj items =>
      match field items "client_msg_id" with
      | .str s => s
      | v => codes (repr v)
  | _ => codes (repr .null)

/-! ## `validate_origin` -/

def requiredKeys : List PyStr :=
  [codes "v", codes "alg", codes "key_version", codes "sender_pubkey", codes "client_msg_id",
   codes "signed_at_ms", codes "sig"]

def maxPubkeyStr : ℕ := 128
def maxSigStr : ℕ := 128
def maxClientMsgId : ℕ := 64
def maxSignedAtMs : ℤ := 2 ^ 62

def sortedKeys (ks : List PyStr) : Json := .arr ((ks.insertionSort (· ≤ ·)).map .str)

def missingKeys (items : List (PyStr × Json)) : List PyStr :=
  requiredKeys.filter fun k => k ∉ OrderedDict.keys items

def extraKeys (items : List (PyStr × Json)) : List PyStr :=
  (OrderedDict.keys items).filter fun k => k ∉ requiredKeys

def checkOriginVersion : Json → Except String Unit
  | .int 1 => .ok ()
  | v => .error ("origin.v " ++ repr v ++ " unsupported (expected int 1)")

def checkAlg (v : Json) : Except String Unit :=
  if isText v "EdDSA" then .ok ()
  else .error ("origin.alg " ++ repr v ++ " not allowed (only 'EdDSA')")

def checkKeyVersion : Json → Except String ℕ
  | .int n => if 1 ≤ n then .ok n.toNat else .error "origin.key_version must be an integer >= 1"
  | _ => .error "origin.key_version must be an integer >= 1"

def cappedText (name : String) (cap : ℕ) (v : Json) : Except String PyStr :=
  match v with
  | .str s =>
      if s.length ≤ cap then .ok s
      else .error (name ++ " must be a string within the size cap")
  | _ => .error (name ++ " must be a string within the size cap")

def checkSignedAt : Json → Except String Unit
  | .int n =>
      if 0 ≤ n ∧ n ≤ maxSignedAtMs then .ok ()
      else .error "origin.signed_at_ms must be a sane non-negative integer"
  | _ => .error "origin.signed_at_ms must be a sane non-negative integer"

/-- The fields of an object with the required keys. -/
def originOf (items : List (PyStr × Json)) (frameClientMsgId : PyStr) : Except String Origin := do
  checkOriginVersion repr (field items "v")
  checkAlg repr (field items "alg")
  let keyVersion ← checkKeyVersion (field items "key_version")
  let pubkey ← cappedText "origin.sender_pubkey" maxPubkeyStr (field items "sender_pubkey")
  let _ ← Signing.decodeMultikey (Actuation.plainText pubkey)
  let clientMsgId ← cappedText "origin.client_msg_id" maxClientMsgId (field items "client_msg_id")
  if clientMsgId ≠ frameClientMsgId then
    .error "origin.client_msg_id does not match the frame client_msg_id"
  else do
    checkSignedAt (field items "signed_at_ms")
    let sig ← cappedText "origin.sig" maxSigStr (field items "sig")
    let _ ← Signing.b64urlRaw (Actuation.plainText sig) Signing.sigRawLen "origin.sig"
    return ⟨Actuation.plainText pubkey, keyVersion, Actuation.plainText sig⟩

/-- The origin, or the text of the `OriginError`. -/
def validateOrigin (raw : Json) (frameClientMsgId : PyStr) : Except String (Option Origin) :=
  match raw with
  | .null => .ok none
  | .obj items =>
      if missingKeys items = [] ∧ extraKeys items = [] then
        (originOf repr items frameClientMsgId).map some
      else
        .error ("origin key set invalid (missing=" ++ repr (sortedKeys (missingKeys items)) ++
          ", unexpected=" ++ repr (sortedKeys (extraKeys items)) ++ ")")
  | _ => .error "origin must be a JSON object"

end

/-! ## Binding -/

/-- What the ORM and the driver make of values that are neither text nor integer, and how many
parameters the driver takes in one statement. -/
structure Driver where
  /-- The one key value that `session.get` finds in a list or an object. -/
  identity : Json → Option Json
  /-- A float, a list or an object as a parameter: the text that a column compares it with. -/
  bindOther : Json → Option (Option String)
  maxVariables : ℕ

def minInteger : ℤ := -2 ^ 63
def maxInteger : ℤ := 2 ^ 63 - 1

section
variable (d : Driver)

/-- A parameter of a statement, as the text of a column or NULL; `none` when binding raises. -/
def bound : Json → Option (Option String)
  | .null => some none
  | .str s => (encode s).map some
  | .int n => if minInteger ≤ n ∧ n ≤ maxInteger then some (some (toString n)) else none
  | .bool b => some (some (if b then "1" else "0"))
  | v => d.bindOther v

def identityOf : Json → Option Json
  | .arr xs => d.identity (.arr xs)
  | .obj items => d.identity (.obj items)
  | v => some v

/-- The exception of a value that does not bind. -/
def bindError : Json → Exn
  | .str _ => .unicodeEncodeError
  | .int _ => .raised "OverflowError"
  | _ => .raised "InterfaceError"

def bindValue (v : Json) : Body (Option String) :=
  match bound d v with
  | some t => pure t
  | none => throwExn (bindError v)

/-- `session.get(Message, reply_to)`. -/
def getMessage (v : Json) : Body (Option Message) :=
  match identityOf d v with
  | none => throwExn (.raised "InvalidRequestError")
  | some key => do
      match ← bindValue d key with
      | none => return none
      | some id => select fun db => db.messages.find? fun m => m.id = id

/-! ## The handler -/

/-- Minted ids, the clock and the dead connections of a fanout. -/
structure Surroundings where
  minted : Minted
  sentAt : Time := 0
  discovered : Bool := true
  dead : List ℕ := []

/-- The frame for the parts of the handler that do not look at its unchecked fields. -/
def RawSend.frame (f : RawSend) (e : Surroundings) : SendFrame where
  clientMsgId := f.clientMsgId
  channelId := f.channelId
  body := f.body
  minted := e.minted
  sentAt := e.sentAt
  discovered := e.discovered
  dead := e.dead

/-- What the row of the reply target has to satisfy. -/
def judgeTarget (user : User) (channel : Channel) (found : Option Message) :
    Body (Option (String × String)) :=
  match found with
  | none => pure (some ("no_reply_target", "reply target not found in this channel"))
  | some target =>
      if target.channelId ≠ channel.id then
        pure (some ("no_reply_target", "reply target not found in this channel"))
      else
        match target.senderUserId with
        | none => pure none
        | some sender =>
            if channel.kind = .dm then pure none
            else do
              if ← isBlockedBetween user.id sender then
                return some ("blocked", "cannot reply to a blocked user")
              else return none

/-- The checks of the reply target: an error code with its text, or nothing. -/
def checkTarget (user : User) (channel : Channel) (replyTo : Json) :
    Body (Option (String × String)) :=
  match replyTo with
  | .null => pure none
  | v => do
      let found ← getMessage d v
      judgeTarget user channel found

/-- `record_signing_key` binds the version of the key. -/
def recordVersion (user : User) (out : Outbound) (minted : Minted) : Body Unit :=
  match out.origin with
  | none => pure ()
  | some origin =>
      if maxInteger < origin.keyVersion then throwExn (.raised "OverflowError")
      else recordOrigin user out minted

/-- The key, the bindings and the row of a new send. -/
def storeNew (user : User) (channel : Channel) (f : RawSend) (origin : Option Origin)
    (spans : Option (List MentionSpan)) (minted : Minted) (clientMsgId : String) :
    Body (Message × Bool) := do
  recordVersion user ⟨f.body, f.clientMsgId, none, origin, spans⟩ minted
  let body ← bindText f.body
  let replyTo ← bindValue d f.replyTo
  let row := outboundRow user channel ⟨f.body, f.clientMsgId, replyTo, origin, spans⟩ body
    clientMsgId minted
  flushOr .messageIntegrityError (fun db => db.insertMessage row)
    (.messageInsert row.id channel.id clientMsgId)
  commit
  return (row, true)

/-- `create_outbound`. -/
def createRow (user : User) (channel : Channel) (f : RawSend) (origin : Option Origin)
    (spans : Option (List MentionSpan)) (minted : Minted) : Body (Message × Bool) := do
  let clientMsgId ← bindText f.clientMsgId
  match ← select fun db => db.messages.find? fun m =>
      m.channelId = channel.id && m.clientMsgId = some clientMsgId with
  | some existing => return (existing, false)
  | none =>
      refuseBlockedDm user channel
      storeNew d user channel f origin spans minted clientMsgId

/-- The row, or the refusal of a DM send as `none`. -/
def createOrRefuse (user : User) (channel : Channel) (f : RawSend) (origin : Option Origin)
    (spans : Option (List MentionSpan)) (minted : Minted) : Body (Option (Message × Bool)) :=
  (do
    let r ← createRow d user channel f origin spans minted
    return some r : Body (Option (Message × Bool))).handle fun e =>
      match e with
      | .blockedDmSend => pure none
      | e => throwExn e

def persist (conn : ℕ) (user : User) (channel : Channel) (f : RawSend) (e : Surroundings)
    (origin : Option Origin) (spans : Option (List MentionSpan)) : Body (Option Persisted) := do
  match ← createOrRefuse d user channel f origin spans e.minted with
  | none => refuse conn (f.frame e) "no_channel" "channel not found"
  | some (row, created) =>
      let exclude ← select fun db => db.blockedPairUserIds user.id
      return some ⟨row, created, channel, exclude⟩

def storedSpan (span : Mentions.Span) : MentionSpan where
  offset := span.offset.toNat
  length := span.length.toNat
  targetType := Actuation.plainText span.targetType
  targetId := Actuation.plainText span.targetId

variable (repr : Json → String) (category : ℕ → Mentions.GeneralCategory)

/-- The checks of `_handle_send` in a channel that is readable, and the row. -/
def sendInChannel (conn : ℕ) (user : User) (channel : Channel) (f : RawSend)
    (e : Surroundings) : Body (Option Persisted) := do
  if !(← canPost user.id channel) then
    refuse conn (f.frame e) "forbidden" "cannot post to this channel"
  else
    match ← checkTarget d user channel f.replyTo with
    | some (code, detail) => refuse conn (f.frame e) code detail
    | none =>
        match validateOrigin repr f.origin f.clientMsgId with
        | .error detail => refuse conn (f.frame e) "bad_origin" detail
        | .ok origin =>
            match Mentions.validateMentions category f.mentions with
            | .error (.mentionError detail) => refuse conn (f.frame e) "bad_mentions" detail
            | .error .keyError => throwExn (.raised "KeyError")
            | .ok spans => persist d conn user channel f e origin (spans.map (List.map storedSpan))

/-- The part of `_handle_send` inside its session. -/
def transaction (conn : ℕ) (user : User) (f : RawSend) (e : Surroundings) :
    Body (Option Persisted) := do
  let channelId ← bindText f.channelId
  match ← readableChannel user.id channelId with
  | none => refuse conn (f.frame e) "no_channel" "channel not found"
  | some channel => sendInChannel d repr category conn user channel f e

/-- `_handle_send`. -/
def handleRawSend (conn : ℕ) (user : User) (f : RawSend) (e : Surroundings) : Body Unit := do
  match ← (transaction d repr category conn user f e).session with
  | none => return ()
  | some p =>
      connSend conn (.ack f.clientMsgId p.row.id p.row.createdAt) false (.ackSend p.created false)
      if p.created then deliver user (f.frame e) p

/-- One turn of the receive loop, on the value that `receive_json` gave. -/
def handleRaw (conn : ℕ) (user : User) (e : Surroundings) (raw : Json) : Body Unit :=
  match parseInbound repr raw with
  | .error detail => connSend conn (.error "bad_frame" detail (refOf repr raw)) false .plain
  | .ok (.subscribe channelIds) =>
      (handleSubscribe conn user.id channelIds d.maxVariables false).session
  | .ok (.send f) => handleRawSend d repr category conn user f e

end

/-! ## Frames with checked parts -/

section
variable (d : Driver) (repr : Json → String) (category : ℕ → Mentions.GeneralCategory)

/-- The frame after its validators; its reply target is a text. -/
def RawSend.checked (f : RawSend) (e : Surroundings) (replyTo : Option PyStr) : SendFrame :=
  { f.frame e with
    replyTo
    origin := validateOrigin repr f.origin f.clientMsgId
    mentions := match Mentions.validateMentions category f.mentions with
      | .ok spans => .ok (spans.map (List.map storedSpan))
      | .error (.mentionError detail) => .error detail
      | .error .keyError => .error "KeyError" }

theorem recordVersion_eq {user : User} {out : Outbound} {minted : Minted}
    (hversion : ∀ o, out.origin = some o → o.keyVersion ≤ maxInteger) :
    recordVersion user out minted = recordOrigin user out minted := by
  unfold recordVersion
  cases horigin : out.origin with
  | none =>
      unfold recordOrigin
      rw [horigin]
  | some origin =>
      dsimp only
      rw [if_neg (not_lt.mpr (hversion origin horigin))]

theorem createRow_eq {user : User} {channel : Channel} {f : RawSend} {origin : Option Origin}
    {spans : Option (List MentionSpan)} {minted : Minted} {replyTo : Option String}
    (hreply : bound d f.replyTo = some replyTo)
    (hversion : ∀ o, origin = some o → o.keyVersion ≤ maxInteger) :
    createRow d user channel f origin spans minted =
      createOutbound user channel ⟨f.body, f.clientMsgId, replyTo, origin, spans⟩ minted := by
  unfold createRow createOutbound storeNew bindValue
  rw [hreply, recordVersion_eq hversion]
  rfl

/-- The checks of a text as the reply target. -/
theorem checkReplyTarget_str (user : User) (channel : Channel) {r : PyStr} {id : String}
    (hid : encode r = some id) :
    checkReplyTarget user channel (some r) =
      (checkTarget d user channel (.str r) >>= fun verdict =>
        pure (verdict, if verdict.isSome then none else some id)) := by
  have hbound : bound d (.str r) = some (some id) := by simp [bound, hid]
  unfold checkReplyTarget checkTarget getMessage bindValue bindText
  dsimp only [identityOf]
  rw [hid, hbound]
  change Request.select _ = Request.select _
  congr 1
  funext db
  cases hfound : db.messages.find? fun m => m.id = id with
  | none =>
      simp only [Request.bind, hfound]
      rfl
  | some target =>
      simp only [Request.bind, hfound]
      unfold judgeTarget
      dsimp only
      by_cases hchannel : target.channelId ≠ channel.id
      · rw [if_pos hchannel, if_pos hchannel]
        rfl
      · rw [if_neg hchannel, if_neg hchannel]
        cases target.senderUserId with
        | none => rfl
        | some sender =>
            dsimp only
            by_cases hdm : channel.kind = .dm
            · rw [if_pos hdm, if_pos hdm]
              rfl
            · rw [if_neg hdm, if_neg hdm]
              unfold isBlockedBetween
              by_cases hself : user.id = sender
              · rw [if_pos hself]
                rfl
              · rw [if_neg hself]
                change Request.select _ = Request.select _
                congr 1
                funext db
                simp only [Request.bind]
                split_ifs <;> rfl

variable (conn : ℕ) {user : User} {f : RawSend} {e : Surroundings} {replyTo : Option PyStr}

/-- After the reply target, which binds. -/
theorem validated_eq {channel : Channel} {target : Option String}
    (hreply : bound d f.replyTo = some target)
    (hversion : ∀ o, validateOrigin repr f.origin f.clientMsgId = .ok (some o) →
      o.keyVersion ≤ maxInteger) :
    (match validateOrigin repr f.origin f.clientMsgId with
      | .error detail => refuse conn (f.frame e) "bad_origin" detail
      | .ok origin =>
          match Mentions.validateMentions category f.mentions with
          | .error (.mentionError detail) => refuse conn (f.frame e) "bad_mentions" detail
          | .error .keyError => throwExn (.raised "KeyError")
          | .ok spans =>
              persist d conn user channel f e origin (spans.map (List.map storedSpan))) =
      match (f.checked repr category e replyTo).origin,
        (f.checked repr category e replyTo).mentions with
      | .error detail, _ => refuse conn (f.checked repr category e replyTo) "bad_origin" detail
      | .ok _, .error detail =>
          refuse conn (f.checked repr category e replyTo) "bad_mentions" detail
      | .ok origin, .ok spans =>
          persistSend conn user channel (f.checked repr category e replyTo) target origin spans := by
  have horigin : (f.checked repr category e replyTo).origin =
      validateOrigin repr f.origin f.clientMsgId := rfl
  rw [horigin]
  cases hvalid : validateOrigin repr f.origin f.clientMsgId with
  | error detail => rfl
  | ok origin =>
      unfold RawSend.checked
      dsimp only
      cases hspans : Mentions.validateMentions category f.mentions with
      | error raised =>
          obtain ⟨detail, rfl⟩ := Mentions.raisesOnly_validateMentions f.mentions raised hspans
          rfl
      | ok spans =>
          dsimp only
          unfold persist persistSend createOrRefuse Realtime.createOrRefuse
          rw [createRow_eq d hreply fun o ho => hversion o (by rw [hvalid, ho])]
          rfl

theorem transaction_eq (htarget : f.replyTo = (replyTo.map Json.str).getD .null)
    (hversion : ∀ o, validateOrigin repr f.origin f.clientMsgId = .ok (some o) →
      o.keyVersion ≤ maxInteger) :
    transaction d repr category conn user f e =
      sendTransaction conn user (f.checked repr category e replyTo) := by
  unfold transaction sendTransaction
  apply bind_congr
  intro channelId
  apply bind_congr
  intro found
  cases found with
  | none => rfl
  | some channel =>
      apply bind_congr
      intro posts
      cases posts with
      | false => rfl
      | true =>
          simp only [Bool.not_true, Bool.false_eq_true, if_false]
          rw [htarget]
          cases replyTo with
          | none =>
              have hreply : bound d f.replyTo = some none := by rw [htarget]; rfl
              exact validated_eq d repr category conn hreply hversion
          | some r =>
              change (checkTarget d user channel (.str r) >>= _) =
                (checkReplyTarget user channel (some r) >>= _)
              cases hid : encode r with
              | none =>
                  unfold checkTarget checkReplyTarget getMessage bindValue bindText
                  dsimp only [identityOf, bound]
                  rw [hid]
                  rfl
              | some id =>
                  rw [checkReplyTarget_str d user channel hid]
                  change _ = Request.bind (Request.bind _ _) _
                  rw [Request.bind_assoc]
                  apply bind_congr
                  intro verdict
                  cases verdict with
                  | some refusal => rfl
                  | none =>
                      have hreply : bound d f.replyTo = some (some id) := by
                        rw [htarget]
                        simp [bound, hid]
                      exact validated_eq d repr category conn hreply hversion

/-- On such frames the handler is the one for checked parts. -/
theorem handleRawSend_eq (htarget : f.replyTo = (replyTo.map Json.str).getD .null)
    (hversion : ∀ o, validateOrigin repr f.origin f.clientMsgId = .ok (some o) →
      o.keyVersion ≤ maxInteger) :
    handleRawSend d repr category conn user f e =
      handleSend conn user (f.checked repr category e replyTo) := by
  unfold handleRawSend handleSend
  rw [transaction_eq d repr category conn htarget hversion]
  rfl

end

end AikoIsland.Frames
