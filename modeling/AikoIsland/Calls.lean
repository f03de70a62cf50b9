import AikoIsland.DirectMessages
import AikoIsland.Realtime
import AikoIsland.Transports

/-!
# Calls: who may join one, and who is rung

`_gated_dm_channel` is the door of the two video endpoints. A message whose body
is a call sentinel wakes the devices of the other member of its channel:
`_recipients` and `_spoken_here` choose the person, `plan_deliveries` the rows,
the rate limiter has one unit for the person, and the transports' answers name
the rows to reap.

The sends of one wake run at the same time and touch no table, so here they
follow each other; what each answers is an argument. A wake takes plain values,
and any exception in it ends it with a rollback. Collapse ids, log lines and the
settings behind the config probes are left out.
-/
namespace AikoIsland.Calls
open Tables Gateway Memberships DirectMessages Transports WriterLock Footprint
open Realtime (isBlockedBetween)

/-! ## The door of the video endpoints -/

def peerIds (channelId userId : String) (db : Db) : List String :=
  (db.memberships.filter fun m => m.channelId = channelId && m.userId ≠ userId).map (·.userId)

/-- `_gated_dm_channel`. -/
def gatedDmChannel (userId channelId : String) : Body Channel := do
  match ← readableChannel userId channelId with
  | none => throwExn (.http 404 "channel not found")
  | some channel =>
      if channel.kind ≠ .dm ∨ channel.isPrivate = false then
        throwExn (.http 403 "video is only available in direct messages")
      else
        match ← select (peerIds channel.id userId) with
        | [peer] =>
            if ← isBlockedBetween userId peer then throwExn (.http 404 "channel not found")
            else return channel
        | _ => throwExn (.http 403 "video is only available in direct messages")

/-! ## Call sentinels -/

inductive WakeKind where
  | callInvite
  | callEnd
  deriving DecidableEq, Repr

def WakeKind.value : WakeKind → String
  | .callInvite => "call_invite"
  | .callEnd => "call_end"

def WakeKind.verb : WakeKind → String
  | .callInvite => "started a call"
  | .callEnd => "ended the call"

/-- A letter of canonical Crockford base32, or a digit. -/
def isCallIdCode (c : ℕ) : Bool :=
  (48 ≤ c && c ≤ 57) || (65 ≤ c && c ≤ 90 && c ≠ 73 && c ≠ 76 && c ≠ 79 && c ≠ 85)

/-- `CALL_ID_PATTERN`: 26 codes, the first of them at most `7`. -/
def isCallId (id : PyStr) : Bool :=
  match id with
  | [] => false
  | c :: rest => (48 ≤ c && c ≤ 55) && decide (rest.length = 25) && rest.all isCallIdCode

/-- The v2 frame around an id. -/
def callBody (kind : WakeKind) (id : PyStr) : PyStr :=
  codes "aiko:call/2 " ++ id ++ codes " · 📞 " ++ codes kind.verb

def parseCallBody (body : PyStr) : Option (WakeKind × PyStr) :=
  let id := (body.drop 12).take 26
  if isCallId id then
    if body = callBody .callInvite id then some (.callInvite, id)
    else if body = callBody .callEnd id then some (.callEnd, id)
    else none
  else none

def shouldWake (channelKind : ChannelKind) (body : PyStr) : Option WakeKind :=
  if channelKind ≠ .dm then none else (parseCallBody body).map Prod.fst

theorem length_of_isCallId {id : PyStr} (h : isCallId id = true) : id.length = 26 := by
  cases id with
  | nil => cases h
  | cons c rest =>
      simp only [isCallId, Bool.and_eq_true, decide_eq_true_eq] at h
      rw [List.length_cons, h.1.2]

/-- The parser accepts the two frames around a call id, and reads the id back. -/
theorem parseCallBody_eq_some {body id : PyStr} {kind : WakeKind} :
    parseCallBody body = some (kind, id) ↔ isCallId id = true ∧ body = callBody kind id := by
  unfold parseCallBody
  dsimp only
  constructor
  · intro h
    split_ifs at h with hid hinvite hend
    · obtain ⟨rfl, rfl⟩ := Prod.mk.inj (Option.some.inj h)
      exact ⟨hid, hinvite⟩
    · obtain ⟨rfl, rfl⟩ := Prod.mk.inj (Option.some.inj h)
      exact ⟨hid, hend⟩
  · rintro ⟨hid, rfl⟩
    have hprefix : (codes "aiko:call/2 ").length = 12 := by decide
    have hslice : ((callBody kind id).drop 12).take 26 = id := by
      unfold callBody
      rw [List.append_assoc, List.append_assoc, List.drop_left' hprefix,
        List.take_left' (length_of_isCallId hid)]
    rw [hslice, if_pos hid]
    cases kind with
    | callInvite => rw [if_pos rfl]
    | callEnd =>
        have hne : callBody .callEnd id ≠ callBody .callInvite id := by
          unfold callBody
          intro he
          have hverbs := List.append_cancel_left he
          revert hverbs
          decide
        rw [if_neg hne, if_pos rfl]

/-! ## What to send where -/

inductive Platform where
  | apns
  | fcm
  deriving DecidableEq, Repr

inductive ApnsEnvironment where
  | sandbox
  | production
  deriving DecidableEq, Repr

inductive TokenKind where
  | alert
  | voip
  deriving DecidableEq, Repr

def Platform.value : Platform → String
  | .apns => "apns"
  | .fcm => "fcm"

def ApnsEnvironment.value : ApnsEnvironment → String
  | .sandbox => "sandbox"
  | .production => "production"

def TokenKind.value : TokenKind → String
  | .alert => "alert"
  | .voip => "voip"

def Platform.ofText (s : String) : Option Platform :=
  if s = "apns" then some .apns else if s = "fcm" then some .fcm else none

def ApnsEnvironment.ofText (s : String) : Option ApnsEnvironment :=
  if s = "sandbox" then some .sandbox else if s = "production" then some .production else none

def TokenKind.ofText (s : String) : Option TokenKind :=
  if s = "alert" then some .alert else if s = "voip" then some .voip else none

/-- The id, the token and the `updated_at` of a row when the push was planned. -/
structure Observation where
  rowId : String
  token : String
  updatedAt : Time
  deriving DecidableEq, Repr

/-- `ApnsDelivery` and `FcmDelivery`. -/
inductive PushDelivery where
  | apns (d : Observation) (environment : ApnsEnvironment) (kind : TokenKind)
  | fcm (d : Observation)
  deriving DecidableEq, Repr

def PushDelivery.observed : PushDelivery → Observation
  | .apns d _ _ => d
  | .fcm d => d

/-- `END_WAKE_VOIP_GATE_OPEN`. -/
def endWakeVoipGateOpen : Bool := false

/-- A delivery, or the reason why the row is skipped. -/
def planRow (wake : WakeKind) (configured : List Platform) (endWakeGateOpen : Bool)
    (row : DeviceToken) : Except String PushDelivery :=
  match Platform.ofText row.platform, TokenKind.ofText row.tokenKind with
  | some platform, some kind =>
      if platform ∉ configured then .error "transport_not_configured"
      else
        match platform with
        | .apns =>
            if kind = .voip ∧ wake = .callEnd ∧ endWakeGateOpen = false then
              .error "end_wake_gated_pending_4278"
            else if kind = .alert ∧ wake = .callEnd then .error "end_wake_needs_voip"
            else
              match ApnsEnvironment.ofText row.apnsEnvironment with
              | some environment => .ok (.apns ⟨row.id, row.token, row.updatedAt⟩ environment kind)
              | none => .error "unroutable_row"
        | .fcm => .ok (.fcm ⟨row.id, row.token, row.updatedAt⟩)
  | _, _ => .error "unroutable_row"

def planDeliveries (rows : List DeviceToken) (wake : WakeKind) (configured : List Platform)
    (endWakeGateOpen : Bool) : List PushDelivery :=
  rows.filterMap fun row => (planRow wake configured endWakeGateOpen row).toOption

/-- What is planned for a row: its own token, over the transport that the row names, and the end of
a call to no alert token of APNs nor through a closed gate. -/
theorem planRow_cases {wake : WakeKind} {configured : List Platform} {gate : Bool}
    {row : DeviceToken} {d : PushDelivery} (h : planRow wake configured gate row = .ok d) :
    (∃ environment kind, d = .apns ⟨row.id, row.token, row.updatedAt⟩ environment kind ∧
        Platform.ofText row.platform = some .apns ∧ TokenKind.ofText row.tokenKind = some kind ∧
        ApnsEnvironment.ofText row.apnsEnvironment = some environment ∧
        (wake = .callEnd → kind = .voip ∧ gate = true)) ∨
      d = .fcm ⟨row.id, row.token, row.updatedAt⟩ ∧ Platform.ofText row.platform = some .fcm := by
  unfold planRow at h
  split at h
  · rename_i platform kind hplatform hkind
    by_cases hconfigured : platform ∉ configured
    · rw [if_pos hconfigured] at h
      cases h
    · rw [if_neg hconfigured] at h
      cases platform with
      | apns =>
          dsimp only at h
          split_ifs at h with hgated halert
          split at h
          · rename_i environment henvironment
            cases h
            refine Or.inl ⟨environment, kind, rfl, hplatform, hkind, henvironment, fun hend => ?_⟩
            have hvoip : kind = .voip := by
              cases kind with
              | voip => rfl
              | alert => exact absurd ⟨rfl, hend⟩ halert
            refine ⟨hvoip, ?_⟩
            cases gate with
            | true => rfl
            | false => exact absurd ⟨hvoip, hend, rfl⟩ hgated
          · cases h
      | fcm =>
          cases h
          exact Or.inr ⟨rfl, hplatform⟩
  · cases h

theorem mem_planDeliveries {rows : List DeviceToken} {wake : WakeKind} {configured : List Platform}
    {gate : Bool} {d : PushDelivery} :
    d ∈ planDeliveries rows wake configured gate ↔
      ∃ row ∈ rows, planRow wake configured gate row = .ok d := by
  unfold planDeliveries
  rw [List.mem_filterMap]
  apply exists_congr
  intro row
  apply and_congr_right
  intro _
  cases planRow wake configured gate row with
  | ok d' => simp [Except.toOption]
  | error reason => simp [Except.toOption]

/-- A planned delivery carries the id, the token and the instant of one of the rows. -/
theorem row_of_planned {rows : List DeviceToken} {wake : WakeKind} {configured : List Platform}
    {gate : Bool} {r : PushDelivery} (h : r ∈ planDeliveries rows wake configured gate) :
    ∃ row ∈ rows, r.observed = ⟨row.id, row.token, row.updatedAt⟩ := by
  obtain ⟨row, hrow, hplan⟩ := mem_planDeliveries.mp h
  rcases planRow_cases hplan with ⟨environment, kind, rfl, _⟩ | ⟨rfl, _⟩
  · exact ⟨row, hrow, rfl⟩
  · exact ⟨row, hrow, rfl⟩

/-! ## Whom to wake -/

def memberIds (channelId : String) (db : Db) : List String :=
  ((db.memberships.filter fun m => m.channelId = channelId).map (·.userId)).dedup

def channelById (channelId : String) (db : Db) : Option Channel :=
  db.channels.find? fun c => c.id = channelId

/-- `_recipients`. -/
def recipients (channelId senderId : String) (excludeUserIds : List String) :
    Body (List String) := do
  match ← select (channelById channelId) with
  | none => return []
  | some channel =>
      if channel.kind ≠ .dm ∨ channel.isPrivate = false then return []
      else
        let members ← select (memberIds channelId)
        if senderId ∉ members ∨ members.length ≠ 2 then return []
        else
          let peers := members.filter fun u => u ≠ senderId
          let live ← select fun db =>
            (db.users.filter fun u => u.id ∈ peers && u.bannedAt.isNone).map (·.id)
          let blocked ← select fun db => db.blockedPairUserIds senderId
          return live.filter fun u => u ∉ excludeUserIds ++ blocked

/-- `_spoken_here`. -/
def spokenHere (channelId : String) (userIds : List String) : Body (List String) :=
  if userIds = [] then return []
  else do
    let spoken ← select fun db =>
      ((db.messages.filter fun m => m.channelId = channelId).filterMap (·.senderUserId)).filter
        fun u => u ∈ userIds
    return userIds.filter fun u => u ∈ spoken

/-! ## Waking -/

/-- The settings a wake reads: the transports with credentials, and the budget of a recipient. -/
structure PushConfig where
  configured : List Platform
  wakePerRecipientPerMinute : ℤ

structure WakePayload where
  channelId : String
  kind : WakeKind
  callId : PyStr

/-- What the transport of a delivery makes of the answer; `none` is an exception, caught. -/
def PushDelivery.result (r : PushDelivery) (answer : Answer) : Option SendResult :=
  match r with
  | .apns _ _ _ => Apns.send answer
  | .fcm _ => Fcm.send answer

def pushCall (payload : WakePayload) (r : PushDelivery) : Call :=
  .push r.observed.rowId r.observed.token payload.channelId payload.kind.value payload.callId

/-- The sends of the gather. -/
def pushAll (payload : WakePayload) : List PushDelivery → Body Unit
  | [] => return ()
  | r :: rest => do
      segment (fun _ m => m.log (pushCall payload r)) (fun _ => ()) .plain
      pushAll payload rest

/-- The deliveries that came back dead, with their orders. -/
def deadOf (answer : Observation → Answer) (deliveries : List PushDelivery) :
    List (Observation × Option ReapOrder) :=
  deliveries.filterMap fun r =>
    match r.result (answer r.observed) with
    | some ⟨.deadToken, order⟩ => some (r.observed, order)
    | _ => none

/-- The compare-and-delete of one row. -/
def reapRow (d : Observation) (order : ReapOrder) (db : Db) : Db :=
  { db with devices := db.devices.filter fun row =>
      !(row.id = d.rowId && row.token = d.token && row.updatedAt = d.updatedAt &&
        match order.notReregisteredSince with
        | some t => decide ((row.updatedAt : ℤ) ≤ t)
        | none => true) }

def reapAll : List (Observation × Option ReapOrder) → Body Unit
  | [] => return ()
  | (_, none) :: rest => reapAll rest
  | (d, some order) :: rest => do
      execute (reapRow d order) (fun _ => ()) .plain
      reapAll rest

def pushWake (cfg : PushConfig) (userId : String) (now : Time) (ws : RateLimit.Windows) :
    (Bool × ℕ) × RateLimit.Windows :=
  RateLimit.hit ws now "push_wake" userId cfg.wakePerRecipientPerMinute 60000000

/-- `_wake_user`, once the rows are read. -/
def wakeRows (cfg : PushConfig) (userId : String) (payload : WakePayload) (now : Time)
    (answer : Observation → Answer) (rows : List DeviceToken) : Body Unit :=
  let deliveries := planDeliveries rows payload.kind cfg.configured endWakeVoipGateOpen
  if deliveries = [] then return ()
  else do
    let allowed ← segment (fun _ m => { m with windows := (pushWake cfg userId now m.windows).2 })
      (fun m => (pushWake cfg userId now m.windows).1.1) .plain
    if allowed then
      pushAll payload deliveries
      let dead := deadOf answer deliveries
      reapAll dead
      if dead = [] then return () else commit
    else return ()

def wakeUser (cfg : PushConfig) (userId : String) (payload : WakePayload) (now : Time)
    (answer : Observation → Answer) : Body Unit := do
  let rows ← select fun db => db.devices.filter fun d => d.userId = userId
  wakeRows cfg userId payload now answer rows

def wakeEach (cfg : PushConfig) (payload : WakePayload) (now : Time)
    (answer : Observation → Answer) : List String → Body Unit
  | [] => return ()
  | userId :: rest => do
      (wakeUser cfg userId payload now answer).handle fun _ => rollback
      wakeEach cfg payload now answer rest

/-- `wake_for_message`, which swallows what is raised in it. -/
def wakeForMessage (cfg : PushConfig) (channelId : String) (channelKind : ChannelKind)
    (senderId : String) (body : PyStr) (excludeUserIds : List String) (now : Time)
    (answer : Observation → Answer) : Body Unit :=
  if cfg.configured = [] then return ()
  else
    match shouldWake channelKind body, parseCallBody body with
    | some wake, some (_, callId) =>
        (do
          let found ← recipients channelId senderId excludeUserIds
          let spoken ← spokenHere channelId found
          wakeEach cfg ⟨channelId, wake, callId⟩ now answer spoken : Body Unit).session.handle
            fun _ => return ()
    | _, _ => return ()

end AikoIsland.Calls
