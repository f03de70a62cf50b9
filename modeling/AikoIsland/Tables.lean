import Mathlib.Tactic

/-!
# The tables of the island

The rows of the SQLite schema, with the columns that some modelled function
reads or writes; a table is the list of its rows in rowid order. The inserts
carry the primary keys, the UNIQUE constraints and the CHECK constraints of the
schema, so that a refused insert is an `IntegrityError`. Foreign keys are off,
as deployed: a row may name a user, a channel or a message that is gone.

Times are microseconds of the server clock; a message from the bus may carry an
earlier instant. Ids are ULID texts. Three columns are history only, written with
the row and read by no statement: `author` of a passkey credential and of a
signing key says which authority wrote the row, `rekeys` lists the committed
recoveries, and `deviceIds` the ids that device rows were inserted under. They let
a result speak about where a row came from.
-/
namespace AikoIsland.Tables

abbrev Time := ℕ

/-- A Python string: its code points, lone surrogates included. -/
abbrev PyStr := List ℕ

instance : LawfulBEq PyStr := inferInstanceAs (LawfulBEq (List ℕ))

def codes (s : String) : PyStr := s.toList.map Char.toNat

inductive Role where
  | admin
  | member
  deriving DecidableEq, Repr

inductive JoinPolicy where
  | inviteOnly
  | open
  deriving DecidableEq, Repr

inductive ChannelKind where
  | standard
  | llm
  | robot
  | dm
  deriving DecidableEq, Repr

inductive PasskeyOperation where
  | register
  | authenticate
  | recover
  deriving DecidableEq, Repr

inductive UserKind where
  | human
  | agent
  deriving DecidableEq, Repr

inductive SenderKind where
  | human
  | agent
  | unknown
  deriving DecidableEq, Repr

/-- `SenderKind(user.kind)`: the two account kinds are sender kinds under the same value. -/
def UserKind.senderKind : UserKind → SenderKind
  | .human => .human
  | .agent => .agent

structure User where
  id : String
  username : String
  displayName : String := ""
  passwordHash : Option String := none
  aikoUsername : String
  handleAssigned : Bool := false
  bannedAt : Option Time := none
  tokenGeneration : ℕ := 0
  kind : UserKind := .human
  handleChangedAt : Option Time := none
  deriving DecidableEq, Repr

structure Channel where
  id : String
  name : String
  kind : ChannelKind := .standard
  aikoChannel : String
  isPrivate : Bool := false
  joinPolicy : JoinPolicy := .inviteOnly
  communityId : Option String := some "00000000000000000000000000"
  deriving DecidableEq, Repr

structure Membership where
  channelId : String
  userId : String
  role : Role := .member
  canPost : Bool := true
  deriving DecidableEq, Repr

/-- The sovereign-signing envelope, carried verbatim; the gateway reads two of its fields. -/
structure Origin where
  senderPubkey : String
  keyVersion : ℕ
  sig : String
  deriving DecidableEq, Repr

structure MentionSpan where
  offset : ℕ
  length : ℕ
  targetType : String
  targetId : String
  deriving DecidableEq, Repr

structure Message where
  id : String
  channelId : String
  senderUserId : Option String
  senderKind : SenderKind := .human
  senderLabel : Option String := none
  body : String
  replyTo : Option String := none
  clientMsgId : Option String := none
  aikoOrigin : Bool := false
  origin : Option Origin := none
  mentions : Option (List MentionSpan) := none
  createdAt : ℤ := 0
  deletedAt : Option Time := none
  deriving DecidableEq, Repr

structure Retraction where
  id : String
  targetMsgId : String
  channelId : String
  createdAt : Time := 0
  deriving DecidableEq, Repr

structure UserBlock where
  blockerUserId : String
  blockedUserId : String
  deriving DecidableEq, Repr

inductive ReportResolution where
  | takenDown
  | dismissed
  deriving DecidableEq, Repr

inductive ReportReason where
  | spam
  | harassment
  | hate
  | violence
  | sexual
  | other
  deriving DecidableEq, Repr

structure MessageReport where
  id : String
  messageId : String
  reporterUserId : Option String
  reason : ReportReason := .other
  resolvedAt : Option Time := none
  resolvedByUserId : Option String := none
  resolution : Option ReportResolution := none
  deriving DecidableEq, Repr

/-- Which authority wrote a credential or key row: a session of a token generation, or a
recovery. -/
inductive Author where
  | session (generation : ℕ)
  | recovery
  deriving DecidableEq, Repr

structure PasskeyCredential where
  id : String
  credentialId : String
  userId : String
  publicKey : String
  signCount : ℕ := 0
  transports : Option String := none
  aaguid : Option String := none
  author : Author
  deriving DecidableEq, Repr

structure PasskeyChallenge where
  state : String
  operation : PasskeyOperation
  expiresAt : Time
  consumed : Bool := false
  deriving DecidableEq, Repr

structure SigningKey where
  id : String
  userId : String
  pubkey : String
  keyVersion : ℕ := 1
  firstSeenAt : Time
  lastSeenAt : Time
  author : Author
  deriving DecidableEq, Repr

structure RecoveryPolicy where
  id : String
  userId : String
  thresholdK : ℕ
  deriving DecidableEq, Repr

structure RecoveryApprover where
  id : String
  userId : String
  approverPubkey : String
  deriving DecidableEq, Repr

structure PendingRecovery where
  id : String
  userId : String
  stagedCredentialId : String
  stagedPublicKey : String
  stagedSignCount : ℕ := 0
  vetoDeadline : Time
  finalizeTokenHash : String
  createdAt : Time := 0
  deriving DecidableEq, Repr

structure MessageReaction where
  messageId : String
  userId : String
  emoji : String
  origin : Option Origin := none
  createdAt : Time := 0
  deriving DecidableEq, Repr

/-- The closed sets of this row are texts under CHECK constraints. -/
structure DeviceToken where
  id : String
  userId : String
  token : String
  platform : String := "apns"
  apnsEnvironment : String := "production"
  tokenKind : String := "alert"
  updatedAt : Time := 0
  installId : Option String := none
  deriving DecidableEq, Repr

structure SocialIdentity where
  id : String
  provider : String := ""
  providerSub : String := ""
  userId : String
  deriving DecidableEq, Repr

/-- The JSON object of a handoff; `none` is a field that is absent or null. -/
structure HandoffPayload where
  kind : Option String := none
  userId : Option String := none
  provider : Option String := none
  providerSub : Option String := none
  suggestedName : Option String := none
  email : Option String := none
  appChallenge : Option String := none
  deriving DecidableEq, Repr

/-- A payload that is not JSON is `none`. -/
structure OAuthHandoff where
  code : String
  payload : Option HandoffPayload
  expiresAt : Time
  consumed : Bool := false
  deriving DecidableEq, Repr

structure OAuthState where
  nonce : String
  provider : String
  codeVerifier : Option String := none
  appChallenge : Option String := none
  expiresAt : Time
  consumed : Bool := false
  deriving DecidableEq, Repr

structure SocialNonce where
  nonce : String
  expiresAt : Time
  consumed : Bool := false
  deriving DecidableEq, Repr

inductive Visibility where
  | public_
  | unlisted
  | private_
  deriving DecidableEq, Repr

inductive Category where
  | general
  | tech
  | gaming
  | social
  | music
  | education
  | other
  deriving DecidableEq, Repr

structure Community where
  id : String
  name : String := ""
  visibility : Visibility := .public_
  category : Category := .general
  memberCount : ℤ := 0
  ownerId : Option String := none
  takenDownAt : Option Time := none
  deriving DecidableEq, Repr

structure CommunityMembership where
  communityId : String
  userId : String
  deriving DecidableEq, Repr

/-- `seq` is the island's version of the row. -/
structure ChannelReadPosition where
  userId : String
  channelId : String
  lastRead : String := ""
  seq : ℤ := 1
  updatedAt : Time := 0
  deriving DecidableEq, Repr

/-- A committed recovery: the account, its new token generation and the installed credential. -/
structure Rekey where
  userId : String
  generation : ℕ
  credentialId : String
  deriving DecidableEq, Repr

structure Db where
  users : List User := []
  channels : List Channel := []
  memberships : List Membership := []
  messages : List Message := []
  retractions : List Retraction := []
  blocks : List UserBlock := []
  reports : List MessageReport := []
  credentials : List PasskeyCredential := []
  challenges : List PasskeyChallenge := []
  signingKeys : List SigningKey := []
  policies : List RecoveryPolicy := []
  approvers : List RecoveryApprover := []
  pending : List PendingRecovery := []
  reactions : List MessageReaction := []
  devices : List DeviceToken := []
  identities : List SocialIdentity := []
  communities : List Community := []
  communityMemberships : List CommunityMembership := []
  readPositions : List ChannelReadPosition := []
  handoffs : List OAuthHandoff := []
  oauthStates : List OAuthState := []
  socialNonces : List SocialNonce := []
  rekeys : List Rekey := []
  deviceIds : List String := []

/-! ## Inserts -/

/-- Append `r` unless a row of the table clashes with it. -/
def insertRow {α : Type} (clash : α → Bool) (rows : List α) (r : α) : Option (List α) :=
  if rows.any clash then none else some (rows ++ [r])

theorem insertRow_eq_some {α : Type} {clash : α → Bool} {rows rows' : List α} {r : α} :
    insertRow clash rows r = some rows' ↔
      (∀ x ∈ rows, clash x = false) ∧ rows' = rows ++ [r] := by
  unfold insertRow
  split_ifs with h
  · simp only [List.any_eq_true] at h
    obtain ⟨x, hx, hc⟩ := h
    constructor
    · intro hn
      cases hn
    · intro hn
      rw [hn.1 x hx] at hc
      cases hc
  · simp only [List.any_eq_true, not_exists, not_and, Bool.not_eq_true] at h
    constructor
    · intro hs
      exact ⟨h, (Option.some.inj hs).symm⟩
    · intro hs
      rw [hs.2]

theorem insertRow_eq_none {α : Type} {clash : α → Bool} {rows : List α} {r : α} :
    insertRow clash rows r = none ↔ ∃ x ∈ rows, clash x = true := by
  unfold insertRow
  split_ifs with h
  · simpa [List.any_eq_true] using h
  · simpa [List.any_eq_true] using h

theorem map_insertRow_eq_some {α β : Type} {clash : α → Bool} {rows : List α} {r : α}
    {f : List α → β} {b : β} :
    (insertRow clash rows r).map f = some b ↔
      (∀ x ∈ rows, clash x = false) ∧ b = f (rows ++ [r]) := by
  rw [Option.map_eq_some_iff]
  constructor
  · rintro ⟨rows', hrows, rfl⟩
    obtain ⟨hclash, rfl⟩ := insertRow_eq_some.1 hrows
    exact ⟨hclash, rfl⟩
  · rintro ⟨hclash, rfl⟩
    exact ⟨_, insertRow_eq_some.2 ⟨hclash, rfl⟩, rfl⟩

namespace Db

/-- `dm:` is the reserved namespace of direct-message channels. -/
def isDmChannelName (name : String) : Bool := "dm:".toList.isPrefixOf name.toList

/-- The CHECK constraints of `channels`. -/
def channelChecks (c : Channel) : Bool :=
  if c.kind = .dm then
    c.communityId.isNone && c.isPrivate && isDmChannelName c.aikoChannel &&
      decide (c.joinPolicy = .inviteOnly)
  else c.communityId.isSome && !isDmChannelName c.aikoChannel

def insertChannel (db : Db) (c : Channel) : Option Db :=
  if channelChecks c then
    (insertRow (fun x => x.id = c.id || x.aikoChannel = c.aikoChannel) db.channels c).map
      fun rows => { db with channels := rows }
  else none

def insertMembership (db : Db) (m : Membership) : Option Db :=
  (insertRow (fun x => x.channelId = m.channelId && x.userId = m.userId) db.memberships m).map
    fun rows => { db with memberships := rows }

/-- UNIQUE (channel_id, client_msg_id) lets NULL client ids repeat. -/
def insertMessage (db : Db) (m : Message) : Option Db :=
  (insertRow (fun x => x.id = m.id ||
      (m.clientMsgId.isSome && x.channelId = m.channelId && x.clientMsgId = m.clientMsgId))
    db.messages m).map fun rows => { db with messages := rows }

def insertRetraction (db : Db) (r : Retraction) : Option Db :=
  (insertRow (fun x => x.id = r.id) db.retractions r).map
    fun rows => { db with retractions := rows }

def insertCredential (db : Db) (c : PasskeyCredential) : Option Db :=
  (insertRow (fun x => x.id = c.id || x.credentialId = c.credentialId) db.credentials c).map
    fun rows => { db with credentials := rows }

def insertChallenge (db : Db) (c : PasskeyChallenge) : Option Db :=
  (insertRow (fun x => x.state = c.state) db.challenges c).map
    fun rows => { db with challenges := rows }

def insertSigningKey (db : Db) (k : SigningKey) : Option Db :=
  (insertRow (fun x => x.id = k.id || (x.userId = k.userId && x.pubkey = k.pubkey))
    db.signingKeys k).map fun rows => { db with signingKeys := rows }

def insertPending (db : Db) (r : PendingRecovery) : Option Db :=
  (insertRow (fun x => x.id = r.id || x.userId = r.userId) db.pending r).map
    fun rows => { db with pending := rows }

def insertHandoff (db : Db) (r : OAuthHandoff) : Option Db :=
  (insertRow (fun x => x.code = r.code) db.handoffs r).map
    fun rows => { db with handoffs := rows }

def insertSocialNonce (db : Db) (r : SocialNonce) : Option Db :=
  (insertRow (fun x => x.nonce = r.nonce) db.socialNonces r).map
    fun rows => { db with socialNonces := rows }

def insertOAuthState (db : Db) (r : OAuthState) : Option Db :=
  (insertRow (fun x => x.nonce = r.nonce) db.oauthStates r).map
    fun rows => { db with oauthStates := rows }

def insertReport (db : Db) (r : MessageReport) : Option Db :=
  (insertRow (fun x => x.id = r.id ||
      (r.reporterUserId.isSome && x.messageId = r.messageId &&
        x.reporterUserId = r.reporterUserId))
    db.reports r).map fun rows => { db with reports := rows }

def insertBlock (db : Db) (b : UserBlock) : Option Db :=
  (insertRow (fun x => x.blockerUserId = b.blockerUserId && x.blockedUserId = b.blockedUserId)
    db.blocks b).map fun rows => { db with blocks := rows }

/-- The CHECK constraints of `device_tokens`. -/
def deviceChecks (d : DeviceToken) : Bool :=
  (d.platform = "apns" || d.platform = "fcm") &&
    (d.apnsEnvironment = "sandbox" || d.apnsEnvironment = "production") &&
    (d.tokenKind = "alert" || d.tokenKind = "voip")

def insertDevice (db : Db) (d : DeviceToken) : Option Db :=
  if deviceChecks d then
    (insertRow (fun x => x.id = d.id || x.token = d.token) db.devices d).map
      fun rows => { db with devices := rows, deviceIds := db.deviceIds ++ [d.id] }
  else none

def insertCommunityMembership (db : Db) (m : CommunityMembership) : Option Db :=
  (insertRow (fun x => x.communityId = m.communityId && x.userId = m.userId)
    db.communityMemberships m).map fun rows => { db with communityMemberships := rows }

theorem insertChannel_eq_some {db db' : Db} {c : Channel} :
    db.insertChannel c = some db' ↔ channelChecks c = true ∧
      (∀ x ∈ db.channels, x.id ≠ c.id ∧ x.aikoChannel ≠ c.aikoChannel) ∧
      db' = { db with channels := db.channels ++ [c] } := by
  unfold insertChannel
  split_ifs with hc
  · rw [map_insertRow_eq_some]
    simp [hc]
  · simp [hc]

theorem insertMembership_eq_some {db db' : Db} {m : Membership} :
    db.insertMembership m = some db' ↔
      (∀ x ∈ db.memberships, ¬(x.channelId = m.channelId ∧ x.userId = m.userId)) ∧
      db' = { db with memberships := db.memberships ++ [m] } := by
  rw [insertMembership, map_insertRow_eq_some]
  simp

theorem insertMessage_eq_some {db db' : Db} {m : Message} :
    db.insertMessage m = some db' ↔
      (∀ x ∈ db.messages, x.id ≠ m.id ∧
        (m.clientMsgId.isSome → x.channelId = m.channelId → x.clientMsgId ≠ m.clientMsgId)) ∧
      db' = { db with messages := db.messages ++ [m] } := by
  rw [insertMessage, map_insertRow_eq_some]
  simp

theorem insertCredential_eq_some {db db' : Db} {c : PasskeyCredential} :
    db.insertCredential c = some db' ↔
      (∀ x ∈ db.credentials, x.id ≠ c.id ∧ x.credentialId ≠ c.credentialId) ∧
      db' = { db with credentials := db.credentials ++ [c] } := by
  rw [insertCredential, map_insertRow_eq_some]
  simp

theorem insertChallenge_eq_some {db db' : Db} {c : PasskeyChallenge} :
    db.insertChallenge c = some db' ↔ (∀ x ∈ db.challenges, x.state ≠ c.state) ∧
      db' = { db with challenges := db.challenges ++ [c] } := by
  rw [insertChallenge, map_insertRow_eq_some]
  simp

theorem insertHandoff_eq_some {db db' : Db} {r : OAuthHandoff} :
    db.insertHandoff r = some db' ↔ (∀ x ∈ db.handoffs, x.code ≠ r.code) ∧
      db' = { db with handoffs := db.handoffs ++ [r] } := by
  rw [insertHandoff, map_insertRow_eq_some]
  simp

theorem insertSocialNonce_eq_some {db db' : Db} {r : SocialNonce} :
    db.insertSocialNonce r = some db' ↔ (∀ x ∈ db.socialNonces, x.nonce ≠ r.nonce) ∧
      db' = { db with socialNonces := db.socialNonces ++ [r] } := by
  rw [insertSocialNonce, map_insertRow_eq_some]
  simp

theorem insertOAuthState_eq_some {db db' : Db} {r : OAuthState} :
    db.insertOAuthState r = some db' ↔ (∀ x ∈ db.oauthStates, x.nonce ≠ r.nonce) ∧
      db' = { db with oauthStates := db.oauthStates ++ [r] } := by
  rw [insertOAuthState, map_insertRow_eq_some]
  simp

theorem insertSigningKey_eq_some {db db' : Db} {k : SigningKey} :
    db.insertSigningKey k = some db' ↔
      (∀ x ∈ db.signingKeys, x.id ≠ k.id ∧ (x.userId = k.userId → x.pubkey ≠ k.pubkey)) ∧
      db' = { db with signingKeys := db.signingKeys ++ [k] } := by
  rw [insertSigningKey, map_insertRow_eq_some]
  simp

theorem insertPending_eq_some {db db' : Db} {r : PendingRecovery} :
    db.insertPending r = some db' ↔ (∀ x ∈ db.pending, x.id ≠ r.id ∧ x.userId ≠ r.userId) ∧
      db' = { db with pending := db.pending ++ [r] } := by
  rw [insertPending, map_insertRow_eq_some]
  simp

theorem insertBlock_eq_some {db db' : Db} {b : UserBlock} :
    db.insertBlock b = some db' ↔ b ∉ db.blocks ∧ db' = { db with blocks := db.blocks ++ [b] } := by
  rw [insertBlock, map_insertRow_eq_some]
  have hclash : (∀ x ∈ db.blocks, (decide (x.blockerUserId = b.blockerUserId) &&
      decide (x.blockedUserId = b.blockedUserId)) = false) ↔ b ∉ db.blocks := by
    constructor
    · intro h hb
      simpa using h b hb
    · intro h x hx
      rw [Bool.and_eq_false_iff, decide_eq_false_iff_not, decide_eq_false_iff_not]
      by_contra hne
      push Not at hne
      apply h
      have hxb : x = b := by
        cases x
        cases b
        exact congrArg₂ UserBlock.mk hne.1 hne.2
      exact hxb ▸ hx
  rw [hclash]

theorem insertDevice_eq_some {db db' : Db} {d : DeviceToken} :
    db.insertDevice d = some db' ↔ deviceChecks d = true ∧
      (∀ x ∈ db.devices, x.id ≠ d.id ∧ x.token ≠ d.token) ∧
      db' = { db with
        devices := db.devices ++ [d]
        deviceIds := db.deviceIds ++ [d.id] } := by
  unfold insertDevice
  split_ifs with hc
  · rw [map_insertRow_eq_some]
    simp [hc]
  · simp [hc]

theorem insertCommunityMembership_eq_some {db db' : Db} {m : CommunityMembership} :
    db.insertCommunityMembership m = some db' ↔
      (∀ x ∈ db.communityMemberships, ¬(x.communityId = m.communityId ∧ x.userId = m.userId)) ∧
      db' = { db with communityMemberships := db.communityMemberships ++ [m] } := by
  rw [insertCommunityMembership, map_insertRow_eq_some]
  simp

theorem insertReport_eq_some {db db' : Db} {r : MessageReport} :
    db.insertReport r = some db' ↔
      (∀ x ∈ db.reports, x.id ≠ r.id ∧ (r.reporterUserId.isSome → x.messageId = r.messageId →
        x.reporterUserId ≠ r.reporterUserId)) ∧
      db' = { db with reports := db.reports ++ [r] } := by
  rw [insertReport, map_insertRow_eq_some]
  simp

theorem insertRetraction_eq_some {db db' : Db} {r : Retraction} :
    db.insertRetraction r = some db' ↔ (∀ x ∈ db.retractions, x.id ≠ r.id) ∧
      db' = { db with retractions := db.retractions ++ [r] } := by
  rw [insertRetraction, map_insertRow_eq_some]
  simp

/-! ## Reads shared by several services -/

def userById (db : Db) (id : String) : Option User := db.users.find? fun u => u.id = id

def membershipOf (db : Db) (channelId userId : String) : Option Membership :=
  db.memberships.find? fun m => m.channelId = channelId && m.userId = userId

/-- The users in a block relationship with `userId`, in either direction. -/
def blockedPairUserIds (db : Db) (userId : String) : List String :=
  (db.blocks.filter fun b => b.blockerUserId = userId).map (·.blockedUserId) ++
    (db.blocks.filter fun b => b.blockedUserId = userId).map (·.blockerUserId)

/-- `acl._readable_predicate`: the channel is public, or the user has a membership row. -/
def readablePredicate (db : Db) (userId : String) (c : Channel) : Bool :=
  !c.isPrivate || db.memberships.any fun m => m.channelId = c.id && m.userId = userId

def readableChannel (db : Db) (userId channelId : String) : Option Channel :=
  db.channels.find? fun c => c.id = channelId && db.readablePredicate userId c

def filterReadableIds (db : Db) (userId : String) (channelIds : List String) : List String :=
  channelIds.filter fun id => (db.readableChannel userId id).isSome

theorem mem_of_membershipOf {db : Db} {c u : String} {m : Membership}
    (h : db.membershipOf c u = some m) :
    m ∈ db.memberships ∧ m.channelId = c ∧ m.userId = u := by
  have hp := List.find?_some h
  simp only [Bool.and_eq_true, decide_eq_true_eq] at hp
  exact ⟨List.mem_of_find?_eq_some h, hp⟩

theorem mem_of_userById {db : Db} {id : String} {u : User} (h : db.userById id = some u) :
    u ∈ db.users ∧ u.id = id :=
  ⟨List.mem_of_find?_eq_some h, by simpa using List.find?_some h⟩

/-- An UPDATE that keeps the ids changes what a lookup finds, not whether it finds. -/
theorem userById_map (db : Db) {g : User → User} (hg : ∀ u, (g u).id = u.id) (id : String) :
    ({ db with users := db.users.map g } : Db).userById id = (db.userById id).map g := by
  simp only [userById, List.find?_map]
  congr 2
  funext u
  simp [hg]

theorem mem_of_readableChannel {db : Db} {u id : String} {c : Channel}
    (h : db.readableChannel u id = some c) :
    c ∈ db.channels ∧ c.id = id ∧ db.readablePredicate u c = true := by
  have hp := List.find?_some h
  simp only [Bool.and_eq_true, decide_eq_true_eq] at hp
  exact ⟨List.mem_of_find?_eq_some h, hp⟩

end Db

end AikoIsland.Tables
