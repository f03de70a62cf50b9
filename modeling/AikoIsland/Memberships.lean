import AikoIsland.Gateway
import AikoIsland.Footprint

/-!
# Channel access and membership changes

The ACL reads and the membership service: creating a channel with its admin,
adding a member, joining, removing a member and leaving. The three mutators
that can take a role away share one helper, which deletes with the last-admin
guard inside the statement when the role read earlier was admin, and without it
otherwise.

`SELECT ... FOR UPDATE` is a plain read on SQLite. An insert sits in a savepoint
so that a duplicate is refetched. `identityMap` holds the user rows that the
request's session has already loaded, which is what `session.get` returns
before it asks the database. A freshly minted id is an argument.
-/
namespace AikoIsland.Memberships
open Tables Gateway Footprint WriterLock

/-! ## Access -/

def readableChannel (userId channelId : String) : Body (Option Channel) :=
  select fun db => db.readableChannel userId channelId

def membership (channelId userId : String) : Body (Option Membership) :=
  select fun db => db.membershipOf channelId userId

/-- Public channels are open unless a row mutes; private ones need a row that may post. -/
def canPost (userId : String) (channel : Channel) : Body Bool := do
  let m ← membership channel.id userId
  if channel.isPrivate then
    return m.any (·.canPost)
  else
    return m.all (·.canPost)

/-! ## The guarded delete -/

def adminCount (db : Db) (channelId : String) : ℕ :=
  (db.memberships.filter fun m => m.channelId = channelId && m.role = .admin).length

/-- The WHERE clause of the membership DELETE; the count is taken inside the statement. -/
def deleteWhere (db : Db) (channelId userId : String) (isAdmin : Bool) (m : Membership) : Bool :=
  m.channelId = channelId && m.userId = userId &&
    (!isAdmin || decide (1 < adminCount db channelId))

def deleteMembership (channelId userId : String) (isAdmin : Bool) (db : Db) : Db :=
  { db with memberships := db.memberships.filter fun m =>
      !deleteWhere db channelId userId isAdmin m }

def deleteRowcount (channelId userId : String) (isAdmin : Bool) (db : Db) : ℕ :=
  (db.memberships.filter (deleteWhere db channelId userId isAdmin)).length

def deleteLabel (channelId userId : String) (isAdmin : Bool) : Label :=
  if isAdmin then .plain else .unguardedDelete channelId userId

@[simp] theorem deleteLabel_true (c u : String) : deleteLabel c u true = .plain := rfl
@[simp] theorem deleteLabel_false (c u : String) :
    deleteLabel c u false = .unguardedDelete c u := rfl

/-- `True` when the membership is gone, `False` when the last admin was kept. -/
def deleteMembershipUnlessLastAdmin (channelId userId : String) (isAdmin : Bool) :
    Body Bool := do
  if isAdmin then
    let _ ← select fun db => db.memberships.filter fun m =>
      m.channelId = channelId && m.role = .admin
  let rowcount ← execute (deleteMembership channelId userId isAdmin)
    (deleteRowcount channelId userId isAdmin) (deleteLabel channelId userId isAdmin)
  if 0 < rowcount then
    commitAs .membershipCommit
    return true
  else
    let still ← membership channelId userId
    commitAs .membershipCommit
    return still.isNone

/-! ## The mutators -/

def insertIdempotent (m : Membership) : Body Membership := do
  if ← flushNested (fun db => db.insertMembership m) .plain then
    commitAs .membershipCommit
    return m
  else
    match ← membership m.channelId m.userId with
    | some existing => return existing
    | none => throwExn .integrityError

/-- The channel when the actor may manage it, given a channel already resolved as readable. -/
def requireAdmin (channelId actorId : String) (channel : Option Channel) : Body Channel := do
  let channel ← match channel with
    | some c => pure (some c)
    | none => readableChannel actorId channelId
  match channel with
  | none => throwExn (.channelNotFound channelId)
  | some channel =>
      match ← membership channelId actorId with
      | none => throwExn (.notChannelAdmin channelId)
      | some actor =>
          if actor.role = .admin then return channel
          else throwExn (.notChannelAdmin channelId)

/-- `session.get(User, id)`. -/
def getUser (identityMap : List User) (id : String) : Body (Option User) :=
  match identityMap.find? fun u => u.id = id with
  | some u => pure (some u)
  | none => select fun db => db.userById id

/-- The membership joined with its user row; a membership without a user does not match. -/
def memberWithUser (db : Db) (channelId userId : String) : Option (Membership × User) :=
  (db.membershipOf channelId userId).bind fun m => (db.userById m.userId).map fun u => (m, u)

/-- `role if role in (Role.ADMIN, Role.MEMBER) else Role.MEMBER`. -/
def roleOf (role : String) : Role := if role = "admin" then .admin else .member

def addMember (identityMap : List User) (channelId actorId targetUserId role : String)
    (canPost : Bool) : Body (Membership × User) := do
  match ← readableChannel actorId channelId with
  | none => throwExn (.channelNotFound channelId)
  | some channel =>
      if channel.kind = .dm then throwExn (.dmMembershipImmutable channelId)
      else
        let _ ← requireAdmin channelId actorId (some channel)
        match ← select fun db => memberWithUser db channelId targetUserId with
        | some existing => return existing
        | none =>
            match ← getUser identityMap targetUserId with
            | none => throwExn (.notAMember targetUserId)
            | some target =>
                let m ← insertIdempotent ⟨channelId, targetUserId, roleOf role, canPost⟩
                return (m, target)

/-- Public, open to join, or already joined. -/
def joinableChannel (db : Db) (actorId channelId : String) : Option Channel :=
  db.channels.find? fun c => c.id = channelId && (!c.isPrivate || c.joinPolicy = .open ||
    db.memberships.any fun m => m.channelId = c.id && m.userId = actorId)

def selfJoin (channelId actorId : String) : Body Membership := do
  match ← select fun db => joinableChannel db actorId channelId with
  | none => throwExn (.channelNotFound channelId)
  | some channel =>
      match ← membership channelId actorId with
      | some existing => return existing
      | none =>
          if channel.kind = .dm then throwExn (.dmMembershipImmutable channelId)
          else insertIdempotent ⟨channelId, actorId, .member, true⟩

def removeMember (channelId actorId targetUserId : String) : Body Unit := do
  match ← readableChannel actorId channelId with
  | none => throwExn (.channelNotFound channelId)
  | some channel =>
      if channel.kind = .dm then throwExn (.dmMembershipImmutable channelId)
      else
        let _ ← requireAdmin channelId actorId (some channel)
        match ← membership channelId targetUserId with
        | none => throwExn (.notAMember targetUserId)
        | some target =>
            if ← deleteMembershipUnlessLastAdmin channelId targetUserId
                (target.role = .admin) then
              return ()
            else throwExn (.lastAdmin channelId)

def leave (channelId actorId : String) : Body Unit := do
  match ← membership channelId actorId with
  | none => throwExn (.notAMember actorId)
  | some mine =>
      if ← deleteMembershipUnlessLastAdmin channelId actorId (mine.role = .admin) then
        return ()
      else throwExn (.lastAdmin channelId)

def joinPolicyOf (joinPolicy : String) : JoinPolicy :=
  if joinPolicy = "open" then .open else .inviteOnly

/-- The row that `create_channel` adds under the minted id. -/
def newChannel (channelId name : String) (isPrivate : Bool) (joinPolicy : String)
    (kind : ChannelKind) (aikoChannel : Option String) : Channel where
  id := channelId
  name := name
  kind := kind
  aikoChannel := match aikoChannel with
    | some a => if a = "" then "ch_" ++ channelId else a
    | none => "ch_" ++ channelId
  isPrivate := isPrivate
  joinPolicy := if isPrivate then joinPolicyOf joinPolicy else .open

def createChannel (channelId creatorId name : String) (isPrivate : Bool) (joinPolicy : String)
    (kind : ChannelKind) (aikoChannel : Option String) : Body Channel := do
  if kind = .dm || aikoChannel.any Db.isDmChannelName then
    throwExn (.valueError
      "DMs are created via dm_service.get_or_create_dm, not create_channel")
  else
    let channel := newChannel channelId name isPrivate joinPolicy kind aikoChannel
    flushOrRaise (fun db => db.insertChannel channel) .plain
    flushOrRaise (fun db => db.insertMembership ⟨channelId, creatorId, .admin, true⟩) .plain
    commit
    return channel

/-! ## Footprints -/

/-- The one write of the joining mutators. -/
inductive MembershipInsert : Label → (Db → Option Db) → Prop
  | row (m : Membership) : MembershipInsert .plain fun db => db.insertMembership m

/-- The writes of the membership mutators on an existing channel. -/
inductive MembershipWrite : Label → (Db → Option Db) → Prop
  | delete (c u : String) (isAdmin : Bool) : MembershipWrite (deleteLabel c u isAdmin)
      fun db => some (deleteMembership c u isAdmin db)
  | insert {t : Label} {f : Db → Option Db} (h : MembershipInsert t f) : MembershipWrite t f

/-- No segment on the memory. -/
def NoSegment (_ : Label) (_ : Db → Memory → Memory) : Prop := False

theorem uses_canPost {W : Label → (Db → Option Db) → Prop}
    {A : Label → (Db → Memory → Memory) → Prop} (userId : String) (channel : Channel) :
    Uses W A (canPost userId channel) := by
  refine Uses.bind (r := membership channel.id userId) (Uses.query _) fun m => ?_
  split_ifs <;> exact trivial

theorem uses_deleteUnlessLastAdmin (c u : String) (isAdmin : Bool) :
    Uses MembershipWrite NoSegment (deleteMembershipUnlessLastAdmin c u isAdmin) := by
  have hrest : Uses MembershipWrite NoSegment (do
      let rowcount ← execute (deleteMembership c u isAdmin) (deleteRowcount c u isAdmin)
        (deleteLabel c u isAdmin)
      if 0 < rowcount then
        commitAs .membershipCommit
        return true
      else
        let still ← membership c u
        commitAs .membershipCommit
        return still.isNone) := by
    refine Uses.bind (Uses.exec (.delete c u isAdmin)) fun n => ?_
    split_ifs
    · exact trivial
    · exact fun _ => trivial
  cases isAdmin with
  | false => exact hrest
  | true => exact fun _ => hrest

theorem uses_insertIdempotent (m : Membership) :
    Uses MembershipInsert NoSegment (insertIdempotent m) := by
  refine Uses.bind (Uses.attempt (.row m)) fun ok => ?_
  cases ok with
  | true => exact trivial
  | false =>
      refine Uses.bind (Uses.query _) fun existing => ?_
      cases existing <;> exact trivial

theorem uses_requireAdmin {W : Label → (Db → Option Db) → Prop} (c a : String)
    (channel : Channel) : Uses W NoSegment (requireAdmin c a (some channel)) := by
  refine Uses.bind (r := membership c a) (Uses.query _) fun actor => ?_
  cases actor with
  | none => exact trivial
  | some actor => dsimp only; split_ifs <;> exact trivial

theorem uses_addMember (identityMap : List User) (c a t role : String) (canPost : Bool) :
    Uses MembershipInsert NoSegment (addMember identityMap c a t role canPost) := by
  refine Uses.bind (Uses.query _) fun channel => ?_
  cases channel with
  | none => exact trivial
  | some channel =>
      dsimp only
      split_ifs
      · exact trivial
      · refine Uses.bind (uses_requireAdmin c a channel) fun _ => ?_
        refine Uses.bind (Uses.query _) fun existing => ?_
        cases existing with
        | some existing => exact trivial
        | none =>
            refine Uses.bind ?_ fun target => ?_
            · unfold getUser
              split
              · exact trivial
              · exact Uses.query _
            · cases target with
              | none => exact trivial
              | some target => exact Uses.bind (uses_insertIdempotent _) fun _ => trivial

theorem uses_selfJoin (c a : String) : Uses MembershipInsert NoSegment (selfJoin c a) := by
  refine Uses.bind (Uses.query _) fun channel => ?_
  cases channel with
  | none => exact trivial
  | some channel =>
      refine Uses.bind (Uses.query _) fun existing => ?_
      cases existing with
      | some existing => exact trivial
      | none =>
          dsimp only
          split_ifs
          · exact trivial
          · exact uses_insertIdempotent _

theorem uses_removeMember (c a t : String) :
    Uses MembershipWrite NoSegment (removeMember c a t) := by
  refine Uses.bind (Uses.query _) fun channel => ?_
  cases channel with
  | none => exact trivial
  | some channel =>
      dsimp only
      split_ifs
      · exact trivial
      · refine Uses.bind (uses_requireAdmin c a channel) fun _ => ?_
        refine Uses.bind (Uses.query _) fun target => ?_
        cases target with
        | none => exact trivial
        | some target =>
            refine Uses.bind (uses_deleteUnlessLastAdmin _ _ _) fun ok => ?_
            cases ok <;> exact trivial

theorem uses_leave (c a : String) : Uses MembershipWrite NoSegment (leave c a) := by
  refine Uses.bind (Uses.query _) fun mine => ?_
  cases mine with
  | none => exact trivial
  | some mine =>
      refine Uses.bind (uses_deleteUnlessLastAdmin _ _ _) fun ok => ?_
      cases ok <;> exact trivial

end AikoIsland.Memberships
