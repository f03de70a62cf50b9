import AikoIsland.Recovery

/-!
# Account deletion and moderation

Deletion removes the user's admin memberships channel by channel, each with a
guarded DELETE, and refuses when one of them is the last; then it tears down
every row that names the user, in the order of the source, and commits. The
channel list is read before the first write, and the last membership statement
of the teardown carries no guard.

Ban, takedown and dismissal are the moderation writes that other results need. The
columns an ORM object changed are flushed by primary key, and a row that is
gone by then raises `StaleDataError`.
-/
namespace AikoIsland.Accounts
open Tables Gateway Footprint Memberships Passkeys SigningKeys Recovery WriterLock

/-! ## Admin memberships -/

def adminChannels (userId : String) (db : Db) : List String :=
  ((db.memberships.filter fun m => m.userId = userId && m.role = .admin).map
    (·.channelId)).insertionSort (· ≤ ·)

def adminDeleteWhere (db : Db) (channelId userId : String) (m : Membership) : Bool :=
  m.channelId = channelId && m.userId = userId && m.role = .admin &&
    decide (1 < adminCount db channelId)

def deleteAdminMembership (channelId userId : String) (db : Db) : Db :=
  { db with memberships := db.memberships.filter fun m =>
      !adminDeleteWhere db channelId userId m }

def adminDeleteRowcount (channelId userId : String) (db : Db) : ℕ :=
  (db.memberships.filter (adminDeleteWhere db channelId userId)).length

/-- The refused channels among `channelIds`. -/
def removeAdminMemberships (userId : String) : List String → Body (List String)
  | [] => return []
  | channelId :: channelIds => do
      let _ ← select fun db => db.memberships.filter fun m =>
        m.channelId = channelId && m.role = .admin
      let rowcount ← execute (deleteAdminMembership channelId userId)
        (adminDeleteRowcount channelId userId) .plain
      let stillPresent ← if rowcount = 0 then
          select fun db => db.memberships.any fun m =>
            m.channelId = channelId && m.userId = userId && m.role = .admin
        else pure false
      let refused ← removeAdminMemberships userId channelIds
      return if stillPresent then channelId :: refused else refused

def removeAdminMembershipsOrRefuse (userId : String) : Body Unit := do
  let channelIds ← select (adminChannels userId)
  let refused ← removeAdminMemberships userId channelIds
  if refused = [] then return () else throwExn (.cannotDeleteSoleAdmin refused)

/-! ## The teardown -/

def deletedUserLabel : String := "[deleted user]"

def deletedBody : String := "[deleted]"

def tombstoneMessages (userId : String) (db : Db) : Db :=
  { db with messages := db.messages.map fun m =>
      if m.senderUserId = some userId then
        { m with
          senderUserId := none
          senderLabel := some deletedUserLabel
          body := deletedBody
          clientMsgId := none
          mentions := none }
      else m }

def purgeBlocks (userId : String) (db : Db) : Db :=
  { db with blocks := db.blocks.filter fun b =>
      !(b.blockerUserId = userId || b.blockedUserId = userId) }

def anonymizeReporter (userId : String) (db : Db) : Db :=
  { db with reports := db.reports.map fun r =>
      if r.reporterUserId = some userId then { r with reporterUserId := none } else r }

def anonymizeResolver (userId : String) (db : Db) : Db :=
  { db with reports := db.reports.map fun r =>
      if r.resolvedByUserId = some userId then { r with resolvedByUserId := none } else r }

def purgeReactions (userId : String) (db : Db) : Db :=
  { db with reactions := db.reactions.filter fun r => r.userId ≠ userId }

def purgeDevices (userId : String) (db : Db) : Db :=
  { db with devices := db.devices.filter fun d => d.userId ≠ userId }

def decrementMemberCounts (userId : String) (db : Db) : Db :=
  { db with communities := db.communities.map fun c =>
      if db.communityMemberships.any fun m => m.communityId = c.id && m.userId = userId then
        { c with memberCount := c.memberCount - 1 }
      else c }

def deleteCommunityMemberships (userId : String) (db : Db) : Db :=
  { db with communityMemberships := db.communityMemberships.filter fun m => m.userId ≠ userId }

def clearCommunityOwner (userId : String) (db : Db) : Db :=
  { db with communities := db.communities.map fun c =>
      if c.ownerId = some userId then { c with ownerId := none } else c }

def deleteSocialIdentities (userId : String) (db : Db) : Db :=
  { db with identities := db.identities.filter fun i => i.userId ≠ userId }

def sweepMemberships (userId : String) (db : Db) : Db :=
  { db with memberships := db.memberships.filter fun m => m.userId ≠ userId }

def deleteReadPositions (userId : String) (db : Db) : Db :=
  { db with readPositions := db.readPositions.filter fun p => p.userId ≠ userId }

def deleteUser (userId : String) (db : Db) : Db :=
  { db with users := db.users.filter fun u => u.id ≠ userId }

/-- The statements after the admin memberships, in the order of the source. -/
def teardown (userId : String) : List (Label × (Db → Db)) :=
  [ (.plain, tombstoneMessages userId),
    (.plain, purgeBlocks userId),
    (.plain, anonymizeReporter userId),
    (.plain, anonymizeResolver userId),
    (.plain, purgeReactions userId),
    (.plain, purgeDevices userId),
    (.plain, purgeUserCredentials userId),
    (.plain, purgeUserKeys userId),
    (.plain, purgePending userId),
    (.plain, purgeApprovers userId),
    (.plain, purgePolicies userId),
    (.plain, decrementMemberCounts userId),
    (.plain, deleteCommunityMemberships userId),
    (.plain, clearCommunityOwner userId),
    (.plain, deleteSocialIdentities userId),
    (.membershipSweep userId, sweepMemberships userId),
    (.plain, deleteReadPositions userId),
    (.plain, deleteUser userId) ]

def deleteUserAccount (userId : String) : Body Unit := do
  removeAdminMembershipsOrRefuse userId
  (teardown userId).forM fun s => execute s.2 (fun _ => ()) s.1
  commit

/-- The writes of an account deletion. -/
inductive AccountWrite (userId : String) : Label → (Db → Option Db) → Prop
  | admin (channelId : String) : AccountWrite userId .plain
      fun db => some (deleteAdminMembership channelId userId db)
  | teardown {s : Label × (Db → Db)} (hs : s ∈ teardown userId) :
      AccountWrite userId s.1 fun db => some (s.2 db)

section
variable {W : Label → (Db → Option Db) → Prop} {A : Label → (Db → Memory → Memory) → Prop}

theorem uses_removeAdminMemberships (userId : String)
    (hW : ∀ c, W .plain fun db => some (deleteAdminMembership c userId db))
    (channelIds : List String) : Uses W A (removeAdminMemberships userId channelIds) := by
  induction channelIds with
  | nil => trivial
  | cons c cs ih =>
      refine Uses.bind (Uses.query _) fun _ => ?_
      refine Uses.bind (Uses.exec (hW c)) fun n => ?_
      have hrest : ∀ still : Bool, Uses W A (do
          let refused ← removeAdminMemberships userId cs
          return if still then c :: refused else refused) :=
        fun _ => Uses.bind ih fun _ => trivial
      split_ifs
      · exact Uses.bind (Uses.query _) hrest
      · exact hrest false

theorem uses_removeAdminMembershipsOrRefuse (userId : String)
    (hW : ∀ c, W .plain fun db => some (deleteAdminMembership c userId db)) :
    Uses W A (removeAdminMembershipsOrRefuse userId) := by
  refine Uses.bind (Uses.query _) fun cs => ?_
  refine Uses.bind (uses_removeAdminMemberships userId hW cs) fun refused => ?_
  split_ifs <;> exact trivial

end

theorem uses_deleteUserAccount (userId : String) :
    Uses (AccountWrite userId) NoSegment (deleteUserAccount userId) :=
  Uses.bind (uses_removeAdminMembershipsOrRefuse userId .admin) fun _ =>
    Uses.bind (Uses.forM fun _ hs => Uses.exec (.teardown hs)) fun _ => trivial

/-! ## Moderation -/

/-- An UPDATE by primary key that must find its row. -/
def updateUser (id : String) (f : User → User) : Body Unit := do
  let rowcount ← execute
    (fun db => { db with users := db.users.map fun u => if u.id = id then f u else u })
    (fun db => (db.users.filter fun u => u.id = id).length) .plain
  if rowcount = 1 then return () else throwExn .staleDataError

/-- `moderation_service.ban_user`; `moderators` is the configured set. -/
def banUser (moderators : List String) (targetId moderatorId : String) (now : Time) :
    Body Unit := do
  if targetId = moderatorId then throwExn .cannotBanSelf
  else if targetId ∈ moderators then throwExn .cannotBanModerator
  else
    match ← select fun db => db.userById targetId with
    | none => throwExn .userNotFound
    | some target =>
        if target.bannedAt.isNone then
          updateUser targetId fun u => { u with bannedAt := some now }
        commit

/-- `moderation_service.unban_user`. -/
def unbanUser (targetId : String) : Body Unit := do
  match ← select fun db => db.userById targetId with
  | none => throwExn .userNotFound
  | some target =>
      if target.bannedAt.isSome then
        updateUser targetId fun u => { u with bannedAt := none }
      commit

def updateMessage (id : String) (f : Message → Message) : Body Unit := do
  let rowcount ← execute
    (fun db => { db with messages := db.messages.map fun m => if m.id = id then f m else m })
    (fun db => (db.messages.filter fun m => m.id = id).length) .plain
  if rowcount = 1 then return () else throwExn .staleDataError

def updateReport (id : String) (f : MessageReport → MessageReport) : Body Unit := do
  let rowcount ← execute
    (fun db => { db with reports := db.reports.map fun r => if r.id = id then f r else r })
    (fun db => (db.reports.filter fun r => r.id = id).length) (.reportUpdate id)
  if rowcount = 1 then return () else throwExn .staleDataError

/-- `moderation_service.take_down_message`; `rid` is the minted retraction id. -/
def takeDownMessage (reportId moderatorId rid : String) (now : Time) :
    Body (Option Retraction) := do
  match ← select fun db => db.reports.find? fun r => r.id = reportId with
  | none => throwExn .reportNotFound
  | some report =>
      let alreadyTakenDown := report.resolvedAt.isSome && report.resolution = some .takenDown
      if report.resolvedAt.isSome && !alreadyTakenDown then throwExn .reportAlreadyResolved
      else
        match ← select fun db => db.messages.find? fun m => m.id = report.messageId with
        | none => if alreadyTakenDown then return none else throwExn .messageNotFound
        | some message =>
            let existing ← select fun db =>
              db.retractions.find? fun r => r.targetMsgId = message.id
            if existing.isNone && decide (rid ≤ message.id) then
              throwExn (.retractionOrderingError ("retraction id " ++ rid ++ " not > target " ++
                message.id ++ " — ULID axis regressed"))
            else
              if !alreadyTakenDown then
                if message.deletedAt.isNone then
                  updateMessage message.id fun m => { m with deletedAt := some now }
                updateReport reportId fun r =>
                  { r with
                    resolvedAt := some now
                    resolution := some .takenDown
                    resolvedByUserId := some moderatorId }
              if existing.isNone then
                let retraction : Retraction := ⟨rid, message.id, message.channelId, now⟩
                flushOrRaise (fun db => db.insertRetraction retraction)
                  (.retractionInsert message.id)
                commit
                return some retraction
              else
                commit
                return none

/-- `moderation_service.dismiss_report`. -/
def dismissReport (reportId moderatorId : String) (now : Time) : Body Unit := do
  match ← select fun db => db.reports.find? fun r => r.id = reportId with
  | none => throwExn .reportNotFound
  | some report =>
      if report.resolvedAt.isSome then
        if report.resolution = some .dismissed then return ()
        else throwExn .reportAlreadyResolved
      else
        updateReport reportId fun r =>
          { r with
            resolvedAt := some now
            resolution := some .dismissed
            resolvedByUserId := some moderatorId }
        commit

end AikoIsland.Accounts
