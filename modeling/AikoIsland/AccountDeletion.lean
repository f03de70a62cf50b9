import AikoIsland.Accounts
import AikoIsland.Serial

/-!
# What an account deletion leaves behind

One deletion, run alone on any store whose memberships keep their primary key. The
guarded DELETEs of the admin rows look at one channel each, so that what one of
them does leaves the verdict on the next channel as it was: the refused channels
are those in which the user is the only admin. A refusal raises with its DELETEs
uncommitted.

Otherwise the teardown goes through the tables. Each of its statements touches one
table only, and none of the later ones reads what an earlier one wrote, apart from
the member counts, which are lowered before the memberships are gone. So the
columns that name a user can be read off one table at a time.
-/
namespace AikoIsland.AccountDeletion
open Tables Gateway Memberships Passkeys SigningKeys Recovery Accounts WriterLock

/-! ## The outcome -/

/-- The columns that name users, each account under its own id. -/
def userColumns (db : Db) : List (List String) :=
  [ db.users.map (·.id),
    db.identities.map (·.userId),
    db.memberships.map (·.userId),
    db.readPositions.map (·.userId),
    db.communities.filterMap (·.ownerId),
    db.communityMemberships.map (·.userId),
    db.messages.filterMap (·.senderUserId),
    db.blocks.map (·.blockerUserId),
    db.blocks.map (·.blockedUserId),
    db.reports.filterMap (·.reporterUserId),
    db.reports.filterMap (·.resolvedByUserId),
    db.devices.map (·.userId),
    db.signingKeys.map (·.userId),
    db.credentials.map (·.userId),
    db.policies.map (·.userId),
    db.approvers.map (·.userId),
    db.pending.map (·.userId),
    db.reactions.map (·.userId) ]

/-- The user is the only admin of the channel. -/
structure SoleAdmin (db : Db) (userId channelId : String) : Prop where
  admin : ∃ m ∈ db.memberships, m.channelId = channelId ∧ m.userId = userId ∧ m.role = .admin
  only : ∀ m ∈ db.memberships, m.channelId = channelId → m.role = .admin → m.userId = userId

/-- What is left of a message: its place in the conversation and its signature. -/
structure Husk (m m' : Message) : Prop where
  id : m'.id = m.id
  channelId : m'.channelId = m.channelId
  replyTo : m'.replyTo = m.replyTo
  createdAt : m'.createdAt = m.createdAt
  deletedAt : m'.deletedAt = m.deletedAt
  senderKind : m'.senderKind = m.senderKind
  aikoOrigin : m'.aikoOrigin = m.aikoOrigin
  origin : m'.origin = m.origin
  senderUserId : m'.senderUserId = none
  clientMsgId : m'.clientMsgId = none
  mentions : m'.mentions = none
  body : m'.body = deletedBody
  senderLabel : m'.senderLabel = some deletedUserLabel

section
variable (userId : String)

/-- A row with its name of the user cut out, or the row as it was. -/
def cut (column : Option String) : Option String := if column = some userId then none else column

/-- Every table against the one before; lists are in row order. -/
structure Departed (a b : Db) : Prop where
  unnamed : ∀ column ∈ userColumns b, userId ∉ column
  messages : List.Forall₂ (fun m m' => if m.senderUserId = some userId then Husk m m' else m' = m)
    a.messages b.messages
  communities : List.Forall₂ (fun c c' => c' = { c with
      ownerId := cut userId c.ownerId
      memberCount := c.memberCount - if ⟨c.id, userId⟩ ∈ a.communityMemberships then 1 else 0 })
    a.communities b.communities
  reports : List.Forall₂ (fun r r' => r' = { r with
      reporterUserId := cut userId r.reporterUserId
      resolvedByUserId := cut userId r.resolvedByUserId }) a.reports b.reports
  users : b.users = a.users.filter fun u => u.id ≠ userId
  identities : b.identities = a.identities.filter fun i => i.userId ≠ userId
  memberships : b.memberships = a.memberships.filter fun m => m.userId ≠ userId
  readPositions : b.readPositions = a.readPositions.filter fun p => p.userId ≠ userId
  communityMemberships :
    b.communityMemberships = a.communityMemberships.filter fun m => m.userId ≠ userId
  blocks : b.blocks = a.blocks.filter fun x => x.blockerUserId ≠ userId ∧ x.blockedUserId ≠ userId
  devices : b.devices = a.devices.filter fun d => d.userId ≠ userId
  signingKeys : b.signingKeys = a.signingKeys.filter fun k => k.userId ≠ userId
  credentials : b.credentials = a.credentials.filter fun c => c.userId ≠ userId
  policies : b.policies = a.policies.filter fun p => p.userId ≠ userId
  approvers : b.approvers = a.approvers.filter fun x => x.userId ≠ userId
  pending : b.pending = a.pending.filter fun p => p.userId ≠ userId
  reactions : b.reactions = a.reactions.filter fun r => r.userId ≠ userId
  channels : b.channels = a.channels
  retractions : b.retractions = a.retractions
  challenges : b.challenges = a.challenges
  handoffs : b.handoffs = a.handoffs
  oauthStates : b.oauthStates = a.oauthStates
  socialNonces : b.socialNonces = a.socialNonces

end

/-! ## The guarded DELETEs -/

section
variable {userId : String} {db : Db} {x : Point Db Memory}

/-- Channels of no other name keep their admins. -/
theorem adminCount_delete_ne {channelId other : String} (hne : other ≠ channelId) :
    adminCount (deleteAdminMembership channelId userId db) other = adminCount db other := by
  unfold adminCount deleteAdminMembership
  dsimp only
  rw [List.filter_filter]
  congr 1
  apply List.filter_congr
  intro m _
  by_cases hother : m.channelId = other
  · have hkept : adminDeleteWhere db channelId userId m = false := by
      simp [adminDeleteWhere, hother, hne]
    rw [hkept]
    simp
  · simp [hother]

theorem mem_delete_ne {channelId : String} {m : Membership} (hne : m.channelId ≠ channelId) :
    m ∈ (deleteAdminMembership channelId userId db).memberships ↔ m ∈ db.memberships := by
  unfold deleteAdminMembership
  rw [List.mem_filter]
  simp [adminDeleteWhere, hne]

/-- Nothing matches in a channel with one admin row. -/
theorem adminDeleteWhere_last {channelId : String} (hlast : adminCount db channelId ≤ 1)
    (m : Membership) : adminDeleteWhere db channelId userId m = false := by
  have hcount : ¬1 < adminCount db channelId := by omega
  simp [adminDeleteWhere, hcount]

theorem deleteAdminMembership_last {channelId : String} (hlast : adminCount db channelId ≤ 1) :
    deleteAdminMembership channelId userId db = db := by
  unfold deleteAdminMembership
  simp [adminDeleteWhere_last hlast]

variable (userId) in
/-- The refused channels are those with one admin row. -/
theorem run_removeAdminMemberships {channelIds : List String} (hnodup : channelIds.Nodup)
    (hadmin : ∀ c ∈ channelIds, ∃ m ∈ x.view.memberships,
      m.channelId = c ∧ m.userId = userId ∧ m.role = .admin) :
    ∃ y, (removeAdminMemberships userId channelIds).run x =
        (.ok (channelIds.filter fun c => adminCount x.view c ≤ 1), y) ∧ y.db = x.db ∧
      y.mem = x.mem ∧
      y.view = channelIds.foldl (fun s c => deleteAdminMembership c userId s) x.view := by
  induction channelIds generalizing x with
  | nil => exact ⟨x, rfl, rfl, rfl, rfl⟩
  | cons c cs ih =>
      rw [List.nodup_cons] at hnodup
      obtain ⟨m, hm, hchannel, huser, hrole⟩ := hadmin c List.mem_cons_self
      let z : Point Db Memory := { x with work := some (deleteAdminMembership c userId x.view) }
      have hothers : ∀ c' ∈ cs, c' ≠ c := by
        intro c' hc' heq
        exact hnodup.1 (heq ▸ hc')
      have hrest : ∀ c' ∈ cs, ∃ m ∈ z.view.memberships,
          m.channelId = c' ∧ m.userId = userId ∧ m.role = .admin := by
        intro c' hc'
        obtain ⟨m', hm', hc, hu, hr⟩ := hadmin c' (List.mem_cons_of_mem c hc')
        exact ⟨m', (mem_delete_ne (by rw [hc]; exact hothers c' hc')).mpr hm', hc, hu, hr⟩
      obtain ⟨y, hrun, hdb, hmem, hview⟩ := ih hnodup.2 hrest
      have hfilter : (cs.filter fun c' => adminCount z.view c' ≤ 1) =
          cs.filter fun c' => adminCount x.view c' ≤ 1 := by
        apply List.filter_congr
        intro c' hc'
        change decide (adminCount (deleteAdminMembership c userId x.view) c' ≤ 1) = _
        rw [adminCount_delete_ne (hothers c' hc')]
      rw [hfilter] at hrun
      refine ⟨y, ?_, hdb, hmem, hview⟩
      rw [removeAdminMemberships, Request.run_bind, select, Request.run_query]
      dsimp only
      rw [Request.run_bind, execute, Request.run_exec]
      dsimp only
      by_cases hlast : adminCount x.view c ≤ 1
      · have hnone : adminDeleteRowcount c userId x.view = 0 := by
          simp [adminDeleteRowcount, adminDeleteWhere_last hlast]
        have hstill : (z.view.memberships.any fun m =>
            m.channelId = c && m.userId = userId && m.role = .admin) = true := by
          have hz : z.view = x.view := deleteAdminMembership_last hlast
          rw [hz, List.any_eq_true]
          exact ⟨m, hm, by simp [hchannel, huser, hrole]⟩
        rw [if_pos hnone, Request.run_bind, select, Request.run_query]
        change ((removeAdminMemberships userId cs >>= fun refused => pure
          (if (z.view.memberships.any fun m =>
            m.channelId = c && m.userId = userId && m.role = .admin) = true
          then c :: refused else refused)).run z) = _
        rw [hstill, Request.run_bind, hrun]
        rw [List.filter_cons_of_pos (by simpa using hlast)]
        rfl
      · have hsome : adminDeleteRowcount c userId x.view ≠ 0 := by
          unfold adminDeleteRowcount
          apply Nat.pos_iff_ne_zero.mp
          apply List.length_pos_of_mem (a := m)
          rw [List.mem_filter]
          refine ⟨hm, ?_⟩
          have hmore : 1 < adminCount x.view c := by omega
          simp [adminDeleteWhere, hchannel, huser, hrole, hmore]
        rw [if_neg hsome, Request.run_bind, Request.run_pure]
        change ((removeAdminMemberships userId cs >>= fun refused => pure
          (if false = true then c :: refused else refused)).run z) = _
        rw [Request.run_bind, hrun]
        rw [List.filter_cons_of_neg (by simpa using hlast)]
        rfl

/-! ## Sole admins -/

variable (userId) in
theorem nodup_adminChannels (hkeyed : (db.memberships.map fun m => (m.channelId, m.userId)).Nodup) :
    (adminChannels userId db).Nodup := by
  unfold adminChannels
  rw [(List.perm_insertionSort _ _).nodup_iff]
  apply List.Nodup.map_on
  · intro m hm m' hm' hchannel
    rw [List.mem_filter, Bool.and_eq_true, decide_eq_true_eq] at hm hm'
    apply List.inj_on_of_nodup_map hkeyed hm.1 hm'.1
    rw [hchannel, hm.2.1, hm'.2.1]
  · exact hkeyed.of_map.filter _

theorem mem_adminChannels {channelId : String} : channelId ∈ adminChannels userId db ↔
    ∃ m ∈ db.memberships, m.channelId = channelId ∧ m.userId = userId ∧ m.role = .admin := by
  unfold adminChannels
  rw [List.mem_insertionSort, List.mem_map]
  constructor
  · intro h
    obtain ⟨m, hm, hchannel⟩ := h
    rw [List.mem_filter, Bool.and_eq_true, decide_eq_true_eq, decide_eq_true_eq] at hm
    exact ⟨m, hm.1, hchannel, hm.2⟩
  · intro h
    obtain ⟨m, hm, hchannel, huser, hrole⟩ := h
    exact ⟨m, by simp [hm, huser, hrole], hchannel⟩

theorem soleAdmin_iff (hkeyed : (db.memberships.map fun m => (m.channelId, m.userId)).Nodup)
    (channelId : String) : SoleAdmin db userId channelId ↔
      channelId ∈ adminChannels userId db ∧ adminCount db channelId ≤ 1 := by
  have hnodup : (db.memberships.filter fun m =>
      m.channelId = channelId && m.role = .admin).Nodup := hkeyed.of_map.filter _
  constructor
  · intro h
    constructor
    · exact mem_adminChannels.mpr h.admin
    · obtain ⟨m, hm, hchannel, huser, _⟩ := h.admin
      have hsub : (db.memberships.filter fun m =>
          m.channelId = channelId && m.role = .admin) ⊆ [m] := by
        intro m' hm'
        rw [List.mem_filter, Bool.and_eq_true, decide_eq_true_eq, decide_eq_true_eq] at hm'
        have huser' := h.only m' hm'.1 hm'.2.1 hm'.2.2
        rw [List.mem_singleton]
        apply List.inj_on_of_nodup_map hkeyed hm'.1 hm
        rw [hm'.2.1, huser', hchannel, huser]
      exact (List.subperm_of_subset hnodup hsub).length_le
  · intro h
    constructor
    · exact mem_adminChannels.mp h.1
    · intro m hm hchannel hrole
      obtain ⟨m₀, hm₀, hchannel₀, huser₀, hrole₀⟩ := mem_adminChannels.mp h.1
      have hmem : m ∈ db.memberships.filter fun m =>
          m.channelId = channelId && m.role = .admin := by simp [hm, hchannel, hrole]
      have hmem₀ : m₀ ∈ db.memberships.filter fun m =>
          m.channelId = channelId && m.role = .admin := by simp [hm₀, hchannel₀, hrole₀]
      have hone : (db.memberships.filter fun m =>
          m.channelId = channelId && m.role = .admin).length = 1 := by
        have hpos := List.length_pos_of_mem hmem
        have hle := h.2
        unfold adminCount at hle
        omega
      obtain ⟨m₁, hsingle⟩ := List.length_eq_one_iff.mp hone
      rw [hsingle, List.mem_singleton] at hmem hmem₀
      rw [hmem, ← hmem₀, huser₀]

variable (userId) in
theorem foldl_delete (channelIds : List String) (db : Db) :
    ∃ rows, channelIds.foldl (fun s c => deleteAdminMembership c userId s) db =
        { db with memberships := rows } ∧
      (rows.filter fun m => m.userId ≠ userId) =
        db.memberships.filter fun m => m.userId ≠ userId := by
  induction channelIds generalizing db with
  | nil => exact ⟨db.memberships, rfl, rfl⟩
  | cons c cs ih =>
      obtain ⟨rows, hfold, hrows⟩ := ih (deleteAdminMembership c userId db)
      refine ⟨rows, hfold, ?_⟩
      rw [hrows]
      unfold deleteAdminMembership
      dsimp only
      rw [List.filter_filter]
      apply List.filter_congr
      intro m _
      by_cases huser : m.userId = userId
      · simp [huser]
      · simp [adminDeleteWhere, huser]

/-! ## The teardown -/

theorem run_teardown {steps : List (Label × (Db → Db))} (hsteps : steps ≠ []) :
    (steps.forM fun s => execute s.2 (fun _ => ()) s.1 : Body Unit).run x =
      (.ok (), { x with work := some (steps.foldl (fun s t => t.2 s) x.view) }) := by
  induction steps generalizing x with
  | nil => exact absurd rfl hsteps
  | cons step steps ih =>
      change (execute step.2 (fun _ => ()) step.1 >>= fun _ =>
        steps.forM fun s => execute s.2 (fun _ => ()) s.1 : Body Unit).run x = _
      rw [Request.run_bind, execute, Request.run_exec]
      dsimp only
      cases steps with
      | nil => rfl
      | cons next steps =>
          rw [ih (by simp)]
          rfl

theorem not_named_kept {α : Type} (rows : List α) (column : α → String) :
    userId ∉ (rows.filter fun r => column r ≠ userId).map column := by
  intro h
  obtain ⟨r, hr, hname⟩ := List.mem_map.mp h
  have hne := List.of_mem_filter hr
  simp [hname] at hne

theorem not_named_cut {α : Type} {rows : List α} {column : α → Option String} {f : α → α}
    (h : ∀ r, column (f r) ≠ some userId) : userId ∉ (rows.map f).filterMap column := by
  intro hnamed
  obtain ⟨r, hr, hname⟩ := List.mem_filterMap.mp hnamed
  obtain ⟨r₀, _, rfl⟩ := List.mem_map.mp hr
  exact h r₀ hname

theorem cut_ne (column : Option String) : cut userId column ≠ some userId := by
  unfold cut
  split_ifs with h
  · exact Option.some_ne_none userId |>.symm
  · exact h

variable (userId) in
theorem clearOwner_eq (c : Community) :
    (if c.ownerId = some userId then { c with ownerId := none } else c) =
      { c with ownerId := cut userId c.ownerId } := by
  unfold cut
  split_ifs <;> rfl

variable (userId) in
theorem clearReporter_eq (r : MessageReport) :
    (if r.reporterUserId = some userId then { r with reporterUserId := none } else r) =
      { r with reporterUserId := cut userId r.reporterUserId } := by
  unfold cut
  split_ifs <;> rfl

variable (userId) in
theorem clearResolver_eq (r : MessageReport) :
    (if r.resolvedByUserId = some userId then { r with resolvedByUserId := none } else r) =
      { r with resolvedByUserId := cut userId r.resolvedByUserId } := by
  unfold cut
  split_ifs <;> rfl

variable (userId) in
theorem leave_eq (rows : List CommunityMembership) (c : Community) :
    (if (rows.any fun m => m.communityId = c.id && m.userId = userId) = true then
      { c with memberCount := c.memberCount - 1 } else c) =
      { c with memberCount := c.memberCount - if ⟨c.id, userId⟩ ∈ rows then 1 else 0 } := by
  have hiff : (rows.any fun m => m.communityId = c.id && m.userId = userId) = true ↔
      ⟨c.id, userId⟩ ∈ rows := by
    rw [List.any_eq_true]
    constructor
    · intro h
      obtain ⟨m, hm, hkey⟩ := h
      rw [Bool.and_eq_true, decide_eq_true_eq, decide_eq_true_eq] at hkey
      rw [← hkey.1, ← hkey.2]
      exact hm
    · intro h
      exact ⟨_, h, by simp⟩
  by_cases hmember : ⟨c.id, userId⟩ ∈ rows
  · rw [if_pos (hiff.mpr hmember), if_pos hmember]
  · rw [if_neg (mt hiff.mp hmember), if_neg hmember, sub_zero]

theorem forall₂_map {α : Type} {rows : List α} {f : α → α} {R : α → α → Prop}
    (h : ∀ r, R r (f r)) : List.Forall₂ R rows (rows.map f) := by
  apply List.forall₂_map_right_iff.mpr
  exact List.forall₂_same.mpr fun r _ => h r

/-- A teardown from a store that still has every row of the others. -/
theorem departed_teardown {a : Db} {rows : List Membership}
    (hrows : (rows.filter fun m => m.userId ≠ userId) =
      a.memberships.filter fun m => m.userId ≠ userId) :
    Departed userId a ((teardown userId).foldl (fun s t => t.2 s)
      { a with memberships := rows }) := by
  simp only [teardown, List.foldl_cons, List.foldl_nil, tombstoneMessages, purgeBlocks,
    anonymizeReporter, anonymizeResolver, purgeReactions, purgeDevices, purgeUserCredentials,
    purgeUserKeys, purgePending, purgeApprovers, purgePolicies, decrementMemberCounts,
    deleteCommunityMemberships, clearCommunityOwner, deleteSocialIdentities, sweepMemberships,
    deleteReadPositions, deleteUser, clearOwner_eq, clearReporter_eq, clearResolver_eq, leave_eq,
    List.map_map]
  have hblocks : (a.blocks.filter fun b =>
      !(decide (b.blockerUserId = userId) || decide (b.blockedUserId = userId))) =
      a.blocks.filter fun b => b.blockerUserId ≠ userId ∧ b.blockedUserId ≠ userId := by
    apply List.filter_congr
    intro b _
    simp
  rw [hblocks]
  constructor
  case unnamed =>
    have hblocker : userId ∉ (a.blocks.filter fun b =>
        b.blockerUserId ≠ userId ∧ b.blockedUserId ≠ userId).map (·.blockerUserId) := by
      intro h
      obtain ⟨b, hb, hname⟩ := List.mem_map.mp h
      simpa [hname] using List.of_mem_filter hb
    have hblocked : userId ∉ (a.blocks.filter fun b =>
        b.blockerUserId ≠ userId ∧ b.blockedUserId ≠ userId).map (·.blockedUserId) := by
      intro h
      obtain ⟨b, hb, hname⟩ := List.mem_map.mp h
      simpa [hname] using List.of_mem_filter hb
    simp only [userColumns, List.forall_mem_cons]
    refine ⟨not_named_kept _ _, not_named_kept _ _, not_named_kept _ _, not_named_kept _ _,
      not_named_cut fun _ => cut_ne _, not_named_kept _ _, not_named_cut ?sender, hblocker,
      hblocked, not_named_cut fun _ => cut_ne _, not_named_cut fun _ => cut_ne _,
      not_named_kept _ _, not_named_kept _ _, not_named_kept _ _, not_named_kept _ _,
      not_named_kept _ _, not_named_kept _ _, not_named_kept _ _, List.forall_mem_nil _⟩
    case sender =>
      intro m
      split_ifs with hsender
      · exact Option.some_ne_none userId |>.symm
      · exact hsender
  case messages =>
    apply forall₂_map
    intro m
    split_ifs
    · constructor <;> rfl
    · rfl
  case communities => exact forall₂_map fun _ => rfl
  case reports => exact forall₂_map fun _ => rfl
  case memberships => exact hrows
  all_goals rfl

/-! ## The whole deletion -/

variable (userId x) in
theorem run_removeAdminMembershipsOrRefuse
    (hkeyed : (x.view.memberships.map fun m => (m.channelId, m.userId)).Nodup) :
    ∃ y, (removeAdminMembershipsOrRefuse userId).run x =
        (match (adminChannels userId x.view).filter fun c => adminCount x.view c ≤ 1 with
          | [] => .ok ()
          | c :: cs => .error (.cannotDeleteSoleAdmin (c :: cs)), y) ∧ y.db = x.db ∧
      y.mem = x.mem ∧ ∃ rows, y.view = { x.view with memberships := rows } ∧
        (rows.filter fun m => m.userId ≠ userId) =
          x.view.memberships.filter fun m => m.userId ≠ userId := by
  obtain ⟨y, hrun, hdb, hmem, hview⟩ := run_removeAdminMemberships userId
    (nodup_adminChannels userId hkeyed) fun c hc => mem_adminChannels.mp hc
  obtain ⟨rows, hfold, hrows⟩ := foldl_delete userId (adminChannels userId x.view) x.view
  refine ⟨y, ?_, hdb, hmem, rows, hview.trans hfold, hrows⟩
  rw [removeAdminMembershipsOrRefuse, Request.run_bind, select, Request.run_query]
  dsimp only
  rw [Request.run_bind, hrun]
  dsimp only
  cases (adminChannels userId x.view).filter fun c => adminCount x.view c ≤ 1 with
  | nil => rfl
  | cons c cs => rfl

variable (userId) in
/-- A deletion is refused with the channels that would lose their only admin, and its
rollback restores the store; or it commits a store that the user has departed from. -/
theorem refused_or_departed
    (hkeyed : (db.memberships.map fun m => (m.channelId, m.userId)).Nodup) (mem : Memory) :
    (∃ cs y, (deleteUserAccount userId).run ⟨db, mem, none⟩ =
          (.error (.cannotDeleteSoleAdmin cs), y) ∧
        cs ≠ [] ∧ cs.Nodup ∧ (∀ c, c ∈ cs ↔ SoleAdmin db userId c) ∧
        y.rolledBack = ⟨db, mem, none⟩) ∨
      (∀ c, ¬SoleAdmin db userId c) ∧
        ∃ b, (deleteUserAccount userId).run ⟨db, mem, none⟩ = (.ok (), ⟨b, mem, none⟩) ∧
          Departed userId db b := by
  obtain ⟨y, hrun, hdb, hmem, rows, hview, hrows⟩ :=
    run_removeAdminMembershipsOrRefuse userId ⟨db, mem, none⟩ hkeyed
  have hsole : ∀ c, c ∈ ((adminChannels userId db).filter fun c => adminCount db c ≤ 1) ↔
      SoleAdmin db userId c := by
    intro c
    rw [List.mem_filter, decide_eq_true_eq, soleAdmin_iff hkeyed]
  have hnodup := (nodup_adminChannels userId hkeyed).filter
    fun c => decide (adminCount db c ≤ 1)
  rw [deleteUserAccount, Request.run_bind, hrun]
  rw [Point.view_mk_none] at hrun hview hrows ⊢
  cases hrefused : (adminChannels userId db).filter fun c => adminCount db c ≤ 1 with
  | cons c cs =>
      rw [hrefused] at hsole hnodup
      left
      refine ⟨c :: cs, y, rfl, List.cons_ne_nil c cs, hnodup, hsole, ?_⟩
      rw [Point.rolledBack, hdb, hmem]
  | nil =>
      rw [hrefused] at hsole
      right
      constructor
      · intro c hc
        cases (hsole c).mpr hc
      · refine ⟨_, ?_, departed_teardown hrows⟩
        dsimp only
        rw [Request.run_bind, run_teardown (by simp [teardown]), hview]
        dsimp only
        rw [hmem]
        rfl

end

/-- Two admins of one channel, one of whom wrote a message there. -/
def sharedChannel : Db where
  users := [{ id := "u1", username := "bob", aikoUsername := "bob" },
    { id := "u2", username := "eve", aikoUsername := "eve" }]
  channels := [{ id := "c1", name := "lobby", aikoChannel := "lobby" }]
  memberships := [⟨"c1", "u1", .admin, true⟩, ⟨"c1", "u2", .admin, true⟩]
  messages := [{ id := "m1", channelId := "c1", senderUserId := some "u1", body := "hi" }]

theorem one_of_two_admins_departs :
    ∃ b, (deleteUserAccount "u1").run ⟨sharedChannel, {}, none⟩ = (.ok (), ⟨b, {}, none⟩) ∧
      Departed "u1" sharedChannel b := by
  have hkeyed : (sharedChannel.memberships.map fun m => (m.channelId, m.userId)).Nodup := by
    decide
  have hshared : ∀ c, ¬SoleAdmin sharedChannel "u1" c := by
    intro c h
    obtain ⟨m, hm, hchannel, huser, _⟩ := h.admin
    have hsecond := h.only ⟨"c1", "u2", .admin, true⟩ (by simp [sharedChannel])
    have hc : c = "c1" := by
      simp only [sharedChannel, List.mem_cons, List.not_mem_nil, or_false] at hm
      cases hm with
      | inl hfirst => rw [← hchannel, hfirst]
      | inr hother => rw [← hchannel, hother]
    exact absurd (hsecond hc.symm rfl) (by decide)
  cases refused_or_departed "u1" hkeyed {} with
  | inr hdeparted => exact hdeparted.2
  | inl hrefused =>
      obtain ⟨cs, _, _, hne, _, hsole, _⟩ := hrefused
      obtain ⟨c, hc⟩ := List.exists_mem_of_ne_nil cs hne
      exact absurd ((hsole c).mp hc) (hshared c)

end AikoIsland.AccountDeletion
