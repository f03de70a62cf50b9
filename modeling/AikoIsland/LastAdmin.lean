import AikoIsland.Accounts

/-!
# Last admin: every created channel keeps an admin

Any number of create, add, join, remove, leave and account-deletion requests
over one database, interleaved statement by statement. A channel that one of
them creates, or that had an admin before, has an admin membership in every
committed state, in every run where the two unguarded membership statements
meet no admin row when they execute: the DELETE that `remove_member` and
`leave` choose for a role read earlier as member, and the sweep at the end of
an account deletion.

Without that condition a channel can lose its last admin: the role may change
between the read and the unguarded DELETE.
-/
namespace AikoIsland.LastAdmin
open Tables Gateway WriterLock RelyGuarantee Footprint Memberships Accounts

/-! ## The requests -/

inductive MembershipRequest where
  | createChannel (channelId creatorId name : String) (isPrivate : Bool) (joinPolicy : String)
      (kind : ChannelKind) (aikoChannel : Option String)
  | addMember (identityMap : List User) (channelId actorId targetUserId role : String)
      (canPost : Bool)
  | selfJoin (channelId actorId : String)
  | removeMember (channelId actorId targetUserId : String)
  | leave (channelId actorId : String)
  | deleteUserAccount (userId : String)

def MembershipRequest.body : MembershipRequest → Body Unit
  | .createChannel channelId creatorId name isPrivate joinPolicy kind aikoChannel =>
      (do
        let _ ← Memberships.createChannel channelId creatorId name isPrivate joinPolicy kind
          aikoChannel
        return () : Body Unit).session
  | .addMember identityMap channelId actorId targetUserId role canPost =>
      (do
        let _ ← Memberships.addMember identityMap channelId actorId targetUserId role canPost
        return () : Body Unit).session
  | .selfJoin channelId actorId =>
      (do
        let _ ← Memberships.selfJoin channelId actorId
        return () : Body Unit).session
  | .removeMember channelId actorId targetUserId =>
      (Memberships.removeMember channelId actorId targetUserId).session
  | .leave channelId actorId => (Memberships.leave channelId actorId).session
  | .deleteUserAccount userId => (Accounts.deleteUserAccount userId).session

/-! ## Admins -/

def isAdminOf (channelId : String) (m : Membership) : Bool :=
  m.channelId = channelId && m.role = .admin

def hasAdmin (db : Db) (channelId : String) : Bool := db.memberships.any (isAdminOf channelId)

theorem hasAdmin_iff {db : Db} {c : String} :
    hasAdmin db c = true ↔ ∃ m ∈ db.memberships, m.channelId = c ∧ m.role = .admin := by
  simp [hasAdmin, isAdminOf]

/-- The primary key of `memberships`. -/
def MembershipKeys (db : Db) : Prop :=
  db.memberships.Pairwise fun a b => ¬(a.channelId = b.channelId ∧ a.userId = b.userId)

/-- With two admins counted, one of them is somebody else. -/
theorem exists_other_admin {db : Db} (hk : MembershipKeys db) {c : String}
    (h : 1 < adminCount db c) (u : String) :
    ∃ m ∈ db.memberships, m.channelId = c ∧ m.role = .admin ∧ m.userId ≠ u := by
  unfold adminCount at h
  have hpair := hk.filter fun m => decide (m.channelId = c) && decide (m.role = .admin)
  have hmem : ∀ m ∈ db.memberships.filter fun m =>
      decide (m.channelId = c) && decide (m.role = .admin),
      m ∈ db.memberships ∧ m.channelId = c ∧ m.role = .admin := by
    intro m hm
    obtain ⟨hin, hp⟩ := List.mem_filter.mp hm
    exact ⟨hin, by simpa using hp⟩
  generalize db.memberships.filter (fun m =>
    decide (m.channelId = c) && decide (m.role = .admin)) = admins at h hpair hmem
  match admins, h with
  | a :: b :: rest, _ =>
      obtain ⟨ha, hac, har⟩ := hmem a (by simp)
      obtain ⟨hb, hbc, hbr⟩ := hmem b (by simp)
      have hne : ¬(a.channelId = b.channelId ∧ a.userId = b.userId) :=
        (List.pairwise_cons.mp hpair).1 b (by simp)
      by_cases hau : a.userId = u
      · refine ⟨b, hb, hbc, hbr, fun hbu => hne ⟨hac.trans hbc.symm, hau.trans hbu.symm⟩⟩
      · exact ⟨a, ha, hac, har, hau⟩

/-! ## What every statement keeps -/

/-- No channel appears, none loses its last admin, and the primary key holds. -/
structure Keeps (a b : Db) : Prop where
  keys : MembershipKeys a → MembershipKeys b
  channels : b.channels = a.channels
  admins : MembershipKeys a → ∀ c, hasAdmin a c = true → hasAdmin b c = true

theorem Keeps.refl (a : Db) : Keeps a a := ⟨id, rfl, fun _ _ => id⟩

theorem Keeps.trans {a b c : Db} (h : Keeps a b) (h' : Keeps b c) : Keeps a c where
  keys hk := h'.keys (h.keys hk)
  channels := h'.channels.trans h.channels
  admins hk ch ha := h'.admins (h.keys hk) ch (h.admins hk ch ha)

/-- A statement on other tables. -/
theorem Keeps.of_eq {a b : Db} (hm : b.memberships = a.memberships)
    (hc : b.channels = a.channels) : Keeps a b where
  keys hk := by
    unfold MembershipKeys
    rw [hm]
    exact hk
  channels := hc
  admins _ c ha := by
    unfold hasAdmin at *
    rw [hm]
    exact ha

/-- A DELETE on `memberships` whose victims leave an admin behind. -/
theorem Keeps.of_filter {db : Db} {p : Membership → Bool}
    (h : MembershipKeys db → ∀ c m, m ∈ db.memberships → m.channelId = c → m.role = .admin →
      p m = false → ∃ m' ∈ db.memberships, m'.channelId = c ∧ m'.role = .admin ∧ p m' = true) :
    Keeps db { db with memberships := db.memberships.filter p } where
  keys hk := hk.filter p
  channels := rfl
  admins hk c ha := by
    obtain ⟨m, hm, hc, hr⟩ := hasAdmin_iff.mp ha
    refine hasAdmin_iff.mpr ?_
    cases hp : p m with
    | true => exact ⟨m, List.mem_filter.mpr ⟨hm, hp⟩, hc, hr⟩
    | false =>
        obtain ⟨m', hm', hc', hr', hp'⟩ := h hk c m hm hc hr hp
        exact ⟨m', List.mem_filter.mpr ⟨hm', hp'⟩, hc', hr'⟩

theorem Keeps.insert {db db' : Db} {m : Membership} (h : db.insertMembership m = some db') :
    Keeps db db' := by
  obtain ⟨hclash, rfl⟩ := Db.insertMembership_eq_some.mp h
  refine ⟨fun hk => ?_, rfl, fun _ c ha => ?_⟩
  · refine List.pairwise_append.mpr ⟨hk, List.pairwise_singleton _ _, fun x hx y hy hxy => ?_⟩
    obtain rfl := List.mem_singleton.mp hy
    exact hclash x hx hxy
  · obtain ⟨x, hx, hc, hr⟩ := hasAdmin_iff.mp ha
    exact hasAdmin_iff.mpr ⟨x, List.mem_append_left _ hx, hc, hr⟩

/-! ## The condition -/

/-- The unguarded statements meet no admin row of their user. -/
def noAdminSwept : Label → Point Db Memory → Bool
  | .unguardedDelete c u, x => x.view.memberships.all fun m =>
      !(m.channelId = c && m.userId = u && m.role = .admin)
  | .membershipSweep u, x => x.view.memberships.all fun m => !(m.userId = u && m.role = .admin)
  | _, _ => true

theorem keeps_delete {c u : String} {isAdmin : Bool} {x : Point Db Memory}
    (h : noAdminSwept (deleteLabel c u isAdmin) x = true) :
    Keeps x.view (deleteMembership c u isAdmin x.view) := by
  refine Keeps.of_filter fun hk ch m hm hch hr hp => ?_
  simp only [deleteWhere, Bool.not_eq_false', Bool.and_eq_true, decide_eq_true_eq,
    Bool.or_eq_true, Bool.not_eq_true'] at hp
  obtain ⟨⟨hmc, hmu⟩, hguard⟩ := hp
  cases isAdmin with
  | false =>
      have hall := List.all_eq_true.mp h m hm
      simp [hmc, hmu, hr] at hall
  | true =>
      have hcount : 1 < adminCount x.view c := by simpa using hguard
      obtain ⟨m', hm', hc', hr', hu'⟩ := exists_other_admin hk hcount u
      exact ⟨m', hm', hc'.trans (hmc.symm.trans hch), hr', by simp [deleteWhere, hu']⟩

theorem keeps_deleteAdmin (c u : String) (db : Db) :
    Keeps db (deleteAdminMembership c u db) := by
  refine Keeps.of_filter fun hk ch m hm hch hr hp => ?_
  simp only [adminDeleteWhere, Bool.not_eq_false', Bool.and_eq_true, decide_eq_true_eq] at hp
  obtain ⟨⟨⟨hmc, hmu⟩, _⟩, hcount⟩ := hp
  obtain ⟨m', hm', hc', hr', hu'⟩ := exists_other_admin hk hcount u
  exact ⟨m', hm', hc'.trans (hmc.symm.trans hch), hr', by simp [adminDeleteWhere, hu']⟩

theorem keeps_sweep {u : String} {x : Point Db Memory}
    (h : noAdminSwept (.membershipSweep u) x = true) : Keeps x.view (sweepMemberships u x.view) := by
  refine Keeps.of_filter fun _ ch m hm _ hr hp => ?_
  have hmu : m.userId = u := by simpa using hp
  have hall := List.all_eq_true.mp h m hm
  simp [hmu, hr] at hall

/-- Every statement of the teardown keeps the admins when the sweep meets none. -/
theorem keeps_teardown {u : String} {s : Label × (Db → Db)} (hs : s ∈ teardown u)
    {x : Point Db Memory} (h : noAdminSwept s.1 x = true) : Keeps x.view (s.2 x.view) := by
  simp only [teardown, List.mem_cons, List.not_mem_nil, or_false] at hs
  rcases hs with rfl | rfl | rfl | rfl | rfl | rfl | rfl | rfl | rfl | rfl | rfl | rfl | rfl |
    rfl | rfl | rfl | rfl | rfl
  all_goals first | exact Keeps.of_eq rfl rfl | exact keeps_sweep h

/-! ## The invariant -/

/-- Channels created since `db₀`, and those that had an admin there, have an admin. -/
def Administered (db₀ db : Db) : Prop :=
  ∀ ch ∈ db.channels, ch ∉ db₀.channels ∨ hasAdmin db₀ ch.id = true → hasAdmin db ch.id = true

theorem Administered.keeps {db₀ a b : Db} (h : Administered db₀ a) (hk : MembershipKeys a)
    (hab : Keeps a b) : Administered db₀ b := by
  intro ch hch hmade
  rw [hab.channels] at hch
  exact hab.admins hk ch.id (h ch hch hmade)

/-- The invariant of the committed store; nobody relies on more. -/
def spec (db₀ : Db) : Spec ℕ Db Memory Label where
  inv db _ := MembershipKeys db ∧ Administered db₀ db
  rely _ _ _ _ _ := True
  meets t x := noAdminSwept t x = true
  rely_refl _ _ _ := trivial
  rely_trans _ _ := trivial

theorem allows_of_keeps {db₀ db s : Db} {mem mem' : Memory} {p : ℕ} {w w' : Option Db}
    (hi : (spec db₀).inv db mem) (h : Keeps db s) :
    (spec db₀).Allows p ⟨db, mem, w⟩ ⟨s, mem', w'⟩ :=
  ⟨⟨h.keys hi.1, hi.2.keeps hi.1 h⟩, fun _ _ => trivial⟩

/-- A request all of whose writes keep the admins is safe. -/
theorem safe_of_keeps {db₀ : Db} {p : ℕ} {x : Point Db Memory} {α : Type} {r : Body α}
    {W : Label → (Db → Option Db) → Prop} (h : Uses W NoSegment r) (hx : x.work = none)
    (hW : ∀ t f z s, W t f → noAdminSwept t z = true → f z.view = some s → Keeps z.view s) :
    Safe (spec db₀) p r (fun _ _ => True) (fun _ _ => True) x := by
  have hR : Respects (spec db₀) p (fun _ _ => True) Keeps W NoSegment :=
    { refl := Keeps.refl
      trans := Keeps.trans
      stable := fun _ _ => trivial
      write := fun t f z s hw _ _ _ hm hf => hW t f z s hw hm hf
      segment := fun _ _ _ hA => hA.elim
      commit := fun _ _ _ hi _ hk => ⟨allows_of_keeps hi hk, trivial⟩ }
  have hview : Keeps x.db x.view := by
    rw [Point.view_of_none hx]
    exact Keeps.refl x.db
  exact (hR.safe h trivial hview).mono (fun _ _ _ _ => trivial) fun _ _ _ _ => trivial

theorem keeps_membershipWrite {t : Label} {f : Db → Option Db} {z : Point Db Memory} {s : Db}
    (h : MembershipWrite t f) (hm : noAdminSwept t z = true) (hf : f z.view = some s) :
    Keeps z.view s := by
  cases h with
  | delete c u isAdmin =>
      obtain rfl := Option.some.inj hf
      exact keeps_delete hm
  | insert h =>
      cases h with
      | row m => exact Keeps.insert hf

theorem keeps_accountWrite {u : String} {t : Label} {f : Db → Option Db} {z : Point Db Memory}
    {s : Db} (h : AccountWrite u t f) (hm : noAdminSwept t z = true) (hf : f z.view = some s) :
    Keeps z.view s := by
  cases h with
  | admin c =>
      obtain rfl := Option.some.inj hf
      exact keeps_deleteAdmin c u z.view
  | teardown hs =>
      obtain rfl := Option.some.inj hf
      exact keeps_teardown hs hm

/-- The channel and its admin are inserted in one transaction. -/
theorem administered_create {db₀ db a b : Db} {ch : Channel} {m : Membership}
    (h : Administered db₀ db) (hk : MembershipKeys db) (ha : db.insertChannel ch = some a)
    (hb : a.insertMembership m = some b) (hm : m.channelId = ch.id ∧ m.role = .admin) :
    MembershipKeys b ∧ Administered db₀ b := by
  have hab : Keeps a b := Keeps.insert hb
  obtain ⟨_, _, rfl⟩ := Db.insertChannel_eq_some.mp ha
  refine ⟨hab.keys hk, fun c hcm hmade => ?_⟩
  rw [hab.channels] at hcm
  rcases List.mem_append.mp hcm with hold | hnew
  · exact hab.admins hk c.id (h c hold hmade)
  · obtain rfl := List.mem_singleton.mp hnew
    obtain ⟨_, rfl⟩ := Db.insertMembership_eq_some.mp hb
    exact hasAdmin_iff.mpr ⟨m, List.mem_append_right _ (List.mem_singleton_self m), hm⟩

theorem safe_createChannel {db₀ : Db} {p : ℕ} {x : Point Db Memory} (hx : x.work = none)
    (channelId creatorId name : String) (isPrivate : Bool) (joinPolicy : String)
    (kind : ChannelKind) (aikoChannel : Option String) :
    Safe (spec db₀) p (createChannel channelId creatorId name isPrivate joinPolicy kind aikoChannel)
      (fun _ _ => True) (fun _ _ => True) x := by
  unfold createChannel
  split_ifs with hdm
  · exact fun _ _ => trivial
  · refine safe_flushOrRaise (fun y a hy _ ha => ?_) fun _ _ _ _ _ _ => trivial
    refine safe_flushOrRaise (fun z b hz _ hb => ?_) fun _ _ _ _ _ _ => trivial
    refine Safe.commit fun v hv _ => ⟨fun w hw => ?_, fun _ _ => trivial⟩
    have hinv : MembershipKeys y.db ∧ Administered db₀ y.db := hy.inv
    have hzv : z.view = a := hz.view_eq rfl
    have hvb : v.view = b := hv.view_eq rfl
    rw [Point.view_of_none (hy.free hx)] at ha
    rw [hzv] at hb
    refine ⟨?_, fun _ _ => trivial⟩
    simp only [Point.committed, hvb]
    exact administered_create hinv.2 hinv.1 ha hb ⟨rfl, rfl⟩

/-- Each of the requests is safe from any committed state. -/
theorem safe_body {db₀ : Db} {p : ℕ} {x : Point Db Memory} (hx : x.work = none)
    (hi : (spec db₀).inv x.db x.mem) (r : MembershipRequest) :
    Safe (spec db₀) p r.body (fun _ _ => True) (fun _ _ => True) x := by
  have hmember : ∀ {α : Type} {b : Body α}, Uses MembershipWrite NoSegment b →
      Safe (spec db₀) p b (fun _ _ => True) (fun _ _ => True) x := fun hb =>
    safe_of_keeps hb hx fun _ _ _ _ => keeps_membershipWrite
  have hjoin : ∀ {b : Body Unit}, Uses MembershipInsert NoSegment b →
      Safe (spec db₀) p b (fun _ _ => True) (fun _ _ => True) x := fun hb =>
    hmember (hb.mono (fun _ _ => .insert) fun _ _ => id)
  cases r with
  | createChannel c creator name priv policy kind aiko =>
      refine Safe.session (Safe.bind ?_ hi) hi
      exact (safe_createChannel hx c creator name priv policy kind aiko).mono
        (fun _ _ _ _ _ _ _ _ => trivial) fun _ _ _ _ _ _ => trivial
  | addMember map c a t role canPost =>
      exact hjoin (Uses.session (Uses.bind (uses_addMember map c a t role canPost)
        fun _ => trivial))
  | selfJoin c a =>
      exact hjoin (Uses.session (Uses.bind (uses_selfJoin c a) fun _ => trivial))
  | removeMember c a t => exact hmember (uses_removeMember c a t).session
  | leave c a => exact hmember (uses_leave c a).session
  | deleteUserAccount u =>
      exact safe_of_keeps (uses_deleteUserAccount u).session hx
        fun _ _ _ _ => keeps_accountWrite

/-- Every run of the requests that meets the condition keeps an admin in every channel that it
created or that had one. -/
theorem created_channels_keep_an_admin {db₀ : Db} (mem : Memory) (reqs : ℕ → MembershipRequest)
    {c : Cfg ℕ Db Memory Label Exn Unit} (hk : MembershipKeys db₀)
    (h : Cfg.Reach (fun t x => noAdminSwept t x = true)
      (Cfg.init db₀ mem fun p => (reqs p).body) c) :
    ∀ ch ∈ c.db.channels, ch ∉ db₀.channels ∨ hasAdmin db₀ ch.id = true →
      hasAdmin c.db ch.id = true := by
  have hi : (spec db₀).inv db₀ mem :=
    ⟨hk, fun ch hch hmade => hmade.elim (fun hn => absurd hch hn) id⟩
  have hs : Sound (spec db₀) (fun _ _ _ => True) (fun _ _ _ => True)
      (Cfg.init db₀ mem fun p => (reqs p).body) :=
    Sound.init hi fun p => safe_body rfl hi (reqs p)
  exact (hs.reach h).inv.2

/-! ## Runs -/

def twoUsers : Db where
  users := [{ id := "A", username := "a", aikoUsername := "a" },
    { id := "U", username := "u", aikoUsername := "u" }]

/-- Two leaves of the same member, with a re-add as admin and the other admin's leave between
the role read of the first and its DELETE. -/
def racingRequests : ℕ → MembershipRequest
  | 0 => .createChannel "C" "A" "room" true "invite_only" .standard none
  | 1 => .addMember [] "C" "A" "U" "member" true
  | 2 => .leave "C" "U"
  | 3 => .leave "C" "U"
  | 4 => .addMember [] "C" "A" "U" "admin" true
  | _ => .leave "C" "A"

def racingSchedule : List ℕ :=
  [0, 0, 0, 0, 1, 1, 1, 1, 1, 1, 1, 2, 3, 3, 3, 3, 4, 4, 4, 4, 4, 4, 4, 5, 5, 5, 5, 5, 2, 2, 2]

def racingStart : Cfg ℕ Db Memory Label Exn Unit :=
  Cfg.init twoUsers {} fun p => (racingRequests p).body

/-- Without the condition a created channel can be left with no admin. -/
theorem created_channel_can_lose_its_last_admin :
    ¬ ∀ (db₀ : Db) (mem : Memory) (reqs : ℕ → MembershipRequest)
      (c : Cfg ℕ Db Memory Label Exn Unit), MembershipKeys db₀ →
      Cfg.Reach (fun _ _ => True) (Cfg.init db₀ mem fun p => (reqs p).body) c →
      ∀ ch ∈ c.db.channels, ch ∉ db₀.channels → hasAdmin c.db ch.id = true := by
  intro hclaim
  have hrun : (Cfg.play racingSchedule racingStart).map
      (fun c => (c.db.channels.map (·.id), hasAdmin c.db "C")) = some (["C"], false) := by
    decide +kernel
  obtain ⟨c, hc, hview⟩ := Option.map_eq_some_iff.mp hrun
  obtain ⟨hids, hadmin⟩ := Prod.mk.injEq .. ▸ hview
  have hreach := Cfg.reach_of_play Cfg.Reach.start hc
  have hch : ∃ ch ∈ c.db.channels, ch.id = "C" := by
    have : "C" ∈ c.db.channels.map (·.id) := by simp [hids]
    simpa using this
  obtain ⟨ch, hch, hid⟩ := hch
  have := hclaim twoUsers {} racingRequests c (List.Pairwise.nil) hreach ch hch (by simp [twoUsers])
  rw [hid, hadmin] at this
  cases this

/-- The same requests one after the other meet the condition. -/
theorem sequential_run_keeps_an_admin :
    ∃ c, Cfg.playChecked noAdminSwept [0, 0, 0, 0, 1, 1, 1, 1, 1, 1, 1, 2, 2, 2, 2] racingStart =
      some c ∧ ∀ ch ∈ c.db.channels, ch ∉ twoUsers.channels ∨ hasAdmin twoUsers ch.id = true →
        hasAdmin c.db ch.id = true := by
  have hrun : (Cfg.playChecked noAdminSwept [0, 0, 0, 0, 1, 1, 1, 1, 1, 1, 1, 2, 2, 2, 2]
      racingStart).isSome = true := by
    decide +kernel
  obtain ⟨c, hc⟩ := Option.isSome_iff_exists.mp hrun
  exact ⟨c, hc, created_channels_keep_an_admin {} racingRequests List.Pairwise.nil
    (Cfg.reach_of_playChecked (fun _ _ h => h) Cfg.Reach.start hc)⟩

end AikoIsland.LastAdmin
