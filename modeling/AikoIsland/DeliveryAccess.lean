import AikoIsland.Realtime

/-!
# Membership at delivery

Sockets that subscribe and send, membership changes and fanouts, interleaved
statement by statement. Every connection that a fanout sends to belongs to a
user who may read the channel at that moment, in every run that keeps live
subscriptions readable: a membership change commits while no registered
connection is subscribed to a channel it takes away, and a subscribe adds
channels that are still readable.

The hub is not told of a removal. Without that condition a removed member's
connection stays subscribed and is sent every later frame of the channel.
-/
namespace AikoIsland.DeliveryAccess
open Tables Gateway WriterLock RelyGuarantee Footprint Memberships SigningKeys Messages Realtime

/-! ## The requests -/

inductive AccessRequest where
  | socket (h : Handshake)
  | addMember (identityMap : List User) (channelId actorId targetUserId role : String)
      (canPost : Bool)
  | removeMember (channelId actorId targetUserId : String)
  | leave (channelId actorId : String)
  | fanout (channelId : String) (frame : Frame) (exclude : List String) (dead : List ℕ)

/-- The connection of a socket is numbered by its request. -/
def AccessRequest.body (p : ℕ) : AccessRequest → Body Unit
  | .socket h => wsEndpoint p h
  | .addMember identityMap channelId actorId targetUserId role canPost =>
      (do
        let _ ← Memberships.addMember identityMap channelId actorId targetUserId role canPost
        return () : Body Unit).session
  | .removeMember channelId actorId targetUserId =>
      (Memberships.removeMember channelId actorId targetUserId).session
  | .leave channelId actorId => (Memberships.leave channelId actorId).session
  | .fanout channelId frame exclude dead => Gateway.fanout channelId frame exclude dead

/-! ## Readable subscriptions -/

def canRead (db : Db) (userId channelId : String) : Bool :=
  (db.readableChannel userId channelId).isSome

/-- Every registered connection may read what it is subscribed to. -/
def subscriptionsReadable (db : Db) (conns : List Connection) : Bool :=
  conns.all fun k => k.subscribed.all fun c => canRead db k.userId c

/-- The condition on steps. -/
def keepsReadable : Label → Point Db Memory → Bool
  | .membershipCommit, x => subscriptionsReadable x.view x.mem.conns
  | .subscribeAdd conn _ ids, x =>
      x.mem.conns.all fun k => k.id ≠ conn || ids.all fun c => canRead x.db k.userId c
  | _, _ => true

theorem subscriptionsReadable_iff {db : Db} {conns : List Connection} :
    subscriptionsReadable db conns = true ↔
      ∀ k ∈ conns, ∀ c ∈ k.subscribed, canRead db k.userId c = true := by
  simp [subscriptionsReadable]

/-- Channels stay and nobody loses a membership. -/
structure Grants (a b : Db) : Prop where
  channels : b.channels = a.channels
  memberships : ∀ m ∈ a.memberships, m ∈ b.memberships

theorem Grants.refl (a : Db) : Grants a a := ⟨rfl, fun _ h => h⟩

theorem Grants.trans {a b c : Db} (h : Grants a b) (h' : Grants b c) : Grants a c :=
  ⟨h'.channels.trans h.channels, fun m hm => h'.memberships m (h.memberships m hm)⟩

theorem Grants.canRead {a b : Db} (h : Grants a b) {u c : String}
    (hr : canRead a u c = true) : canRead b u c = true := by
  unfold DeliveryAccess.canRead Db.readableChannel at *
  rw [List.find?_isSome] at *
  obtain ⟨ch, hch, hp⟩ := hr
  simp only [Bool.and_eq_true, Db.readablePredicate, Bool.or_eq_true, List.any_eq_true] at hp ⊢
  refine ⟨ch, by rw [h.channels]; exact hch, hp.1, hp.2.imp id ?_⟩
  rintro ⟨m, hm, hrow⟩
  exact ⟨m, h.memberships m hm, hrow⟩

theorem Grants.subscriptions {a b : Db} (h : Grants a b) {conns : List Connection}
    (hr : subscriptionsReadable a conns = true) : subscriptionsReadable b conns = true := by
  rw [subscriptionsReadable_iff] at *
  exact fun k hk c hc => h.canRead (hr k hk c hc)

theorem grants_of_insert {t : Label} {f : Db → Option Db} {a b : Db} (h : MembershipInsert t f)
    (hf : f a = some b) : Grants a b := by
  cases h with
  | row m =>
      obtain ⟨_, rfl⟩ := Db.insertMembership_eq_some.mp hf
      exact ⟨rfl, fun _ => List.mem_append_left _⟩

/-- A socket writes messages and signing keys only. -/
theorem grants_of_socketWrite {t : Label} {f : Db → Option Db} {a b : Db} (h : SocketWrite t f)
    (hf : f a = some b) : Grants a b := by
  obtain ⟨user, rowId, hsend⟩ := h
  rcases sendWrite_cases hsend hf with ⟨_, rfl⟩ | ⟨m, hm⟩
  · exact ⟨rfl, fun _ h => h⟩
  · obtain ⟨_, rfl⟩ := Db.insertMessage_eq_some.mp hm
    exact ⟨rfl, fun _ h => h⟩

/-! ## The invariant -/

/-- Every fanout so far went to readers only. -/
def DeliveredToReaders (calls : List Call) : Prop :=
  ∀ channelId frame targets, .fanout channelId frame targets ∈ calls →
    ∀ d ∈ targets, d.readable = true

structure Access (db : Db) (mem : Memory) : Prop where
  subscriptions : subscriptionsReadable db mem.conns = true
  delivered : DeliveredToReaders mem.calls

def spec : Spec ℕ Db Memory Label where
  inv := Access
  rely _ _ _ _ _ := True
  meets t x := keepsReadable t x = true
  rely_refl _ _ _ := trivial
  rely_trans _ _ := trivial

theorem allows_of_grants {db s : Db} {mem : Memory} {p : ℕ} {w w' : Option Db}
    (hi : Access db mem) (h : Grants db s) : spec.Allows p ⟨db, mem, w⟩ ⟨s, mem, w'⟩ :=
  ⟨⟨h.subscriptions hi.subscriptions, hi.delivered⟩, fun _ _ => trivial⟩

/-- Fewer connections, and no call that is a fanout. -/
theorem Access.of_sub {db : Db} {m m' : Memory} (h : Access db m)
    (hconns : ∀ k ∈ m'.conns, k ∈ m.conns)
    (hcalls : ∀ c f targets, .fanout c f targets ∈ m'.calls → .fanout c f targets ∈ m.calls) :
    Access db m' where
  subscriptions := by
    rw [subscriptionsReadable_iff]
    exact fun k hk => subscriptionsReadable_iff.mp h.subscriptions k (hconns k hk)
  delivered c f targets hmem := h.delivered c f targets (hcalls c f targets hmem)

theorem Access.fanout {db : Db} {m : Memory} (h : Access db m) (channelId : String)
    (frame : Frame) (exclude : List String) : Access db (m.fanout db channelId frame exclude) where
  subscriptions := h.subscriptions
  delivered c f targets hmem := by
    rcases List.mem_append.mp hmem with hold | hnew
    · exact h.delivered c f targets hold
    · simp only [List.mem_singleton, Call.fanout.injEq] at hnew
      obtain ⟨rfl, rfl, rfl⟩ := hnew
      intro d hd
      obtain ⟨k, hk, rfl⟩ := List.mem_map.mp hd
      obtain ⟨hmemk, hp⟩ := List.mem_filter.mp hk
      simp only [Bool.and_eq_true, decide_eq_true_eq] at hp
      exact subscriptionsReadable_iff.mp h.subscriptions k hmemk c hp.1

/-- A call that is no fanout. -/
theorem Access.log {db : Db} {m : Memory} (h : Access db m) {call : Call}
    (hcall : ∀ c f targets, call ≠ .fanout c f targets) : Access db (m.log call) := by
  refine h.of_sub (fun _ hk => hk) fun c f targets hmem => ?_
  rcases List.mem_append.mp hmem with hold | hnew
  · exact hold
  · exact absurd (List.mem_singleton.mp hnew).symm (hcall c f targets)

theorem Access.subscribe {db : Db} {m : Memory} (h : Access db m) {conn : ℕ} {ids : List String}
    (hids : ∀ k ∈ m.conns, k.id = conn → ∀ c ∈ ids, canRead db k.userId c = true) :
    Access db (m.subscribe conn ids) where
  subscriptions := by
    rw [subscriptionsReadable_iff]
    intro k hk c hc
    obtain ⟨k₀, hk₀, rfl⟩ := List.mem_map.mp hk
    have hold := subscriptionsReadable_iff.mp h.subscriptions k₀ hk₀
    split_ifs at hc ⊢ with hid
    · rcases List.mem_union_iff.mp hc with hsub | hnew
      · exact hold c hsub
      · exact hids k₀ hk₀ hid c hnew
    · exact hold c hc
  delivered := h.delivered

theorem access_serveSegment {conn : ℕ} {userId : String} {t : Label}
    {g : Db → Memory → Memory} (hg : ServeSegment conn userId t g) {z : Point Db Memory}
    (h : Access z.db z.mem) (hm : keepsReadable t z = true) : Access z.db (g z.db z.mem) := by
  cases hg with
  | receive frame =>
      dsimp only [takenIn]
      split_ifs
      · exact h
      · split
        · exact h.log fun _ _ _ => Call.noConfusion
        · exact h
  | reply t r raises =>
      dsimp only
      split_ifs
      · exact h
      · exact h.log fun _ _ _ => Call.noConfusion
  | subscribe ids =>
      refine h.subscribe fun k hk hid c hc => ?_
      simp only [keepsReadable, List.all_eq_true, Bool.or_eq_true, decide_eq_true_eq] at hm
      exact (hm k hk).resolve_left (fun hne => hne hid) c hc
  | publish user channel row body sentAt =>
      have hlog : Access z.db (z.mem.log (.busSend row.id user.aikoUsername channel.aikoChannel
          body)) := h.log fun _ _ _ => Call.noConfusion
      exact ⟨hlog.subscriptions, hlog.delivered⟩
  | fanout channelId frame exclude => exact h.fanout channelId frame exclude
  | drop conns =>
      simp only [Memory.foldl_unregister]
      exact h.of_sub (fun k hk => (List.mem_filter.mp hk).1) fun _ _ _ hmem => hmem

theorem access_socketSegment {conn : ℕ} {t : Label} {g : Db → Memory → Memory}
    (hg : SocketSegment conn t g) {z : Point Db Memory} (h : Access z.db z.mem)
    (hm : keepsReadable t z = true) : Access z.db (g z.db z.mem) := by
  cases hg with
  | letIn token =>
      unfold admittedBy
      split
      · exact ⟨h.subscriptions, h.delivered⟩
      · exact h
  | accept completes =>
      dsimp only
      split_ifs
      · exact h
      · exact ⟨h.subscriptions, h.delivered⟩
  | register userId =>
      refine ⟨?_, h.delivered⟩
      rw [subscriptionsReadable_iff]
      intro k hk
      rcases List.mem_append.mp hk with hold | hnew
      · exact subscriptionsReadable_iff.mp h.subscriptions k hold
      · obtain rfl := List.mem_singleton.mp hnew
        intro c hc
        cases hc
  | finish => exact h.of_sub (fun k hk => (List.mem_filter.mp hk).1) fun _ _ _ hmem => hmem
  | serve hserve => exact access_serveSegment hserve h hm

/-! ## The requests keep the invariant -/

section
variable {p : ℕ} {x : Point Db Memory}

theorem respects_grants {W : Label → (Db → Option Db) → Prop}
    {A : Label → (Db → Memory → Memory) → Prop}
    (hW : ∀ t f a b, W t f → f a = some b → Grants a b)
    (hA : ∀ t g (z : Point Db Memory), A t g → Access z.db z.mem → keepsReadable t z = true →
      Access z.db (g z.db z.mem)) : Respects spec p (fun _ _ => True) Grants W A where
  refl := Grants.refl
  trans := Grants.trans
  stable _ _ := trivial
  write t f z s hw _ _ _ _ hs := hW t f z.view s hw hs
  segment t g z hg hi _ hm := ⟨⟨hA t g z hg hi hm, fun _ _ => trivial⟩, trivial⟩
  commit _ _ _ hi _ h := ⟨allows_of_grants hi h, trivial⟩

/-- The DELETE may take access away; its commit answers for that. -/
theorem safe_deleteMembershipUnlessLastAdmin (c u : String) (isAdmin : Bool) :
    Safe spec p (deleteMembershipUnlessLastAdmin c u isAdmin) (fun _ _ => True)
      (fun _ _ => True) x := by
  have hcommit : ∀ {α : Type} {k : Unit → Body α} {z : Point Db Memory},
      (∀ v, Safe spec p (k ()) (fun _ _ => True) (fun _ _ => True) v) →
      Safe spec p (commitAs .membershipCommit >>= k) (fun _ _ => True) (fun _ _ => True) z := by
    intro α k z hk
    refine Safe.commit fun y hy hm => ⟨fun _ _ => ⟨⟨?_, hy.inv.delivered⟩, fun _ _ => trivial⟩, hk _⟩
    exact hm
  have hrest : ∀ z : Point Db Memory, Safe spec p (do
      let rowcount ← execute (deleteMembership c u isAdmin) (deleteRowcount c u isAdmin)
        (deleteLabel c u isAdmin)
      if 0 < rowcount then
        commitAs .membershipCommit
        return true
      else
        let still ← membership c u
        commitAs .membershipCommit
        return still.isNone) (fun _ _ => True) (fun _ _ => True) z := by
    intro z
    refine Safe.exec fun y _ _ => ?_
    split_ifs
    · exact hcommit fun _ => Safe.pure fun _ _ => trivial
    · exact Safe.query fun _ _ => hcommit fun _ => Safe.pure fun _ _ => trivial
  cases isAdmin with
  | false => exact hrest x
  | true => exact Safe.query fun y _ => hrest y

theorem safe_leave (c u : String) :
    Safe spec p (leave c u) (fun _ _ => True) (fun _ _ => True) x := by
  refine Safe.query fun y hy => ?_
  cases y.view.membershipOf c u with
  | none => exact Safe.raise fun _ _ => trivial
  | some mine =>
      refine Safe.andThen (safe_deleteMembershipUnlessLastAdmin _ _ _) hy.inv fun ok z _ _ => ?_
      cases ok
      · exact Safe.raise fun _ _ => trivial
      · exact Safe.pure fun _ _ => trivial

theorem safe_removeMember (c a u : String) :
    Safe spec p (removeMember c a u) (fun _ _ => True) (fun _ _ => True) x := by
  refine Safe.query fun y hy => ?_
  cases y.view.readableChannel a c with
  | none => exact Safe.raise fun _ _ => trivial
  | some channel =>
      dsimp only
      split_ifs
      · exact Safe.raise fun _ _ => trivial
      · have hadmin : Safe spec p (requireAdmin c a (some channel)) (fun _ _ => True)
            (fun _ _ => True) y := by
          refine Safe.query fun z _ => ?_
          cases z.view.membershipOf c a with
          | none => exact Safe.raise fun _ _ => trivial
          | some actor =>
              dsimp only
              split_ifs
              · exact Safe.pure fun _ _ => trivial
              · exact Safe.raise fun _ _ => trivial
        refine Safe.andThen hadmin hy.inv fun _ z hz _ => Safe.query fun v hv => ?_
        cases v.view.membershipOf c u with
        | none => exact Safe.raise fun _ _ => trivial
        | some target =>
            refine Safe.andThen (safe_deleteMembershipUnlessLastAdmin _ _ _) hv.inv
              fun ok w _ _ => ?_
            cases ok
            · exact Safe.raise fun _ _ => trivial
            · exact Safe.pure fun _ _ => trivial

/-- Each of the requests is safe at the start of its run. -/
theorem safe_body {db : Db} {mem : Memory} (hi : Access db mem) (r : AccessRequest) :
    Safe spec p (r.body p) (fun _ _ => True) (fun _ _ => True) ⟨db, mem, none⟩ := by
  have huses : ∀ {W : Label → (Db → Option Db) → Prop} {A : Label → (Db → Memory → Memory) → Prop}
      {b : Body Unit}, (∀ t f a b, W t f → f a = some b → Grants a b) →
      (∀ t g (z : Point Db Memory), A t g → Access z.db z.mem → keepsReadable t z = true →
        Access z.db (g z.db z.mem)) → Uses W A b →
      Safe spec p b (fun _ _ => True) (fun _ _ => True) ⟨db, mem, none⟩ := fun hW hA hb =>
    ((respects_grants hW hA).safe hb trivial (Grants.refl db)).mono (fun _ _ _ _ => trivial)
      fun _ _ _ _ => trivial
  have hclosed : ∀ {b : Body Unit},
      Safe spec p b (fun _ _ => True) (fun _ _ => True) ⟨db, mem, none⟩ →
      Safe spec p b.session (fun _ _ => True) (fun _ _ => True) ⟨db, mem, none⟩ := fun hb =>
    Safe.session (hb.mono (fun _ _ _ _ _ _ => trivial) fun _ _ _ _ _ _ => trivial) hi
  cases r with
  | socket h =>
      exact huses (fun _ _ _ _ => grants_of_socketWrite) (fun _ _ _ hg => access_socketSegment hg)
        (uses_wsEndpoint p h)
  | addMember map c a u role canPost =>
      exact huses (fun _ _ _ _ => grants_of_insert) (fun _ _ _ hg => hg.elim)
        (Uses.session (Uses.bind (uses_addMember map c a u role canPost) fun _ => trivial))
  | removeMember c a u => exact hclosed (safe_removeMember c a u)
  | leave c u => exact hclosed (safe_leave c u)
  | fanout c f exclude dead =>
      exact huses (W := fun _ _ => False) (fun _ _ _ _ hw => hw.elim)
        (fun _ _ _ hg => access_serveSegment hg)
        (uses_fanout (.fanout c f exclude) fun conns => (.drop conns : ServeSegment p "" _ _))

end

/-- In every run that meets the condition, each connection that a fanout sent to may read the
channel at that moment. -/
theorem fanout_reaches_readers_only (db₀ : Db) (reqs : ℕ → AccessRequest)
    {c : Cfg ℕ Db Memory Label Exn Unit}
    (h : Cfg.Reach (fun t x => keepsReadable t x = true)
      (Cfg.init db₀ {} fun p => (reqs p).body p) c) :
    ∀ channelId frame targets, .fanout channelId frame targets ∈ c.mem.calls →
      ∀ d ∈ targets, d.readable = true := by
  have hi : Access db₀ {} := ⟨rfl, fun _ _ _ hmem => by cases hmem⟩
  have hsound : Sound spec (fun _ _ _ => True) (fun _ _ _ => True)
      (Cfg.init db₀ {} fun p => (reqs p).body p) :=
    Sound.init hi fun p => safe_body hi (reqs p)
  exact (hsound.reach h).inv.delivered

/-! ## Runs -/

/-- A private room with its admin and one member. -/
def privateRoom : Db where
  users := [{ id := "A", username := "a", aikoUsername := "a" },
    { id := "U", username := "u", aikoUsername := "u" }]
  channels := [{ id := "C", name := "room", aikoChannel := "room", isPrivate := true }]
  memberships := [⟨"C", "A", .admin, true⟩, ⟨"C", "U", .member, true⟩]

def news : Message where
  id := "M"
  channelId := "C"
  senderUserId := some "A"
  body := "hi"

/-- The member subscribes, is removed, and a frame of the room is fanned out. -/
def accessRequests : ℕ → AccessRequest
  | 0 => .socket { token := some ⟨"U", 0⟩, frames := [.subscribe [codes "C"] 32766 false] }
  | 1 => .removeMember "C" "A" "U"
  | _ => .fanout "C" (.message news) [] []

def accessStart : Cfg ℕ Db Memory Label Exn Unit :=
  Cfg.init privateRoom {} fun p => (accessRequests p).body p

/-- Without the condition a fanout reaches a removed member. -/
theorem fanout_can_reach_a_removed_member :
    ¬ ∀ (db₀ : Db) (reqs : ℕ → AccessRequest) (c : Cfg ℕ Db Memory Label Exn Unit),
      Cfg.Reach (fun _ _ => True) (Cfg.init db₀ {} fun p => (reqs p).body p) c →
      ∀ channelId frame targets, .fanout channelId frame targets ∈ c.mem.calls →
        ∀ d ∈ targets, d.readable = true := by
  intro hclaim
  have hrun : ((Cfg.play [0, 0, 0, 0, 0, 0, 1, 1, 1, 1, 1, 1, 2] accessStart).map
      fun c => c.mem.calls) = some [.fanout "C" (.message news) [⟨0, "U", false⟩]] := by
    decide +kernel
  obtain ⟨c, hc, hcalls⟩ := Option.map_eq_some_iff.mp hrun
  have hread := hclaim privateRoom accessRequests c (Cfg.reach_of_play Cfg.Reach.start hc) "C"
    (.message news) [⟨0, "U", false⟩] (by simp [hcalls]) ⟨0, "U", false⟩ (by simp)
  cases hread

/-- A frame fanned out before the removal meets the condition and reaches a reader. -/
theorem fanout_before_the_removal_reaches_a_reader :
    ∃ c, Cfg.playChecked keepsReadable [0, 0, 0, 0, 0, 0, 2] accessStart = some c ∧
      ∀ channelId frame targets, .fanout channelId frame targets ∈ c.mem.calls →
        ∀ d ∈ targets, d.readable = true := by
  have hrun : (Cfg.playChecked keepsReadable [0, 0, 0, 0, 0, 0, 2] accessStart).isSome = true := by
    decide +kernel
  obtain ⟨c, hc⟩ := Option.isSome_iff_exists.mp hrun
  exact ⟨c, hc, fanout_reaches_readers_only privateRoom accessRequests
    (Cfg.reach_of_playChecked (fun _ _ h => h) Cfg.Reach.start hc)⟩

end AikoIsland.DeliveryAccess
