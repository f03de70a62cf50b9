import AikoIsland.DirectMessages
import AikoIsland.Settling

/-!
# Opening the same direct message many times

Two members of a pair open their channel at the same time. The `UNIQUE` key lets
one INSERT win. The other call rolls back, finds the winner's channel and would
add its own membership, but the rollback has expired the caller's object, and
reading its id raises.

As long as no call loses that race, every call returns the one channel of the
pair with the members that it has at that moment. Every call ends with no
transaction open, so the close of its session is left out.
-/
namespace AikoIsland.DmConvergence
open Tables Gateway Memberships Messages DirectMessages WriterLock RelyGuarantee Footprint

/-- A call of a caller whose object belongs to the session of the call. -/
structure DmCall where
  me : User
  targetUserId : String
  channelId : String

namespace DmCall

def body (call : DmCall) : Body (Channel × List String) :=
  getOrCreateDm call.me true call.targetUserId call.channelId

def key (call : DmCall) : String := canonicalAikoChannel call.me.id call.targetUserId

end DmCall

/-- No call finds at its INSERT that another one has taken the key. -/
def Unraced : Label → Point Db Memory → Prop
  | .channelInsert _ aikoChannel, x => ∀ ch ∈ x.view.channels, ch.aikoChannel ≠ aikoChannel
  | _, _ => True

/-- No row bears the id. -/
def NoTrace (id : String) (s : Db) : Prop :=
  (∀ ch ∈ s.channels, ch.id ≠ id) ∧ ∀ m ∈ s.memberships, m.channelId ≠ id

/-- The constraints of the channel table, and the users, which no call changes. -/
structure Rows (users : List User) (s : Db) : Prop where
  checks : ∀ ch ∈ s.channels, Db.channelChecks ch = true
  ids : (s.channels.map (·.id)).Nodup
  keys : (s.channels.map (·.aikoChannel)).Nodup
  users : s.users = users

section
variable {π : Type} (calls : π → DmCall) (users : List User)

/-- To a call, channels stay, and its minted id stays unused until it uses it. -/
def callSpec : Spec π Db Memory Label where
  inv s _ := Rows users s
  rely p db _ db' _ := (∀ ch ∈ db.channels, ch ∈ db'.channels) ∧
    (NoTrace (calls p).channelId db → NoTrace (calls p).channelId db')
  meets := Unraced
  rely_refl _ _ _ := ⟨fun _ h => h, fun h => h⟩
  rely_trans h h' := ⟨fun ch hch => h'.1 ch (h.1 ch hch), fun hn => h'.2 (h.2 hn)⟩

variable {calls users} {p : π} {α : Type} {x y : Point Db Memory} {a b : Db} {ch : Channel}

theorem Rows.kind (h : Rows users a) (hch : ch ∈ a.channels) {u v : String}
    (hkey : ch.aikoChannel = canonicalAikoChannel u v) : ch.kind = .dm := by
  have hcheck := h.checks ch hch
  by_contra hdm
  simp [Db.channelChecks, hdm, hkey, isDmChannelName_canonical] at hcheck

/-- The row of a caller in a channel that is there. -/
theorem allows_member (hi : Rows users y.db) (hch : ch ∈ y.db.channels) {m : Membership}
    (hmc : m.channelId = ch.id) {s : Db} (hs : y.db.insertMembership m = some s)
    (w : Option Db) : (callSpec calls users).Allows p y ⟨s, y.mem, w⟩ := by
  obtain ⟨_, rfl⟩ := Db.insertMembership_eq_some.mp hs
  constructor
  · exact ⟨hi.checks, hi.ids, hi.keys, hi.users⟩
  · intro q _
    constructor
    · exact fun _ h => h
    · rintro ⟨hchannels, hmembers⟩
      refine ⟨hchannels, fun m' hm' => ?_⟩
      rcases List.mem_append.mp hm' with hm' | hm'
      · exact hmembers m' hm'
      · rw [List.mem_singleton.mp hm', hmc]
        exact hchannels ch hch

/-- The channel of the pair with its members, under an id that nobody else mints. -/
theorem allows_channel (hids : ∀ p q, (calls p).channelId = (calls q).channelId → p = q)
    {key : String} (hi : Rows users a)
    (hs : a.insertChannel (dmChannel (calls p).channelId key) = some b)
    {rows : List Membership} (hrows : ∀ m ∈ rows, m.channelId = (calls p).channelId)
    (mem : Memory) (v w : Option Db) :
    (callSpec calls users).Allows p ⟨a, mem, v⟩
      ⟨{ b with memberships := b.memberships ++ rows }, mem, w⟩ := by
  obtain ⟨hcheck, hclash, rfl⟩ := Db.insertChannel_eq_some.mp hs
  constructor
  · constructor
    · intro x hx
      rcases List.mem_append.mp hx with hx | hx
      · exact hi.checks x hx
      · rwa [List.mem_singleton.mp hx]
    · rw [List.map_append, List.nodup_append]
      refine ⟨hi.ids, List.nodup_singleton _, ?_⟩
      rintro x hx y hy rfl
      obtain ⟨z, hz, rfl⟩ := List.mem_map.mp hx
      exact (hclash z hz).1 (List.mem_singleton.mp hy)
    · rw [List.map_append, List.nodup_append]
      refine ⟨hi.keys, List.nodup_singleton _, ?_⟩
      rintro x hx y hy rfl
      obtain ⟨z, hz, rfl⟩ := List.mem_map.mp hx
      exact (hclash z hz).2 (List.mem_singleton.mp hy)
    · exact hi.users
  · intro q hqp
    constructor
    · exact fun x hx => List.mem_append_left _ hx
    · rintro ⟨hchannels, hmembers⟩
      have hne : (calls p).channelId ≠ (calls q).channelId := fun h => hqp (hids p q h).symm
      constructor
      · intro x hx
        rcases List.mem_append.mp hx with hx | hx
        · exact hchannels x hx
        · rw [List.mem_singleton.mp hx]
          exact hne
      · intro m hm
        rcases List.mem_append.mp hm with hm | hm
        · exact hmembers m hm
        · rw [hrows m hm]
          exact hne

/-! ## One call -/

/-- The answer of a call: the channel that holds the key. -/
def Opened (call : DmCall) (answer : Channel × List String) (y : Point Db Memory) : Prop :=
  y.work = none ∧ answer.1 ∈ y.db.channels ∧ answer.1.aikoChannel = call.key

/-- The one exception: the target is no user. -/
def Refused (call : DmCall) (e : Exn) (y : Point Db Memory) : Prop :=
  y.work = none ∧ e = .targetNotFound call.targetUserId ∧
    y.db.userById call.targetUserId = none

theorem find_of_id {cs : List Channel} (h : (cs.map (·.id)).Nodup) (hch : ch ∈ cs) :
    (cs.find? fun c => c.id = ch.id) = some ch := by
  cases hfound : cs.find? fun c => c.id = ch.id with
  | none =>
      have hnone := List.find?_eq_none.mp hfound ch hch
      simp at hnone
  | some c =>
      have hid : c.id = ch.id := by simpa using List.find?_some hfound
      rw [List.inj_on_of_nodup_map h (List.mem_of_find?_eq_some hfound) hch hid]

theorem Opened.env {call : DmCall} {answer : Channel × List String} (h : Opened call answer x)
    (hy : (callSpec calls users).Env p x y) : Opened call answer y :=
  ⟨hy.free h.1, hy.rely.1 _ h.2.1, h.2.2⟩

theorem safe_members {call : DmCall} (hx : x.work = none) (hch : ch ∈ x.db.channels)
    (hkey : ch.aikoChannel = call.key) :
    Safe (callSpec calls users) p (do
      let members ← select (membersOf ch.id)
      return (ch, members)) (Opened call) (Refused call) x := by
  intro y hy z hz
  have hopened : ∀ members, Opened call (ch, members) x := fun _ => ⟨hx, hch, hkey⟩
  exact ((hopened _).env hy).env hz

/-- A commit that publishes nothing new, on a working copy with the committed rows. -/
theorem safe_commit_same {k : Body α} {Q : α → Point Db Memory → Prop}
    {E : Exn → Point Db Memory → Prop} (hx : x.view = x.db)
    (hk : ∀ y, (callSpec calls users).Env p x y →
      Safe (callSpec calls users) p k Q E { y with work := none }) :
    Safe (callSpec calls users) p (.commit .plain k) Q E x := by
  intro y hy _
  have hview : y.view = y.db := by
    cases hw : x.work with
    | none => exact Point.view_of_none (hy.free hw)
    | some w => rw [hy.view_eq hw, hy.db_eq hw, ← hx, Point.view_of_some hw]
  have hcommitted : y.committed = { y with work := none } := by
    rw [Point.committed, hview]
  rw [hcommitted]
  exact ⟨fun _ _ => ⟨hy.inv, fun q _ => (callSpec calls users).rely_refl q _ _⟩, hk y hy⟩

theorem safe_adoptDm {call : DmCall} (hx : x.work = none) (hi : Rows users x.db)
    (hch : ch ∈ x.db.channels) (hkey : ch.aikoChannel = call.key) :
    Safe (callSpec calls users) p (adoptDm ch call.key (return call.me.id)) (Opened call)
      (Refused call) x := by
  unfold adoptDm
  rw [if_neg (not_not.mpr (hi.kind hch hkey))]
  have hrest : ∀ {z : Point Db Memory}, z.view = z.db → ch ∈ z.db.channels →
      Safe (callSpec calls users) p (do
        commit
        let members ← select (membersOf ch.id)
        return (ch, members)) (Opened call) (Refused call) z := by
    intro z hview hz
    apply safe_commit_same hview
    intro v hv
    exact safe_members rfl (hv.rely.1 ch hz) hkey
  intro y hy
  have hyw : y.work = none := hy.free hx
  have hchy : ch ∈ y.db.channels := hy.rely.1 ch hch
  change Safe _ p (((List.filter _ [call.me.id]).forM _) >>= _) _ _ y
  rw [List.filter_cons]
  split_ifs with hpresent
  swap
  · exact hrest (Point.view_of_none hyw) hchy
  · intro z hz _
    have hzw : z.work = none := hz.free hyw
    have hchz : ch ∈ z.db.channels := hz.rely.1 ch hchy
    constructor
    · intro s hs
      rw [Point.view_of_none hzw] at hs
      have hallow : (callSpec calls users).Allows p z { z with db := s } :=
        allows_member hz.inv hchz rfl hs z.work
      refine ⟨fun _ _ => hallow, ?_⟩
      rw [Point.wrote_nested_free s hzw]
      apply hrest (z := { z with db := s }) (Point.view_of_none hzw)
      obtain ⟨_, rfl⟩ := Db.insertMembership_eq_some.mp hs
      exact hchz
    · intro _
      apply hrest (z := z.refused)
      · rw [Point.refused_view, Point.refused_db, Point.view_of_none hzw]
      · exact hchz

/-- The rows of the members, none of which is there yet. -/
theorem safe_flushMembers {S : Spec π Db Memory Label} {id : String} {w : Db} {k : Bool → Body α}
    {Q : α → Point Db Memory → Prop} {E : Exn → Point Db Memory → Prop} (uids : List String)
    (hx : x.work = some w) (hdistinct : uids.Nodup)
    (hnew : ∀ m ∈ w.memberships, ∀ uid ∈ uids, ¬(m.channelId = id ∧ m.userId = uid))
    (hok : ∀ y rows, y.work = some { w with memberships := w.memberships ++ rows } →
      y.db = x.db → (∀ m ∈ rows, m.channelId = id) → Safe S p (k true) Q E y) :
    Safe S p (flushMembers id uids >>= k) Q E x := by
  induction uids generalizing x w with
  | nil => exact hok x [] (by simpa using hx) rfl (by simp)
  | cons uid uids ih =>
      intro y hy _
      rw [hy.view_eq hx]
      have hfree : ∀ m ∈ w.memberships, ¬(m.channelId = id ∧ m.userId = uid) :=
        fun m hm => hnew m hm uid List.mem_cons_self
      constructor
      · intro s hs
        refine ⟨fun hn => absurd hn (by decide), ?_⟩
        obtain ⟨_, rfl⟩ := Db.insertMembership_eq_some.mp hs
        obtain ⟨hfirst, hrest⟩ := List.nodup_cons.mp hdistinct
        apply ih rfl hrest
        · intro m hm uid' huid'
          rcases List.mem_append.mp hm with hm | hm
          · exact hnew m hm uid' (List.mem_cons_of_mem uid huid')
          · rw [List.mem_singleton.mp hm]
            rintro ⟨_, rfl⟩
            exact hfirst huid'
        · intro z rows hz hzdb hrows
          apply hok z (⟨id, uid, .member, true⟩ :: rows)
          · rw [hz, List.append_assoc]
            rfl
          · exact hzdb.trans (hy.db_eq hx)
          · intro m hm
            rcases List.mem_cons.mp hm with rfl | hm
            · rfl
            · exact hrows m hm
      · intro hnone
        exfalso
        obtain ⟨m, hm, hclash⟩ := insertRow_eq_none.mp (Option.map_eq_none_iff.mp hnone)
        exact hfree m hm (by simpa using hclash)

theorem memberIds_nodup (u v : String) : (memberIds u v).Nodup := by
  unfold memberIds
  split_ifs with h
  · exact List.nodup_singleton u
  · simp [h]
  · simp [Ne.symm h]

theorem insertChannel_dm {id u v : String} {s : Db} (hid : ∀ c ∈ s.channels, c.id ≠ id)
    (hkey : ∀ c ∈ s.channels, c.aikoChannel ≠ canonicalAikoChannel u v) :
    s.insertChannel (dmChannel id (canonicalAikoChannel u v)) ≠ none := by
  rw [Option.ne_none_iff_exists']
  refine ⟨_, Db.insertChannel_eq_some.mpr ⟨?_, fun c hc => ⟨hid c hc, hkey c hc⟩, rfl⟩⟩
  simp [Db.channelChecks, dmChannel, isDmChannelName_canonical]

/-- The call that creates the channel. -/
theorem safe_create (hids : ∀ p q, (calls p).channelId = (calls q).channelId → p = q)
    (hx : x.work = none) (hfresh : NoTrace (calls p).channelId x.db) :
    Safe (callSpec calls users) p (do
      if ← flushDm (calls p).channelId (calls p).key
          (memberIds (calls p).me.id (calls p).targetUserId) then
        commit
        refreshedDm (calls p).channelId
      else adoptWinner (calls p).me true (calls p).key) (Opened (calls p)) (Refused (calls p)) x := by
  intro y hy hmeets
  have hyw : y.work = none := hy.free hx
  have hfree : NoTrace (calls p).channelId y.db := hy.rely.2 hfresh
  have hkey : ∀ c ∈ y.view.channels, c.aikoChannel ≠ (calls p).key := hmeets
  rw [Point.view_of_none hyw] at hkey ⊢
  refine ⟨fun s hs => ⟨fun hn => absurd hn (by decide), ?_⟩,
    fun hn => absurd hn (insertChannel_dm hfree.1 hkey)⟩
  change Safe _ p (flushMembers (calls p).channelId
    (memberIds (calls p).me.id (calls p).targetUserId) >>= _) _ _ _
  apply safe_flushMembers _ rfl (memberIds_nodup _ _)
  · intro m hm uid _ hclash
    obtain ⟨_, _, rfl⟩ := Db.insertChannel_eq_some.mp hs
    exact hfree.2 m hm hclash.1
  · intro z rows hz hzdb hrows v hv _
    have hvw := hv.work.trans hz
    have hvdb : v.db = y.db := (hv.db_eq hz).trans hzdb
    have hvinv : Rows users y.db := hy.inv
    have hview := Point.view_of_some hvw
    rw [Point.committed, hview]
    constructor
    · intro _ _
      have hallow : (callSpec calls users).Allows p _ _ :=
        allows_channel hids hvinv hs hrows v.mem v.work none
      rw [← hvdb] at hallow
      exact hallow
    · -- the refresh finds the new row
      have hnew : dmChannel (calls p).channelId (calls p).key ∈ s.channels := by
        obtain ⟨_, _, rfl⟩ := Db.insertChannel_eq_some.mp hs
        exact List.mem_append_right _ (List.mem_singleton_self _)
      intro v' hv'
      have hmem : dmChannel (calls p).channelId (calls p).key ∈ v'.db.channels :=
        hv'.rely.1 _ hnew
      have hvw' : v'.work = none := hv'.free rfl
      have hinv : Rows users v'.db := hv'.inv
      have hfound : (v'.view.channels.find? fun c => c.id = (calls p).channelId) =
          some (dmChannel (calls p).channelId (calls p).key) := by
        rw [Point.view_of_none hvw']
        exact find_of_id hinv.ids hmem
      beta_reduce
      rw [hfound]
      exact safe_members hvw' hmem rfl

/-- The lookup by the key, once the target is known to exist. -/
theorem safe_lookup (hids : ∀ p q, (calls p).channelId = (calls q).channelId → p = q)
    (hx : x.work = none) (hfresh : NoTrace (calls p).channelId x.db) :
    Safe (callSpec calls users) p (do
      match ← select (channelByName (calls p).key) with
      | some existing => adoptDm existing (calls p).key (return (calls p).me.id)
      | none =>
          if ← flushDm (calls p).channelId (calls p).key
              (memberIds (calls p).me.id (calls p).targetUserId) then
            commit
            refreshedDm (calls p).channelId
          else adoptWinner (calls p).me true (calls p).key) (Opened (calls p))
      (Refused (calls p)) x := by
  apply Safe.query
  intro z hz
  have hzw : z.work = none := hz.free hx
  generalize hlookup : channelByName (calls p).key z.view = found
  rw [Point.view_of_none hzw] at hlookup
  cases found with
  | some existing =>
      have hch : existing ∈ z.db.channels := List.mem_of_find?_eq_some hlookup
      have hkey : existing.aikoChannel = (calls p).key := by
        simpa using List.find?_some hlookup
      exact safe_adoptDm hzw hz.inv hch hkey
  | none => exact safe_create hids hzw (hz.rely.2 hfresh)

/-- A call that does not lose the race for the key opens the channel of the pair. -/
theorem safe_body (hids : ∀ p q, (calls p).channelId = (calls q).channelId → p = q)
    (hx : x.work = none) (hfresh : NoTrace (calls p).channelId x.db) :
    Safe (callSpec calls users) p (calls p).body (Opened (calls p)) (Refused (calls p)) x := by
  unfold DmCall.body getOrCreateDm getUser
  split
  · exact safe_lookup hids hx hfresh
  · intro y hy
    beta_reduce
    cases huser : y.view.userById (calls p).targetUserId with
    | some _ => exact safe_lookup hids (hy.free hx) (hy.rely.2 hfresh)
    | none =>
        intro z hz
        rw [Point.view_of_none (hy.free hx)] at huser
        refine ⟨hz.free (hy.free hx), rfl, ?_⟩
        have hyu : y.db.users = users := Rows.users hy.inv
        have hzu : z.db.users = users := Rows.users hz.inv
        rw [Db.userById, hzu, ← hyu]
        exact huser

end

/-! ## Where the members were read -/

/-- The last statement of a call reads the members of the channel that it returns. -/
def ReadsMembers (r : Body (Channel × List String)) (s : Db) (answer : Channel × List String) :
    Prop :=
  (∃ k, r = .select k ∧ k s = .ret answer) ∧ answer.2 = membersOf answer.1.id s

theorem through_members (ch : Channel) {id : String} (hid : ch.id = id) :
    Through ReadsMembers (fun _ => False) (do
      let members ← select (membersOf id)
      return (ch, members) : Body (Channel × List String)) := by
  intro s
  right
  refine ⟨⟨_, rfl, rfl⟩, ?_⟩
  change membersOf id s = membersOf ch.id s
  rw [hid]

theorem through_adoptDm (ch : Channel) (key : String) (meId : Body String) :
    Through ReadsMembers (fun _ => False) (adoptDm ch key meId) := by
  unfold adoptDm
  split_ifs
  · exact trivial
  · apply Through.bind
    intro me
    apply Through.bind
    intro _
    apply Through.bind
    intro _
    exact through_members ch rfl

theorem through_refreshedDm (id : String) :
    Through ReadsMembers (fun _ => False) (refreshedDm id) := by
  intro s
  beta_reduce
  cases hfound : s.channels.find? fun c => c.id = id with
  | none => exact trivial
  | some channel =>
      have hid : channel.id = id := by simpa using List.find?_some hfound
      exact (through_members channel hid).mono fun a => False.elim

theorem through_body (call : DmCall) : Through ReadsMembers (fun _ => False) call.body := by
  unfold DmCall.body getOrCreateDm
  apply Through.bind
  intro target
  cases target with
  | none => exact trivial
  | some _ =>
      apply Through.bind
      intro existing
      cases existing with
      | some existing => exact through_adoptDm _ _ _
      | none =>
          apply Through.bind
          intro ok
          cases ok with
          | true =>
              apply Through.bind
              intro _
              exact through_refreshedDm _
          | false =>
              apply Through.bind
              intro _
              apply Through.bind
              intro winner
              cases winner with
              | none => exact trivial
              | some winner => exact through_adoptDm _ _ _

/-! ## Runs -/

section
variable {π : Type} [DecidableEq π] {calls : π → DmCall} {db : Db} {mem : Memory}
  {c : Cfg π Db Memory Label Exn (Channel × List String)} {key : String}

def startOf (calls : π → DmCall) (db : Db) (mem : Memory) :
    Cfg π Db Memory Label Exn (Channel × List String) :=
  Cfg.init db mem fun p => (calls p).body

/-- The calls are those of one pair, each with a minted id of its own. -/
structure OnePair (calls : π → DmCall) (key : String) (db : Db) : Prop where
  key : ∀ p, (calls p).key = key
  distinct : ∀ p q, (calls p).channelId = (calls q).channelId → p = q
  fresh : ∀ p, NoTrace (calls p).channelId db

/-- The call has returned the one channel with the key, with the members that the channel had
in the state that the last statement of the call saw. -/
def Converged (key : String) (db : Db) (mem : Memory)
    (calls : π → DmCall) (c : Cfg π Db Memory Label Exn (Channel × List String)) (p : π)
    (answer : Channel × List String) : Prop :=
  (answer.1 ∈ c.db.channels ∧ answer.1.aikoChannel = key ∧
    ∀ ch ∈ c.db.channels, ch.aikoChannel = key → ch = answer.1) ∧
  ∃ c₁ c₂, Cfg.Reach (fun _ _ => True) (startOf calls db mem) c₁ ∧ c₁.step p = some c₂ ∧
    Cfg.Reach (fun _ _ => True) c₂ c ∧ answer.2 = membersOf answer.1.id c₁.db

/-- The whole claim about a configuration: no call fails but for a missing target, and what
calls have returned has converged. -/
def Converges (key : String) (db : Db) (mem : Memory) (calls : π → DmCall)
    (c : Cfg π Db Memory Label Exn (Channel × List String)) : Prop :=
  (∀ p e, c.procs p = .raise e → e = .targetNotFound (calls p).targetUserId ∧
    c.db.userById (calls p).targetUserId = none) ∧
  ∀ p answer, c.procs p = .ret answer → Converged key db mem calls c p answer

theorem sound_start {users : List User} (hpair : OnePair calls key db) (hdb : Rows users db)
    (mem : Memory) :
    Sound (callSpec calls users) (fun p => Opened (calls p)) (fun p => Refused (calls p))
      (startOf calls db mem) :=
  Sound.init hdb fun p => safe_body (x := ⟨db, mem, none⟩) hpair.distinct rfl (hpair.fresh p)

/-- In a run in which no call loses the race for the key, all calls converge. -/
theorem dm_convergence (hpair : OnePair calls key db) (hdb : Rows db.users db)
    (hr : Cfg.Reach Unraced (startOf calls db mem) c) : Converges key db mem calls c := by
  have hsound := (sound_start hpair hdb mem).reach hr
  have hrows : Rows db.users c.db := hsound.inv
  constructor
  · intro p e he
    exact (hsound.raised he).2
  · intro p answer hret
    obtain ⟨_, hch, hkey⟩ := hsound.returned hret
    rw [hpair.key p] at hkey
    refine ⟨⟨hch, hkey, fun ch' hch' hkey' => ?_⟩, ?_⟩
    · exact List.inj_on_of_nodup_map hrows.keys hch' hch (hkey'.trans hkey.symm)
    · have hthrough := (through_body (calls p)).reach (c := startOf calls db mem) (p := p) hr
      rw [hret] at hthrough
      rcases hthrough with hfalse | ⟨c₁, c₂, h₁, hstep, h₂, ⟨k, hselect, hk⟩, hmembers⟩
      · exact hfalse.elim
      · -- the call held no lock when it read the members
        have hsafe := ((sound_start hpair hdb mem).reach h₁).safe p
        rw [hselect] at hsafe
        have hinv := ((sound_start hpair hdb mem).reach h₁).inv
        have hlast := hsafe _ (Spec.Env.refl hinv)
        rw [hk] at hlast
        have hfree : (c₁.point p).work = none := (hlast _ (Spec.Env.refl hinv)).1
        rw [Point.view_of_none hfree] at hmembers
        exact ⟨c₁, c₂, h₁.mono fun _ _ _ => trivial, hstep, h₂.mono fun _ _ _ => trivial, hmembers⟩

end

/-! ## Two callers -/

def alice : User := { id := "01AAAAAAAAAAAAAAAAAAAAAAAA", username := "a", aikoUsername := "a" }

def bob : User := { id := "01BBBBBBBBBBBBBBBBBBBBBBBB", username := "b", aikoUsername := "b" }

def twoUsers : Db := { users := [alice, bob] }

def twoCalls (p : Bool) : DmCall := if p then ⟨alice, bob.id, "ch1"⟩ else ⟨bob, alice.id, "ch2"⟩

def pairKey : String := canonicalAikoChannel alice.id bob.id

/-- Both look the key up before either inserts. -/
def raceSchedule : List Bool :=
  [true, true, false, false, true, true, true, true, false, false, false]

theorem twoCalls_pair : OnePair twoCalls pairKey twoUsers := by
  constructor
  · intro p
    cases p
    · exact canonicalAikoChannel_comm _ _
    · rfl
  · decide
  · exact fun p => ⟨nofun, nofun⟩

theorem twoUsers_rows : Rows twoUsers.users twoUsers :=
  ⟨nofun, List.nodup_nil, List.nodup_nil, rfl⟩

/-- The call that lost the race raises, although its target exists. -/
theorem dm_convergence_raced : ¬∀ c, Cfg.Reach (fun _ _ => True) (startOf twoCalls twoUsers {}) c →
    Converges pairKey twoUsers {} twoCalls c := by
  intro hclaim
  have hrun : (Cfg.play raceSchedule (startOf twoCalls twoUsers {})).map
      (fun c => Settling.raised (c.procs false)) = some (some .missingGreenlet) := by
    decide +kernel
  obtain ⟨c, hc, hraised⟩ := Option.map_eq_some_iff.mp hrun
  have hconv := hclaim c (Cfg.reach_of_play Cfg.Reach.start hc)
  have hproc := Settling.raised_eq_some.mp hraised
  cases (hconv.1 false _ hproc).1

def unraced : Label → Point Db Memory → Bool
  | .channelInsert _ aikoChannel, x =>
      x.view.channels.all fun ch => decide (ch.aikoChannel ≠ aikoChannel)
  | _, _ => true

theorem unraced_spec (t : Label) (x : Point Db Memory) (h : unraced t x = true) : Unraced t x := by
  cases t with
  | channelInsert id key => simpa [unraced, Unraced] using h
  | _ => trivial

/-- One after the other, both get the same channel. -/
theorem dm_convergence_in_turn :
    ∃ c, Cfg.playChecked unraced (List.replicate 8 true ++ List.replicate 5 false)
        (startOf twoCalls twoUsers {}) = some c ∧
      (c.procs true).returned = (c.procs false).returned ∧ (c.procs true).returned.isSome = true ∧
      Converges pairKey twoUsers {} twoCalls c := by
  have hrun : (Cfg.playChecked unraced (List.replicate 8 true ++ List.replicate 5 false)
      (startOf twoCalls twoUsers {})).map
        (fun c => decide ((c.procs true).returned = (c.procs false).returned) &&
          (c.procs true).returned.isSome) = some true := by
    decide +kernel
  obtain ⟨c, hc, hboth⟩ := Option.map_eq_some_iff.mp hrun
  rw [Bool.and_eq_true, decide_eq_true_eq] at hboth
  exact ⟨c, hc, hboth.1, hboth.2, dm_convergence twoCalls_pair twoUsers_rows
    (Cfg.reach_of_playChecked unraced_spec Cfg.Reach.start hc)⟩

end AikoIsland.DmConvergence
