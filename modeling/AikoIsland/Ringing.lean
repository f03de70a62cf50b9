import AikoIsland.Calls
import AikoIsland.Visibility

/-!
# Who may be rung, and who may join

A direct call of a channel is two people: the channel is a private direct
message, they are its members and nobody else is, and neither blocks the other.
The door of the video endpoints lets a user in exactly when the user has such a
call with somebody, and `_recipients` names exactly the other person of the
sender's call, unless that person is banned or excluded. So the two gates agree
although they ask different questions.

A wake then adds its own gates: the person has written in the channel, the body
is a call sentinel, and the budget is not used up.
-/
namespace AikoIsland.Ringing
open Tables Gateway Memberships DirectMessages Transports Calls WriterLock

def MemberOf (db : Db) (channelId userId : String) : Prop :=
  ∃ m ∈ db.memberships, m.channelId = channelId ∧ m.userId = userId

/-- The primary key of `memberships`. -/
def Keyed (db : Db) : Prop := (db.memberships.map fun m => (m.channelId, m.userId)).Nodup

/-- The two may call each other in this channel. -/
structure DirectCall (db : Db) (channelId a b : String) : Prop where
  distinct : a ≠ b
  dm : ∃ channel, channelById channelId db = some channel ∧ channel.kind = .dm ∧
    channel.isPrivate = true
  members : ∀ u, MemberOf db channelId u ↔ u = a ∨ u = b
  notBlocked : ¬BlockedBetween db a b

section
variable {db : Db} {channelId a b u : String}

theorem DirectCall.symm (h : DirectCall db channelId a b) : DirectCall db channelId b a where
  distinct := h.distinct.symm
  dm := h.dm
  members u := (h.members u).trans or_comm
  notBlocked hblock := h.notBlocked (Visibility.blockedBetween_comm.mp hblock)

/-- A member has one call partner at most. -/
theorem DirectCall.unique {c : String} (h : DirectCall db channelId a b)
    (h' : DirectCall db channelId a c) : b = c := by
  have hb : MemberOf db channelId b := (h.members b).mpr (Or.inr rfl)
  rcases (h'.members b).mp hb with hba | hbc
  · exact absurd hba.symm h.distinct
  · exact hbc

theorem mem_memberIds : u ∈ Calls.memberIds channelId db ↔ MemberOf db channelId u := by
  simp only [Calls.memberIds, List.mem_dedup, List.mem_map, List.mem_filter, decide_eq_true_eq,
    MemberOf, and_assoc]

theorem mem_peerIds : u ∈ peerIds channelId a db ↔ MemberOf db channelId u ∧ u ≠ a := by
  simp only [peerIds, List.mem_map, List.mem_filter, Bool.and_eq_true, decide_eq_true_eq,
    MemberOf]
  constructor
  · rintro ⟨m, ⟨hm, hchannel, hne⟩, rfl⟩
    exact ⟨⟨m, hm, hchannel, rfl⟩, hne⟩
  · rintro ⟨⟨m, hm, hchannel, rfl⟩, hne⟩
    exact ⟨m, ⟨hm, hchannel, hne⟩, rfl⟩

theorem nodup_peerIds (hkeys : Keyed db) : (peerIds channelId a db).Nodup := by
  have hrows : db.memberships.Nodup := hkeys.of_map
  have hpart : (db.memberships.filter fun m => m.channelId = channelId && m.userId ≠ a).Nodup :=
    hrows.filter _
  apply List.Nodup.map_on _ hpart
  intro x hx y hy hxy
  have hxc : x.channelId = channelId ∧ x.userId ≠ a := by simpa using (List.mem_filter.mp hx).2
  have hyc : y.channelId = channelId ∧ y.userId ≠ a := by simpa using (List.mem_filter.mp hy).2
  apply List.inj_on_of_nodup_map hkeys (List.mem_of_mem_filter hx) (List.mem_of_mem_filter hy)
  exact Prod.ext (hxc.1.trans hyc.1.symm) hxy

/-- A list without repetitions is one element when that element is all it holds. -/
theorem eq_singleton {α : Type} {xs : List α} {x : α} (hnodup : xs.Nodup)
    (h : ∀ y, y ∈ xs ↔ y = x) : xs = [x] := by
  apply List.perm_singleton.mp
  apply (List.perm_ext_iff_of_nodup hnodup (List.nodup_singleton x)).mpr
  intro y
  rw [h y, List.mem_singleton]

theorem readableChannel_of_member {channel : Channel}
    (hfound : channelById channelId db = some channel) (hmember : MemberOf db channelId u) :
    db.readableChannel u channelId = some channel := by
  have hall : ∀ c ∈ db.channels, (decide (c.id = channelId) && db.readablePredicate u c) =
      decide (c.id = channelId) := by
    intro c _
    by_cases hc : c.id = channelId
    · obtain ⟨m, hm, hchannel, huser⟩ := hmember
      have hread : db.readablePredicate u c = true := by
        simp only [Db.readablePredicate, Bool.or_eq_true, List.any_eq_true, Bool.and_eq_true,
          decide_eq_true_eq]
        exact Or.inr ⟨m, hm, hchannel.trans hc.symm, huser⟩
      simp [hc, hread]
    · simp [hc]
  unfold Db.readableChannel channelById at *
  rw [← hfound]
  exact List.find?_congr hall

/-- A private channel that a user may read is the one under its id, and has the user in it. -/
theorem member_of_readable {channel : Channel} (h : db.readableChannel u channelId = some channel)
    (hprivate : channel.isPrivate = true) :
    MemberOf db channelId u ∧ channelById channelId db = some channel := by
  obtain ⟨_, hid, hread⟩ := Db.mem_of_readableChannel h
  have hmember : MemberOf db channelId u := by
    simp only [Db.readablePredicate, hprivate, Bool.not_true, Bool.false_or, List.any_eq_true,
      Bool.and_eq_true, decide_eq_true_eq] at hread
    obtain ⟨m, hm, hchannel, huser⟩ := hread
    exact ⟨m, hm, hchannel.trans hid, huser⟩
  refine ⟨hmember, ?_⟩
  cases hfound : channelById channelId db with
  | some c =>
      have hsame := readableChannel_of_member hfound hmember
      exact hsame.symm.trans h
  | none =>
      have hnone := List.find?_eq_none.mp hfound channel (Db.mem_of_readableChannel h).1
      simp [hid] at hnone

end

/-! ## The door -/

/-- `_gated_dm_channel` lets the user in. -/
def Admits (x : Point Db Memory) (userId channelId : String) : Prop :=
  ∃ channel, (gatedDmChannel userId channelId).run x = (.ok channel, x)

section
variable {x : Point Db Memory} {channelId userId : String}

/-- The door is open to exactly those who have a call in the channel. -/
theorem admits_iff (hkeys : Keyed x.view) :
    Admits x userId channelId ↔ ∃ peer, DirectCall x.view channelId userId peer := by
  unfold Admits gatedDmChannel
  constructor
  · rintro ⟨channel, hrun⟩
    rw [Request.run_bind, readableChannel, select, Request.run_query] at hrun
    dsimp only at hrun
    generalize hfound : x.view.readableChannel userId channelId = found at hrun
    cases found with
    | none => cases congrArg Prod.fst hrun
    | some c =>
        dsimp only at hrun
        split_ifs at hrun with hkind
        · cases congrArg Prod.fst hrun
        · rw [Request.run_bind, select, Request.run_query] at hrun
          dsimp only at hrun
          push Not at hkind
          obtain ⟨hdm, hprivate⟩ := hkind
          have hprivate : c.isPrivate = true := by simpa using hprivate
          obtain ⟨hmember, hchannel⟩ := member_of_readable hfound hprivate
          have hid : c.id = channelId := (Db.mem_of_readableChannel hfound).2.1
          rw [hid] at hrun
          generalize hpeers : peerIds channelId userId x.view = peers at hrun
          cases peers with
          | nil => cases congrArg Prod.fst hrun
          | cons peer others =>
              cases others with
              | cons => cases congrArg Prod.fst hrun
              | nil =>
                  dsimp only at hrun
                  rw [Request.run_bind, Visibility.run_isBlockedBetween] at hrun
                  dsimp only at hrun
                  have hpeer : MemberOf x.view channelId peer ∧ peer ≠ userId := by
                    rw [← mem_peerIds, hpeers]
                    exact List.mem_singleton_self peer
                  split_ifs at hrun with hblocked
                  · cases congrArg Prod.fst hrun
                  · have hmembers : ∀ u, MemberOf x.view channelId u ↔ u = userId ∨ u = peer := by
                      intro u
                      constructor
                      · intro hu
                        by_cases hself : u = userId
                        · exact Or.inl hself
                        · right
                          have hin : u ∈ peerIds channelId userId x.view := mem_peerIds.mpr ⟨hu, hself⟩
                          rwa [hpeers, List.mem_singleton] at hin
                      · rintro (rfl | rfl)
                        · exact hmember
                        · exact hpeer.1
                    refine ⟨peer, hpeer.2.symm, ⟨c, hchannel, hdm, hprivate⟩, hmembers, ?_⟩
                    intro hblock
                    apply hblocked
                    rw [decide_eq_true_eq, mem_blockedPairUserIds]
                    exact ⟨hpeer.2.symm, hblock⟩
  · rintro ⟨peer, hcall⟩
    obtain ⟨c, hchannel, hdm, hprivate⟩ := hcall.dm
    have hmember : MemberOf x.view channelId userId := (hcall.members userId).mpr (Or.inl rfl)
    have hread := readableChannel_of_member hchannel hmember
    have hid : c.id = channelId := (Db.mem_of_readableChannel hread).2.1
    have hpeers : peerIds c.id userId x.view = [peer] := by
      rw [hid]
      apply eq_singleton (nodup_peerIds hkeys)
      intro u
      rw [mem_peerIds, hcall.members]
      constructor
      · rintro ⟨hself | hpeer, hne⟩
        · exact absurd hself hne
        · exact hpeer
      · rintro rfl
        exact ⟨Or.inr rfl, hcall.distinct.symm⟩
    have hopen : ¬(c.kind ≠ .dm ∨ c.isPrivate = false) := by simp [hdm, hprivate]
    have hclear : decide (userId ≠ peer ∧ peer ∈ x.view.blockedPairUserIds userId) = false := by
      rw [decide_eq_false_iff_not, mem_blockedPairUserIds]
      exact fun h => hcall.notBlocked h.2
    refine ⟨c, ?_⟩
    rw [Request.run_bind, readableChannel, select, Request.run_query]
    dsimp only
    rw [hread]
    dsimp only
    rw [if_neg hopen, Request.run_bind, select, Request.run_query]
    dsimp only
    rw [hpeers]
    dsimp only
    rw [Request.run_bind, Visibility.run_isBlockedBetween, hclear]
    rfl

end

/-! ## The recipients -/

section
variable {x : Point Db Memory}

/-- Who is rung: the partner of the sender's call, if live and not excluded. -/
def Rings (db : Db) (channelId senderId : String) (exclude : List String) (u : String) : Prop :=
  DirectCall db channelId senderId u ∧ (∃ user ∈ db.users, user.id = u ∧ user.bannedAt = none) ∧
    u ∉ exclude

/-- Two distinct members, one of them known, are the pair. -/
theorem members_of_two {members : List String} {a : String} (hnodup : members.Nodup)
    (ha : a ∈ members) (hlen : members.length = 2) :
    ∃ b, b ≠ a ∧ ∀ u, u ∈ members ↔ u = a ∨ u = b := by
  match members, hlen with
  | [p, q], _ =>
      have hpq : p ≠ q := by simpa using hnodup
      rcases List.mem_pair.mp ha with rfl | rfl
      · exact ⟨q, hpq.symm, fun u => List.mem_pair⟩
      · exact ⟨p, hpq, fun u => List.mem_pair.trans or_comm⟩

/-- The step lemma of the gate: in one state `_recipients` names exactly whom the call rings. -/
theorem run_recipients (channelId senderId : String) (exclude : List String) :
    ∃ found, (recipients channelId senderId exclude).run x = (.ok found, x) ∧
      (∀ u, u ∈ found ↔ Rings x.view channelId senderId exclude u) ∧
      ((x.view.users.map (·.id)).Nodup → found.Nodup) := by
  -- without a call there is nobody to ring
  have hnobody : (∀ u, ¬DirectCall x.view channelId senderId u) →
      ∀ u : String, u ∈ ([] : List String) ↔ Rings x.view channelId senderId exclude u := by
    intro hnone u
    constructor
    · intro hu
      cases hu
    · exact fun hring => absurd hring.1 (hnone u)
  unfold recipients
  rw [Request.run_bind, select, Request.run_query]
  dsimp only
  generalize hfound : channelById channelId x.view = found
  cases found with
  | none =>
      refine ⟨[], rfl, hnobody fun u hcall => ?_, fun _ => List.nodup_nil⟩
      obtain ⟨c, hc, _⟩ := hcall.dm
      rw [hfound] at hc
      cases hc
  | some channel =>
      dsimp only
      by_cases hkind : channel.kind ≠ .dm ∨ channel.isPrivate = false
      · rw [if_pos hkind]
        refine ⟨[], rfl, hnobody fun u hcall => ?_, fun _ => List.nodup_nil⟩
        obtain ⟨c, hc, hdm, hprivate⟩ := hcall.dm
        rw [hfound] at hc
        obtain rfl := Option.some.inj hc
        rcases hkind with hkind | hpublic
        · exact hkind hdm
        · rw [hprivate] at hpublic
          cases hpublic
      · rw [if_neg hkind, Request.run_bind, select, Request.run_query]
        dsimp only
        have hnodup : (Calls.memberIds channelId x.view).Nodup := List.nodup_dedup _
        by_cases htwo : senderId ∉ Calls.memberIds channelId x.view ∨
            (Calls.memberIds channelId x.view).length ≠ 2
        · rw [if_pos htwo]
          refine ⟨[], rfl, hnobody fun u hcall => ?_, fun _ => List.nodup_nil⟩
          have hmem : ∀ v, v ∈ Calls.memberIds channelId x.view ↔ v = senderId ∨ v = u :=
            fun v => mem_memberIds.trans (hcall.members v)
          have hpair : (Calls.memberIds channelId x.view).Perm [senderId, u] := by
            apply (List.perm_ext_iff_of_nodup hnodup (by simpa using hcall.distinct)).mpr
            intro v
            rw [hmem v, List.mem_pair]
          rcases htwo with hout | hlen
          · exact hout ((hmem senderId).mpr (Or.inl rfl))
          · exact hlen hpair.length_eq
        · rw [if_neg htwo]
          push Not at htwo hkind
          obtain ⟨peer, hne, hmem⟩ := members_of_two hnodup htwo.1 htwo.2
          have hpeers : ∀ u, u ∈ (Calls.memberIds channelId x.view).filter (fun u => u ≠ senderId) ↔
              u = peer := by
            intro u
            rw [List.mem_filter, hmem u, decide_eq_true_eq]
            constructor
            · rintro ⟨hself | hpeer, hother⟩
              · exact absurd hself hother
              · exact hpeer
            · rintro rfl
              exact ⟨Or.inr rfl, hne⟩
          generalize hlist : (Calls.memberIds channelId x.view).filter (fun u => u ≠ senderId) = peers
            at hpeers
          rw [Request.run_bind, select, Request.run_query]
          dsimp only
          rw [Request.run_bind, select, Request.run_query]
          dsimp only
          refine ⟨_, rfl, fun u => ?_, fun husers => ?_⟩
          · rw [List.mem_filter, List.mem_map]
            simp only [List.mem_filter, Bool.and_eq_true, decide_eq_true_eq, List.mem_append,
              not_or, Option.isNone_iff_eq_none, hpeers, mem_blockedPairUserIds]
            constructor
            · rintro ⟨⟨user, ⟨huser, hid, hlive⟩, rfl⟩, hexclude, hblocked⟩
              refine ⟨⟨?_, ⟨channel, hfound, hkind.1, by simpa using hkind.2⟩, ?_, hblocked⟩,
                ⟨user, huser, rfl, hlive⟩, hexclude⟩
              · rw [hid]
                exact hne.symm
              · intro v
                rw [hid, ← mem_memberIds, hmem v]
            · rintro ⟨hcall, ⟨user, huser, rfl, hlive⟩, hexclude⟩
              have hpeer : user.id = peer := by
                have hin : user.id ∈ Calls.memberIds channelId x.view :=
                  mem_memberIds.mpr ((hcall.members user.id).mpr (Or.inr rfl))
                rcases (hmem user.id).mp hin with hself | hpeer
                · exact absurd hself.symm hcall.distinct
                · exact hpeer
              exact ⟨⟨user, ⟨huser, hpeer, hlive⟩, rfl⟩, hexclude, hcall.notBlocked⟩
          · exact (husers.sublist (List.filter_sublist.map _)).filter _

end

/-! ## The gates agree -/

/-- In every state, everybody that `_recipients` names may join the call, and so may the sender;
and whoever may join a call that the sender is in is named, unless banned or excluded. -/
theorem ring_implies_joinable (x : Point Db Memory) (hkeys : Keyed x.view)
    (channelId senderId : String) (exclude : List String) :
    ∃ found, (recipients channelId senderId exclude).run x = (.ok found, x) ∧
      (∀ r ∈ found, Admits x r channelId ∧ Admits x senderId channelId) ∧
      ∀ r ∈ x.view.users, Admits x r.id channelId → MemberOf x.view channelId senderId →
        senderId ≠ r.id → r.id ∈ found ∨ r.bannedAt.isSome = true ∨ r.id ∈ exclude := by
  obtain ⟨found, hrun, hmem, _⟩ := run_recipients (x := x) channelId senderId exclude
  refine ⟨found, hrun, ?_, ?_⟩
  · intro r hr
    have hcall := ((hmem r).mp hr).1
    exact ⟨(admits_iff hkeys).mpr ⟨senderId, hcall.symm⟩, (admits_iff hkeys).mpr ⟨r, hcall⟩⟩
  · intro r hr hjoin hsender hne
    obtain ⟨peer, hcall⟩ := (admits_iff hkeys).mp hjoin
    have hpeer : senderId = peer := by
      rcases (hcall.members senderId).mp hsender with hself | hpeer
      · exact absurd hself hne
      · exact hpeer
    subst hpeer
    by_cases hexclude : r.id ∈ exclude
    · exact Or.inr (Or.inr hexclude)
    · cases hbanned : r.bannedAt with
      | some t => exact Or.inr (Or.inl rfl)
      | none => exact Or.inl ((hmem r.id).mpr ⟨hcall.symm, ⟨r, hr, rfl, hbanned⟩, hexclude⟩)

/-! ### One direct message -/

def oldPhone : DeviceToken :=
  { id := "D", userId := "B", token := "T", platform := "fcm", updatedAt := 5 }

def callRoom : Channel where
  id := "C"
  name := "dm"
  kind := .dm
  aikoChannel := "dm:A:B"
  isPrivate := true
  communityId := none

def callDb : Db where
  users := [{ id := "A", username := "a", aikoUsername := "a" },
    { id := "B", username := "b", aikoUsername := "b" }]
  channels := [callRoom]
  memberships := [⟨"C", "A", .member, true⟩, ⟨"C", "B", .member, true⟩]
  messages := [{ id := "M", channelId := "C", senderUserId := some "B", body := "hi" }]
  devices := [oldPhone]
  deviceIds := ["D"]

def callPoint : Point Db Memory := ⟨callDb, {}, none⟩

theorem ring_implies_joinable_pair :
    ∃ found, (recipients "C" "A" []).run callPoint = (.ok found, callPoint) ∧
      (∀ r ∈ found, Admits callPoint r "C" ∧ Admits callPoint "A" "C") ∧
      ∀ r ∈ callDb.users, Admits callPoint r.id "C" → MemberOf callDb "C" "A" → "A" ≠ r.id →
        r.id ∈ found ∨ r.bannedAt.isSome = true ∨ r.id ∈ ([] : List String) :=
  ring_implies_joinable callPoint (by unfold Keyed; decide) "C" "A" []

/-! ## A wake -/

/-- All that a push to a person's devices needs. -/
structure MayWake (cfg : PushConfig) (x : Point Db Memory) (channelId senderId : String)
    (body : PyStr) (exclude : List String) (now : Time) (peer : String) : Prop where
  rings : Rings x.view channelId senderId exclude peer
  spoken : ∃ m ∈ x.view.messages, m.channelId = channelId ∧ m.senderUserId = some peer
  call : ∃ kind id, isCallId id = true ∧ body = callBody kind id
  budget : ((RateLimit.windowAt x.mem.windows now ("push_wake", peer) 60000000).count : ℤ) <
    cfg.wakePerRecipientPerMinute

section
variable {x : Point Db Memory}

theorem run_pushAll (payload : WakePayload) (deliveries : List PushDelivery) (x : Point Db Memory) :
    (pushAll payload deliveries).run x = (.ok (), { x with mem := { x.mem with
      calls := x.mem.calls ++ deliveries.map (pushCall payload) } }) := by
  induction deliveries generalizing x with
  | nil => simp [pushAll]
  | cons r rest ih =>
      unfold pushAll
      rw [Request.run_bind, Gateway.segment, Request.run_atomically]
      dsimp only
      rw [ih]
      simp [Point.acted, Memory.log]

theorem run_reapAll (dead : List (Observation × Option ReapOrder)) (x : Point Db Memory) :
    ∃ w, (reapAll dead).run x = (.ok (), { x with work := w }) := by
  induction dead generalizing x with
  | nil => exact ⟨x.work, rfl⟩
  | cons entry rest ih =>
      obtain ⟨d, order⟩ := entry
      cases order with
      | none => exact ih x
      | some order =>
          obtain ⟨w, hw⟩ := ih { x with work := some (reapRow d order x.view) }
          refine ⟨w, ?_⟩
          unfold reapAll
          rw [Request.run_bind, execute, Request.run_exec]
          exact hw

/-- What a wake of one person does to the memory: a push to each planned row of that person if
the limiter allows it, after one hit. -/
theorem run_wakeUser (cfg : PushConfig) (userId : String) (payload : WakePayload) (now : Time)
    (answer : Observation → Answer) :
    ∃ y pushes, (wakeUser cfg userId payload now answer).run x = (.ok (), y) ∧
      y.mem.calls = x.mem.calls ++ pushes ∧
      (∀ call ∈ pushes, (∃ row ∈ x.view.devices, row.userId = userId ∧ call = .push row.id row.token
          payload.channelId payload.kind.value payload.callId) ∧
        (pushWake cfg userId now x.mem.windows).1.1 = true) ∧
      (y.mem.windows = x.mem.windows ∨
        y.mem.windows = (pushWake cfg userId now x.mem.windows).2) := by
  unfold wakeUser
  rw [Request.run_bind, select, Request.run_query]
  dsimp only
  unfold wakeRows
  dsimp only
  generalize hplan : planDeliveries (x.view.devices.filter fun d => d.userId = userId) payload.kind
    cfg.configured endWakeVoipGateOpen = deliveries
  by_cases hnone : deliveries = []
  · rw [if_pos hnone]
    exact ⟨x, [], rfl, by simp, by simp, Or.inl rfl⟩
  · rw [if_neg hnone, Request.run_bind, Gateway.segment, Request.run_atomically]
    dsimp only
    cases hallowed : (pushWake cfg userId now x.mem.windows).1.1 with
    | false => exact ⟨_, [], rfl, by simp [Point.acted], by simp, Or.inr rfl⟩
    | true =>
        rw [if_pos rfl, Request.run_bind, run_pushAll]
        dsimp only
        rw [Request.run_bind]
        generalize deadOf answer deliveries = dead
        obtain ⟨w, hw⟩ := run_reapAll dead _
        rw [hw]
        have hpushes : ∀ call ∈ deliveries.map (pushCall payload), (∃ row ∈ x.view.devices,
            row.userId = userId ∧ call = .push row.id row.token payload.channelId
              payload.kind.value payload.callId) ∧ true = true := by
          intro call hcall
          obtain ⟨r, hr, rfl⟩ := List.mem_map.mp hcall
          rw [← hplan] at hr
          obtain ⟨row, hrow, hobserved⟩ := row_of_planned hr
          rw [List.mem_filter, decide_eq_true_eq] at hrow
          refine ⟨⟨row, hrow.1, hrow.2, ?_⟩, rfl⟩
          rw [pushCall, hobserved]
        dsimp only
        by_cases hdead : dead = []
        · rw [if_pos hdead]
          exact ⟨_, deliveries.map (pushCall payload), rfl, rfl, hpushes, Or.inr rfl⟩
        · rw [if_neg hdead]
          exact ⟨_, deliveries.map (pushCall payload), rfl, rfl, hpushes, Or.inr rfl⟩

theorem run_spokenHere (channelId : String) (userIds : List String) :
    ∃ spoken, (spokenHere channelId userIds).run x = (.ok spoken, x) ∧ spoken.Sublist userIds ∧
      ∀ u ∈ spoken, ∃ m ∈ x.view.messages, m.channelId = channelId ∧ m.senderUserId = some u := by
  unfold spokenHere
  by_cases hnone : userIds = []
  · rw [if_pos hnone]
    exact ⟨[], rfl, List.nil_sublist _, by simp⟩
  · rw [if_neg hnone, Request.run_bind, select, Request.run_query]
    dsimp only
    refine ⟨_, rfl, List.filter_sublist, ?_⟩
    intro u hu
    have hspoken := (List.mem_filter.mp hu).2
    simp only [List.mem_filter, List.mem_filterMap, decide_eq_true_eq] at hspoken
    obtain ⟨⟨m, ⟨hm, hchannel⟩, hsender⟩, _⟩ := hspoken
    exact ⟨m, hm, hchannel, hsender⟩

/-- People who all ring in one call are one person at most. -/
theorem nil_or_singleton {people : List String} {channelId senderId : String}
    {exclude : List String} (hnodup : people.Nodup)
    (h : ∀ u ∈ people, Rings x.view channelId senderId exclude u) :
    people = [] ∨ ∃ u, people = [u] := by
  match people, hnodup, h with
  | [], _, _ => exact Or.inl rfl
  | [u], _, _ => exact Or.inr ⟨u, rfl⟩
  | u :: v :: rest, hnodup, h =>
      have hu := (h u (by simp)).1
      have hv := (h v (by simp)).1
      rw [hu.unique hv] at hnodup
      simp at hnodup

/-- In every state, a wake for a message hands pushes to a transport only for device rows of the
other person of the sender's direct call, under every gate, and uses one unit of the budget at
most. -/
theorem wake_gate (cfg : PushConfig) (channelId : String) (channelKind : ChannelKind)
    (senderId : String) (body : PyStr) (exclude : List String) (now : Time)
    (answer : Observation → Answer) (x : Point Db Memory)
    (husers : (x.view.users.map (·.id)).Nodup) :
    ∃ y pushes, (wakeForMessage cfg channelId channelKind senderId body exclude now answer).run x =
        (.ok (), y) ∧
      y.mem.calls = x.mem.calls ++ pushes ∧
      (∀ call ∈ pushes, ∃ row ∈ x.view.devices, row.userId ≠ senderId ∧
        MayWake cfg x channelId senderId body exclude now row.userId ∧
        ∃ kind callId, call = .push row.id row.token channelId kind callId) ∧
      (y.mem.windows = x.mem.windows ∨ ∃ peer, Rings x.view channelId senderId exclude peer ∧
        y.mem.windows = (pushWake cfg peer now x.mem.windows).2) := by
  have hnothing : ∃ y pushes, ((Request.ret () : Body Unit).run x = (.ok (), y)) ∧
      y.mem.calls = x.mem.calls ++ pushes ∧
      (∀ call ∈ pushes, ∃ row ∈ x.view.devices, row.userId ≠ senderId ∧
        MayWake cfg x channelId senderId body exclude now row.userId ∧
        ∃ kind callId, call = .push row.id row.token channelId kind callId) ∧
      (y.mem.windows = x.mem.windows ∨ ∃ peer, Rings x.view channelId senderId exclude peer ∧
        y.mem.windows = (pushWake cfg peer now x.mem.windows).2) :=
    ⟨x, [], rfl, by simp, by simp, Or.inl rfl⟩
  unfold wakeForMessage
  by_cases hconfigured : cfg.configured = []
  · rw [if_pos hconfigured]
    exact hnothing
  · rw [if_neg hconfigured]
    cases hparse : parseCallBody body with
    | none =>
        have hquiet : shouldWake channelKind body = none := by
          unfold shouldWake
          split_ifs
          · rfl
          · rw [hparse]
            rfl
        rw [hquiet]
        exact hnothing
    | some parsed =>
        obtain ⟨kind, callId⟩ := parsed
        cases hwake : shouldWake channelKind body with
        | none => exact hnothing
        | some wake =>
            have hcall := parseCallBody_eq_some.mp hparse
            obtain ⟨found, hfound, hrings, hnodup⟩ := run_recipients (x := x) channelId senderId
              exclude
            obtain ⟨spoken, hspoken, hsub, hposted⟩ := run_spokenHere (x := x) channelId found
            have hring : ∀ u ∈ spoken, Rings x.view channelId senderId exclude u :=
              fun u hu => (hrings u).mp (hsub.subset hu)
            dsimp only
            rw [Request.run_handle, Request.run_session, Request.run_bind, hfound]
            dsimp only
            rw [Request.run_bind, hspoken]
            dsimp only
            rcases nil_or_singleton (hnodup husers |>.sublist hsub) hring with rfl | ⟨u, rfl⟩
            · exact ⟨_, [], rfl, by simp [wakeEach], by simp, Or.inl rfl⟩
            · obtain ⟨y, pushes, hrun, hcalls, hpushes, hwindows⟩ := run_wakeUser (x := x) cfg u
                ⟨channelId, wake, callId⟩ now answer
              unfold wakeEach
              rw [Request.run_bind, Request.run_handle, hrun]
              refine ⟨_, pushes, rfl, hcalls, fun call hcall' => ?_, ?_⟩
              · obtain ⟨⟨row, hrow, rfl, hcall'⟩, hallowed⟩ := hpushes call hcall'
                have hpeer := hring row.userId (List.mem_singleton_self _)
                refine ⟨row, hrow, hpeer.1.distinct.symm, ⟨hpeer, ?_, ⟨kind, callId, hcall⟩, ?_⟩,
                  wake.value, callId, hcall'⟩
                · exact hposted row.userId (List.mem_singleton_self _)
                · exact RateLimit.hit_allowed.mp hallowed
              · rcases hwindows with hsame | hhit
                · exact Or.inl hsame
                · exact Or.inr ⟨u, hring u (List.mem_singleton_self _), hhit⟩

end

theorem wake_gate_pair :
    ∃ y pushes, (wakeForMessage ⟨[.fcm], 10⟩ "C" .dm "A"
        (callBody .callInvite (List.replicate 26 48)) [] 0 fun _ => .noResponse).run callPoint =
        (.ok (), y) ∧
      y.mem.calls = callPoint.mem.calls ++ pushes ∧
      (∀ call ∈ pushes, ∃ row ∈ callDb.devices, row.userId ≠ "A" ∧
        MayWake ⟨[.fcm], 10⟩ callPoint "C" "A"
          (callBody .callInvite (List.replicate 26 48)) [] 0 row.userId ∧
        ∃ kind callId, call = .push row.id row.token "C" kind callId) ∧
      (y.mem.windows = callPoint.mem.windows ∨ ∃ peer, Rings callDb "C" "A" [] peer ∧
        y.mem.windows = (pushWake ⟨[.fcm], 10⟩ peer 0 callPoint.mem.windows).2) :=
  wake_gate _ "C" .dm "A" _ [] 0 _ callPoint (by decide)

example : ((wakeForMessage ⟨[.fcm], 10⟩ "C" .dm "A"
      (callBody .callInvite (List.replicate 26 48)) [] 0 fun _ => .noResponse).run
        callPoint).2.mem.calls =
    [.push "D" "T" "C" "call_invite" (List.replicate 26 48)] := by decide +kernel

end AikoIsland.Ringing
