import AikoIsland.DirectMessages
import AikoIsland.Publishing

/-!
# The members of a direct message

The channel of a pair is created once, with both members, and never deleted.
Its key names the pair, and the memberships in it stay within the pair: the
membership operations refuse a direct message, the channel operations refuse its
key, and opening it again adds the caller alone. So after a member has left, only
their own call brings them back.

The requests interleave statement by statement. Minted ids are new and distinct,
and user ids have the length of a ULID. A channel row is classed by its id: the
ids of direct messages are those of the rows at the start and those that the
opening requests mint.
-/
namespace AikoIsland.DmMembership
open Tables Gateway Memberships Messages DirectMessages WriterLock RelyGuarantee Footprint
open Publishing SigningKeys

/-! ## The requests -/

inductive ChannelRequest where
  | getOrCreateDm (me : User) (attached : Bool) (targetUserId channelId : String)
  | addMember (identityMap : List User) (channelId actorId targetUserId role : String)
      (canPost : Bool)
  | selfJoin (channelId actorId : String)
  | removeMember (channelId actorId targetUserId : String)
  | leave (channelId actorId : String)
  | createChannel (channelId creatorId name : String) (isPrivate : Bool) (joinPolicy : String)
      (kind : ChannelKind) (aikoChannel : Option String)
  | upsertChannel (aikoChannel : PyStr) (channelId : String)
  | hardDeleteChannel (aikoChannel : PyStr)
  | blockUser (identityMap : List User) (blockerId blockedId : String)
  | unblockUser (blockerId blockedId : String)
  | createOutbound (user : User) (channel : Channel) (out : Outbound) (minted : Minted)

/-- What a request answers with, as far as a channel goes. -/
inductive Answer where
  | opened (channel : Channel) (members : List String)
  | upserted (channel : Channel)
  | done
  deriving DecidableEq, Repr

namespace ChannelRequest

/-- The callers of the two flushing services commit. -/
def body : ChannelRequest → Body Answer
  | .getOrCreateDm me attached t id => do
      let opened ← DirectMessages.getOrCreateDm me attached t id
      return .opened opened.1 opened.2
  | .addMember identityMap c a t role canPost => do
      let _ ← Memberships.addMember identityMap c a t role canPost
      return .done
  | .selfJoin c a => do
      let _ ← Memberships.selfJoin c a
      return .done
  | .removeMember c a t => do
      Memberships.removeMember c a t
      return .done
  | .leave c a => do
      Memberships.leave c a
      return .done
  | .createChannel id creator name isPrivate joinPolicy kind aikoChannel => do
      let _ ← Memberships.createChannel id creator name isPrivate joinPolicy kind aikoChannel
      return .done
  | .upsertChannel name id => do
      let channel ← Messages.upsertChannel name id
      commit
      return .upserted channel
  | .hardDeleteChannel name => do
      let _ ← DirectMessages.hardDeleteChannel name
      commit
      return .done
  | .blockUser identityMap a b => do
      DirectMessages.blockUser identityMap a b
      return .done
  | .unblockUser a b => do
      DirectMessages.unblockUser a b
      return .done
  | .createOutbound user channel out minted => do
      let _ ← Messages.createOutbound user channel out minted
      return .done

/-- The channel id that the request mints. -/
def mints : ChannelRequest → Option String
  | .getOrCreateDm _ _ _ id => some id
  | .createChannel id _ _ _ _ _ _ => some id
  | .upsertChannel _ id => some id
  | _ => none

/-- The user who opens a direct message with the request. -/
def opener : ChannelRequest → Option User
  | .getOrCreateDm me _ _ _ => some me
  | _ => none

end ChannelRequest

/-! ## The invariant -/

/-- The channel of the unordered pair. -/
def IsPair (ch : Channel) (a b : String) : Prop :=
  a.length = 26 ∧ b.length = 26 ∧ ch.aikoChannel = canonicalAikoChannel a b

/-- The channel and membership tables of an island. -/
structure DmTables (s : Db) : Prop where
  checks : ∀ ch ∈ s.channels, Db.channelChecks ch = true
  ids : (s.channels.map (·.id)).Nodup
  keys : (s.channels.map (·.aikoChannel)).Nodup
  users : ∀ u ∈ s.users, u.id.length = 26
  pairs : ∀ m ∈ s.memberships, ∀ ch ∈ s.channels, ch.kind = .dm → ch.id = m.channelId →
    ∀ x y, Names ch.aikoChannel x y → m.userId = x ∨ m.userId = y
  sends : ∀ m ∈ s.messages, ∀ m' ∈ s.messages, m.channelId = m'.channelId →
    m.clientMsgId = m'.clientMsgId → m.clientMsgId.isSome = true → m = m'

/-- With the ids that direct messages have, or will have. -/
structure DmInv (D : String → Prop) (s : Db) : Prop extends DmTables s where
  split : ∀ ch ∈ s.channels, ch.kind = .dm ↔ D ch.id
  housed : ∀ m ∈ s.memberships, D m.channelId → ∃ ch ∈ s.channels, ch.id = m.channelId

def IsMember (s : Db) (channelId userId : String) : Prop :=
  ∃ m ∈ s.memberships, m.channelId = channelId ∧ m.userId = userId

/-- Direct messages stay, new ones are those of pairs, and only users with `may` become members
of one that is there. -/
structure Moves (may : String → Prop) (a b : Db) : Prop where
  kept : ∀ ch ∈ a.channels, ch.kind = .dm → ch ∈ b.channels
  born : ∀ ch ∈ b.channels, ch.kind = .dm → ch ∈ a.channels ∨ ∃ x y, IsPair ch x y
  gained : ∀ m ∈ b.memberships, ∀ ch ∈ a.channels, ch.kind = .dm → ch.id = m.channelId →
    IsMember a ch.id m.userId ∨ may m.userId

section
variable {may : String → Prop} {D : String → Prop} {a b c : Db} {ch ch' : Channel}

theorem Moves.refl (a : Db) : Moves may a a where
  kept _ h _ := h
  born _ h _ := Or.inl h
  gained m hm _ _ _ hid := Or.inl ⟨m, hm, hid.symm, rfl⟩

theorem Moves.trans (h : Moves may a b) (h' : Moves may b c) : Moves may a c := by
  constructor
  · intro ch hch hdm
    exact h'.kept ch (h.kept ch hch hdm) hdm
  · intro ch hch hdm
    rcases h'.born ch hch hdm with hch | hpair
    · exact h.born ch hch hdm
    · exact Or.inr hpair
  · intro m hm ch hch hdm hid
    rcases h'.gained m hm ch (h.kept ch hch hdm) hdm hid with ⟨m', hm', hc, hu⟩ | hmay
    · have hold := h.gained m' hm' ch hch hdm hc.symm
      rwa [hu] at hold
    · exact Or.inr hmay

theorem DmTables.eq_of_id (h : DmTables a) (hch : ch ∈ a.channels) (hch' : ch' ∈ a.channels)
    (hid : ch.id = ch'.id) : ch = ch' :=
  List.inj_on_of_nodup_map h.ids hch hch' hid

theorem DmTables.eq_of_key (h : DmTables a) (hch : ch ∈ a.channels) (hch' : ch' ∈ a.channels)
    (hkey : ch.aikoChannel = ch'.aikoChannel) : ch = ch' :=
  List.inj_on_of_nodup_map h.keys hch hch' hkey

/-- The CHECK constraints tie the reserved names to the kind. -/
theorem DmTables.kind_iff (h : DmTables a) (hch : ch ∈ a.channels) :
    ch.kind = .dm ↔ Db.isDmChannelName ch.aikoChannel = true := by
  have hc := h.checks ch hch
  unfold Db.channelChecks at hc
  split_ifs at hc with hk
  · simp only [Bool.and_eq_true] at hc
    simp [hk, hc.1.2]
  · simp only [Bool.and_eq_true, Bool.not_eq_true'] at hc
    simp [hk, hc.2]

/-! ## What single writes keep -/

/-- A write of a request that opens no direct message. -/
def Keeps (D : String → Prop) (_ : Label) (f : Db → Option Db) : Prop :=
  ∀ a b, DmInv D a → f a = some b → DmInv D b ∧ Moves (fun _ => False) a b

theorem keeps_sub {t : Label} {f : Db → Option Db}
    (h : ∀ a b, f a = some b → b.channels = a.channels ∧ b.users = a.users ∧
      (∀ m ∈ b.memberships, m ∈ a.memberships) ∧ ∀ m ∈ b.messages, m ∈ a.messages) :
    Keeps D t f := by
  intro a b hi hf
  obtain ⟨hchannels, husers, hmembers, hmessages⟩ := h a b hf
  constructor
  · constructor
    · constructor
      · rw [hchannels]
        exact hi.checks
      · rw [hchannels]
        exact hi.ids
      · rw [hchannels]
        exact hi.keys
      · rw [husers]
        exact hi.users
      · intro m hm
        rw [hchannels]
        exact hi.pairs m (hmembers m hm)
      · exact fun m hm m' hm' => hi.sends m (hmessages m hm) m' (hmessages m' hm')
    · rw [hchannels]
      exact hi.split
    · intro m hm
      rw [hchannels]
      exact hi.housed m (hmembers m hm)
  · constructor
    · intro ch hch _
      rwa [hchannels]
    · intro ch hch _
      rw [hchannels] at hch
      exact Or.inl hch
    · intro m hm ch _ _ hid
      exact Or.inl ⟨m, hmembers m hm, hid.symm, rfl⟩

theorem keeps_insertChannel {t : Label} (hdm : ch.kind ≠ .dm) (hid : ¬D ch.id) :
    Keeps D t fun db => db.insertChannel ch := by
  intro a b hi hf
  obtain ⟨hcheck, hclash, rfl⟩ := Db.insertChannel_eq_some.mp hf
  have hmem : ∀ x, x ∈ a.channels ++ [ch] ↔ x ∈ a.channels ∨ x = ch := by simp
  constructor
  · constructor
    · constructor
      · intro x hx
        rcases (hmem x).mp hx with hx | rfl
        · exact hi.checks x hx
        · exact hcheck
      · rw [List.map_append, List.nodup_append]
        refine ⟨hi.ids, List.nodup_singleton _, ?_⟩
        rintro x hx y hy rfl
        obtain ⟨z, hz, rfl⟩ := List.mem_map.mp hx
        exact (hclash z hz).1 (List.mem_singleton.mp hy)
      · rw [List.map_append, List.nodup_append]
        refine ⟨hi.keys, List.nodup_singleton _, ?_⟩
        rintro x hx y hy rfl
        obtain ⟨z, hz, rfl⟩ := List.mem_map.mp hx
        exact (hclash z hz).2 (List.mem_singleton.mp hy)
      · exact hi.users
      · intro m hm x hx hxdm
        rcases (hmem x).mp hx with hx | rfl
        · exact hi.pairs m hm x hx hxdm
        · exact absurd hxdm hdm
      · exact hi.sends
    · intro x hx
      rcases (hmem x).mp hx with hx | rfl
      · exact hi.split x hx
      · simp [hdm, hid]
    · intro m hm hD
      obtain ⟨x, hx, hxid⟩ := hi.housed m hm hD
      exact ⟨x, (hmem x).mpr (Or.inl hx), hxid⟩
  · constructor
    · intro x hx _
      exact (hmem x).mpr (Or.inl hx)
    · intro x hx hxdm
      rcases (hmem x).mp hx with hx | rfl
      · exact Or.inl hx
      · exact absurd hxdm hdm
    · intro m hm x _ _ hxid
      exact Or.inl ⟨m, hm, hxid.symm, rfl⟩

theorem keeps_insertMembership {t : Label} {m : Membership} (hid : ¬D m.channelId) :
    Keeps D t fun db => db.insertMembership m := by
  intro a b hi hf
  obtain ⟨_, rfl⟩ := Db.insertMembership_eq_some.mp hf
  have hmem : ∀ x, x ∈ a.memberships ++ [m] ↔ x ∈ a.memberships ∨ x = m := by simp
  have hother : ∀ x ∈ a.channels, x.kind = .dm → x.id ≠ m.channelId := by
    intro x hx hxdm hxid
    exact hid (hxid ▸ (hi.split x hx).mp hxdm)
  constructor
  · constructor
    · constructor
      · exact hi.checks
      · exact hi.ids
      · exact hi.keys
      · exact hi.users
      · intro x hx y hy hydm hyid
        rcases (hmem x).mp hx with hx | rfl
        · exact hi.pairs x hx y hy hydm hyid
        · exact absurd hyid (hother y hy hydm)
      · exact hi.sends
    · exact hi.split
    · intro x hx hD
      rcases (hmem x).mp hx with hx | rfl
      · exact hi.housed x hx hD
      · exact absurd hD hid
  · constructor
    · exact fun x hx _ => hx
    · exact fun x hx _ => Or.inl hx
    · intro x hx y hy hydm hyid
      rcases (hmem x).mp hx with hx | rfl
      · exact Or.inl ⟨x, hx, hyid.symm, rfl⟩
      · exact absurd hyid (hother y hy hydm)

theorem keeps_insertMessage {t : Label} {m : Message} :
    Keeps D t fun db => db.insertMessage m := by
  intro a b hi hf
  obtain ⟨hclash, rfl⟩ := Db.insertMessage_eq_some.mp hf
  constructor
  · refine ⟨⟨hi.checks, hi.ids, hi.keys, hi.users, hi.pairs, ?_⟩, hi.split, hi.housed⟩
    intro x hx y hy hc hk hsome
    rcases List.mem_append.mp hx with hxa | hxm <;> rcases List.mem_append.mp hy with hya | hym
    · exact hi.sends x hxa y hya hc hk hsome
    · obtain rfl := List.mem_singleton.mp hym
      exact absurd hk ((hclash x hxa).2 (hk ▸ hsome) hc)
    · obtain rfl := List.mem_singleton.mp hxm
      exact absurd hk.symm ((hclash y hya).2 hsome hc.symm)
    · rw [List.mem_singleton.mp hxm, List.mem_singleton.mp hym]
  · exact ⟨fun _ h _ => h, fun _ h _ => Or.inl h, fun m hm _ _ _ hid =>
      Or.inl ⟨m, hm, hid.symm, rfl⟩⟩

theorem keeps_dropChannel {t : Label} {id : String} (hid : ¬D id) :
    Keeps D t fun db => some { db with channels := db.channels.filter fun c => c.id ≠ id } := by
  intro a b hi hf
  obtain rfl := Option.some.inj hf
  have hmem : ∀ x, x ∈ (a.channels.filter fun c => c.id ≠ id) ↔ x ∈ a.channels ∧ x.id ≠ id := by
    simp
  have hsub : (a.channels.filter fun c => c.id ≠ id).Sublist a.channels := List.filter_sublist
  constructor
  · constructor
    · constructor
      · exact fun x hx => hi.checks x (hsub.subset hx)
      · exact (hsub.map _).nodup hi.ids
      · exact (hsub.map _).nodup hi.keys
      · exact hi.users
      · exact fun m hm x hx => hi.pairs m hm x (hsub.subset hx)
      · exact hi.sends
    · exact fun x hx => hi.split x (hsub.subset hx)
    · intro m hm hD
      obtain ⟨x, hx, hxid⟩ := hi.housed m hm hD
      refine ⟨x, (hmem x).mpr ⟨hx, ?_⟩, hxid⟩
      rintro rfl
      exact hid (hxid ▸ hD)
  · constructor
    · intro x hx hxdm
      refine (hmem x).mpr ⟨hx, ?_⟩
      rintro rfl
      exact hid ((hi.split x hx).mp hxdm)
    · exact fun x hx _ => Or.inl (hsub.subset hx)
    · intro m hm x _ _ hxid
      exact Or.inl ⟨m, hm, hxid.symm, rfl⟩

end

/-! ## The other operations -/

section
variable {D : String → Prop}

/-- What a lookup of a channel that is no direct message tells about its id. -/
theorem DmInv.not_dm {s : Db} {ch : Channel} (h : DmInv D s) (hch : ch ∈ s.channels)
    (hdm : ch.kind ≠ .dm) : ¬D ch.id :=
  fun hD => hdm ((h.split ch hch).mpr hD)

theorem performs_select {β α : Type} {q : Db → β} {k : β → Body α} {Q : α → Prop}
    (h : ∀ s, DmInv D s → Performs (DmInv D) (Keeps D) NoSegment Q (k (q s))) :
    Performs (DmInv D) (Keeps D) NoSegment Q (select q >>= k) :=
  h

theorem performs_insertIdempotent {m : Membership} (hid : ¬D m.channelId) :
    Performs (DmInv D) (Keeps D) NoSegment (fun _ => True) (insertIdempotent m) := by
  apply Uses.performs
  refine Uses.bind (Uses.attempt (keeps_insertMembership hid)) fun ok => ?_
  cases ok with
  | true => exact trivial
  | false =>
      refine Uses.bind (Uses.query _) fun existing => ?_
      cases existing <;> exact trivial

theorem performs_getUser (identityMap : List User) (id : String) :
    Performs (DmInv D) (Keeps D) NoSegment (fun _ => True) (getUser identityMap id) := by
  unfold getUser
  split
  · exact trivial
  · exact fun _ _ => trivial

theorem performs_addMember (identityMap : List User) (c a t role : String) (canPost : Bool) :
    Performs (DmInv D) (Keeps D) NoSegment (fun _ => True)
      (addMember identityMap c a t role canPost) := by
  apply performs_select
  intro s hs
  generalize hfound : s.readableChannel a c = found
  cases found with
  | none => exact trivial
  | some channel =>
      obtain ⟨hch, hid, _⟩ := Db.mem_of_readableChannel hfound
      dsimp only
      split_ifs with hdm
      · exact trivial
      · have hfree : ¬D c := hid ▸ hs.not_dm hch hdm
        apply Performs.bind (uses_requireAdmin c a channel).performs
        intro _ _
        apply performs_select
        intro s' _
        generalize memberWithUser s' c t = existing
        cases existing with
        | some existing => exact trivial
        | none =>
            apply Performs.bind (performs_getUser identityMap t)
            intro target _
            cases target with
            | none => exact trivial
            | some target =>
                apply Performs.bind (performs_insertIdempotent hfree)
                exact fun _ _ => trivial

theorem performs_selfJoin (c a : String) :
    Performs (DmInv D) (Keeps D) NoSegment (fun _ => True) (selfJoin c a) := by
  apply performs_select
  intro s hs
  generalize hfound : joinableChannel s a c = found
  cases found with
  | none => exact trivial
  | some channel =>
      have hch : channel ∈ s.channels := List.mem_of_find?_eq_some hfound
      have hid : channel.id = c := by
        have hp := List.find?_some hfound
        simp only [Bool.and_eq_true, decide_eq_true_eq] at hp
        exact hp.1
      apply performs_select
      intro s' _
      generalize s'.membershipOf c a = existing
      cases existing with
      | some existing => exact trivial
      | none =>
          dsimp only
          split_ifs with hdm
          · exact trivial
          · exact performs_insertIdempotent (hid ▸ hs.not_dm hch hdm)

theorem keeps_deleteMembership (c u : String) (isAdmin : Bool) (t : Label) :
    Keeps D t fun db => some (deleteMembership c u isAdmin db) := by
  apply keeps_sub
  intro a b hf
  obtain rfl := Option.some.inj hf
  exact ⟨rfl, rfl, fun m hm => List.mem_of_mem_filter hm, fun _ hm => hm⟩

theorem performs_deleteUnlessLastAdmin (c u : String) (isAdmin : Bool) :
    Performs (DmInv D) (Keeps D) NoSegment (fun _ => True)
      (deleteMembershipUnlessLastAdmin c u isAdmin) := by
  apply Uses.performs
  have hrest : Uses (Keeps D) NoSegment (do
      let rowcount ← execute (deleteMembership c u isAdmin) (deleteRowcount c u isAdmin)
        (deleteLabel c u isAdmin)
      if 0 < rowcount then
        commitAs .membershipCommit
        return true
      else
        let still ← membership c u
        commitAs .membershipCommit
        return still.isNone) := by
    refine Uses.bind (Uses.exec (keeps_deleteMembership c u isAdmin _)) fun n => ?_
    split_ifs
    · exact trivial
    · exact fun _ => trivial
  cases isAdmin with
  | false => exact hrest
  | true => exact fun _ => hrest

theorem performs_removeMember (c a t : String) :
    Performs (DmInv D) (Keeps D) NoSegment (fun _ => True) (removeMember c a t) := by
  apply performs_select
  intro s _
  generalize s.readableChannel a c = found
  cases found with
  | none => exact trivial
  | some channel =>
      dsimp only
      split_ifs
      · exact trivial
      · apply Performs.bind (uses_requireAdmin c a channel).performs
        intro _ _
        apply performs_select
        intro s' _
        generalize s'.membershipOf c t = target
        cases target with
        | none => exact trivial
        | some target =>
            apply Performs.bind (performs_deleteUnlessLastAdmin _ _ _)
            intro ok _
            cases ok <;> exact trivial

theorem performs_leave (c a : String) :
    Performs (DmInv D) (Keeps D) NoSegment (fun _ => True) (leave c a) := by
  apply performs_select
  intro s _
  generalize s.membershipOf c a = mine
  cases mine with
  | none => exact trivial
  | some mine =>
      apply Performs.bind (performs_deleteUnlessLastAdmin _ _ _)
      intro ok _
      cases ok <;> exact trivial

theorem newChannel_kind {id name joinPolicy : String} {isPrivate : Bool} {kind : ChannelKind}
    {aikoChannel : Option String} (h : kind ≠ .dm) :
    (newChannel id name isPrivate joinPolicy kind aikoChannel).kind ≠ .dm :=
  h

theorem performs_createChannel {id : String} (hid : ¬D id) (creator name : String)
    (isPrivate : Bool) (joinPolicy : String) (kind : ChannelKind) (aikoChannel : Option String) :
    Performs (DmInv D) (Keeps D) NoSegment (fun _ => True)
      (createChannel id creator name isPrivate joinPolicy kind aikoChannel) := by
  unfold createChannel
  split_ifs with hdm
  · exact trivial
  · simp only [Bool.or_eq_true, decide_eq_true_eq, not_or] at hdm
    apply Uses.performs
    refine Uses.bind (uses_flushOrRaise (keeps_insertChannel (newChannel_kind hdm.1) hid))
      fun _ => ?_
    exact Uses.bind (uses_flushOrRaise (keeps_insertMembership hid)) fun _ => trivial

theorem performs_bindText (s : PyStr) :
    Performs (DmInv D) (Keeps D) NoSegment (fun t => encode s = some t) (bindText s) := by
  unfold bindText
  split
  · rename_i t ht
    exact ht
  · exact trivial

theorem channelByName_eq_some {name : String} {s : Db} {ch : Channel}
    (h : channelByName name s = some ch) : ch ∈ s.channels ∧ ch.aikoChannel = name :=
  ⟨List.mem_of_find?_eq_some h, by simpa using List.find?_some h⟩

theorem performs_upsertChannel {id : String} (hid : ¬D id) (name : PyStr) :
    Performs (DmInv D) (Keeps D) NoSegment (fun ch => ch.kind ≠ .dm) (upsertChannel name id) := by
  unfold upsertChannel
  split_ifs with hname
  · exact trivial
  · apply Performs.bind (performs_bindText name)
    intro text htext
    apply performs_select
    intro s hs
    have hplain : Db.isDmChannelName text = false :=
      isDmChannelName_encode htext (by simpa using hname)
    generalize hfound : channelByName text s = found
    cases found with
    | some existing =>
        obtain ⟨hch, hkey⟩ := channelByName_eq_some hfound
        intro hdm
        have hreserved := (hs.kind_iff hch).mp hdm
        rw [hkey, hplain] at hreserved
        cases hreserved
    | none =>
        have hkind : (upsertedChannel id text).kind ≠ .dm := by simp [upsertedChannel]
        apply Performs.bind (uses_flushOrRaise (keeps_insertChannel hkind hid)).performs
        exact fun _ _ => hkind

theorem keeps_hardDeletes {id : String} (hid : ¬D id) {f : Db → Db} (hf : f ∈ hardDeletes id)
    (t : Label) : Keeps D t fun db => some (f db) := by
  simp only [hardDeletes, List.mem_cons, List.not_mem_nil, or_false] at hf
  have hsame : ∀ g : Db → Db, (∀ a, (g a).channels = a.channels ∧ (g a).users = a.users ∧
      (∀ m ∈ (g a).memberships, m ∈ a.memberships) ∧ ∀ m ∈ (g a).messages, m ∈ a.messages) →
      Keeps D t fun db => some (g db) := by
    intro g hg
    apply keeps_sub
    intro a b hb
    obtain rfl := Option.some.inj hb
    exact hg a
  rcases hf with rfl | rfl | rfl | rfl | rfl | rfl | rfl
  · exact hsame _ fun a => ⟨rfl, rfl, fun m hm => List.mem_of_mem_filter hm, fun _ hm => hm⟩
  · exact hsame _ fun a => ⟨rfl, rfl, fun _ hm => hm, fun _ hm => hm⟩
  · exact hsame _ fun a => ⟨rfl, rfl, fun _ hm => hm, fun _ hm => hm⟩
  · exact hsame _ fun a => ⟨rfl, rfl, fun _ hm => hm, fun _ hm => hm⟩
  · exact hsame _ fun a => ⟨rfl, rfl, fun _ hm => hm, fun m hm => List.mem_of_mem_filter hm⟩
  · exact hsame _ fun a => ⟨rfl, rfl, fun _ hm => hm, fun _ hm => hm⟩
  · exact keeps_dropChannel hid

theorem performs_hardDeleteChannel (name : PyStr) :
    Performs (DmInv D) (Keeps D) NoSegment (fun _ => True) (hardDeleteChannel name) := by
  unfold hardDeleteChannel
  split_ifs with hname
  · exact trivial
  · apply Performs.bind (performs_bindText name)
    intro text htext
    apply performs_select
    intro s hs
    generalize hfound : channelByName text s = found
    cases found with
    | none => exact trivial
    | some channel =>
        obtain ⟨hch, hkey⟩ := channelByName_eq_some hfound
        have hplain : Db.isDmChannelName text = false :=
          isDmChannelName_encode htext (by simpa using hname)
        have hdm : channel.kind ≠ .dm := by
          intro hdm
          have hreserved := (hs.kind_iff hch).mp hdm
          rw [hkey, hplain] at hreserved
          cases hreserved
        apply Uses.performs
        exact Uses.bind (Uses.forM fun f hf => Uses.exec
          (keeps_hardDeletes (hs.not_dm hch hdm) hf _)) fun _ => trivial

theorem keeps_of_channels {t : Label} {f : Db → Option Db}
    (h : ∀ a b, f a = some b → b.channels = a.channels ∧ b.users = a.users ∧
      b.memberships = a.memberships ∧ b.messages = a.messages) : Keeps D t f := by
  apply keeps_sub
  intro a b hf
  obtain ⟨hchannels, husers, hmembers, hmessages⟩ := h a b hf
  exact ⟨hchannels, husers, fun m hm => hmembers ▸ hm, fun m hm => hmessages ▸ hm⟩

theorem performs_blockUser (identityMap : List User) (blockerId blockedId : String) :
    Performs (DmInv D) (Keeps D) NoSegment (fun _ => True)
      (blockUser identityMap blockerId blockedId) := by
  unfold blockUser
  split_ifs
  · exact trivial
  · apply Performs.bind (performs_getUser identityMap blockedId)
    intro target _
    cases target with
    | none => exact trivial
    | some target =>
        apply performs_select
        intro s _
        split_ifs
        · exact trivial
        · apply Uses.performs
          refine Uses.bind (uses_flushOrRaise (keeps_of_channels ?_)) fun _ => trivial
          intro a b hb
          obtain ⟨rows, _, rfl⟩ := Option.map_eq_some_iff.mp hb
          exact ⟨rfl, rfl, rfl, rfl⟩

theorem performs_unblockUser (blockerId blockedId : String) :
    Performs (DmInv D) (Keeps D) NoSegment (fun _ => True) (unblockUser blockerId blockedId) := by
  apply Uses.performs
  refine Uses.bind (Uses.exec (keeps_of_channels ?_)) fun _ => trivial
  intro a b hb
  obtain rfl := Option.some.inj hb
  exact ⟨rfl, rfl, rfl, rfl⟩

theorem performs_createOutbound (user : User) (channel : Channel) (out : Outbound)
    (minted : Minted) :
    Performs (DmInv D) (Keeps D) NoSegment (fun _ => True)
      (createOutbound user channel out minted) := by
  apply Uses.performs
  refine (uses_createOutbound user channel out minted).mono (fun t f h => ?_) fun _ _ h => h
  intro a b hi hf
  rcases sendWrite_cases h hf with ⟨keys, rfl⟩ | ⟨m, hm⟩
  · have hkeys : Keeps D t fun db => some { db with signingKeys := keys } := by
      apply keeps_of_channels
      intro a b hb
      obtain rfl := Option.some.inj hb
      exact ⟨rfl, rfl, rfl, rfl⟩
    exact hkeys a _ hi rfl
  · exact keeps_insertMessage (t := t) a b hi hm

end

/-! ## Opening a direct message -/

section
variable {D : String → Prop} {a b : Db} {ch : Channel} {me target : String}

/-- The caller's own row in the channel of the pair. -/
theorem moves_adopt (hi : DmInv D a) (hch : ch ∈ a.channels) (hdm : ch.kind = .dm)
    (hkey : ch.aikoChannel = canonicalAikoChannel me target) (hme : me.length = 26)
    (htarget : target.length = 26) {m : Membership} (hmc : m.channelId = ch.id)
    (hmu : m.userId = me) (hf : a.insertMembership m = some b) :
    DmInv D b ∧ Moves (· = me) a b := by
  obtain ⟨_, rfl⟩ := Db.insertMembership_eq_some.mp hf
  have hmem : ∀ x, x ∈ a.memberships ++ [m] ↔ x ∈ a.memberships ∨ x = m := by simp
  constructor
  · constructor
    · constructor
      · exact hi.checks
      · exact hi.ids
      · exact hi.keys
      · exact hi.users
      · intro x hx y hy hydm hyid u v huv
        rcases (hmem x).mp hx with hx | rfl
        · exact hi.pairs x hx y hy hydm hyid u v huv
        · obtain rfl := hi.eq_of_id hy hch (hyid.trans hmc)
          rw [hkey] at huv
          rw [hmu]
          rcases eq_of_names_canonical hme htarget huv with ⟨rfl, _⟩ | ⟨_, rfl⟩
          · exact Or.inl rfl
          · exact Or.inr rfl
      · exact hi.sends
    · exact hi.split
    · intro x hx hD
      rcases (hmem x).mp hx with hx | rfl
      · exact hi.housed x hx hD
      · exact ⟨ch, hch, hmc.symm⟩
  · constructor
    · exact fun x hx _ => hx
    · exact fun x hx _ => Or.inl hx
    · intro x hx y _ _ hyid
      rcases (hmem x).mp hx with hx | rfl
      · exact Or.inl ⟨x, hx, hyid.symm, rfl⟩
      · exact Or.inr hmu

/-- The new channel with its first members. -/
theorem moves_create {may : String → Prop} {id : String} (hi : DmInv D a) (hD : D id)
    (hme : me.length = 26) (htarget : target.length = 26) {rows : List Membership}
    (hrows : ∀ m ∈ rows, m.channelId = id ∧ (m.userId = me ∨ m.userId = target))
    (hf : a.insertChannel (dmChannel id (canonicalAikoChannel me target)) = some b) :
    DmInv D { b with memberships := b.memberships ++ rows } ∧
      Moves may a { b with memberships := b.memberships ++ rows } := by
  obtain ⟨hcheck, hclash, rfl⟩ := Db.insertChannel_eq_some.mp hf
  have hmem : ∀ x, x ∈ a.channels ++ [dmChannel id (canonicalAikoChannel me target)] ↔
      x ∈ a.channels ∨ x = dmChannel id (canonicalAikoChannel me target) := by simp
  have hnew : ∀ x ∈ a.channels, x.id ≠ id := fun x hx => (hclash x hx).1
  constructor
  · constructor
    · constructor
      · intro x hx
        rcases (hmem x).mp hx with hx | rfl
        · exact hi.checks x hx
        · exact hcheck
      · rw [List.map_append, List.nodup_append]
        refine ⟨hi.ids, List.nodup_singleton _, ?_⟩
        rintro x hx y hy rfl
        obtain ⟨z, hz, rfl⟩ := List.mem_map.mp hx
        exact (hclash z hz).1 (List.mem_singleton.mp hy)
      · rw [List.map_append, List.nodup_append]
        refine ⟨hi.keys, List.nodup_singleton _, ?_⟩
        rintro x hx y hy rfl
        obtain ⟨z, hz, rfl⟩ := List.mem_map.mp hx
        exact (hclash z hz).2 (List.mem_singleton.mp hy)
      · exact hi.users
      · intro m hm x hx hxdm hxid u v huv
        rcases List.mem_append.mp hm with hm | hm
        · rcases (hmem x).mp hx with hx | rfl
          · exact hi.pairs m hm x hx hxdm hxid u v huv
          · -- an old row cannot name the new id
            have hmD : D m.channelId := hxid ▸ hD
            obtain ⟨z, hz, hzid⟩ := hi.housed m hm hmD
            exact absurd (hzid.trans hxid.symm) (hnew z hz)
        · obtain ⟨hmc, hmu⟩ := hrows m hm
          rcases (hmem x).mp hx with hx | rfl
          · exact absurd (hxid.trans hmc) (hnew x hx)
          · rcases eq_of_names_canonical hme htarget huv with ⟨rfl, rfl⟩ | ⟨rfl, rfl⟩
            · exact hmu
            · exact hmu.symm
      · exact hi.sends
    · intro x hx
      rcases (hmem x).mp hx with hx | rfl
      · exact hi.split x hx
      · simpa [dmChannel] using hD
    · intro m hm hmD
      rcases List.mem_append.mp hm with hm | hm
      · obtain ⟨x, hx, hxid⟩ := hi.housed m hm hmD
        exact ⟨x, (hmem x).mpr (Or.inl hx), hxid⟩
      · exact ⟨_, (hmem _).mpr (Or.inr rfl), (hrows m hm).1.symm⟩
  · constructor
    · exact fun x hx _ => (hmem x).mpr (Or.inl hx)
    · intro x hx _
      rcases (hmem x).mp hx with hx | rfl
      · exact Or.inl hx
      · exact Or.inr ⟨me, target, hme, htarget, rfl⟩
    · intro m hm x hx _ hxid
      rcases List.mem_append.mp hm with hm | hm
      · exact Or.inl ⟨m, hm, hxid.symm, rfl⟩
      · exact absurd (hxid.trans (hrows m hm).1) (hnew x hx)

end

/-- The invariant, and to everybody the other direct messages stay. -/
def dmSpec (π : Type) (D : String → Prop) : Spec π Db Memory Label where
  inv s _ := DmInv D s
  rely _ db _ db' _ := ∀ ch ∈ db.channels, ch.kind = .dm → ch ∈ db'.channels
  meets _ _ := True
  rely_refl _ _ _ _ h _ := h
  rely_trans h h' ch hch hdm := h' ch (h ch hch hdm) hdm

section
variable {π α : Type} {D : String → Prop} {p : π} {x y : Point Db Memory}
  {past : List (Db × Db)} {G : Db → Db → Prop} {N : Option (Db × Db) → Except Exn α → Prop}
  {may : String → Prop}

theorem owed_true {res : Except Exn α} : Owed (fun _ _ => True) past res :=
  ⟨fun _ => trivial, fun _ _ => trivial⟩

/-- The rows of the members, flushed one by one under the lock. -/
theorem publishes_flushMembers {S : Spec π Db Memory Label} {id : String} {w : Db}
    {k : Bool → Body α} (uids : List String) (hx : x.work = some w)
    (hok : ∀ y rows, y.work = some { w with memberships := w.memberships ++ rows } →
      y.db = x.db → (∀ m ∈ rows, m.channelId = id ∧ m.userId ∈ uids) →
      Publishes S p G N past (k true) y)
    (hfail : ∀ y, Publishes S p G N past (k false) y) :
    Publishes S p G N past (flushMembers id uids >>= k) x := by
  induction uids generalizing x w with
  | nil => exact hok x [] (by simpa using hx) rfl (by simp)
  | cons uid uids ih =>
      intro y hy _
      refine ⟨fun s hs => ⟨fun hn => absurd hn.1 (by decide), fun _ => ?_⟩, fun _ => hfail _⟩
      have hdb : y.db = x.db := hy.db_eq hx
      rw [hy.view_eq hx] at hs
      obtain ⟨_, rfl⟩ := Db.insertMembership_eq_some.mp hs
      apply ih rfl
      intro z rows hz hzdb hrows
      refine hok z (⟨id, uid, .member, true⟩ :: rows) ?_ (hzdb.trans hdb) ?_
      · rw [hz, List.append_assoc]
        rfl
      · intro m hm
        rcases List.mem_cons.mp hm with rfl | hm
        · exact ⟨rfl, List.mem_cons_self⟩
        · exact ⟨(hrows m hm).1, List.mem_cons_of_mem uid (hrows m hm).2⟩

/-- A commit of a working copy that is the committed store. -/
theorem publishes_commit_same {k : Body α} (hx : x.view = x.db)
    (hk : ∀ y, (dmSpec π D).Env p x y → y.view = y.db →
      Publishes (dmSpec π D) p (Moves may) N past k { y with work := none } ∧
        Publishes (dmSpec π D) p (Moves may) N ((y.db, y.db) :: past) k { y with work := none }) :
    Publishes (dmSpec π D) p (Moves may) N past (.commit .plain k) x := by
  intro y hy _
  have hview : y.view = y.db := by
    cases hw : x.work with
    | none => exact Point.view_of_none (hy.free hw)
    | some w =>
        rw [hy.view_eq hw, hy.db_eq hw, ← hx, Point.view_of_some hw]
  constructor
  · intro hw
    have hsame : ({ y with work := none } : Point Db Memory) = y := by rw [← hw]
    have hnext := (hk y hy hview).1
    rwa [hsame] at hnext
  · intro w hw
    obtain rfl : y.db = w := by rw [← hview, Point.view_of_some hw]
    have hcommitted : y.committed = { y with work := none } := by
      rw [Point.committed, hview]
    rw [hcommitted]
    exact ⟨Moves.refl _, ⟨hy.inv, fun _ _ _ h _ => h⟩, (hk y hy hview).2⟩

variable {me : User} {target key : String} {ch : Channel}

/-- The row of the caller, ensured without the lock. -/
theorem publishes_adoptDm (hx : x.work = none) (hch : ch ∈ x.db.channels)
    (hkey : ch.aikoChannel = canonicalAikoChannel me.id target) (hme : me.id.length = 26)
    (htarget : target.length = 26) {meId : Body String}
    (hmeId : meId = pure me.id ∨ ∃ e, meId = throwExn e) :
    Publishes (dmSpec π D) p (Moves (· = me.id)) (fun _ _ => True) past
      (adoptDm ch key meId) x := by
  unfold adoptDm
  split_ifs with hdm
  · exact owed_true
  have hdm : ch.kind = .dm := not_not.mp hdm
  rcases hmeId with rfl | ⟨e, rfl⟩
  swap
  · exact owed_true
  -- what follows the ensured row only reads
  have hrest : ∀ {past : List (Db × Db)} {z : Point Db Memory}, z.view = z.db →
      Publishes (dmSpec π D) p (Moves (· = me.id)) (fun _ _ => True) past (do
        commit
        let members ← select (membersOf ch.id)
        return (ch, members)) z := by
    intro past z hview
    apply publishes_commit_same hview
    intro v _ _
    exact ⟨fun _ _ => owed_true, fun _ _ => owed_true⟩
  intro y hy
  have hyw : y.work = none := hy.free hx
  change Publishes _ p _ _ past (((List.filter _ [me.id]).forM _) >>= _) y
  rw [List.filter_cons]
  split_ifs with hpresent
  swap
  · exact hrest (Point.view_of_none hyw)
  · intro z hz _
    have hzw : z.work = none := hz.free hyw
    have hch' : ch ∈ z.db.channels := hz.rely ch (hy.rely ch hch hdm) hdm
    refine ⟨fun s hs => ⟨fun _ => ?_, fun hn => absurd ⟨rfl, hzw⟩ hn⟩, fun _ => ?_⟩
    · rw [Point.view_of_none hzw] at hs
      have hmoves := moves_adopt (D := D) hz.inv hch' hdm hkey hme htarget rfl rfl hs
      exact ⟨hmoves.2, ⟨hmoves.1, fun _ _ => hmoves.2.kept⟩,
        hrest (Point.view_of_none hzw)⟩
    · apply hrest
      rw [Point.refused_view, Point.refused_db, Point.view_of_none hzw]

/-- The lookup of the target tells that its id has the length of a ULID. -/
theorem publishes_getUser {attached : Bool} {k : Option User → Body α} (hx : x.work = none)
    (hi : DmInv D x.db) (hme : me.id.length = 26)
    (hnone : ∀ y, (dmSpec π D).Env p x y → Publishes (dmSpec π D) p G N past (k none) y)
    (hsome : ∀ u y, (dmSpec π D).Env p x y → target.length = 26 →
      Publishes (dmSpec π D) p G N past (k (some u)) y) :
    Publishes (dmSpec π D) p G N past
      (getUser (if attached then [me] else []) target >>= k) x := by
  unfold getUser
  split
  · rename_i u hu
    have hid : u.id = target := by simpa using List.find?_some hu
    have hmem := List.mem_of_find?_eq_some hu
    split_ifs at hmem
    · obtain rfl := List.mem_singleton.mp hmem
      exact hsome u x (Spec.Env.refl hi) (hid ▸ hme)
    · cases hmem
  · intro y hy
    change Publishes _ p G N past (k (y.view.userById target)) y
    cases hu : y.view.userById target with
    | none => exact hnone y hy
    | some u =>
        rw [Point.view_of_none (hy.free hx)] at hu
        obtain ⟨hmem, hid⟩ := Db.mem_of_userById hu
        have hinv : DmInv D y.db := hy.inv
        exact hsome u y hy (hid ▸ hinv.users u hmem)

/-- A refused flush: roll back and adopt the channel that holds the key. -/
theorem publishes_adoptWinner {attached : Bool} (hme : me.id.length = 26)
    (htarget : target.length = 26) :
    Publishes (dmSpec π D) p (Moves (· = me.id)) (fun _ _ => True) past
      (adoptWinner me attached (canonicalAikoChannel me.id target)) x := by
  intro y hy
  apply Publishes.query
  intro z hz
  have hfree : z.work = none := hz.free rfl
  generalize hwin : channelByName (canonicalAikoChannel me.id target) z.view = winner
  rw [Point.view_of_none hfree] at hwin
  cases winner with
  | none => exact owed_true
  | some winner =>
      obtain ⟨hch, hkey⟩ := channelByName_eq_some hwin
      apply publishes_adoptDm hfree hch hkey hme htarget
      unfold expiredId
      split_ifs
      · exact Or.inr ⟨_, rfl⟩
      · exact Or.inl rfl

theorem publishes_refreshedDm {id : String} :
    Publishes (dmSpec π D) p G (fun _ _ => True) past (refreshedDm id) x := by
  apply Publishes.query
  intro y _
  generalize (y.view.channels.find? fun c => c.id = id) = found
  cases found with
  | none => exact owed_true
  | some channel => exact fun _ _ => owed_true

/-- What a caller publishes: the channel of the pair with both members, or the caller's row. -/
theorem publishes_getOrCreateDm (hx : x.work = none) (hi : DmInv D x.db)
    (hme : me.id.length = 26) {attached : Bool} {id : String} (hD : D id) :
    Publishes (dmSpec π D) p (Moves (· = me.id)) (fun _ _ => True) past
      (getOrCreateDm me attached target id) x := by
  apply publishes_getUser hx hi hme
  · exact fun y hy => owed_true
  intro u y hy htarget
  apply Publishes.query
  intro z hz
  have hzw : z.work = none := hz.free (hy.free hx)
  generalize hfound : channelByName (canonicalAikoChannel me.id target) z.view = found
  rw [Point.view_of_none hzw] at hfound
  cases found with
  | some existing =>
      obtain ⟨hch, hkey⟩ := channelByName_eq_some hfound
      exact publishes_adoptDm hzw hch hkey hme htarget (Or.inl rfl)
  | none =>
      intro v hv _
      have hvw : v.work = none := hv.free hzw
      refine ⟨fun s hs => ⟨fun hn => absurd hn.1 (by decide), fun _ => ?_⟩,
        fun _ => publishes_adoptWinner hme htarget⟩
      rw [Point.view_of_none hvw] at hs
      change Publishes _ p _ _ past (flushMembers id (memberIds me.id target) >>= _) _
      apply publishes_flushMembers (memberIds me.id target) rfl
      · intro w rows hw hwdb hrows
        have hinv : DmInv D v.db := hv.inv
        have hpair : ∀ m ∈ rows, m.channelId = id ∧ (m.userId = me.id ∨ m.userId = target) :=
          fun m hm => ⟨(hrows m hm).1, mem_memberIds.mp (hrows m hm).2⟩
        have hmoves : DmInv D _ ∧ Moves (· = me.id) v.db _ :=
          moves_create hinv hD hme htarget hpair hs
        apply Publishes.commit hw
        intro w' hw' _
        have hdb : w'.db = v.db := (hw'.db_eq hw).trans hwdb
        rw [hdb]
        refine ⟨hmoves.2, ⟨hmoves.1, fun _ _ => ?_⟩, publishes_refreshedDm⟩
        rw [hdb]
        exact hmoves.2.kept
      · exact fun w => publishes_adoptWinner hme htarget

end

/-! ## Runs -/

section
variable {π : Type} [DecidableEq π]

/-- The ids of direct messages: those at the start and those that openings mint. -/
def dmIds (reqs : π → ChannelRequest) (db : Db) (id : String) : Prop :=
  (∃ ch ∈ db.channels, ch.id = id ∧ ch.kind = .dm) ∨
    ∃ p me, (reqs p).opener = some me ∧ (reqs p).mints = some id

/-- Minted ids are new and distinct, and callers have ULIDs. -/
structure NewIds (reqs : π → ChannelRequest) (db : Db) : Prop where
  channels : ∀ p id, (reqs p).mints = some id → ∀ ch ∈ db.channels, ch.id ≠ id
  memberships : ∀ p id, (reqs p).mints = some id → ∀ m ∈ db.memberships, m.channelId ≠ id
  distinct : ∀ p q id, (reqs p).mints = some id → (reqs q).mints = some id → p = q
  callers : ∀ p me, (reqs p).opener = some me → me.id.length = 26

def startOf (reqs : π → ChannelRequest) (db : Db) (mem : Memory) :
    Cfg π Db Memory Label Exn Answer :=
  Cfg.init db mem fun p => (reqs p).body.session

variable {reqs : π → ChannelRequest} {db : Db} {mem : Memory}
  {c c' : Cfg π Db Memory Label Exn Answer} {p : π}

omit [DecidableEq π] in
theorem dmInv_start (hdb : DmTables db) (hnew : NewIds reqs db) : DmInv (dmIds reqs db) db := by
  refine ⟨hdb, fun ch hch => ⟨fun hdm => Or.inl ⟨ch, hch, rfl, hdm⟩, ?_⟩, ?_⟩
  · rintro (⟨x, hx, hxid, hdm⟩ | ⟨p, me, _, hmint⟩)
    · rwa [← hdb.eq_of_id hx hch hxid]
    · exact absurd rfl (hnew.channels p _ hmint ch hch)
  · rintro m hm (⟨x, hx, hxid, _⟩ | ⟨p, me, _, hmint⟩)
    · exact ⟨x, hx, hxid⟩
    · exact absurd rfl (hnew.memberships p _ hmint m hm)

omit [DecidableEq π] in
theorem not_dmIds_of_mints (hnew : NewIds reqs db) {id : String}
    (hmint : (reqs p).mints = some id) (hopener : (reqs p).opener = none) :
    ¬dmIds reqs db id := by
  rintro (⟨ch, hch, hid, _⟩ | ⟨q, me, hq, hqmint⟩)
  · exact hnew.channels p id hmint ch hch hid
  · rw [hnew.distinct p q id hmint hqmint, hq] at hopener
    cases hopener

/-- What an answer must satisfy. -/
def answered (_ : Option (Db × Db)) (res : Except Exn Answer) : Prop :=
  ∀ a, res = .ok a → ∀ ch, a = .upserted ch → ch.kind ≠ .dm

/-- The users whom a request may bring into a direct message. -/
def brings (req : ChannelRequest) (userId : String) : Prop :=
  ∃ me, req.opener = some me ∧ me.id = userId

/-- The relation that the writes of the other requests keep. -/
def Quiet (D : String → Prop) (a b : Db) : Prop :=
  DmInv D a → DmInv D b ∧ Moves (fun _ => False) a b

omit [DecidableEq π] in
theorem respects_quiet {D : String → Prop} (p : π) :
    Respects (dmSpec π D) p (fun _ _ => True) (Quiet D) (Keeps D) NoSegment where
  refl _ hi := ⟨hi, Moves.refl _⟩
  trans hab hbc hi := ⟨(hbc (hab hi).1).1, (hab hi).2.trans (hbc (hab hi).1).2⟩
  stable _ _ := trivial
  write _ _ z s h _ _ _ _ hs hi := h z.view s hi hs
  segment _ _ _ h := h.elim
  commit _ _ _ hi _ h := ⟨⟨(h hi).1, fun _ _ => (h hi).2.kept⟩, trivial⟩

theorem Moves.mono {may may' : String → Prop} {a b : Db} (h : Moves may a b)
    (hmay : ∀ u, may u → may' u) : Moves may' a b :=
  ⟨h.kept, h.born, fun m hm ch hch hdm hid => (h.gained m hm ch hch hdm hid).imp_right (hmay _)⟩

omit [DecidableEq π] in
theorem performs_body {D : String → Prop} {req : ChannelRequest} (hopener : req.opener = none)
    (hD : ∀ id, req.mints = some id → ¬D id) :
    Performs (DmInv D) (Keeps D) NoSegment (fun a => ∀ ch, a = .upserted ch → ch.kind ≠ .dm)
      req.body := by
  have hdone : ∀ {α : Type} {r : Body α},
      Performs (DmInv D) (Keeps D) NoSegment (fun _ => True) r →
      Performs (DmInv D) (Keeps D) NoSegment (fun a => ∀ ch, a = .upserted ch → ch.kind ≠ .dm)
        (r >>= fun _ => (Pure.pure .done : Body Answer)) :=
    fun h => Performs.bind h fun _ _ _ ha => by cases ha
  cases req with
  | getOrCreateDm me attached t id => cases hopener
  | addMember identityMap c a t role canPost =>
      exact hdone (performs_addMember identityMap c a t role canPost)
  | selfJoin c a => exact hdone (performs_selfJoin c a)
  | removeMember c a t => exact hdone (performs_removeMember c a t)
  | leave c a => exact hdone (performs_leave c a)
  | createChannel id creator name isPrivate joinPolicy kind aikoChannel =>
      exact hdone (performs_createChannel (hD id rfl) creator name isPrivate joinPolicy kind
        aikoChannel)
  | upsertChannel name id =>
      apply Performs.bind (performs_upsertChannel (hD id rfl) name)
      rintro ch hch _ ⟨⟩
      exact hch
  | hardDeleteChannel name =>
      apply Performs.bind (performs_hardDeleteChannel name)
      rintro _ _ _ ⟨⟩
  | blockUser identityMap a b => exact hdone (performs_blockUser identityMap a b)
  | unblockUser a b => exact hdone (performs_unblockUser a b)
  | createOutbound user channel out minted =>
      exact hdone (performs_createOutbound user channel out minted)

theorem guarded_start (hdb : DmTables db) (hnew : NewIds reqs db) :
    Guarded (dmSpec π (dmIds reqs db))
      (fun p a b => DmInv (dmIds reqs db) a → Moves (brings (reqs p)) a b) (fun _ => answered)
      (fun _ => []) (startOf reqs db mem) := by
  constructor
  · exact dmInv_start hdb hnew
  · intro p
    cases hopener : (reqs p).opener with
    | some me =>
        cases hreq : reqs p with
        | getOrCreateDm me' attached target id =>
            have hopener' : (reqs p).opener = some me' := by rw [hreq]; rfl
            have hmint : (reqs p).mints = some id := by rw [hreq]; rfl
            have hD : dmIds reqs db id := Or.inr ⟨p, me', hopener', hmint⟩
            have hpub : Publishes (dmSpec π (dmIds reqs db)) p (Moves (· = me'.id))
                (fun _ _ => True) [] (getOrCreateDm me' attached target id)
                ((startOf reqs db mem).point p) :=
              publishes_getOrCreateDm (x := (startOf reqs db mem).point p) rfl
                (dmInv_start hdb hnew) (hnew.callers p me' hopener') hD
            change Publishes _ p _ answered [] (reqs p).body.session _
            rw [hreq]
            apply Publishes.session
            apply Publishes.map
            apply hpub.mono
            · intro a b h _
              exact h.mono fun u hu => ⟨me', rfl, hu.symm⟩
            · intro _ res _ ans hans ch hch
              cases res with
              | error e => cases hans
              | ok r =>
                  subst hch
                  cases hans
        | _ => simp [hreq, ChannelRequest.opener] at hopener
    | none =>
        have hperf := performs_body hopener fun id hmint =>
          not_dmIds_of_mints hnew hmint hopener
        apply (of_performs (respects_quiet p) (fun _ _ _ hi h => (h hi).1) hperf.session
          (fun hi => ⟨hi, Moves.refl _⟩)).mono
        · intro a b h hi
          exact (h hi).2.mono fun _ => False.elim
        · exact fun _ _ h => h

/-- Every reached configuration keeps the invariant, and its next step moves as it should. -/
theorem dmInv_of_reach (hdb : DmTables db) (hnew : NewIds reqs db)
    (hr : Cfg.Reach (fun _ _ => True) (startOf reqs db mem) c) :
    DmInv (dmIds reqs db) c.db ∧
      ∀ p c', c.step p = some c' → Moves (brings (reqs p)) c.db c'.db := by
  obtain ⟨past, hg, _, _⟩ := (guarded_start hdb hnew).reach hr
  have hinv : DmInv (dmIds reqs db) c.db := hg.inv
  refine ⟨hinv, fun p c' hs => ?_⟩
  rcases hg.change (fun _ _ => trivial) hs with hsame | hmoves
  · rw [hsame]
    exact Moves.refl _
  · exact hmoves hinv

theorem born_of_reach (hdb : DmTables db) (hnew : NewIds reqs db)
    (hr : Cfg.Reach (fun _ _ => True) (startOf reqs db mem) c) :
    ∀ ch ∈ c.db.channels, ch.kind = .dm → ch ∈ db.channels ∨ ∃ a b, IsPair ch a b := by
  induction hr with
  | start => exact fun ch hch _ => Or.inl hch
  | step hr _ hs ih =>
      intro ch hch hdm
      rcases ((dmInv_of_reach hdb hnew hr).2 _ _ hs).born ch hch hdm with hch | hpair
      · exact ih ch hch hdm
      · exact Or.inr hpair

omit [DecidableEq π] in
/-- Only members read a private channel. -/
theorem isMember_of_readable {s : Db} {ch : Channel} {u : String} (h : ch.isPrivate = true)
    (hread : s.readablePredicate u ch = true) : IsMember s ch.id u := by
  simp only [Db.readablePredicate, h, Bool.not_true, Bool.false_or, List.any_eq_true,
    Bool.and_eq_true, decide_eq_true_eq] at hread
  obtain ⟨m, hm, hc, hu⟩ := hread
  exact ⟨m, hm, hc, hu⟩

/-- Any interleaving of the requests: new direct messages are channels of pairs, a pair has at
most one, its members are of the pair, only members read it, it is in no community and does not
federate; no upsert returns one, no step deletes one, and a step that makes a user a member of
one is a step of that user's own opening request. -/
theorem dm_membership (hdb : DmTables db) (hnew : NewIds reqs db)
    (hr : Cfg.Reach (fun _ _ => True) (startOf reqs db mem) c) :
    (∀ ch ∈ c.db.channels, ch.kind = .dm → ch ∈ db.channels ∨ ∃ a b, IsPair ch a b) ∧
      (∀ a b, ∀ ch ∈ c.db.channels, ∀ ch' ∈ c.db.channels, IsPair ch a b → IsPair ch' b a →
        ch = ch') ∧
      (∀ m ∈ c.db.memberships, ∀ ch ∈ c.db.channels, ch.kind = .dm → ch.id = m.channelId →
        ∀ a b, IsPair ch a b → m.userId = a ∨ m.userId = b) ∧
      (∀ ch ∈ c.db.channels, ch.kind = .dm →
        (∀ u, c.db.readablePredicate u ch = true → IsMember c.db ch.id u) ∧
          ch.communityId = none ∧ shouldFederate ch = false) ∧
      (∀ p ch, c.procs p = .ret (.upserted ch) → ch.kind ≠ .dm) ∧
      ∀ p c', c.step p = some c' →
        (∀ ch ∈ c.db.channels, ch.kind = .dm → ch ∈ c'.db.channels) ∧
          ∀ m ∈ c'.db.memberships, ∀ ch ∈ c.db.channels, ch.kind = .dm → ch.id = m.channelId →
            IsMember c.db ch.id m.userId ∨
              ∃ me attached target id, reqs p = .getOrCreateDm me attached target id ∧
                me.id = m.userId := by
  obtain ⟨hinv, hstep⟩ := dmInv_of_reach hdb hnew hr
  constructor
  · exact born_of_reach hdb hnew hr
  constructor
  · intro a b ch hch ch' hch' hpair hpair'
    apply hinv.eq_of_key hch hch'
    rw [hpair.2.2, hpair'.2.2, canonicalAikoChannel_comm]
  constructor
  · rintro m hm ch hch hdm hid a b ⟨ha, hb, hkey⟩
    obtain ⟨x, y, hnames, hxy⟩ := names_canonical ha hb
    have hof := hinv.pairs m hm ch hch hdm hid x y (hkey ▸ hnames)
    rcases hxy with ⟨rfl, rfl⟩ | ⟨rfl, rfl⟩
    · exact hof
    · exact hof.symm
  constructor
  · intro ch hch hdm
    have hcheck := hinv.checks ch hch
    simp only [Db.channelChecks, if_pos hdm, Bool.and_eq_true, Option.isNone_iff_eq_none] at hcheck
    obtain ⟨⟨⟨hcommunity, hprivate⟩, _⟩, _⟩ := hcheck
    exact ⟨fun u => isMember_of_readable hprivate, hcommunity, by simp [shouldFederate, hdm]⟩
  constructor
  · intro p ch hret
    obtain ⟨past, hg, _, _⟩ := (guarded_start hdb hnew).reach hr
    have howed := hg.result (r := .ok (.upserted ch)) hret
    cases hp : past p with
    | nil => exact howed.1 hp _ rfl ch rfl
    | cons ab rest => exact howed.2 ab (by rw [hp]; exact List.mem_cons_self) _ rfl ch rfl
  · intro p c' hs
    have hmoves := hstep p c' hs
    refine ⟨hmoves.kept, fun m hm ch hch hdm hid => ?_⟩
    rcases hmoves.gained m hm ch hch hdm hid with hold | ⟨me, hopener, hme⟩
    · exact Or.inl hold
    · right
      cases hreq : reqs p with
      | getOrCreateDm me' attached target id =>
          rw [hreq] at hopener
          obtain rfl := Option.some.inj hopener
          exact ⟨me', attached, target, id, rfl, hme⟩
      | _ => simp [hreq, ChannelRequest.opener] at hopener

end

/-! ## Leaving and opening again -/

def alice : User := { id := "01AAAAAAAAAAAAAAAAAAAAAAAA", username := "a", aikoUsername := "a" }

def bob : User := { id := "01BBBBBBBBBBBBBBBBBBBBBBBB", username := "b", aikoUsername := "b" }

def pairDb : Db := { users := [alice, bob] }

/-- Alice opens the channel, Bob leaves it, Alice tries to add him, Bob opens it again. -/
def pairRequests : Fin 4 → ChannelRequest
  | 0 => .getOrCreateDm alice true bob.id "ch1"
  | 1 => .leave "ch1" bob.id
  | 2 => .addMember [] "ch1" alice.id bob.id "member" true
  | 3 => .getOrCreateDm bob true alice.id "ch2"

def pairSchedule : List (Fin 4) := [0, 0, 0, 0, 0, 0, 0, 0, 0, 1, 1, 1, 1, 2, 2, 3, 3, 3, 3]

theorem pairDb_tables : DmTables pairDb := by
  constructor
  · nofun
  · exact List.nodup_nil
  · exact List.nodup_nil
  · decide +kernel
  · intro m hm
    exact absurd hm List.not_mem_nil
  · intro m hm
    exact absurd hm List.not_mem_nil

theorem pairRequests_newIds : NewIds pairRequests pairDb := by
  constructor
  · nofun
  · nofun
  · have hall : ∀ p q : Fin 4, (pairRequests p).mints = (pairRequests q).mints →
        (pairRequests p).mints.isSome = true → p = q := by decide
    intro p q id hp hq
    exact hall p q (hp.trans hq.symm) (by rw [hp]; rfl)
  · have hall : ∀ p : Fin 4, ∀ me ∈ (pairRequests p).opener, me.id.length = 26 := by decide
    exact hall

/-- Bob is a member again through his own call. -/
theorem dm_membership_reopened :
    ∃ c, Cfg.play pairSchedule (startOf pairRequests pairDb {}) = some c ∧
      c.db.memberships.map (·.userId) = [alice.id, bob.id] ∧
      ∀ m ∈ c.db.memberships, ∀ ch ∈ c.db.channels, ch.kind = .dm → ch.id = m.channelId →
        ∀ a b, IsPair ch a b → m.userId = a ∨ m.userId = b := by
  have hrun : (Cfg.play pairSchedule (startOf pairRequests pairDb {})).map
      (fun c => c.db.memberships.map (·.userId)) = some [alice.id, bob.id] := by
    decide +kernel
  obtain ⟨c, hc, hmembers⟩ := Option.map_eq_some_iff.mp hrun
  exact ⟨c, hc, hmembers, (dm_membership pairDb_tables pairRequests_newIds
    (Cfg.reach_of_play Cfg.Reach.start hc)).2.2.1⟩

end AikoIsland.DmMembership
