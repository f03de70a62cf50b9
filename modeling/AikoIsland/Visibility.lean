import AikoIsland.OrderedDict
import AikoIsland.Realtime
import AikoIsland.Timeline

/-!
# One visibility predicate behind six filters

Fetching a message by id, the last line of a channel, the last lines of many
channels, the pager, the block check between two users and the exclusion set of
a fanout each decide visibility in their own way. They agree on every state:
what one of them shows is what the walk of the channel shows.

The check between two users differs in one place. It answers `False` for a user
and the same user, whatever the table of blocks holds, where the set of blocked
users would name a user who has a block row on itself.
-/
namespace AikoIsland.Visibility
open Tables Gateway Memberships Messages DirectMessages Timeline WriterLock Paging
open Realtime (isBlockedBetween)

/-! ## The filters -/

def visibleMessage (viewerId messageId : String) : Body (Option Message) := do
  match ← select fun db => db.messages.find? fun m => m.id = messageId with
  | none => return none
  | some msg =>
      if msg.deletedAt ≠ none then
        return none
      else
        match ← readableChannel viewerId msg.channelId with
        | none => return none
        | some _ =>
            match msg.senderUserId with
            | none => return some msg
            | some sender =>
                let blocked ← select fun db => db.blockedPairUserIds viewerId
                if sender ∈ blocked then return none else return some msg

/-- `ORDER BY id DESC LIMIT 1`. -/
def greatestId (rows : List Message) : Option Message :=
  (rows.insertionSort fun a b => b.id ≤ a.id).head?

def lastVisibleMessage (channelId viewerId : String) : Body (Option Message) :=
  select fun db => greatestId (db.messages.filter (visible db channelId viewerId))

/-- The grouped statement: one id for each channel of the list that has a visible message. -/
def maxIds (channelIds : List String) (viewerId : String) (db : Db) : List String :=
  (channelIds.dedup.filter fun c => visibleMessages db c viewerId ≠ []).map fun c =>
    maxId (visibleMessages db c viewerId)

def lastVisibleMessages (channelIds : List String) (viewerId : String) :
    Body (List (String × Message)) :=
  if channelIds = [] then
    return []
  else do
    let ids ← select (maxIds channelIds viewerId)
    if ids = [] then
      return []
    else
      let rows ← select fun db => db.messages.filter fun m => m.id ∈ ids
      return OrderedDict.ofRows (·.channelId) rows

/-! ## The newest visible message -/

/-- The message is visible and no visible message has a greater id. -/
structure Newest (db : Db) (channelId viewerId : String) (m : Message) : Prop where
  mem : m ∈ db.messages
  seen : visible db channelId viewerId m = true
  greatest : ∀ m' ∈ db.messages, visible db channelId viewerId m' = true → m'.id ≤ m.id

section
variable {db : Db} {channelId viewerId : String} {m m' : Message}

theorem eq_of_id (h : IdsUnique db) (hm : m ∈ db.messages) (hm' : m' ∈ db.messages)
    (hid : m.id = m'.id) : m = m' :=
  List.inj_on_of_nodup_map (List.nodup_append.mp h.nodup).1 hm hm' hid

theorem Newest.unique (h : IdsUnique db) (hm : Newest db channelId viewerId m)
    (hm' : Newest db channelId viewerId m') : m = m' := by
  apply eq_of_id h hm.mem hm'.mem
  exact le_antisymm (hm'.greatest m hm.mem hm.seen) (hm.greatest m' hm'.mem hm'.seen)

theorem Newest.maxId_eq (h : Newest db channelId viewerId m) :
    maxId (visibleMessages db channelId viewerId) = m.id := by
  apply le_antisymm
  · apply maxId_le
    intro r hr
    obtain ⟨m', hm', rfl⟩ := List.mem_map.mp hr
    obtain ⟨hmem, hseen⟩ := List.mem_filter.mp hm'
    exact h.greatest m' hmem hseen
  · have hr : Item.message m ∈ visibleMessages db channelId viewerId :=
      List.mem_map_of_mem (List.mem_filter.mpr ⟨h.mem, h.seen⟩)
    exact le_maxId hr

/-- In a list that is sorted by a key, the last item is the one with the greatest key. -/
theorem getLast?_iff {α : Type} {key : α → String} {rows : List α} {a : α}
    (hs : rows.Pairwise fun a b => key a < key b) :
    rows.getLast? = some a ↔ a ∈ rows ∧ ∀ b ∈ rows, key b ≤ key a := by
  constructor
  · intro hlast
    constructor
    · exact List.mem_of_getLast? hlast
    · obtain ⟨init, rfl⟩ := List.getLast?_eq_some_iff.mp hlast
      intro b hb
      rcases List.mem_append.mp hb with hb | hb
      · exact ((List.pairwise_append.mp hs).2.2 b hb a (by simp)).le
      · rw [List.mem_singleton.mp hb]
  · rintro ⟨ha, hgreatest⟩
    obtain ⟨before, after, rfl⟩ := List.append_of_mem ha
    cases after with
    | nil => simp
    | cons b after =>
        have hab := List.rel_of_pairwise_cons (List.pairwise_append.mp hs).2.1
          (List.mem_cons_self (a := b) (l := after))
        exact absurd (hgreatest b (by simp)) hab.not_ge

theorem greatestId_iff {rows : List Message} (hids : (rows.map (·.id)).Nodup) :
    greatestId rows = some m ↔ m ∈ rows ∧ ∀ m' ∈ rows, m'.id ≤ m.id := by
  unfold greatestId
  have hsorted : ((rows.insertionSort fun a b => b.id ≤ a.id).reverse).Pairwise
      fun a b => a.id < b.id := by
    rw [List.pairwise_reverse]
    have hle := List.pairwise_insertionSort (fun a b : Message => b.id ≤ a.id) rows
    have hne : (rows.insertionSort fun a b => b.id ≤ a.id).Pairwise fun a b => a.id ≠ b.id := by
      rw [← List.pairwise_map (f := fun a : Message => a.id) (R := (· ≠ ·))]
      exact ((List.perm_insertionSort _ rows).map _).nodup_iff.mpr hids
    exact (hle.and hne).imp fun hab => lt_of_le_of_ne hab.1 (Ne.symm hab.2)
  rw [← List.getLast?_reverse, getLast?_iff hsorted]
  simp only [List.mem_reverse, List.mem_insertionSort]

theorem newest_iff : Newest db channelId viewerId m ↔
    m ∈ db.messages.filter (visible db channelId viewerId) ∧
      ∀ m' ∈ db.messages.filter (visible db channelId viewerId), m'.id ≤ m.id := by
  simp only [List.mem_filter]
  constructor
  · exact fun hm => ⟨⟨hm.mem, hm.seen⟩, fun m' hm' => hm.greatest m' hm'.1 hm'.2⟩
  · exact fun hm => ⟨hm.1.1, hm.1.2, fun m' hmem hseen => hm.2 m' ⟨hmem, hseen⟩⟩

theorem greatestId_visible (h : IdsUnique db) :
    greatestId (db.messages.filter (visible db channelId viewerId)) = some m ↔
      Newest db channelId viewerId m := by
  have hids : ((db.messages.filter (visible db channelId viewerId)).map (·.id)).Nodup :=
    (List.filter_sublist.map _).nodup (List.nodup_append.mp h.nodup).1
  rw [greatestId_iff hids, newest_iff]

theorem exists_newest (h : IdsUnique db) (hm : m ∈ db.messages)
    (hseen : visible db channelId viewerId m = true) :
    ∃ m', Newest db channelId viewerId m' := by
  cases hfound : greatestId (db.messages.filter (visible db channelId viewerId)) with
  | some m' => exact ⟨m', (greatestId_visible h).mp hfound⟩
  | none =>
      have hmem : m ∈ (db.messages.filter (visible db channelId viewerId)).insertionSort
          fun a b => b.id ≤ a.id :=
        (List.mem_insertionSort _).mpr (List.mem_filter.mpr ⟨hm, hseen⟩)
      rw [List.head?_eq_none_iff.mp hfound] at hmem
      cases hmem

/-- The grouped statement holds the ids of the newest messages. -/
theorem mem_maxIds (h : IdsUnique db) {channelIds : List String} (hm : m ∈ db.messages) :
    m.id ∈ maxIds channelIds viewerId db ↔
      m.channelId ∈ channelIds ∧ Newest db m.channelId viewerId m := by
  unfold maxIds
  simp only [List.mem_map, List.mem_filter, List.mem_dedup, ne_eq, decide_not,
    Bool.not_eq_true', decide_eq_false_iff_not]
  constructor
  · rintro ⟨c, ⟨hc, hne⟩, hid⟩
    obtain ⟨item, hitem⟩ := List.exists_mem_of_ne_nil _ hne
    obtain ⟨m₁, hm₁, rfl⟩ := List.mem_map.mp hitem
    obtain ⟨hmem, hseen⟩ := List.mem_filter.mp hm₁
    obtain ⟨m₂, hnewest⟩ := exists_newest h hmem hseen
    rw [hnewest.maxId_eq] at hid
    obtain rfl := eq_of_id h hnewest.mem hm hid
    have hchannel : m₂.channelId = c := (visible_iff.mp hnewest.seen).1
    subst hchannel
    exact ⟨hc, hnewest⟩
  · rintro ⟨hc, hnewest⟩
    have hitem : Item.message m ∈ visibleMessages db m.channelId viewerId :=
      List.mem_map_of_mem (List.mem_filter.mpr ⟨hnewest.mem, hnewest.seen⟩)
    exact ⟨m.channelId, ⟨hc, List.ne_nil_of_mem hitem⟩, hnewest.maxId_eq⟩

theorem get_lastVisible (h : IdsUnique db) {channelIds : List String} :
    OrderedDict.get (OrderedDict.ofRows (·.channelId)
        (db.messages.filter fun m => m.id ∈ maxIds channelIds viewerId db)) channelId = some m ↔
      channelId ∈ channelIds ∧ Newest db channelId viewerId m := by
  rw [OrderedDict.get_ofRows]
  set rows := (db.messages.filter fun m => m.id ∈ maxIds channelIds viewerId db).filter
    fun m => m.channelId = channelId with hrows
  have hrow : ∀ m, m ∈ rows ↔ channelId ∈ channelIds ∧ Newest db channelId viewerId m := by
    intro m
    simp only [hrows, List.mem_filter, decide_eq_true_eq]
    constructor
    · rintro ⟨⟨hm, hid⟩, rfl⟩
      exact (mem_maxIds h hm).mp hid
    · rintro ⟨hc, hnewest⟩
      have hchannel : m.channelId = channelId := (visible_iff.mp hnewest.seen).1
      subst hchannel
      exact ⟨⟨hnewest.mem, (mem_maxIds h hnewest.mem).mpr ⟨hc, hnewest⟩⟩, rfl⟩
  constructor
  · exact fun hlast => (hrow m).mp (List.mem_of_getLast? hlast)
  · rintro ⟨hc, hnewest⟩
    cases hlast : rows.getLast? with
    | none =>
        have hm := (hrow m).mpr ⟨hc, hnewest⟩
        rw [List.getLast?_eq_none_iff.mp hlast] at hm
        cases hm
    | some m' =>
        have hm' := ((hrow m').mp (List.mem_of_getLast? hlast)).2
        rw [hm'.unique h hnewest]

/-! ## The walk of a channel -/

def asMessage : Item → Option Message
  | .message m => some m
  | .retraction _ => none

def lastMessage (rows : List Item) : Option Message := (rows.filterMap asMessage).getLast?

/-- The walk from the empty cursor; a page for each row of the two tables is enough. -/
def fullWalk (db : Db) (channelId viewerId : String) (limit : ℕ) : List Item :=
  walk (pageAfter db channelId viewerId limit) Item.id
    (db.messages.length + db.retractions.length) ""

variable {limit : ℕ}

theorem length_timeline : (timeline db channelId viewerId).length ≤
    db.messages.length + db.retractions.length := by
  rw [timeline, ascending, List.length_insertionSort, List.length_append, visibleMessages,
    channelRetractions, List.length_map, List.length_map]
  exact Nat.add_le_add (List.length_filter_le _ _) (List.length_filter_le _ _)

theorem fullWalk_eq (h : IdsUnique db) (hlimit : 0 < limit) :
    fullWalk db channelId viewerId limit = timeline db channelId viewerId :=
  walk_timeline h hlimit length_timeline

theorem message_mem_timeline : Item.message m ∈ timeline db channelId viewerId ↔
    m ∈ db.messages ∧ visible db channelId viewerId m = true := by
  rw [mem_timeline, visible_iff]
  constructor
  · rintro (⟨m', hm', hv, heq⟩ | ⟨r, _, _, heq⟩)
    · cases heq
      exact ⟨hm', hv⟩
    · cases heq
  · rintro ⟨hm, hv⟩
    exact Or.inl ⟨m, hm, hv, rfl⟩

theorem mem_messages_iff {rows : List Item} :
    m ∈ rows.filterMap asMessage ↔ Item.message m ∈ rows := by
  rw [List.mem_filterMap]
  constructor
  · rintro ⟨item, hitem, hm⟩
    cases item with
    | message m' =>
        cases hm
        exact hitem
    | retraction r => cases hm
  · exact fun hm => ⟨.message m, hm, rfl⟩

/-- The last message of the walk is the newest visible message. -/
theorem lastMessage_fullWalk (h : IdsUnique db) (hlimit : 0 < limit) :
    lastMessage (fullWalk db channelId viewerId limit) = some m ↔
      Newest db channelId viewerId m := by
  rw [fullWalk_eq h hlimit, lastMessage]
  have hsorted : ((timeline db channelId viewerId).filterMap asMessage).Pairwise
      fun a b => a.id < b.id := by
    apply (timeline_sorted h).filterMap
    intro a b hab m hm m' hm'
    cases a <;> cases hm
    cases b <;> cases hm'
    exact hab
  rw [getLast?_iff hsorted, newest_iff]
  simp only [mem_messages_iff, message_mem_timeline, List.mem_filter]

end

/-! ## Blocks -/

section
variable {db : Db} {mem : Memory}

/-- The predicate on rows and the set of ids decide alike. -/
theorem notBlocked_eq {viewerId sender : String} {m : Message} (hs : m.senderUserId = some sender) :
    notBlocked db viewerId m = true ↔ sender ∉ db.blockedPairUserIds viewerId := by
  rw [notBlocked_iff, mem_blockedPairUserIds]
  constructor
  · exact fun h => h sender hs
  · intro h author ha
    rw [hs] at ha
    obtain rfl := Option.some.inj ha
    exact h

theorem blockedBetween_comm {a b : String} : BlockedBetween db a b ↔ BlockedBetween db b a := by
  unfold BlockedBetween
  constructor <;>
  · rintro ⟨block, hmem, hab | hba⟩
    · exact ⟨block, hmem, Or.inr hab⟩
    · exact ⟨block, hmem, Or.inl hba⟩

theorem mem_fanoutTargets {channelId author : String} {m : Message} {conn : Connection}
    (hm : m.senderUserId = some author) (hconn : conn ∈ mem.conns)
    (hsub : channelId ∈ conn.subscribed) :
    conn ∈ mem.fanoutTargets channelId (db.blockedPairUserIds author) ↔
      notBlocked db conn.userId m = true := by
  rw [notBlocked_eq hm, mem_blockedPairUserIds, blockedBetween_comm, ← mem_blockedPairUserIds,
    Memory.fanoutTargets, List.mem_filter]
  simp [hconn, hsub]

theorem run_isBlockedBetween {x : Point Db Memory} (aId bId : String) :
    (isBlockedBetween aId bId).run x =
      (.ok (decide (aId ≠ bId ∧ bId ∈ x.view.blockedPairUserIds aId)), x) := by
  unfold isBlockedBetween
  by_cases hab : aId = bId
  · simp [hab]
  · rw [if_neg hab]
    have hany : (x.view.blocks.any fun b => (b.blockerUserId = aId && b.blockedUserId = bId) ||
        (b.blockerUserId = bId && b.blockedUserId = aId)) =
        decide (aId ≠ bId ∧ bId ∈ x.view.blockedPairUserIds aId) := by
      rw [Bool.eq_iff_iff]
      simp [hab, mem_blockedPairUserIds, BlockedBetween]
    rw [← hany]
    rfl

end

/-! ## One predicate -/

section
variable {x : Point Db Memory} {viewerId : String} {limit : ℕ}

/-- What `visible_message` decides about a row. -/
def shown (db : Db) (viewerId : String) (m : Message) : Bool :=
  m.deletedAt.isNone && (db.readableChannel viewerId m.channelId).isSome && notBlocked db viewerId m

theorem run_visibleMessage_some {messageId : String} {msg : Message}
    (hrow : (x.view.messages.find? fun m => m.id = messageId) = some msg) :
    (visibleMessage viewerId messageId).run x =
      (.ok (if shown x.view viewerId msg then some msg else none), x) := by
  rw [visibleMessage, Request.run_bind, select, Request.run_query]
  simp only [hrow]
  unfold shown
  cases hdeleted : msg.deletedAt with
  | some t => simp
  | none =>
      simp only [ne_eq, not_true_eq_false, if_false, Option.isNone_none, Bool.true_and]
      rw [Request.run_bind, readableChannel, select, Request.run_query]
      dsimp only
      cases x.view.readableChannel viewerId msg.channelId with
      | none => simp
      | some channel =>
          simp only [Option.isSome_some, Bool.true_and]
          cases hsender : msg.senderUserId with
          | none => simp [notBlocked, hsender]
          | some sender =>
              dsimp only
              rw [Request.run_bind, select, Request.run_query]
              dsimp only
              by_cases hblocked : sender ∈ x.view.blockedPairUserIds viewerId
              · have hhidden : ¬notBlocked x.view viewerId msg = true := by
                  rw [notBlocked_eq hsender]
                  exact not_not.mpr hblocked
                rw [if_pos hblocked, if_neg hhidden]
                rfl
              · have hseen := (notBlocked_eq hsender).mpr hblocked
                rw [if_neg hblocked, if_pos hseen]
                rfl

/-- Fetching by id shows the row if the channel is readable and the row is visible in it. -/
theorem run_visibleMessage (h : IdsUnique x.view) (messageId : String) :
    ∃ found, (visibleMessage viewerId messageId).run x = (.ok found, x) ∧
      ∀ m, found = some m ↔ (m ∈ x.view.messages ∧ m.id = messageId) ∧
        (x.view.readableChannel viewerId m.channelId).isSome ∧
        visible x.view m.channelId viewerId m = true := by
  cases hrow : x.view.messages.find? fun m => m.id = messageId with
  | none =>
      use none
      constructor
      · rw [visibleMessage, Request.run_bind, select, Request.run_query]
        simp only [hrow]
        rfl
      · intro m
        have hnone := List.find?_eq_none.mp hrow m
        simp only [reduceCtorEq, false_iff, not_and]
        intro hm
        exact absurd (by simpa using hm.2) (hnone hm.1)
  | some msg =>
      have hmem : msg ∈ x.view.messages := List.mem_of_find?_eq_some hrow
      have hid : msg.id = messageId := by simpa using List.find?_some hrow
      constructor
      constructor
      · exact run_visibleMessage_some hrow
      · intro m
        constructor
        · intro hfound
          split_ifs at hfound with hshown
          obtain rfl := Option.some.inj hfound
          simp only [shown, Bool.and_eq_true] at hshown
          simp only [visible, decide_true, Bool.true_and, Bool.and_eq_true]
          exact ⟨⟨hmem, hid⟩, hshown.1.2, hshown.1.1, hshown.2⟩
        · rintro ⟨⟨hm, hmid⟩, hread, hseen⟩
          obtain rfl := eq_of_id h hm hmem (hmid.trans hid.symm)
          simp only [visible, decide_true, Bool.true_and, Bool.and_eq_true] at hseen
          have hshown : shown x.view viewerId m = true := by
            simp only [shown, Bool.and_eq_true]
            exact ⟨⟨hseen.1, hread⟩, hseen.2⟩
          rw [if_pos hshown]

theorem run_lastVisibleMessages (h : IdsUnique x.view) (channelIds : List String) :
    ∃ d, (lastVisibleMessages channelIds viewerId).run x = (.ok d, x) ∧
      ∀ channelId m, OrderedDict.get d channelId = some m ↔
        channelId ∈ channelIds ∧ Newest x.view channelId viewerId m := by
  unfold lastVisibleMessages
  split_ifs with hnil
  · use []
    constructor
    · rfl
    · intro channelId m
      simp [hnil, OrderedDict.get]
  · rw [Request.run_bind, select, Request.run_query]
    dsimp only
    have hget : ∀ channelId m, OrderedDict.get (OrderedDict.ofRows (·.channelId)
          (x.view.messages.filter fun m => m.id ∈ maxIds channelIds viewerId x.view)) channelId =
            some m ↔ channelId ∈ channelIds ∧ Newest x.view channelId viewerId m :=
      fun _ _ => get_lastVisible h
    split_ifs with hids
    · use []
      constructor
      · rfl
      · intro channelId m
        rw [← hget, hids]
        simp [OrderedDict.get, OrderedDict.ofRows]
    · exact ⟨_, rfl, hget⟩

end

/-- On every state the six filters agree: fetching by id shows what the walk of a readable
channel shows, the last lines are the last message of the walk, for one channel and for many,
the check between two different users is membership in the set of blocked users, and a fanout
reaches the subscribed connections whose user may see the message. -/
theorem one_visibility {db : Db} {limit : ℕ} (h : IdsUnique db) (mem : Memory) (viewerId : String)
    (hlimit : 1 ≤ limit) :
    (∀ messageId, ∃ found,
      (visibleMessage viewerId messageId).run ⟨db, mem, none⟩ = (.ok found, ⟨db, mem, none⟩) ∧
      ∀ m, found = some m ↔ (m ∈ db.messages ∧ m.id = messageId) ∧
        (db.readableChannel viewerId m.channelId).isSome ∧
        .message m ∈ fullWalk db m.channelId viewerId limit) ∧
    (∀ channelId, (lastVisibleMessage channelId viewerId).run ⟨db, mem, none⟩ =
      (.ok (lastMessage (fullWalk db channelId viewerId limit)), ⟨db, mem, none⟩)) ∧
    (∀ channelIds, ∃ d,
      (lastVisibleMessages channelIds viewerId).run ⟨db, mem, none⟩ =
        (.ok d, ⟨db, mem, none⟩) ∧
      ∀ channelId, OrderedDict.get d channelId =
        if channelId ∈ channelIds then lastMessage (fullWalk db channelId viewerId limit)
        else none) ∧
    (∀ aId bId, (isBlockedBetween aId bId).run ⟨db, mem, none⟩ =
      (.ok (decide (aId ≠ bId ∧ bId ∈ db.blockedPairUserIds aId)), ⟨db, mem, none⟩)) ∧
    ∀ author m, m.senderUserId = some author → ∀ channelId, ∀ conn ∈ mem.conns,
      channelId ∈ conn.subscribed →
      (conn ∈ mem.fanoutTargets channelId (db.blockedPairUserIds author) ↔
        notBlocked db conn.userId m = true) := by
  constructor
  · intro messageId
    have hvisible : ∃ found,
        (visibleMessage viewerId messageId).run ⟨db, mem, none⟩ = (.ok found, ⟨db, mem, none⟩) ∧
        ∀ m, found = some m ↔ (m ∈ db.messages ∧ m.id = messageId) ∧
          (db.readableChannel viewerId m.channelId).isSome ∧
          visible db m.channelId viewerId m = true :=
      run_visibleMessage (x := ⟨db, mem, none⟩) h messageId
    obtain ⟨found, hrun, hfound⟩ := hvisible
    use found
    constructor
    · exact hrun
    · intro m
      rw [hfound, fullWalk_eq h hlimit, message_mem_timeline]
      constructor
      · exact fun hm => ⟨hm.1, hm.2.1, hm.1.1, hm.2.2⟩
      · exact fun hm => ⟨hm.1, hm.2.1, hm.2.2.2⟩
  constructor
  · intro channelId
    have hlast : greatestId (db.messages.filter (visible db channelId viewerId)) =
        lastMessage (fullWalk db channelId viewerId limit) := by
      apply Option.ext
      intro m
      rw [greatestId_visible h, lastMessage_fullWalk h hlimit]
    rw [← hlast]
    rfl
  constructor
  · intro channelIds
    have hlines : ∃ d,
        (lastVisibleMessages channelIds viewerId).run ⟨db, mem, none⟩ = (.ok d, ⟨db, mem, none⟩) ∧
        ∀ channelId m, OrderedDict.get d channelId = some m ↔
          channelId ∈ channelIds ∧ Newest db channelId viewerId m :=
      run_lastVisibleMessages (x := ⟨db, mem, none⟩) h channelIds
    obtain ⟨d, hrun, hget⟩ := hlines
    use d
    constructor
    · exact hrun
    · intro channelId
      apply Option.ext
      intro m
      rw [hget]
      split_ifs with hc
      · simp only [hc, true_and, lastMessage_fullWalk h hlimit]
      · simp [hc]
  constructor
  · exact fun aId bId => run_isBlockedBetween aId bId
  · intro author m hm channelId conn hconn hsub
    exact mem_fanoutTargets hm hconn hsub

/-- One user with a block row on itself. -/
def selfBlockDb : Db := { blocks := [⟨"u1", "u1"⟩] }

theorem self_block_differs :
    IdsUnique selfBlockDb ∧ "u1" ∈ selfBlockDb.blockedPairUserIds "u1" ∧
      (isBlockedBetween "u1" "u1").run (⟨selfBlockDb, {}, none⟩ : Point Db Memory) =
        (.ok false, ⟨selfBlockDb, {}, none⟩) := by
  constructor
  · exact ⟨List.nodup_nil, List.not_mem_nil⟩
  constructor
  · decide
  · rfl

/-- In the room with a removed message and a blocked author, the last line is the last
message of the walk. -/
theorem one_visibility_room :
    (lastVisibleMessage "ch1" "u1").run (⟨roomDb, {}, none⟩ : Point Db Memory) =
      (.ok (some (roomMessage "m5" "u1" none)), ⟨roomDb, {}, none⟩) := by
  have hlast : lastMessage (fullWalk roomDb "ch1" "u1" 2) = some (roomMessage "m5" "u1" none) := by
    decide +kernel
  rw [← hlast]
  exact (one_visibility roomDb_ids {} "u1" (by decide)).2.1 "ch1"

end AikoIsland.Visibility
