import AikoIsland.DirectMessages
import AikoIsland.Paging
import AikoIsland.SoloRun

/-!
# The timeline of a channel for a viewer

The timeline is the visible messages and the retractions of the channel, in
ascending id order. Every page of `get_history` is a segment of it, a walk from
the empty cursor lists it, and the fence is the id of its last item.

The statements of one call read one state. Ids are unique across the two tables
and no id is the empty text, which is the cursor that a walk starts from.
-/
namespace AikoIsland.Timeline
open Tables Gateway Messages DirectMessages WriterLock Paging

/-- What a viewer may see of a message: it is not deleted, and no block in either direction
stands between the viewer and its author, if it has one. -/
def VisibleTo (db : Db) (viewerId : String) (m : Message) : Prop :=
  m.deletedAt = none ∧
    ∀ author, m.senderUserId = some author → ¬BlockedBetween db viewerId author

/-- The ids of messages and retractions. -/
def timelineIds (db : Db) : List String :=
  db.messages.map (·.id) ++ db.retractions.map (·.id)

structure IdsUnique (db : Db) : Prop where
  nodup : (timelineIds db).Nodup
  nonempty : "" ∉ timelineIds db

def timeline (db : Db) (channelId viewerId : String) : List Item :=
  ascending (visibleMessages db channelId viewerId ++ channelRetractions db channelId)

instance : Std.Total (fun a b : Item => a.id ≤ b.id) := ⟨fun a b => le_total a.id b.id⟩
instance : IsTrans Item (fun a b : Item => a.id ≤ b.id) := ⟨fun _ _ _ => le_trans⟩
instance : Std.Total (fun a b : Item => b.id ≤ a.id) := ⟨fun a b => le_total b.id a.id⟩
instance : IsTrans Item (fun a b : Item => b.id ≤ a.id) := ⟨fun _ _ _ h h' => h'.trans h⟩

section
variable {db : Db} {channelId viewerId : String} {m : Message}

theorem notBlocked_iff : notBlocked db viewerId m = true ↔
    ∀ author, m.senderUserId = some author → ¬BlockedBetween db viewerId author := by
  unfold notBlocked BlockedBetween
  cases m.senderUserId with
  | none => simp
  | some sender =>
      simp only [Bool.not_eq_true', List.any_eq_false, Bool.or_eq_true, Bool.and_eq_true,
        decide_eq_true_eq, Option.some.injEq, forall_eq', not_exists, not_and]
      constructor
      · rintro h b hb (⟨hv, hs⟩ | ⟨hs, hv⟩)
        · exact h b hb (Or.inl ⟨hv, hs⟩)
        · exact h b hb (Or.inr ⟨hv, hs⟩)
      · rintro h b hb (⟨hv, hs⟩ | ⟨hv, hs⟩)
        · exact h b hb (Or.inl ⟨hv, hs⟩)
        · exact h b hb (Or.inr ⟨hs, hv⟩)

theorem visible_iff : visible db channelId viewerId m = true ↔
    m.channelId = channelId ∧ VisibleTo db viewerId m := by
  simp only [visible, Bool.and_eq_true, decide_eq_true_eq, notBlocked_iff, VisibleTo,
    Option.isNone_iff_eq_none, and_assoc]

/-- The items of the timeline. -/
theorem mem_timeline {item : Item} : item ∈ timeline db channelId viewerId ↔
    (∃ m ∈ db.messages, (m.channelId = channelId ∧ VisibleTo db viewerId m) ∧ item = .message m) ∨
      ∃ r ∈ db.retractions, r.channelId = channelId ∧ item = .retraction r := by
  unfold timeline ascending
  rw [List.mem_insertionSort, List.mem_append, visibleMessages, channelRetractions, List.mem_map,
    List.mem_map]
  constructor
  · rintro (⟨m, hm, rfl⟩ | ⟨r, hr, rfl⟩)
    · obtain ⟨hm, hv⟩ := List.mem_filter.mp hm
      exact Or.inl ⟨m, hm, visible_iff.mp hv, rfl⟩
    · obtain ⟨hr, hc⟩ := List.mem_filter.mp hr
      exact Or.inr ⟨r, hr, by simpa using hc, rfl⟩
  · rintro (⟨m, hm, hv, rfl⟩ | ⟨r, hr, hc, rfl⟩)
    · exact Or.inl ⟨m, List.mem_filter.mpr ⟨hm, visible_iff.mpr hv⟩, rfl⟩
    · exact Or.inr ⟨r, List.mem_filter.mpr ⟨hr, by simpa using hc⟩, rfl⟩

theorem nodup_ids (h : IdsUnique db) (channelId viewerId : String) :
    ((visibleMessages db channelId viewerId ++ channelRetractions db channelId).map
      Item.id).Nodup := by
  have hsub : ((visibleMessages db channelId viewerId ++ channelRetractions db channelId).map
      Item.id).Sublist (timelineIds db) := by
    rw [List.map_append, visibleMessages, channelRetractions, List.map_map, List.map_map]
    exact (List.filter_sublist.map _).append (List.filter_sublist.map _)
  exact hsub.nodup h.nodup

theorem apart_of_nodup {rows : List Item} (h : (rows.map Item.id).Nodup) :
    Apart (fun a b => a.id ≤ b.id) rows ∧ Apart (fun a b => b.id ≤ a.id) rows := by
  rw [List.Nodup, List.pairwise_map] at h
  constructor
  · exact h.imp fun hne hab => hne (le_antisymm hab.1 hab.2)
  · exact h.imp fun hne hab => hne (le_antisymm hab.2 hab.1)

/-- The timeline is in strictly ascending id order. -/
theorem timeline_sorted (h : IdsUnique db) :
    (timeline db channelId viewerId).Pairwise fun a b => a.id < b.id := by
  apply (sorted_of_apart (apart_of_nodup (nodup_ids h channelId viewerId)).1).imp
  exact fun hab => lt_of_le_not_ge hab.1 hab.2

theorem descending_eq (h : IdsUnique db) (channelId viewerId : String) :
    descending (visibleMessages db channelId viewerId ++ channelRetractions db channelId) =
      (timeline db channelId viewerId).reverse := by
  apply sort_eq_of_sorted (apart_of_nodup (nodup_ids h channelId viewerId)).2
  · rw [List.pairwise_reverse]
    exact (timeline_sorted h).imp fun hab => ⟨hab.le, hab.not_ge⟩
  · intro item
    rw [List.mem_reverse, timeline, ascending, List.mem_insertionSort]

/-! ## Pages -/

/-- The rows of a page with `before` lie below it; an empty or absent cursor bounds nothing. -/
def below (before : Option String) (item : Item) : Bool :=
  match before with
  | none => true
  | some c => c = "" || item.id < c

variable {x : Point Db Memory} {limit : ℕ}

/-- A page with `after` is the beginning of what follows the cursor. -/
theorem run_after (h : IdsUnique x.view) (cursor : String) (before : Option String) (limit : ℕ) :
    (getHistory channelId viewerId before (some cursor) limit).run x =
      (.ok (((timeline x.view channelId viewerId).filter fun a => cursor < a.id).take limit),
        x) := by
  have hapart := (apart_of_nodup (nodup_ids h channelId viewerId)).1
  have hpage : page (fun a b : Item => a.id ≤ b.id) limit
        (afterRows cursor limit (visibleMessages x.view channelId viewerId) ++
          afterRows cursor limit (channelRetractions x.view channelId)) =
      ((timeline x.view channelId viewerId).filter fun a => cursor < a.id).take limit := by
    have hfilter := hapart.subperm
      (List.filter_sublist (p := fun a : Item => decide (cursor < a.id))).subperm
    rw [List.filter_append] at hfilter
    calc
      _ = page _ limit ((visibleMessages x.view channelId viewerId).filter
            (fun a => cursor < a.id) ++
          (channelRetractions x.view channelId).filter fun a => cursor < a.id) :=
        page_merge hfilter limit
      _ = _ := by
        rw [page, ← List.filter_append, sort_filter hapart]
        rfl
  rw [← hpage]
  rfl

/-- A page with `before`, or with no cursor, is the end of what lies below it. -/
theorem run_before (h : IdsUnique x.view) (before : Option String) (limit : ℕ) :
    (getHistory channelId viewerId before none limit).run x =
      (.ok (((timeline x.view channelId viewerId).filter (below before)).rtake limit), x) := by
  have hapart := (apart_of_nodup (nodup_ids h channelId viewerId)).2
  have hpage : (page (fun a b : Item => b.id ≤ a.id) limit
        (beforeRows before limit (visibleMessages x.view channelId viewerId) ++
          beforeRows before limit (channelRetractions x.view channelId))).reverse =
      ((timeline x.view channelId viewerId).filter (below before)).rtake limit := by
    have hfilter := hapart.subperm (List.filter_sublist (p := below before)).subperm
    rw [List.filter_append] at hfilter
    calc
      _ = (page _ limit ((visibleMessages x.view channelId viewerId).filter (below before) ++
          (channelRetractions x.view channelId).filter (below before))).reverse :=
        congrArg List.reverse (page_merge hfilter limit)
      _ = _ := by
        have hdesc := descending_eq h channelId viewerId
        rw [descending] at hdesc
        rw [page, ← List.filter_append, sort_filter hapart, hdesc, List.filter_reverse,
          List.rtake_eq_reverse_take_reverse]
  rw [← hpage]
  rfl

/-! ## The fence -/

theorem run_latestUlid (channelId viewerId : String) :
    (latestUlid channelId viewerId).run x =
      (.ok (max (maxId (visibleMessages x.view channelId viewerId))
        (maxId (channelRetractions x.view channelId))), x) := by
  change (Except.ok ((List.lookup channelId [(channelId,
    max (maxId (visibleMessages x.view channelId viewerId))
      (maxId (channelRetractions x.view channelId)))]).getD ""), x) = _
  simp

/-- The id of the last item, or the empty text. -/
def lastId (rows : List Item) : String := (rows.getLast?.map Item.id).getD ""

theorem le_lastId {rows : List Item} (hs : rows.Pairwise fun a b => a.id < b.id) {item : Item}
    (h : item ∈ rows) : item.id ≤ lastId rows := by
  unfold lastId
  cases hlast : rows.getLast? with
  | none =>
      rw [List.getLast?_eq_none_iff.mp hlast] at h
      cases h
  | some last =>
      obtain ⟨init, rfl⟩ := List.getLast?_eq_some_iff.mp hlast
      rcases List.mem_append.mp h with h | h
      · exact ((List.pairwise_append.mp hs).2.2 item h last (by simp)).le
      · rw [List.mem_singleton.mp h]
        exact le_rfl

/-- The fence is the id of the last item. -/
theorem fence_eq (h : IdsUnique db) : max (maxId (visibleMessages db channelId viewerId))
    (maxId (channelRetractions db channelId)) = lastId (timeline db channelId viewerId) := by
  have hmem : ∀ item, item ∈ timeline db channelId viewerId ↔
      item ∈ visibleMessages db channelId viewerId ∨ item ∈ channelRetractions db channelId := by
    intro item
    rw [timeline, ascending, List.mem_insertionSort, List.mem_append]
  apply le_antisymm
  · apply max_le
    · exact maxId_le fun r hr => le_lastId (timeline_sorted h) ((hmem r).mpr (Or.inl hr))
    · exact maxId_le fun r hr => le_lastId (timeline_sorted h) ((hmem r).mpr (Or.inr hr))
  · unfold lastId
    cases hlast : (timeline db channelId viewerId).getLast? with
    | none => exact empty_le _
    | some last =>
        rcases (hmem last).mp (List.mem_of_getLast? hlast) with hm | hr
        · exact (le_maxId hm).trans (le_max_left _ _)
        · exact (le_maxId hr).trans (le_max_right _ _)

end

/-! ## The walk -/

/-- The page that a client gets from a state. -/
def pageAfter (db : Db) (channelId viewerId : String) (limit : ℕ) (cursor : String) : List Item :=
  match ((getHistory channelId viewerId none (some cursor) limit).run
    (⟨db, {}, none⟩ : Point Db Memory)).1 with
  | .ok rows => rows
  | .error _ => []

section
variable {db : Db} {channelId viewerId : String} {limit : ℕ}

theorem pageAfter_eq (h : IdsUnique db) (cursor : String) :
    pageAfter db channelId viewerId limit cursor =
      ((timeline db channelId viewerId).filter fun a => cursor < a.id).take limit := by
  have hrun : (getHistory channelId viewerId none (some cursor) limit).run
      (⟨db, {}, none⟩ : Point Db Memory) = _ :=
    run_after (x := ⟨db, {}, none⟩) h cursor none limit
  rw [pageAfter, hrun]
  rfl

/-- Every item lies after the empty cursor. -/
theorem filter_empty (h : IdsUnique db) :
    ((timeline db channelId viewerId).filter fun a => "" < a.id) =
      timeline db channelId viewerId := by
  rw [List.filter_eq_self]
  intro item hitem
  rw [decide_eq_true_eq]
  apply lt_of_le_of_ne (empty_le _)
  intro hid
  apply h.nonempty
  rw [hid, timelineIds, List.mem_append]
  rcases mem_timeline.mp hitem with ⟨m, hm, _, rfl⟩ | ⟨r, hr, _, rfl⟩
  · exact Or.inl (List.mem_map_of_mem hm)
  · exact Or.inr (List.mem_map_of_mem hr)

/-- A walk of enough pages from the empty cursor lists the timeline. -/
theorem walk_timeline (h : IdsUnique db) (hlimit : 0 < limit) {k : ℕ}
    (hk : (timeline db channelId viewerId).length ≤ k) :
    walk (pageAfter db channelId viewerId limit) Item.id k "" =
      timeline db channelId viewerId := by
  have hwalk : walk (pageAfter db channelId viewerId limit) Item.id k "" =
      (timeline db channelId viewerId).filter fun a => "" < a.id :=
    walk_eq (timeline_sorted h) hlimit (pageAfter_eq h) k "" (by rwa [filter_empty h])
  rwa [filter_empty h] at hwalk

/-- The fence and the pager agree in every state: the walk lists the visible messages and the
retractions in ascending order, each once, no page below the fence is empty, the fence is the
last id, and a page holds the smallest items above its cursor, or the largest below it. -/
theorem fence_and_pager (h : IdsUnique db) (mem : Memory) (channelId viewerId : String)
    (hlimit : 1 ≤ limit) :
    (∀ k, (timeline db channelId viewerId).length ≤ k →
      walk (pageAfter db channelId viewerId limit) Item.id k "" =
        timeline db channelId viewerId) ∧
    (∀ item, item ∈ timeline db channelId viewerId ↔
      (∃ m ∈ db.messages, (m.channelId = channelId ∧ VisibleTo db viewerId m) ∧
        item = .message m) ∨
      ∃ r ∈ db.retractions, r.channelId = channelId ∧ item = .retraction r) ∧
    (timeline db channelId viewerId).Pairwise (fun a b => a.id < b.id) ∧
    (latestUlid channelId viewerId).run ⟨db, mem, none⟩ =
      (.ok (lastId (timeline db channelId viewerId)), ⟨db, mem, none⟩) ∧
    (∀ cursor, cursor < lastId (timeline db channelId viewerId) →
      pageAfter db channelId viewerId limit cursor ≠ []) ∧
    (∀ before cursor, (getHistory channelId viewerId before (some cursor) limit).run
        ⟨db, mem, none⟩ =
      (.ok (((timeline db channelId viewerId).filter fun a => cursor < a.id).take limit),
        ⟨db, mem, none⟩)) ∧
    ∀ before, (getHistory channelId viewerId before none limit).run ⟨db, mem, none⟩ =
      (.ok (((timeline db channelId viewerId).filter (below before)).rtake limit),
        ⟨db, mem, none⟩) := by
  constructor
  · exact fun k hk => walk_timeline h hlimit hk
  constructor
  · exact fun item => mem_timeline
  constructor
  · exact timeline_sorted h
  constructor
  · rw [run_latestUlid, ← fence_eq h]
    rfl
  constructor
  · intro cursor hcursor hpage
    rw [pageAfter_eq h, List.take_eq_nil_iff] at hpage
    rcases hpage with hzero | hnil
    · omega
    · unfold lastId at hcursor
      cases hlast : (timeline db channelId viewerId).getLast? with
      | none =>
          rw [hlast] at hcursor
          exact absurd hcursor (empty_le cursor).not_gt
      | some last =>
          rw [hlast] at hcursor
          have hskip := List.filter_eq_nil_iff.mp hnil last (List.mem_of_getLast? hlast)
          exact hskip (by simpa using hcursor)
  constructor
  · exact fun before cursor => run_after (x := ⟨db, mem, none⟩) h cursor before limit
  · exact fun before => run_before (x := ⟨db, mem, none⟩) h before limit

end

/-! ## A room with a removed message and a blocked author -/

def roomMessage (id author : String) (deletedAt : Option Time) : Message :=
  { id := id, channelId := "ch1", senderUserId := some author, body := "", deletedAt := deletedAt }

def roomDb : Db :=
  { messages := [roomMessage "m1" "u1" none, roomMessage "m2" "u1" (some 5),
      roomMessage "m4" "u2" none, roomMessage "m5" "u1" none],
    retractions := [⟨"m3", "m2", "ch1", 5⟩],
    blocks := [⟨"u2", "u1"⟩] }

theorem roomDb_ids : IdsUnique roomDb where
  nodup := by decide
  nonempty := by decide

/-- The walk in pages of two gives the first message, the retraction and the last message. -/
theorem fence_and_pager_room :
    walk (pageAfter roomDb "ch1" "u1" 2) Item.id 3 "" =
      [.message (roomMessage "m1" "u1" none), .retraction ⟨"m3", "m2", "ch1", 5⟩,
        .message (roomMessage "m5" "u1" none)] :=
  (fence_and_pager roomDb_ids {} "ch1" "u1" (show 1 ≤ 2 by decide)).1 3 (by decide +kernel)

end AikoIsland.Timeline
