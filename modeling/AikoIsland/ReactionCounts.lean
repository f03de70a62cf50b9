import AikoIsland.Reactions

/-!
# The reaction aggregate of a page

What a viewer may count of a message and an emoji is the set of reactors outside
the viewer's block set. The aggregate of a page says of each listed message which
emoji it carries, how many such reactors each has, whether the viewer is one, and
shows at most twenty of them, the viewer included.

The three queries see the same rows through different filters. On one group the
filters agree (`filter_group`), so the counts, the flags and the samples speak
about one list of rows. The order in which SQL returns rows does not matter.
-/
namespace AikoIsland.ReactionCounts
open Tables Reactions OrderedDict

/-! ## The reference -/

/-- The rows of a group that the viewer may count. -/
def reactorRows (blockedUserIds : List String) (rows : List MessageReaction) (g : Group) :
    List MessageReaction :=
  (visible blockedUserIds rows).filter fun r => groupOf r = g

def visibleReactors (blockedUserIds : List String) (db : Db) (messageId emoji : String) :
    Finset String :=
  ((reactorRows blockedUserIds db.reactions (messageId, emoji)).map (·.userId)).toFinset

def visibleEmojis (blockedUserIds : List String) (db : Db) (messageId : String) : Finset String :=
  (((visible blockedUserIds db.reactions).filter fun r => r.messageId = messageId).map
    (·.emoji)).toFinset

/-- The emoji of the message that come before this one. -/
def placeOf (blockedUserIds : List String) (db : Db) (messageId emoji : String) : ℕ :=
  let count := fun e => (visibleReactors blockedUserIds db messageId e).card
  ((visibleEmojis blockedUserIds db messageId).filter fun e =>
    count emoji < count e ∨ count e = count emoji ∧ e < emoji).card

/-- The emoji is in the top band of its message, or the viewer used it. -/
def Carried (blockedUserIds : List String) (db : Db) (viewerId messageId emoji : String) : Prop :=
  emoji ∈ visibleEmojis blockedUserIds db messageId ∧
    (placeOf blockedUserIds db messageId emoji < maxEmojisProjectedPerMessage ∨
      viewerId ∈ visibleReactors blockedUserIds db messageId emoji)

structure Faithful (blockedUserIds : List String) (db : Db) (viewerId messageId : String)
    (entry : EmojiEntry) : Prop where
  count : entry.count = (visibleReactors blockedUserIds db messageId entry.emoji).card
  reactedByMe : entry.reactedByMe = true ↔
    viewerId ∈ visibleReactors blockedUserIds db messageId entry.emoji
  nodup : (entry.reactors.map (·.userId)).Nodup
  size : entry.reactors.length = min entry.count maxReactorsProjectedPerEmoji
  rows : ∀ p ∈ entry.reactors, p.userId ∈ visibleReactors blockedUserIds db messageId entry.emoji ∧
    ∃ r ∈ db.reactions, keyOf r = (messageId, p.userId, entry.emoji) ∧ r.origin = p.origin
  pinned : entry.reactedByMe = true → viewerId ∈ entry.reactors.map (·.userId)

/-! ## Rows -/

section
variable {blockedUserIds : List String} {db : Db}

theorem mem_reactorRows {rows : List MessageReaction} {g : Group} {r : MessageReaction} :
    r ∈ reactorRows blockedUserIds rows g ↔
      r ∈ rows ∧ r.userId ∉ blockedUserIds ∧ groupOf r = g := by
  simp only [reactorRows, visible, List.mem_filter, decide_eq_true_eq, and_assoc]

/-- Any filter that passes the whole group shows the same rows of it. -/
theorem filter_group {rows : List MessageReaction} {g : Group} (q : MessageReaction → Bool)
    (hq : ∀ r, groupOf r = g → q r = true) :
    (visible blockedUserIds (rows.filter q)).filter (fun r => groupOf r = g) =
      reactorRows blockedUserIds rows g := by
  simp only [visible, reactorRows, List.filter_filter]
  apply List.filter_congr
  intro r _
  by_cases hg : groupOf r = g
  · rw [hq r hg, Bool.and_true]
  · simp [hg]

theorem inj_reactorRows (hkeys : (db.reactions.map keyOf).Nodup) {g : Group}
    {r r' : MessageReaction} (hr : r ∈ reactorRows blockedUserIds db.reactions g)
    (hr' : r' ∈ reactorRows blockedUserIds db.reactions g) (h : r.userId = r'.userId) :
    r = r' := by
  obtain ⟨hin, _, hgroup⟩ := mem_reactorRows.mp hr
  obtain ⟨hin', _, hgroup'⟩ := mem_reactorRows.mp hr'
  apply List.inj_on_of_nodup_map hkeys hin hin'
  have hboth : groupOf r = groupOf r' := hgroup.trans hgroup'.symm
  have hmessage : r.messageId = r'.messageId := congrArg Prod.fst hboth
  have hemoji : r.emoji = r'.emoji := congrArg Prod.snd hboth
  rw [keyOf, keyOf, hmessage, hemoji, h]

theorem nodup_reactorRows (hkeys : (db.reactions.map keyOf).Nodup) (g : Group) :
    (reactorRows blockedUserIds db.reactions g).Nodup :=
  ((List.Nodup.of_map _ hkeys).filter _).filter _

/-- Within a group a row is its reactor. -/
theorem nodup_reactors (hkeys : (db.reactions.map keyOf).Nodup) (g : Group) :
    ((reactorRows blockedUserIds db.reactions g).map (·.userId)).Nodup := by
  apply (List.nodup_map_iff_inj_on (nodup_reactorRows hkeys g)).mpr
  intro r hr r' hr' h
  exact inj_reactorRows hkeys hr hr' h

theorem card_visibleReactors (hkeys : (db.reactions.map keyOf).Nodup) (m e : String) :
    (visibleReactors blockedUserIds db m e).card =
      (reactorRows blockedUserIds db.reactions (m, e)).length := by
  rw [visibleReactors, List.toFinset_card_of_nodup (nodup_reactors hkeys (m, e)), List.length_map]

theorem mem_visibleReactors {m e u : String} :
    u ∈ visibleReactors blockedUserIds db m e ↔
      u ∉ blockedUserIds ∧ ∃ r ∈ db.reactions, keyOf r = (m, u, e) := by
  rw [visibleReactors, List.mem_toFinset, List.mem_map]
  constructor
  · intro h
    obtain ⟨r, hr, rfl⟩ := h
    obtain ⟨hin, hfree, hgroup⟩ := mem_reactorRows.mp hr
    obtain ⟨rfl, rfl⟩ := Prod.mk.injEq .. ▸ hgroup
    exact ⟨hfree, r, hin, rfl⟩
  · intro h
    obtain ⟨hfree, r, hin, hkey⟩ := h
    simp only [keyOf, Prod.mk.injEq] at hkey
    obtain ⟨rfl, rfl, rfl⟩ := hkey
    exact ⟨r, mem_reactorRows.mpr ⟨hin, hfree, rfl⟩, rfl⟩

theorem mem_visibleEmojis {m e : String} :
    e ∈ visibleEmojis blockedUserIds db m ↔
      ∃ r, r ∈ reactorRows blockedUserIds db.reactions (m, e) := by
  simp only [visibleEmojis, List.mem_toFinset, List.mem_map, List.mem_filter, decide_eq_true_eq,
    mem_reactorRows, visible, groupOf, Prod.mk.injEq]
  constructor
  · intro h
    obtain ⟨r, ⟨⟨hin, hfree⟩, hm⟩, he⟩ := h
    exact ⟨r, hin, hfree, hm, he⟩
  · intro h
    obtain ⟨r, hin, hfree, hm, he⟩ := h
    exact ⟨r, ⟨⟨hin, hfree⟩, hm⟩, he⟩

/-- `emoji_count` counts the same reactors. -/
theorem emojiCount_eq (hkeys : (db.reactions.map keyOf).Nodup) (m e : String) :
    emojiCount m e blockedUserIds db = (visibleReactors blockedUserIds db m e).card := by
  rw [card_visibleReactors hkeys, emojiCount, visible, reactorRows, visible, List.filter_filter,
    List.filter_filter]
  congr 1
  apply List.filter_congr
  intro r _
  simp only [groupOf, Prod.mk.injEq]
  rw [Bool.and_comm, ← Bool.decide_and]

end

/-! ## The three queries -/

section
variable {order : RowOrder} {db : Db} {messageIds blockedUserIds : List String} {viewerId : String}

/-- The first query lists the groups with some row, each with the number of its rows. -/
theorem mem_countsQuery {g : Group} {c : ℕ} :
    (g, c) ∈ countsQuery order db.reactions messageIds blockedUserIds ↔
      g.1 ∈ messageIds ∧ (∃ r, r ∈ reactorRows blockedUserIds db.reactions g) ∧
        c = (reactorRows blockedUserIds db.reactions g).length := by
  have hmem : g ∈ (visible blockedUserIds
      (db.reactions.filter fun r => r.messageId ∈ messageIds)).map groupOf ↔
        g.1 ∈ messageIds ∧ ∃ r, r ∈ reactorRows blockedUserIds db.reactions g := by
    simp only [List.mem_map, visible, List.mem_filter, decide_eq_true_eq, mem_reactorRows]
    constructor
    · intro h
      obtain ⟨r, ⟨⟨hin, hm⟩, hfree⟩, rfl⟩ := h
      exact ⟨hm, r, hin, hfree, rfl⟩
    · intro h
      obtain ⟨hm, r, hin, hfree, rfl⟩ := h
      exact ⟨r, ⟨⟨hin, hm⟩, hfree⟩, rfl⟩
  have hcount : g.1 ∈ messageIds → ((visible blockedUserIds
      (db.reactions.filter fun r => r.messageId ∈ messageIds)).map groupOf).count g =
        (reactorRows blockedUserIds db.reactions g).length := by
    intro hm
    have hgroup := @filter_group blockedUserIds db.reactions g
      (fun r => decide (r.messageId ∈ messageIds)) (by
        intro r hr
        rw [← hr] at hm
        exact decide_eq_true hm)
    rw [← hgroup, List.count, List.countP_map, List.countP_eq_length_filter]
    congr 1
    apply List.filter_congr
    intro r _
    rw [Function.comp_apply, beq_eq_decide]
  rw [countsQuery, (order.perm 0 _).mem_iff, List.mem_map]
  constructor
  · intro h
    obtain ⟨g', hg', heq⟩ := h
    rw [List.mem_dedup] at hg'
    simp only [Prod.mk.injEq] at heq
    obtain ⟨rfl, rfl⟩ := heq
    obtain ⟨hm, hrow⟩ := hmem.mp hg'
    exact ⟨hm, hrow, hcount hm⟩
  · intro h
    obtain ⟨hm, hrow, rfl⟩ := h
    refine ⟨g, List.mem_dedup.mpr (hmem.mpr ⟨hm, hrow⟩), ?_⟩
    rw [hcount hm]

theorem nodup_countsQuery :
    (keys (countsQuery order db.reactions messageIds blockedUserIds)).Nodup := by
  rw [countsQuery, keys, ((order.perm 0 _).map Prod.fst).nodup_iff, List.map_map]
  have hid : (Prod.fst ∘ fun g : Group => (g, ((visible blockedUserIds
      (db.reactions.filter fun r => r.messageId ∈ messageIds)).map groupOf).count g)) = id := rfl
  rw [hid, List.map_id]
  exact List.nodup_dedup _

theorem mem_mineQuery {g : Group} {o : Option Origin} :
    (g, o) ∈ mineQuery order db.reactions messageIds viewerId ↔
      g.1 ∈ messageIds ∧ ∃ r ∈ db.reactions, keyOf r = (g.1, viewerId, g.2) ∧ r.origin = o := by
  simp only [mineQuery, List.mem_map, (order.perm 1 _).mem_iff, List.mem_filter,
    decide_eq_true_eq]
  constructor
  · intro h
    obtain ⟨r, ⟨hin, hm, rfl⟩, heq⟩ := h
    simp only [Prod.mk.injEq] at heq
    obtain ⟨rfl, rfl⟩ := heq
    exact ⟨hm, r, hin, rfl, rfl⟩
  · intro h
    obtain ⟨hm, r, hin, hkey, rfl⟩ := h
    simp only [keyOf, Prod.mk.injEq] at hkey
    obtain ⟨hmessage, huser, hemoji⟩ := hkey
    refine ⟨r, ⟨hin, ?_, huser⟩, ?_⟩
    · rw [hmessage]
      exact hm
    · rw [groupOf, hmessage, hemoji]

theorem nodup_mineQuery (hkeys : (db.reactions.map keyOf).Nodup) :
    (keys (mineQuery order db.reactions messageIds viewerId)).Nodup := by
  rw [mineQuery, keys, List.map_map, ((order.perm 1 _).map _).nodup_iff]
  apply (List.nodup_map_iff_inj_on ((List.Nodup.of_map _ hkeys).filter _)).mpr
  intro r hr r' hr' h
  simp only [List.mem_filter, decide_eq_true_eq] at hr hr'
  apply List.inj_on_of_nodup_map hkeys hr.1 hr'.1
  simp only [Function.comp_apply, groupOf, Prod.mk.injEq] at h
  rw [keyOf, keyOf, h.1, h.2, hr.2.2, hr'.2.2]

/-- The sample of a wanted group: some of its rows, as many as fit. -/
theorem sample_group (hkeys : (db.reactions.map keyOf).Nodup) {wanted : List Group} {g : Group}
    (hm : g.1 ∈ messageIds) (hg : g ∈ wanted) :
    ∃ rows : List MessageReaction, rows.Nodup ∧
      rows ⊆ reactorRows blockedUserIds db.reactions g ∧
      rows.length =
        min maxReactorsProjectedPerEmoji (reactorRows blockedUserIds db.reactions g).length ∧
      (sampleQuery order db.reactions messageIds blockedUserIds wanted).filter
        (fun r => groupOf r = g) = rows := by
  have hgroup := @filter_group blockedUserIds db.reactions g
    (fun r => decide (r.messageId ∈ messageIds ∧ groupOf r ∈ wanted)) (by
      intro r hr
      rw [← hr] at hm hg
      exact decide_eq_true ⟨hm, hg⟩)
  set among := visible blockedUserIds
    (db.reactions.filter fun r => decide (r.messageId ∈ messageIds ∧ groupOf r ∈ wanted))
    with hamong
  have hperm : ((sampleQuery order db.reactions messageIds blockedUserIds wanted).filter
      (fun r => groupOf r = g)).Perm
        ((reactorRows blockedUserIds db.reactions g).filter fun r =>
          r ∈ (sortBy windowKey (reactorRows blockedUserIds db.reactions g)).take
            maxReactorsProjectedPerEmoji) := by
    rw [sampleQuery, ← hamong]
    apply ((order.perm 2 _).filter _).trans
    rw [List.filter_filter]
    have hswap : (fun r => decide (groupOf r = g) &&
        decide (rowNumber among r ≤ maxReactorsProjectedPerEmoji)) =
          fun r => decide (rowNumber among r ≤ maxReactorsProjectedPerEmoji) &&
            decide (groupOf r = g) := by
      funext r
      rw [Bool.and_comm]
    rw [hswap, ← List.filter_filter, hgroup]
    apply List.Perm.of_eq
    apply List.filter_congr
    intro r hr
    have hrow : groupOf r = g := (mem_reactorRows.mp hr).2.2
    have hin : r ∈ sortBy windowKey (reactorRows blockedUserIds db.reactions g) :=
      (perm_sortBy _ _).mem_iff.mpr hr
    rw [rowNumber, hrow, hgroup, decide_eq_decide, List.mem_take_iff_idxOf_lt hin]
    rfl
  refine ⟨_, ?_, ?_, ?_, rfl⟩
  · exact hperm.nodup_iff.mpr ((nodup_reactorRows hkeys g).filter _)
  · intro r hr
    exact List.mem_of_mem_filter (hperm.mem_iff.mp hr)
  · rw [hperm.length_eq, length_filter_take (nodup_reactorRows hkeys g) _ (perm_sortBy _ _)]

end

/-! ## The groups that are carried -/

section
variable {order : RowOrder} {db : Db} {messageIds blockedUserIds : List String}
  {viewerId m e : String} {emojis : List String}

theorem countOf_eq (hkeys : (db.reactions.map keyOf).Nodup) (hm : m ∈ messageIds)
    (he : e ∈ visibleEmojis blockedUserIds db m) :
    countOf (countsQuery order db.reactions messageIds blockedUserIds) (m, e) =
      (visibleReactors blockedUserIds db m e).card := by
  have hitem : ((m, e), (reactorRows blockedUserIds db.reactions (m, e)).length) ∈
      countsQuery order db.reactions messageIds blockedUserIds :=
    mem_countsQuery.mpr ⟨hm, mem_visibleEmojis.mp he, rfl⟩
  rw [countOf, get_of_mem nodup_countsQuery hitem, Option.getD_some, card_visibleReactors hkeys]

/-- The emoji that the counts list for a message. -/
theorem mem_grouped (h : (m, emojis) ∈ collect (fun c => c.1.1) (fun c => c.1.2)
    (countsQuery order db.reactions messageIds blockedUserIds)) :
    m ∈ messageIds ∧ emojis.Nodup ∧ emojis.toFinset = visibleEmojis blockedUserIds db m ∧
      emojis ≠ [] := by
  have hlist : emojis = ((countsQuery order db.reactions messageIds blockedUserIds).filter
      fun c => c.1.1 = m).map (·.1.2) := by
    rw [← get_collect, get_of_mem (nodup_collect _ _ _) h, Option.getD_some]
  have hmem : ∀ e, e ∈ emojis ↔ m ∈ messageIds ∧ e ∈ visibleEmojis blockedUserIds db m := by
    intro e
    rw [hlist, List.mem_map, mem_visibleEmojis]
    constructor
    · intro hin
      obtain ⟨⟨⟨m', e'⟩, c⟩, hc, rfl⟩ := hin
      rw [List.mem_filter, decide_eq_true_eq] at hc
      obtain ⟨hc, rfl⟩ := hc
      obtain ⟨hm, hrow, _⟩ := mem_countsQuery.mp hc
      exact ⟨hm, hrow⟩
    · intro hin
      obtain ⟨hm, hrow⟩ := hin
      have hitem : ((m, e), (reactorRows blockedUserIds db.reactions (m, e)).length) ∈
          countsQuery order db.reactions messageIds blockedUserIds :=
        mem_countsQuery.mpr ⟨hm, hrow, rfl⟩
      exact ⟨_, List.mem_filter.mpr ⟨hitem, decide_eq_true rfl⟩, rfl⟩
  obtain ⟨c, hc, hfirst⟩ := (mem_keys_collect _ _ _ m).mp (List.mem_map_of_mem h)
  have hm : m ∈ messageIds := by
    rw [← hfirst]
    exact (mem_countsQuery.mp hc).1
  refine ⟨hm, ?_, ?_, ?_⟩
  · have hnodup := @nodup_countsQuery order db messageIds blockedUserIds
    rw [hlist]
    apply (List.nodup_map_iff_inj_on ((List.Nodup.of_map _ hnodup).filter _)).mpr
    intro a ha b hb hab
    rw [List.mem_filter, decide_eq_true_eq] at ha hb
    apply List.inj_on_of_nodup_map hnodup ha.1 hb.1
    exact Prod.ext (ha.2.trans hb.2.symm) hab
  · ext e
    rw [List.mem_toFinset, hmem]
    constructor
    · intro hin
      exact hin.2
    · intro hin
      exact ⟨hm, hin⟩
  · intro hnil
    have hin : c.1.2 ∈ emojis := by
      rw [hlist]
      apply List.mem_map_of_mem
      rw [List.mem_filter]
      exact ⟨hc, decide_eq_true hfirst⟩
    rw [hnil] at hin
    cases hin

theorem entryKey_lt {c c' : ℕ} {e e' : String} :
    entryKey c e < entryKey c' e' ↔ c' < c ∨ c = c' ∧ e < e' := by
  rw [entryKey, entryKey, Prod.Lex.toLex_lt_toLex, OrderDual.toDual_lt_toDual,
    OrderDual.toDual_inj]

theorem nodup_entryKeys (counts : String → ℕ) (h : emojis.Nodup) :
    (emojis.map fun e => entryKey (counts e) e).Nodup := by
  apply (List.nodup_map_iff_inj_on h).mpr
  intro a _ b _ hab
  exact congrArg (fun k => (ofLex k).2) hab

/-- The top band of a message is made of the emoji in its first places. -/
theorem mem_band (hkeys : (db.reactions.map keyOf).Nodup) (hm : m ∈ messageIds)
    (hnodup : emojis.Nodup) (hall : emojis.toFinset = visibleEmojis blockedUserIds db m)
    (he : e ∈ emojis) :
    e ∈ (sortBy (fun e => entryKey (countOf
        (countsQuery order db.reactions messageIds blockedUserIds) (m, e)) e) emojis).take
          maxEmojisProjectedPerMessage ↔
      placeOf blockedUserIds db m e < maxEmojisProjectedPerMessage := by
  have hcount : ∀ e' ∈ emojis, countOf (countsQuery order db.reactions messageIds blockedUserIds)
      (m, e') = (visibleReactors blockedUserIds db m e').card := by
    intro e' he'
    apply countOf_eq hkeys hm
    rw [← hall]
    exact List.mem_toFinset.mpr he'
  rw [mem_take_sortBy (nodup_entryKeys _ hnodup) he]
  have hplace : placeOf blockedUserIds db m e = (emojis.filter fun e' =>
      entryKey (countOf (countsQuery order db.reactions messageIds blockedUserIds) (m, e')) e' <
        entryKey (countOf (countsQuery order db.reactions messageIds blockedUserIds)
          (m, e)) e).length := by
    rw [← List.toFinset_card_of_nodup (hnodup.filter _), List.toFinset_filter, placeOf, hall]
    dsimp only
    congr 1
    apply Finset.filter_congr
    intro e' he'
    rw [← hall, List.mem_toFinset] at he'
    rw [decide_eq_true_eq, entryKey_lt, hcount e he, hcount e' he']
  rw [hplace]

theorem mem_keepOf (hkeys : (db.reactions.map keyOf).Nodup) (hm : m ∈ messageIds)
    (hnodup : emojis.Nodup) (hall : emojis.toFinset = visibleEmojis blockedUserIds db m)
    (mine : List (Group × Option Origin)) :
    e ∈ keepOf (countsQuery order db.reactions messageIds blockedUserIds) mine m emojis ↔
      e ∈ visibleEmojis blockedUserIds db m ∧
        (placeOf blockedUserIds db m e < maxEmojisProjectedPerMessage ∨ (m, e) ∈ keys mine) := by
  rw [← hall, List.mem_toFinset, keepOf]
  set sorted := sortBy (fun e => entryKey (countOf
    (countsQuery order db.reactions messageIds blockedUserIds) (m, e)) e) emojis with hsorted
  have hsplit : e ∈ emojis ↔ e ∈ sorted.take maxEmojisProjectedPerMessage ∨
      e ∈ sorted.drop maxEmojisProjectedPerMessage := by
    rw [← List.mem_append, List.take_append_drop, hsorted, (perm_sortBy _ _).mem_iff]
  have hband : e ∈ emojis → (e ∈ sorted.take maxEmojisProjectedPerMessage ↔
      placeOf blockedUserIds db m e < maxEmojisProjectedPerMessage) :=
    fun he => mem_band hkeys hm hnodup hall he
  rw [List.mem_append, List.mem_filter, Bool.and_eq_true, decide_eq_true_eq, decide_eq_true_eq]
  constructor
  · intro h
    cases h with
    | inl hin =>
        have he := hsplit.mpr (Or.inl hin)
        exact ⟨he, Or.inl ((hband he).mp hin)⟩
    | inr hin => exact ⟨hsplit.mpr (Or.inr hin.1), Or.inr hin.2.1⟩
  · intro h
    obtain ⟨he, hwhy⟩ := h
    by_cases hin : e ∈ sorted.take maxEmojisProjectedPerMessage
    · exact Or.inl hin
    · cases hwhy with
      | inl hplace => exact Or.inl ((hband he).mpr hplace)
      | inr hown =>
          have hdrop := (hsplit.mp he).resolve_left hin
          exact Or.inr ⟨hdrop, hown, hin⟩

theorem nodup_keepOf (counts : List (Group × ℕ)) (mine : List (Group × Option Origin)) (m : String)
    (hnodup : emojis.Nodup) : (keepOf counts mine m emojis).Nodup := by
  have hsorted : (sortBy (fun e => entryKey (countOf counts (m, e)) e) emojis).Nodup :=
    (perm_sortBy _ _).nodup_iff.mpr hnodup
  rw [← List.take_append_drop maxEmojisProjectedPerMessage (sortBy _ _)] at hsorted
  exact hsorted.sublist (List.Sublist.append_left List.filter_sublist _)

end

/-! ## The faces -/

/-- A row that a full sample misses takes the place of its last one. -/
theorem pin_row {rows all : List MessageReaction} {r : MessageReaction} {n : ℕ}
    (hnodup : rows.Nodup) (hsub : rows ⊆ all) (hlength : rows.length = min (n + 1) all.length)
    (hr : r ∈ all) (hmiss : r ∉ rows) :
    (rows.take n ++ [r]).Nodup ∧ rows.take n ++ [r] ⊆ all ∧
      (rows.take n ++ [r]).length = min (n + 1) all.length := by
  have hmore : (r :: rows).length ≤ all.length := by
    have hcons : (r :: rows).Nodup := hnodup.cons hmiss
    apply (hcons.subperm _).length_le
    intro a ha
    cases List.mem_cons.mp ha with
    | inl heq =>
        rw [heq]
        exact hr
    | inr hin => exact hsub hin
  rw [List.length_cons] at hmore
  have htake : rows.take n ⊆ rows := List.take_subset n rows
  refine ⟨?_, ?_, ?_⟩
  · apply List.Nodup.append (hnodup.sublist (List.take_sublist n rows)) (List.nodup_singleton r)
    intro a ha hin
    rw [List.mem_singleton.mp hin] at ha
    exact hmiss (htake ha)
  · intro a ha
    cases List.mem_append.mp ha with
    | inl hin => exact hsub (htake hin)
    | inr hin =>
        rw [List.mem_singleton.mp hin]
        exact hr
  · rw [List.length_append, List.length_take, List.length_singleton]
    omega

section
variable {order : RowOrder} {db : Db} {messageIds blockedUserIds : List String}
  {viewerId m e : String} {wanted : List Group}

theorem mem_keys_mine (hviewer : viewerId ∉ blockedUserIds) (hm : m ∈ messageIds) :
    (m, e) ∈ keys (mineQuery order db.reactions messageIds viewerId) ↔
      viewerId ∈ visibleReactors blockedUserIds db m e := by
  rw [mem_visibleReactors, keys, List.mem_map]
  constructor
  · intro h
    obtain ⟨⟨g, o⟩, hin, rfl⟩ := h
    obtain ⟨_, r, hr, hkey, _⟩ := mem_mineQuery.mp hin
    exact ⟨hviewer, r, hr, hkey⟩
  · intro h
    obtain ⟨_, r, hr, hkey⟩ := h
    have hin : ((m, e), r.origin) ∈ mineQuery order db.reactions messageIds viewerId :=
      mem_mineQuery.mpr ⟨hm, r, hr, hkey, rfl⟩
    exact ⟨_, hin, rfl⟩

def faceOf (r : MessageReaction) : Reactor := ⟨r.userId, r.origin⟩

/-- The shown reactors of a group are some of its rows, as many as fit, the viewer's among them. -/
theorem exists_faces (hkeys : (db.reactions.map keyOf).Nodup) (hviewer : viewerId ∉ blockedUserIds)
    (hm : m ∈ messageIds) (hwanted : (m, e) ∈ wanted) :
    ∃ rows : List MessageReaction, rows.Nodup ∧
      rows ⊆ reactorRows blockedUserIds db.reactions (m, e) ∧
      rows.length = min maxReactorsProjectedPerEmoji
        (reactorRows blockedUserIds db.reactions (m, e)).length ∧
      reactorsOf (collect groupOf faceOf
          (sampleQuery order db.reactions messageIds blockedUserIds wanted))
        (mineQuery order db.reactions messageIds viewerId) viewerId (m, e) = rows.map faceOf ∧
      (viewerId ∈ visibleReactors blockedUserIds db m e → viewerId ∈ rows.map (·.userId)) := by
  obtain ⟨rows, hnodup, hsub, hlength, hsample⟩ :=
    @sample_group order db messageIds blockedUserIds hkeys wanted (m, e) hm hwanted
  have hfaces : (get (collect groupOf faceOf
      (sampleQuery order db.reactions messageIds blockedUserIds wanted)) (m, e)).getD [] =
        rows.map faceOf := by
    rw [get_collect, hsample]
  have hmine := @mem_keys_mine order db messageIds blockedUserIds viewerId m e hviewer hm
  rw [reactorsOf, hfaces]
  cases hget : get (mineQuery order db.reactions messageIds viewerId) (m, e) with
  | none =>
      refine ⟨rows, hnodup, hsub, hlength, rfl, ?_⟩
      intro hin
      obtain ⟨o, ho⟩ := get_of_mem_keys (hmine.mpr hin)
      rw [hget] at ho
      cases ho
  | some o =>
      obtain ⟨_, own, hown, hkey, horigin⟩ := mem_mineQuery.mp (mem_of_get hget)
      simp only [keyOf, Prod.mk.injEq] at hkey
      obtain ⟨hmessage, huser, hemoji⟩ := hkey
      have hrow : own ∈ reactorRows blockedUserIds db.reactions (m, e) := by
        apply mem_reactorRows.mpr
        refine ⟨hown, ?_, ?_⟩
        · rw [huser]
          exact hviewer
        · rw [groupOf, hmessage, hemoji]
      dsimp only
      by_cases hany : ((rows.map faceOf).any fun r => r.userId = viewerId) = true
      · refine ⟨rows, hnodup, hsub, hlength, if_pos hany, ?_⟩
        intro _
        obtain ⟨p, hp, hsame⟩ := List.any_eq_true.mp hany
        obtain ⟨r, hr, rfl⟩ := List.mem_map.mp hp
        exact List.mem_map.mpr ⟨r, hr, of_decide_eq_true hsame⟩
      · have hmiss : own ∉ rows := by
          intro hin
          apply hany
          exact List.any_eq_true.mpr ⟨faceOf own, List.mem_map_of_mem hin, decide_eq_true huser⟩
        obtain ⟨hnodup', hsub', hlength'⟩ := pin_row hnodup hsub hlength hrow hmiss
        refine ⟨rows.take (maxReactorsProjectedPerEmoji - 1) ++ [own], hnodup', hsub', hlength',
          ?_, ?_⟩
        · rw [if_neg hany, List.map_append, List.map_take]
          have hface : faceOf own = ⟨viewerId, o⟩ := by rw [faceOf, huser, horigin]
          rw [List.map_singleton, hface]
        · intro _
          rw [List.map_append]
          exact List.mem_append_right _ (by simp [huser])

theorem faithful_entryOf (hkeys : (db.reactions.map keyOf).Nodup)
    (hviewer : viewerId ∉ blockedUserIds) (hm : m ∈ messageIds) (hwanted : (m, e) ∈ wanted)
    (he : e ∈ visibleEmojis blockedUserIds db m) :
    Faithful blockedUserIds db viewerId m
      (entryOf (countsQuery order db.reactions messageIds blockedUserIds)
        (mineQuery order db.reactions messageIds viewerId)
        (collect groupOf faceOf (sampleQuery order db.reactions messageIds blockedUserIds wanted))
        viewerId m e) := by
  obtain ⟨rows, hnodup, hsub, hlength, hfaces, hpinned⟩ :=
    @exists_faces order db messageIds blockedUserIds viewerId m e wanted hkeys hviewer hm hwanted
  have hcount := @countOf_eq order db messageIds blockedUserIds m e hkeys hm he
  have hmine := @mem_keys_mine order db messageIds blockedUserIds viewerId m e hviewer hm
  have hflag : (get (mineQuery order db.reactions messageIds viewerId) (m, e)).isSome = true ↔
      viewerId ∈ visibleReactors blockedUserIds db m e := by
    rw [← hmine]
    constructor
    · intro h
      obtain ⟨o, ho⟩ := Option.isSome_iff_exists.mp h
      exact List.mem_map_of_mem (mem_of_get ho)
    · intro h
      obtain ⟨o, ho⟩ := get_of_mem_keys h
      rw [ho]
      rfl
  have husers : (rows.map faceOf).map (·.userId) = rows.map (·.userId) := by
    rw [List.map_map]
    rfl
  constructor
  · exact hcount
  · exact hflag
  · rw [entryOf, hfaces, husers]
    apply (List.nodup_map_iff_inj_on hnodup).mpr
    intro r hr r' hr' h
    exact inj_reactorRows hkeys (hsub hr) (hsub hr') h
  · rw [entryOf, hfaces, List.length_map, hlength, hcount, card_visibleReactors hkeys, min_comm]
  · intro p hp
    rw [entryOf, hfaces] at hp
    obtain ⟨r, hr, rfl⟩ := List.mem_map.mp hp
    obtain ⟨hin, hfree, hgroup⟩ := mem_reactorRows.mp (hsub hr)
    obtain ⟨rfl, rfl⟩ := Prod.mk.injEq .. ▸ hgroup
    exact ⟨mem_visibleReactors.mpr ⟨hfree, r, hin, rfl⟩, r, hin, rfl, rfl⟩
  · intro h
    rw [entryOf, hfaces, husers]
    exact hpinned (hflag.mp h)

end

/-! ## The result -/

/-- The order of the entries on the wire. -/
def Before (a b : EmojiEntry) : Prop :=
  b.count < a.count ∨ a.count = b.count ∧ a.emoji < b.emoji

section
variable {db : Db} {blockedUserIds : List String} {viewerId : String}

theorem countsQuery_nil (order : RowOrder) :
    countsQuery order db.reactions [] blockedUserIds = [] := by
  apply List.eq_nil_iff_forall_not_mem.mpr
  intro c hc
  cases (mem_countsQuery.mp hc).1

/-- The emoji of each message, as the counts list them. -/
def groupedOf (order : RowOrder) (messageIds blockedUserIds : List String) (db : Db) :
    List (String × List String) :=
  collect (fun c => c.1.1) (fun c => c.1.2)
    (countsQuery order db.reactions messageIds blockedUserIds)

def carriedOf (order : RowOrder) (messageIds blockedUserIds : List String) (viewerId : String)
    (db : Db) (p : String × List String) : List String :=
  keepOf (countsQuery order db.reactions messageIds blockedUserIds)
    (mineQuery order db.reactions messageIds viewerId) p.1 p.2

def entryIn (order : RowOrder) (messageIds blockedUserIds : List String) (viewerId : String)
    (db : Db) (wanted : List Group) (m e : String) : EmojiEntry :=
  entryOf (countsQuery order db.reactions messageIds blockedUserIds)
    (mineQuery order db.reactions messageIds viewerId)
    (collect groupOf faceOf (sampleQuery order db.reactions messageIds blockedUserIds wanted))
    viewerId m e

/-- The aggregate without its early returns and dicts. -/
theorem aggregate_eq (order : RowOrder) {messageIds : List String}
    (hkeys : (db.reactions.map keyOf).Nodup) :
    ∃ wanted : List Group,
      aggregateForMessages order messageIds viewerId blockedUserIds db =
        (groupedOf order messageIds blockedUserIds db).map (fun p =>
          (p.1, sortBy (fun e => entryKey e.count e.emoji)
            ((carriedOf order messageIds blockedUserIds viewerId db p).map
              (entryIn order messageIds blockedUserIds viewerId db wanted p.1)))) ∧
      ∀ p ∈ groupedOf order messageIds blockedUserIds db,
        ∀ e ∈ carriedOf order messageIds blockedUserIds viewerId db p, (p.1, e) ∈ wanted := by
  have hcounts := fromPairs_eq (@nodup_countsQuery order db messageIds blockedUserIds)
  have hmine := fromPairs_eq (@nodup_mineQuery order db messageIds viewerId hkeys)
  refine ⟨((groupedOf order messageIds blockedUserIds db).map fun p =>
      (p.1, carriedOf order messageIds blockedUserIds viewerId db p)).flatMap
        fun p => p.2.map fun e => (p.1, e), ?_, ?_⟩
  · unfold aggregateForMessages
    dsimp only
    rw [hcounts, hmine]
    by_cases hempty : messageIds = []
    · rw [if_pos hempty, hempty, groupedOf, countsQuery_nil]
      rfl
    · rw [if_neg hempty]
      by_cases hnone : countsQuery order db.reactions messageIds blockedUserIds = []
      · rw [if_pos hnone, groupedOf, hnone]
        rfl
      · rw [if_neg hnone, List.map_map]
        rfl
  · intro p hp e he
    apply List.mem_flatMap.mpr
    exact ⟨_, List.mem_map_of_mem hp, List.mem_map_of_mem he⟩

/-- Whatever order SQL returns its rows in, the aggregate is that of the reference. -/
theorem aggregate_is_reference (order : RowOrder) (messageIds : List String) (db : Db)
    (blockedUserIds : List String) (viewerId : String)
    (hkeys : (db.reactions.map keyOf).Nodup) (hviewer : viewerId ∉ blockedUserIds) :
    (keys (aggregateForMessages order messageIds viewerId blockedUserIds db)).Nodup ∧
    (∀ m, m ∈ keys (aggregateForMessages order messageIds viewerId blockedUserIds db) ↔
      m ∈ messageIds ∧ (visibleEmojis blockedUserIds db m).Nonempty) ∧
    (∀ m entries, (m, entries) ∈
        aggregateForMessages order messageIds viewerId blockedUserIds db →
      entries.Pairwise Before ∧
      (∀ e, e ∈ entries.map (·.emoji) ↔ Carried blockedUserIds db viewerId m e) ∧
      ∀ entry ∈ entries, Faithful blockedUserIds db viewerId m entry) ∧
    ∀ m e, emojiCount m e blockedUserIds db = (visibleReactors blockedUserIds db m e).card := by
  obtain ⟨wanted, hagg, hwanted⟩ :=
    @aggregate_eq db blockedUserIds viewerId order messageIds hkeys
  have hkeysOf : keys (aggregateForMessages order messageIds viewerId blockedUserIds db) =
      keys (groupedOf order messageIds blockedUserIds db) := by
    rw [hagg, keys, keys, List.map_map]
    rfl
  refine ⟨?_, ?_, ?_, emojiCount_eq hkeys⟩
  · rw [hkeysOf]
    exact nodup_collect _ _ _
  · intro m
    rw [hkeysOf]
    constructor
    · intro hin
      obtain ⟨⟨m', emojis⟩, hp, rfl⟩ := List.mem_map.mp hin
      obtain ⟨hm, _, hall, hsome⟩ := mem_grouped hp
      rw [← hall]
      exact ⟨hm, (List.toFinset_nonempty_iff _).mpr hsome⟩
    · intro h
      obtain ⟨hm, e, he⟩ := h
      apply (mem_keys_collect _ _ _ m).mpr
      exact ⟨((m, e), _), mem_countsQuery.mpr ⟨hm, mem_visibleEmojis.mp he, rfl⟩, rfl⟩
  · intro m entries hin
    rw [hagg] at hin
    obtain ⟨⟨m', emojis⟩, hp, heq⟩ := List.mem_map.mp hin
    obtain ⟨rfl, rfl⟩ := Prod.mk.injEq .. ▸ heq
    obtain ⟨hm, hnodup, hall, _⟩ := mem_grouped hp
    have hkeep : ∀ e, e ∈ carriedOf order messageIds blockedUserIds viewerId db (m', emojis) ↔
        Carried blockedUserIds db viewerId m' e := by
      intro e
      rw [carriedOf, mem_keepOf hkeys hm hnodup hall, mem_keys_mine hviewer hm]
      rfl
    refine ⟨?_, ?_, ?_⟩
    · have hdistinct : (((carriedOf order messageIds blockedUserIds viewerId db (m', emojis)).map
          (entryIn order messageIds blockedUserIds viewerId db wanted m')).map
            fun e => entryKey e.count e.emoji).Nodup := by
        rw [List.map_map]
        exact nodup_entryKeys _ (nodup_keepOf _ _ _ hnodup)
      exact (pairwise_lt_sortBy hdistinct).imp entryKey_lt.mp
    · intro e
      have hid : EmojiEntry.emoji ∘
          entryIn order messageIds blockedUserIds viewerId db wanted m' = id := rfl
      rw [((perm_sortBy _ _).map _).mem_iff, List.map_map, hid, List.map_id, ← hkeep]
    · intro entry hentry
      rw [(perm_sortBy _ _).mem_iff] at hentry
      obtain ⟨e, he, rfl⟩ := List.mem_map.mp hentry
      exact faithful_entryOf hkeys hviewer hm (hwanted _ hp e he) ((hkeep e).mp he).1

end

/-- SQL that returns the rows as the plan lists them. -/
def planOrder : RowOrder where
  arrange _ _ rows := rows
  perm _ _ rows := List.Perm.refl rows

/-- A message with reactions of a friend, of the viewer and of a blocked user. -/
def board : Db where
  reactions := [⟨"m", "friend", "+", none, 1⟩, ⟨"m", "foe", "+", none, 2⟩, ⟨"m", "me", "+", none, 3⟩,
    ⟨"n", "foe", "-", none, 4⟩]

theorem blocked_reaction_makes_no_entry :
    "m" ∈ keys (aggregateForMessages planOrder ["m", "n"] "me" ["foe"] board) ∧
      "n" ∉ keys (aggregateForMessages planOrder ["m", "n"] "me" ["foe"] board) := by
  have hboard := (aggregate_is_reference planOrder ["m", "n"] board ["foe"] "me" (by decide)
    (by decide)).2.1
  rw [hboard, hboard]
  decide +kernel

end AikoIsland.ReactionCounts
