import Mathlib.Data.List.Sort
import Mathlib.Data.List.DropRight
import Mathlib.Tactic

/-!
# Pages of sorted rows

A page is the beginning of the sorted rows. When rows come from two sources that
are each sorted and cut to the page size before they are merged, the page of the
merge is the page of the union: what a source cut off has a full page before it.

A walk asks for the page after a cursor, moves the cursor to the key of the last
row and asks again. It lists the rows in order, each once.

The order is a total preorder; rows are kept apart by it when no two of them are
equivalent.
-/
namespace AikoIsland.Paging

section
variable {α : Type} (le : α → α → Prop)

/-- The strict part of the order. -/
def Before (a b : α) : Prop := le a b ∧ ¬le b a

instance : Std.Irrefl (Before le) := ⟨fun _ h => h.2 h.1⟩

instance : Std.Antisymm (Before le) := ⟨fun _ _ h h' => absurd h.1 h'.2⟩

/-- No two rows are equivalent. -/
def Apart (rows : List α) : Prop := rows.Pairwise fun a b => ¬(le a b ∧ le b a)

variable [DecidableRel le]

def page (n : ℕ) (rows : List α) : List α := (rows.insertionSort le).take n

variable {le} {rows rows' xs ys : List α} {n : ℕ} {a : α}

omit [DecidableRel le] in
theorem Apart.perm (h : Apart le rows) (hp : rows.Perm rows') : Apart le rows' :=
  hp.pairwise h fun hn hab => hn hab.symm

omit [DecidableRel le] in
theorem Apart.subperm (h : Apart le rows) (hp : rows'.Subperm rows) : Apart le rows' := by
  obtain ⟨mid, hmid, hsub⟩ := hp
  exact Apart.perm (List.Pairwise.sublist hsub h) hmid

variable [Std.Total le] [IsTrans α le]

theorem sorted_of_apart (h : Apart le rows) : (rows.insertionSort le).Pairwise (Before le) := by
  have hsorted := List.pairwise_insertionSort le rows
  have hapart : Apart le (rows.insertionSort le) := h.perm (List.perm_insertionSort le rows).symm
  apply (hsorted.and hapart).imp
  intro a b hab
  exact ⟨hab.1, fun hba => hab.2 ⟨hab.1, hba⟩⟩

/-- Rows that are kept apart have one sorted list. -/
theorem sort_eq_of_sorted (h : Apart le rows) (hs : xs.Pairwise (Before le))
    (hmem : ∀ a, a ∈ xs ↔ a ∈ rows) : rows.insertionSort le = xs := by
  apply (sorted_of_apart h).eq_of_mem_iff hs
  intro a
  rw [List.mem_insertionSort, hmem]

/-- Sorting and filtering commute. -/
theorem sort_filter (h : Apart le rows) (p : α → Bool) :
    (rows.filter p).insertionSort le = (rows.insertionSort le).filter p := by
  apply sort_eq_of_sorted (h.subperm List.filter_sublist.subperm)
  · exact (sorted_of_apart h).filter p
  · intro a
    simp only [List.mem_filter, List.mem_insertionSort]

theorem sort_sublist (h : Apart le rows) (hp : rows'.Subperm rows) :
    (rows'.insertionSort le).Sublist (rows.insertionSort le) := by
  apply List.sublist_of_subperm_of_pairwise _ (sorted_of_apart (h.subperm hp)) (sorted_of_apart h)
  exact ((List.perm_insertionSort le rows').subperm.trans hp).trans
    (List.perm_insertionSort le rows).symm.subperm

omit [DecidableRel le] [Std.Total le] [IsTrans α le] in
/-- What is among the first `n` rows is among the first `n` of any part that contains it. -/
theorem mem_take_of_sublist (hsub : xs.Sublist rows) (hn : rows.Nodup) (ha : a ∈ rows.take n)
    (hx : a ∈ xs) : a ∈ xs.take n := by
  induction hsub generalizing n with
  | slnil => cases hx
  | @cons xs rows b hsub ih =>
      obtain ⟨hb, hn⟩ := List.nodup_cons.mp hn
      cases n with
      | zero => simp at ha
      | succ n =>
          rcases List.mem_cons.mp ha with rfl | ha
          · exact absurd (hsub.subset hx) hb
          · have htake : a ∈ (xs.take (n + 1)).take n := by
              rw [List.take_take, min_eq_left (Nat.le_succ n)]
              exact ih hn ha hx
            exact List.mem_of_mem_take htake
  | @cons_cons xs rows b hsub ih =>
      obtain ⟨hb, hn⟩ := List.nodup_cons.mp hn
      cases n with
      | zero => simp at ha
      | succ n =>
          rw [List.take_succ_cons] at ha ⊢
          rcases List.mem_cons.mp ha with rfl | hrest
          · exact List.mem_cons_self
          · apply List.mem_cons_of_mem
            apply ih hn hrest
            rcases List.mem_cons.mp hx with rfl | hx
            · exact absurd (List.mem_of_mem_take hrest) hb
            · exact hx

omit [DecidableRel le] [Std.Total le] [IsTrans α le] in
/-- A part with the first `n` rows has them as its first `n` rows. -/
theorem take_eq_of_sublist (hsub : xs.Sublist rows) (hn : rows.Nodup)
    (h : ∀ a ∈ rows.take n, a ∈ xs) : xs.take n = rows.take n := by
  induction hsub generalizing n with
  | slnil => rfl
  | @cons xs rows b hsub ih =>
      obtain ⟨hb, hn⟩ := List.nodup_cons.mp hn
      cases n with
      | zero => rfl
      | succ n => exact absurd (hsub.subset (h b (by simp))) hb
  | @cons_cons xs rows b hsub ih =>
      obtain ⟨hb, hn⟩ := List.nodup_cons.mp hn
      cases n with
      | zero => rfl
      | succ n =>
          rw [List.take_succ_cons, List.take_succ_cons, ih hn]
          intro a ha
          rcases List.mem_cons.mp (h a (by simp [ha])) with rfl | hx
          · exact absurd (List.mem_of_mem_take ha) hb
          · exact hx

omit [Std.Total le] [IsTrans α le] in
theorem page_subperm (n : ℕ) (rows : List α) : (page le n rows).Subperm rows :=
  (List.take_sublist n _).subperm.trans (List.perm_insertionSort le rows).subperm

/-- The page of two pages is the page of the union. -/
theorem page_merge (h : Apart le (xs ++ ys)) (n : ℕ) :
    page le n (page le n xs ++ page le n ys) = page le n (xs ++ ys) := by
  have hparts : (page le n xs ++ page le n ys).Subperm (xs ++ ys) :=
    (page_subperm n xs).append (page_subperm n ys)
  have hn : ((xs ++ ys).insertionSort le).Nodup := (sorted_of_apart h).nodup
  apply take_eq_of_sublist (sort_sublist h hparts) hn
  intro a ha
  rw [List.mem_insertionSort, List.mem_append]
  have hmem : a ∈ xs ++ ys := (List.mem_insertionSort le).mp (List.mem_of_mem_take ha)
  rcases List.mem_append.mp hmem with hx | hy
  · left
    apply mem_take_of_sublist (sort_sublist h (List.sublist_append_left xs ys).subperm) hn ha
    rwa [List.mem_insertionSort]
  · right
    apply mem_take_of_sublist (sort_sublist h (List.sublist_append_right xs ys).subperm) hn ha
    rwa [List.mem_insertionSort]

end

/-! ## Walks -/

section
variable {α κ : Type} [LinearOrder κ] (next : κ → List α) (key : α → κ)

/-- At most `k` pages, each after the last row of the one before, until a page is empty. -/
def walk : ℕ → κ → List α
  | 0, _ => []
  | k + 1, cursor =>
      match (next cursor).getLast? with
      | none => []
      | some last => next cursor ++ walk k (key last)

variable {next key} {rows : List α} {n : ℕ}

/-- The rows after the last one of a page are those that the page left out. -/
theorem filter_after_page (hs : rows.Pairwise fun a b => key a < key b) {last : α}
    (hlast : (rows.take n).getLast? = some last) :
    (rows.filter fun a => key last < key a) = rows.drop n := by
  conv_lhs => rw [← List.take_append_drop n rows]
  rw [List.filter_append]
  have hsplit := hs
  rw [← List.take_append_drop n rows, List.pairwise_append] at hsplit
  obtain ⟨htake, _, hacross⟩ := hsplit
  obtain ⟨init, hinit⟩ := List.getLast?_eq_some_iff.mp hlast
  have hbefore : (rows.take n).filter (fun a => decide (key last < key a)) = [] := by
    rw [List.filter_eq_nil_iff]
    intro a ha
    rw [decide_eq_true_eq, not_lt]
    rw [hinit] at ha htake
    rcases List.mem_append.mp ha with ha | ha
    · exact ((List.pairwise_append.mp htake).2.2 a ha last (by simp)).le
    · rw [List.mem_singleton.mp ha]
  have hafter : (rows.drop n).filter (fun a => decide (key last < key a)) = rows.drop n := by
    rw [List.filter_eq_self]
    intro a ha
    rw [decide_eq_true_eq]
    exact hacross last (List.mem_of_getLast? hlast) a ha
  rw [hbefore, hafter, List.nil_append]

/-! A page may look one row ahead and name its own last row as the cursor, if rows remain. -/

/-- The page of `rows` with the cursor to go on from, if there is one. -/
def pageAhead {χ : Type} (cursorOf : α → χ) (n : ℕ) (rows : List α) : List α × Option χ :=
  (rows.take n, if n < rows.length then (rows.take n).getLast?.map cursorOf else none)

/-- At most `k` pages, until one names no cursor; `none` if there is no such page, or if a cursor
is refused. -/
def follow {χ : Type} (next : Option χ → Option (List α × Option χ)) : ℕ → Option χ → Option (List α)
  | 0, _ => none
  | k + 1, cursor =>
      match next cursor with
      | none => none
      | some (rows, none) => some rows
      | some (rows, some c) => (follow next k (some c)).map (rows ++ ·)

/-- Where a page is followed by the page after its last row, following the cursors from the page
of a final part of the rows lists that part. -/
theorem follow_suffix {χ : Type} {next : Option χ → Option (List α × Option χ)} {cursorOf : α → χ}
    (hs : rows.Pairwise fun a b => key a < key b) (hn : 0 < n)
    (hnext : ∀ a ∈ rows, next (some (cursorOf a)) =
      some (pageAhead cursorOf n (rows.filter fun b => key a < key b)))
    (k : ℕ) {rest : List α} (hrest : rest <:+ rows) (hk : rest.length < k) {cursor : Option χ}
    (hcursor : next cursor = some (pageAhead cursorOf n rest)) :
    follow next k cursor = some rest := by
  induction k generalizing rest cursor with
  | zero => omega
  | succ k ih =>
      rw [follow, hcursor, pageAhead]
      by_cases hlen : n < rest.length
      · cases hlast : (rest.take n).getLast? with
        | none =>
            rw [List.getLast?_eq_none_iff, List.take_eq_nil_iff] at hlast
            rcases hlast with hzero | hnil
            · omega
            · simp [hnil] at hlen
        | some last =>
            obtain ⟨before, hsplit⟩ := hrest
            have hmem : last ∈ rest := List.mem_of_mem_take (List.mem_of_getLast? hlast)
            have hpairs := hs
            rw [← hsplit, List.pairwise_append] at hpairs
            have hfilter : (rows.filter fun b => key last < key b) = rest.drop n := by
              rw [← hsplit, List.filter_append, filter_after_page hpairs.2.1 hlast]
              have hnone : before.filter (fun b => decide (key last < key b)) = [] := by
                rw [List.filter_eq_nil_iff]
                intro a ha
                rw [decide_eq_true_eq, not_lt]
                exact (hpairs.2.2 a ha last hmem).le
              rw [hnone, List.nil_append]
            have htail := hnext last (hsplit ▸ List.mem_append_right before hmem)
            rw [hfilter] at htail
            have hsuffix : rest.drop n <:+ rows :=
              (List.drop_suffix n rest).trans ⟨before, hsplit⟩
            have hlength : (rest.drop n).length < k := by
              rw [List.length_drop]
              omega
            simp only [if_pos hlen, Option.map_some, ih hsuffix hlength htail,
              List.take_append_drop]
      · simp only [if_neg hlen]
        rw [List.take_of_length_le (not_lt.mp hlen)]

/-- Following the cursors from the first page lists the rows. -/
theorem follow_eq {χ : Type} {next : Option χ → Option (List α × Option χ)} {cursorOf : α → χ}
    (hs : rows.Pairwise fun a b => key a < key b) (hn : 0 < n)
    (hfirst : next none = some (pageAhead cursorOf n rows))
    (hnext : ∀ a ∈ rows, next (some (cursorOf a)) =
      some (pageAhead cursorOf n (rows.filter fun b => key a < key b)))
    (k : ℕ) (hk : rows.length < k) : follow next k none = some rows :=
  follow_suffix hs hn hnext k List.suffix_rfl hk hfirst

/-- A walk from a cursor lists the rows after it. -/
theorem walk_eq (hs : rows.Pairwise fun a b => key a < key b) (hn : 0 < n)
    (hnext : ∀ cursor, next cursor = (rows.filter fun a => cursor < key a).take n) (k : ℕ)
    (cursor : κ) (hk : (rows.filter fun a => cursor < key a).length ≤ k) :
    walk next key k cursor = rows.filter fun a => cursor < key a := by
  induction k generalizing cursor with
  | zero => rw [List.length_eq_zero_iff.mp (Nat.le_zero.mp hk), walk]
  | succ k ih =>
      rw [walk, hnext]
      have hsorted := hs.filter fun a => decide (cursor < key a)
      cases hlast : ((rows.filter fun a => cursor < key a).take n).getLast? with
      | none =>
          rw [List.getLast?_eq_none_iff, List.take_eq_nil_iff] at hlast
          rcases hlast with hzero | hnil
          · omega
          · exact hnil.symm
      | some last =>
          have hrest := filter_after_page hsorted hlast
          have hcursor : cursor < key last := by
            have hmem := List.mem_of_mem_take (List.mem_of_getLast? hlast)
            simpa using (List.mem_filter.mp hmem).2
          have hfilter : (rows.filter fun a => key last < key a) =
              (rows.filter fun a => cursor < key a).drop n := by
            rw [← hrest, List.filter_filter]
            apply List.filter_congr
            intro a _
            by_cases ha : key last < key a
            · simp [ha, hcursor.trans ha]
            · simp [ha]
          have hpos : 0 < (rows.filter fun a => cursor < key a).length :=
            List.length_pos_of_mem (List.mem_of_mem_take (List.mem_of_getLast? hlast))
          dsimp only
          rw [ih (key last), hfilter, List.take_append_drop]
          rw [hfilter, List.length_drop]
          omega

end

end AikoIsland.Paging
