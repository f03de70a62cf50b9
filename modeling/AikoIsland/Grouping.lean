import AikoIsland.OrderedDict

/-!
# Grouping rows, and the first rows of an order

`collect` files each row under its key, in the order of the rows, which is what a
loop of `d.setdefault(k, []).append(a)` leaves. A dict filled from items with
distinct keys is the list of these items.

Sorting by an injective key into a linear order makes the place of an element the
number of elements before it: it is among the first `n` exactly when fewer than
`n` come before.
-/
namespace AikoIsland.OrderedDict

section
variable {κ α β : Type} [DecidableEq κ]

/-- A dict comprehension over items. -/
def fromPairs (items : List (κ × α)) : List (κ × α) :=
  items.foldl (fun d i => set d i.1 i.2) []

/-- `d.setdefault(k, []).append(a)`. -/
def push (d : List (κ × List α)) (k : κ) (a : α) : List (κ × List α) :=
  set d k ((get d k).getD [] ++ [a])

def collect (key : β → κ) (value : β → α) (rows : List β) : List (κ × List α) :=
  rows.foldl (fun d r => push d (key r) (value r)) []

/-! ## Items with distinct keys -/

omit [DecidableEq κ] in
/-- Among rows with distinct keys a row is alone under its key. -/
theorem length_filter_one {rows : List β} {key : β → κ}
    (hkeys : (rows.map key).Nodup) {r : β} (hr : r ∈ rows) {f : β → Bool} (hf : f r = true)
    (honly : ∀ r' ∈ rows, f r' = true → key r' = key r) : (rows.filter f).length = 1 := by
  induction rows with
  | nil => cases hr
  | cons a rows ih =>
      rw [List.map_cons, List.nodup_cons] at hkeys
      rcases List.mem_cons.mp hr with rfl | hrest
      · have hnone : rows.filter f = [] := by
          rw [List.filter_eq_nil_iff]
          intro r' hr' hf'
          have hsame := honly r' (List.mem_cons_of_mem _ hr') hf'
          apply hkeys.1
          rw [← hsame]
          exact List.mem_map_of_mem hr'
        rw [List.filter_cons_of_pos hf, hnone]
        rfl
      · have hother : ¬f a = true := by
          intro hfa
          have hsame := honly a List.mem_cons_self hfa
          apply hkeys.1
          rw [hsame]
          exact List.mem_map_of_mem hrest
        rw [List.filter_cons_of_neg hother]
        exact ih hkeys.2 hrest fun r' hr' => honly r' (List.mem_cons_of_mem _ hr')

theorem foldl_set {items d : List (κ × α)} (h : (keys (d ++ items)).Nodup) :
    items.foldl (fun d i => set d i.1 i.2) d = d ++ items := by
  induction items generalizing d with
  | nil => rw [List.foldl_nil, List.append_nil]
  | cons i items ih =>
      have hnew : i.1 ∉ keys d := by
        intro hin
        rw [keys, List.map_append, List.map_cons] at h
        exact List.disjoint_of_nodup_append h hin List.mem_cons_self
      rw [List.foldl_cons, set_of_notMem hnew, ih]
      · rw [List.append_assoc]
        rfl
      · rw [List.append_assoc]
        exact h

theorem fromPairs_eq {items : List (κ × α)} (h : (keys items).Nodup) : fromPairs items = items :=
  foldl_set h

/-! ## Groups -/

theorem get_push (d : List (κ × List α)) (k l : κ) (a : α) :
    (get (push d k a) l).getD [] =
      (get d l).getD [] ++ if k = l then [a] else [] := by
  by_cases h : k = l
  · rw [if_pos h, ← h, push, get_set_self, Option.getD_some]
  · rw [if_neg h, push, get_set_of_ne (Ne.symm h), List.append_nil]

theorem foldl_push_get (key : β → κ) (value : β → α) (rows : List β) (d : List (κ × List α))
    (k : κ) :
    (get (rows.foldl (fun d r => push d (key r) (value r)) d) k).getD [] =
      (get d k).getD [] ++ (rows.filter fun r => key r = k).map value := by
  induction rows generalizing d with
  | nil => simp
  | cons r rows ih =>
      rw [List.foldl_cons, ih, get_push, List.filter_cons]
      by_cases h : key r = k
      · simp [h]
      · simp [h]

/-- Under a key are the values of its rows, in their order. -/
theorem get_collect (key : β → κ) (value : β → α) (rows : List β) (k : κ) :
    (get (collect key value rows) k).getD [] = (rows.filter fun r => key r = k).map value := by
  rw [collect, foldl_push_get]
  rfl

theorem foldl_push_keys (key : β → κ) (value : β → α) (rows : List β) (d : List (κ × List α))
    (k : κ) :
    k ∈ keys (rows.foldl (fun d r => push d (key r) (value r)) d) ↔
      k ∈ keys d ∨ ∃ r ∈ rows, key r = k := by
  induction rows generalizing d with
  | nil => simp
  | cons r rows ih =>
      rw [List.foldl_cons, ih, push, mem_keys_set]
      simp only [List.mem_cons, exists_eq_or_imp, or_assoc, @eq_comm _ k]

theorem mem_keys_collect (key : β → κ) (value : β → α) (rows : List β) (k : κ) :
    k ∈ keys (collect key value rows) ↔ ∃ r ∈ rows, key r = k := by
  rw [collect, foldl_push_keys]
  simp [keys]

theorem nodup_collect (key : β → κ) (value : β → α) (rows : List β) :
    (keys (collect key value rows)).Nodup := by
  have hmain : ∀ d : List (κ × List α), (keys d).Nodup →
      (keys (rows.foldl (fun d r => push d (key r) (value r)) d)).Nodup := by
    induction rows with
    | nil => exact fun d hd => hd
    | cons r rows ih => exact fun d hd => ih _ (nodup_set hd)
  exact hmain [] List.nodup_nil

end

/-! ## The first rows of an order -/

section
variable {α β : Type} [LinearOrder β] {f : α → β} {l : List α}

/-- The sort by a key. -/
def sortBy (f : α → β) (l : List α) : List α := l.mergeSort fun a b => decide (f a ≤ f b)

theorem perm_sortBy (f : α → β) (l : List α) : (sortBy f l).Perm l := List.mergeSort_perm l _

theorem pairwise_sortBy (f : α → β) (l : List α) :
    (sortBy f l).Pairwise fun a b => f a ≤ f b := by
  have hsorted := @List.pairwise_mergeSort α (fun a b => decide (f a ≤ f b))
    (fun a b c hab hbc => by
      rw [decide_eq_true_eq] at hab hbc ⊢
      exact hab.trans hbc)
    (fun a b => by
      rw [Bool.or_eq_true, decide_eq_true_eq, decide_eq_true_eq]
      exact le_total (f a) (f b)) l
  exact hsorted.imp fun h => of_decide_eq_true h

/-- With distinct keys the order is strict. -/
theorem pairwise_lt_sortBy (h : (l.map f).Nodup) : (sortBy f l).Pairwise fun a b => f a < f b := by
  have hnodup : ((sortBy f l).map f).Nodup := ((perm_sortBy f l).map f).nodup_iff.mpr h
  have hne : (sortBy f l).Pairwise fun a b => f a ≠ f b := List.pairwise_map.mp hnodup
  exact (pairwise_sortBy f l).imp₂ (fun _ _ hle hne => lt_of_le_of_ne hle hne) hne

theorem mem_take_of_pairwise {s : List α} (h : s.Pairwise fun a b => f a < f b) {a : α}
    (ha : a ∈ s) (n : ℕ) : a ∈ s.take n ↔ (s.filter fun b => f b < f a).length < n := by
  induction s generalizing n with
  | nil => cases ha
  | cons b s ih =>
      obtain ⟨hfirst, hrest⟩ := List.pairwise_cons.mp h
      cases n with
      | zero => simp
      | succ n =>
          rw [List.take_succ_cons, List.mem_cons]
          cases List.mem_cons.mp ha with
          | inl heq =>
              subst heq
              have hnone : (a :: s).filter (fun b => f b < f a) = [] := by
                apply List.filter_eq_nil_iff.mpr
                intro c hc
                rw [decide_eq_true_eq, not_lt]
                cases List.mem_cons.mp hc with
                | inl heq => rw [heq]
                | inr hin => exact (hfirst c hin).le
              rw [hnone]
              simp
          | inr hin =>
              have hlt : f b < f a := hfirst a hin
              have hne : a ≠ b := fun heq => lt_irrefl (f b) (heq ▸ hlt)
              rw [List.filter_cons_of_pos (by simpa using hlt), List.length_cons,
                Nat.succ_lt_succ_iff, ← ih hrest hin n]
              simp [hne]

/-- An element is among the first `n` when fewer than `n` come before it. -/
theorem mem_take_sortBy (h : (l.map f).Nodup) {a : α} (ha : a ∈ l) (n : ℕ) :
    a ∈ (sortBy f l).take n ↔ (l.filter fun b => f b < f a).length < n := by
  rw [mem_take_of_pairwise (pairwise_lt_sortBy h) ((perm_sortBy f l).mem_iff.mpr ha) n,
    ((perm_sortBy f l).filter _).length_eq]

/-- The elements that a sort puts among the first `n` are as many as fit. -/
theorem length_filter_take [DecidableEq α] (hl : l.Nodup) (s : List α) (hs : s.Perm l) (n : ℕ) :
    (l.filter fun a => a ∈ s.take n).length = min n l.length := by
  have hnodup : s.Nodup := hs.nodup_iff.mpr hl
  have hperm : (l.filter fun a => a ∈ s.take n).Perm (s.take n) := by
    apply (List.perm_ext_iff_of_nodup (hl.filter _) (hnodup.sublist (List.take_sublist n s))).mpr
    intro a
    rw [List.mem_filter, decide_eq_true_eq]
    constructor
    · intro h
      exact h.2
    · intro h
      exact ⟨hs.mem_iff.mp (List.mem_of_mem_take h), h⟩
  rw [hperm.length_eq, List.length_take, hs.length_eq]

end

end AikoIsland.OrderedDict
