import Mathlib.Data.Finset.Card
import Mathlib.Data.List.Basic
import Mathlib.Tactic

/-!
# A bounded list in the order of last use

`touch n` moves a key to the end of a list and drops the oldest keys above `n`. Over
a run of uses from the empty list, what stands behind a key was used after its last
use. So a key that is dropped has seen `n` other keys used since.
-/
namespace AikoIsland.RecentUse

variable {κ : Type} [DecidableEq κ]

def moved (ks : List κ) (k : κ) : List κ := ks.filter (fun l => l ≠ k) ++ [k]

def touch (n : ℕ) (ks : List κ) (k : κ) : List κ := (moved ks k).drop ((moved ks k).length - n)

def touchAll (n : ℕ) (uses : List κ) : List κ := uses.foldl (touch n) []

section
variable {n : ℕ} {ks uses : List κ} {k l : κ}

theorem touchAll_append (uses : List κ) (k : κ) :
    touchAll n (uses ++ [k]) = touch n (touchAll n uses) k := by
  rw [touchAll, List.foldl_append]
  rfl

/-! ## One use -/

theorem length_touch_le (n : ℕ) (ks : List κ) (k : κ) : (touch n ks k).length ≤ n := by
  rw [touch, List.length_drop]
  omega

theorem mem_touch (h : l ∈ touch n ks k) : l ∈ ks ∨ l = k := by
  have hmem := List.mem_of_mem_drop h
  rw [moved, List.mem_append, List.mem_singleton] at hmem
  exact hmem.imp_left List.mem_of_mem_filter

theorem mem_touch_self (hn : 0 < n) (ks : List κ) (k : κ) : k ∈ touch n ks k := by
  have hlen : (moved ks k).length = (ks.filter fun l => l ≠ k).length + 1 := by
    rw [moved, List.length_append, List.length_singleton]
  rw [touch, moved, List.drop_append_of_le_length (by rw [← moved, hlen]; omega)]
  exact List.mem_append_right _ (List.mem_singleton_self k)

theorem nodup_moved (h : ks.Nodup) (k : κ) : (moved ks k).Nodup := by
  apply List.Nodup.append (h.filter _) (List.nodup_singleton k)
  rw [List.disjoint_singleton]
  intro hmem
  simpa using (List.mem_filter.mp hmem).2

theorem nodup_touch (h : ks.Nodup) (k : κ) : (touch n ks k).Nodup :=
  (nodup_moved h k).sublist (List.drop_sublist _ _)

/-- What stands before and behind another key after a move. -/
theorem moved_split {xs ys : List κ} (hne : k ≠ l) :
    moved (xs ++ k :: ys) l = xs.filter (fun m => m ≠ l) ++ k :: moved ys l := by
  rw [moved, moved, List.filter_append, List.filter_cons_of_pos (by simpa using hne),
    List.append_assoc, List.cons_append]

omit [DecidableEq κ] in
/-- A drop loses a key only with everything before it. -/
theorem drop_split {xs ys : List κ} {m : ℕ} (h : k ∉ (xs ++ k :: ys).drop m) :
    xs.length < m ∧ ((xs ++ k :: ys).drop m).Sublist ys := by
  have hm : xs.length < m := by
    by_contra hle
    apply h
    rw [List.drop_append_of_le_length (not_lt.mp hle)]
    exact List.mem_append_right _ List.mem_cons_self
  constructor
  · exact hm
  · obtain ⟨j, rfl⟩ : ∃ j, m = xs.length + (j + 1) := ⟨m - xs.length - 1, by omega⟩
    rw [List.drop_length_add_append, List.drop_succ_cons]
    exact List.drop_sublist _ _

/-! ## Runs -/

theorem nodup_touchAll (n : ℕ) (uses : List κ) : (touchAll n uses).Nodup := by
  induction uses using List.reverseRecOn with
  | nil => exact List.nodup_nil
  | append_singleton uses k ih =>
      rw [touchAll_append]
      exact nodup_touch ih k

theorem mem_of_mem_touchAll (h : l ∈ touchAll n uses) : l ∈ uses := by
  induction uses using List.reverseRecOn with
  | nil => cases h
  | append_singleton uses k ih =>
      rw [touchAll_append] at h
      rw [List.mem_append, List.mem_singleton]
      exact (mem_touch h).imp_left ih

/-- What stands behind a key was used after its last use. -/
theorem behind_touchAll {early late : List κ} (hlate : k ∉ late)
    (h : k ∈ touchAll n (early ++ k :: late)) :
    ∃ xs ys, touchAll n (early ++ k :: late) = xs ++ k :: ys ∧ ∀ y ∈ ys, y ∈ late := by
  induction late using List.reverseRecOn with
  | nil =>
      have hsplit : touchAll n (early ++ [k]) = touch n (touchAll n early) k :=
        touchAll_append early k
      rw [hsplit] at h ⊢
      have hlen : (moved (touchAll n early) k).length - n ≤
          ((touchAll n early).filter fun m => m ≠ k).length := by
        by_contra hlt
        have hall : (moved (touchAll n early) k).length ≤
            (moved (touchAll n early) k).length - n := by
          rw [moved, List.length_append, List.length_singleton] at hlt ⊢
          omega
        rw [touch, List.drop_eq_nil_of_le hall] at h
        cases h
      use ((touchAll n early).filter fun m => m ≠ k).drop ((moved (touchAll n early) k).length - n)
      use []
      constructor
      · rw [touch]
        conv_lhs => rw [moved, List.drop_append_of_le_length (by rw [← moved]; exact hlen)]
        rw [← moved]
      · intro y hy
        cases hy
  | append_singleton late l ih =>
      rw [List.mem_append, not_or, List.mem_singleton] at hlate
      have hsplit : touchAll n (early ++ k :: (late ++ [l])) =
          touch n (touchAll n (early ++ k :: late)) l := by
        rw [← touchAll_append, List.append_assoc, List.cons_append]
      rw [hsplit] at h ⊢
      have hmem : k ∈ touchAll n (early ++ k :: late) := (mem_touch h).resolve_right hlate.2
      obtain ⟨xs, ys, hks, hys⟩ := ih hlate.1 hmem
      rw [touch, hks, moved_split hlate.2] at h ⊢
      generalize hm : (xs.filter (fun m => m ≠ l) ++ k :: moved ys l).length - n = m at h
      have hle : m ≤ (xs.filter fun m => m ≠ l).length := by
        by_contra hlt
        obtain ⟨j, rfl⟩ : ∃ j, m = (xs.filter fun m => m ≠ l).length + (j + 1) :=
          ⟨m - (xs.filter fun m => m ≠ l).length - 1, by omega⟩
        rw [List.drop_length_add_append, List.drop_succ_cons] at h
        have hin := List.mem_of_mem_drop h
        rw [moved, List.mem_append, List.mem_singleton] at hin
        cases hin with
        | inl hys' => exact hlate.1 (hys k (List.mem_of_mem_filter hys'))
        | inr hl => exact hlate.2 hl
      use (xs.filter fun m => m ≠ l).drop m, moved ys l
      constructor
      · rw [List.drop_append_of_le_length hle]
      · intro y hy
        rw [moved, List.mem_append, List.mem_singleton] at hy
        rw [List.mem_append, List.mem_singleton]
        exact hy.imp_left fun hin => hys y (List.mem_of_mem_filter hin)

/-- A key that is dropped has seen `n` other keys used since its last use. -/
theorem dropped_touchAll (hn : 0 < n) (h : k ∈ touchAll n uses)
    (hdrop : k ∉ touchAll n (uses ++ [l])) :
    ∃ early late, uses = early ++ k :: late ∧ k ∉ late ++ [l] ∧
      n ≤ (late ++ [l]).toFinset.card := by
  rw [touchAll_append] at hdrop
  have hne : k ≠ l := by
    intro hkl
    rw [hkl] at hdrop
    exact hdrop (mem_touch_self hn _ l)
  obtain ⟨late', early', hrev, hnot⟩ := List.eq_append_cons_of_mem
    (List.mem_reverse.mpr (mem_of_mem_touchAll h))
  have huses : uses = early'.reverse ++ k :: late'.reverse := by
    rw [← List.reverse_reverse uses, hrev]
    simp
  have hlate : k ∉ late'.reverse := fun hmem => hnot (List.mem_reverse.mp hmem)
  rw [huses] at h hdrop
  obtain ⟨xs, ys, hks, hys⟩ := behind_touchAll hlate h
  have hnodup : (touch n (touchAll n (early'.reverse ++ k :: late'.reverse)) l).Nodup :=
    nodup_touch (nodup_touchAll _ _) l
  rw [touch, hks, moved_split hne] at hdrop hnodup
  generalize hm : (xs.filter (fun m => m ≠ l) ++ k :: moved ys l).length - n = m at hdrop hnodup
  obtain ⟨hlt, hsub⟩ := drop_split hdrop
  use early'.reverse, late'.reverse
  constructor
  · exact huses
  constructor
  · rw [List.mem_append, List.mem_singleton, not_or]
    exact ⟨hlate, hne⟩
  · -- the keys that stay all stand behind the dropped one
    have hcount : ((xs.filter (fun m => m ≠ l) ++ k :: moved ys l).drop m).length = n := by
      rw [List.length_drop]
      omega
    rw [← hcount, ← List.toFinset_card_of_nodup hnodup]
    apply Finset.card_le_card
    intro y hy
    have hin := hsub.subset (List.mem_toFinset.mp hy)
    rw [moved, List.mem_append, List.mem_singleton] at hin
    rw [List.mem_toFinset, List.mem_append, List.mem_singleton]
    exact hin.imp_left fun hmem => hys y (List.mem_of_mem_filter hmem)

end

end AikoIsland.RecentUse
