import Mathlib.Data.Finset.Card
import Mathlib.Order.Interval.Set.Basic
import Mathlib.Order.UpperLower.Basic

/-!
# Matching requests to tokens with deadlines

A board places tokens with a deadline and requests with a time at natural
positions. A matching pairs a request with an earlier token that has not run out
at the time of the request, each side at most once. A matching is earliest first
when every request that finds a free token takes one whose deadline is least.

Earliest first is optimal: at every position, and for every initial segment of
deadlines, it has used at least as many tokens from the segment as any other
matching. Nothing is assumed about the order of the times.
-/
namespace AikoIsland.DeadlineMatching
open scoped Classical

/-- What stands at each position. -/
structure Board (T : Type) where
  deadline : ℕ → Option T
  request : ℕ → Option T

variable {T : Type} {b : Board T} {M G : Finset (ℕ × ℕ)} {n : ℕ} {S : Set T}

/-- A token at `i`, a later request at `j`, and the token is alive for it. -/
def Board.Fits [LinearOrder T] (b : Board T) (i j : ℕ) : Prop :=
  i < j ∧ ∃ e t, b.deadline i = some e ∧ b.request j = some t ∧ t < e

/-- Pairs that fit, one-to-one. -/
structure Matching [LinearOrder T] (b : Board T) (M : Finset (ℕ × ℕ)) : Prop where
  fits : ∀ p ∈ M, b.Fits p.1 p.2
  token : ∀ p ∈ M, ∀ q ∈ M, p.1 = q.1 → p = q
  request : ∀ p ∈ M, ∀ q ∈ M, p.2 = q.2 → p = q

/-- A request that finds a token free takes one that runs out no later. -/
structure EarliestFirst [LinearOrder T] (b : Board T) (G : Finset (ℕ × ℕ)) : Prop extends Matching b G where
  earliest : ∀ i j e t, i < j → b.deadline i = some e → b.request j = some t → t < e →
    (∀ p ∈ G, p.1 = i → j ≤ p.2) → ∃ p ∈ G, p.2 = j ∧ ∃ e', b.deadline p.1 = some e' ∧ e' ≤ e

/-! ## Pairs and tokens by deadline -/

/-- The token at a position runs out within `S`. -/
def Board.Within (b : Board T) (S : Set T) (i : ℕ) : Prop := ∃ e ∈ S, b.deadline i = some e

/-- The pairs formed before position `n` whose deadlines lie in `S`. -/
noncomputable def formed (b : Board T) (M : Finset (ℕ × ℕ)) (n : ℕ) (S : Set T) :
    Finset (ℕ × ℕ) :=
  M.filter fun p => p.2 < n ∧ b.Within S p.1

/-- The tokens before position `n` whose deadlines lie in `S`. -/
noncomputable def tokens (b : Board T) (n : ℕ) (S : Set T) : Finset ℕ :=
  (Finset.range n).filter (b.Within S)

theorem mem_formed {p : ℕ × ℕ} : p ∈ formed b M n S ↔ p ∈ M ∧ p.2 < n ∧ b.Within S p.1 := by
  simp [formed]

theorem mem_tokens {i : ℕ} : i ∈ tokens b n S ↔ i < n ∧ b.Within S i := by
  simp [tokens]

theorem formed_subset_succ : formed b M n S ⊆ formed b M (n + 1) S := by
  intro p hp
  rw [mem_formed] at hp ⊢
  exact ⟨hp.1, by omega, hp.2.2⟩

variable [LinearOrder T]

/-- The pairs of `S` are those up to `t` and those after `t`. -/
theorem card_formed_split (t : T) :
    (formed b M n S).card =
      (formed b M n (S ∩ Set.Iic t)).card + (formed b M n (S \ Set.Iic t)).card := by
  have hdisj : Disjoint (formed b M n (S ∩ Set.Iic t)) (formed b M n (S \ Set.Iic t)) := by
    rw [Finset.disjoint_left]
    intro p hp hq
    obtain ⟨_, _, e, he, hd⟩ := mem_formed.mp hp
    obtain ⟨_, _, e', he', hd'⟩ := mem_formed.mp hq
    rw [hd] at hd'
    obtain rfl := Option.some.inj hd'
    exact he'.2 he.2
  rw [← Finset.card_union_of_disjoint hdisj]
  congr 1
  ext p
  rw [Finset.mem_union, mem_formed, mem_formed, mem_formed]
  constructor
  · rintro ⟨hp, hlt, e, he, hd⟩
    by_cases het : e ≤ t
    · exact Or.inl ⟨hp, hlt, e, ⟨he, het⟩, hd⟩
    · exact Or.inr ⟨hp, hlt, e, ⟨he, het⟩, hd⟩
  · rintro (⟨hp, hlt, e, he, hd⟩ | ⟨hp, hlt, e, he, hd⟩)
    · exact ⟨hp, hlt, e, he.1, hd⟩
    · exact ⟨hp, hlt, e, he.1, hd⟩

/-- Pairs that were formed have used different tokens. -/
theorem card_formed_eq (hM : Matching b M) :
    ((formed b M n S).image Prod.fst).card = (formed b M n S).card := by
  apply Finset.card_image_of_injOn
  intro p hp q hq h
  rw [Finset.mem_coe, mem_formed] at hp hq
  exact hM.token p hp.1 q hq.1 h

theorem image_formed_subset (hM : Matching b M) :
    (formed b M n S).image Prod.fst ⊆ tokens b n S := by
  intro i hi
  obtain ⟨p, hp, rfl⟩ := Finset.mem_image.mp hi
  obtain ⟨hmem, hlt, hin⟩ := mem_formed.mp hp
  have hfits : p.1 < p.2 := (hM.fits p hmem).1
  rw [mem_tokens]
  exact ⟨by omega, hin⟩

/-- A token that no pair has used leaves room for one more. -/
theorem card_formed_lt_tokens (hM : Matching b M) {i : ℕ} (hi : i ∈ tokens b n S)
    (hfree : ∀ p ∈ M, p.1 = i → n ≤ p.2) : (formed b M n S).card < (tokens b n S).card := by
  rw [← card_formed_eq hM]
  apply Finset.card_lt_card
  rw [Finset.ssubset_iff_of_subset (image_formed_subset hM)]
  refine ⟨i, hi, fun hmem => ?_⟩
  obtain ⟨p, hp, hpi⟩ := Finset.mem_image.mp hmem
  obtain ⟨hin, hlt, _⟩ := mem_formed.mp hp
  have hle : n ≤ p.2 := hfree p hin hpi
  omega

/-! ## One more position -/

omit [LinearOrder T] in
theorem formed_succ_of_none (h : ∀ p ∈ M, p.2 = n → ¬ b.Within S p.1) :
    formed b M (n + 1) S = formed b M n S := by
  ext p
  rw [mem_formed, mem_formed]
  constructor
  · rintro ⟨hp, hlt, hin⟩
    have hne : p.2 ≠ n := fun heq => h p hp heq hin
    exact ⟨hp, by omega, hin⟩
  · rintro ⟨hp, hlt, hin⟩
    exact ⟨hp, by omega, hin⟩

theorem card_formed_succ (hM : Matching b M) {p : ℕ × ℕ} (hp : p ∈ M) (hn : p.2 = n)
    (hin : b.Within S p.1) : (formed b M (n + 1) S).card = (formed b M n S).card + 1 := by
  have hnew : p ∉ formed b M n S := by
    rw [mem_formed]
    omega
  rw [← Finset.card_insert_of_notMem hnew]
  congr 1
  ext q
  rw [Finset.mem_insert, mem_formed, mem_formed]
  constructor
  · rintro ⟨hq, hlt, hqin⟩
    by_cases hqn : q.2 = n
    · left
      exact hM.request q hq p hp (hqn.trans hn.symm)
    · right
      exact ⟨hq, by omega, hqin⟩
  · rintro (rfl | ⟨hq, hlt, hqin⟩)
    · exact ⟨hp, by omega, hin⟩
    · exact ⟨hq, by omega, hqin⟩

/-- When an earliest-first request takes nothing from `S`, the tokens of `S` that are alive
for it are used up. -/
theorem EarliestFirst.exhausted (hG : EarliestFirst b G) (hS : IsLowerSet S) {t : T}
    (ht : b.request n = some t) (hnone : ∀ p ∈ G, p.2 = n → ¬ b.Within S p.1) :
    (tokens b n (S \ Set.Iic t)).card ≤ (formed b G n (S \ Set.Iic t)).card := by
  rw [← card_formed_eq hG.toMatching]
  apply Finset.card_le_card
  intro i hi
  obtain ⟨hin, e, he, hd⟩ := mem_tokens.mp hi
  by_contra hunused
  -- a token that is still free makes the request take one at least as early
  have hfree : ∀ p ∈ G, p.1 = i → n ≤ p.2 := by
    intro p hp hpi
    by_contra hlt
    apply hunused
    refine Finset.mem_image.mpr ⟨p, mem_formed.mpr ⟨hp, by omega, e, he, ?_⟩, hpi⟩
    rw [hpi, hd]
  obtain ⟨p, hp, hpn, e', hd', hle⟩ :=
    hG.earliest i n e t hin hd ht (not_le.mp he.2) hfree
  exact hnone p hp hpn ⟨e', hS hle he.1, hd'⟩

/-! ## Optimality -/

/-- What one position preserves: earliest first has used at least as many early tokens. -/
theorem EarliestFirst.card_formed_le_succ (hG : EarliestFirst b G) (hM : Matching b M)
    (ih : ∀ S : Set T, IsLowerSet S → (formed b M n S).card ≤ (formed b G n S).card)
    (hS : IsLowerSet S) :
    (formed b M (n + 1) S).card ≤ (formed b G (n + 1) S).card := by
  have hmono : (formed b G n S).card ≤ (formed b G (n + 1) S).card :=
    Finset.card_le_card formed_subset_succ
  by_cases hpair : ∃ p ∈ M, p.2 = n ∧ b.Within S p.1
  · obtain ⟨p, hp, hpn, hin⟩ := hpair
    rw [card_formed_succ hM hp hpn hin]
    by_cases hown : ∃ q ∈ G, q.2 = n ∧ b.Within S q.1
    · obtain ⟨q, hq, hqn, hqin⟩ := hown
      rw [card_formed_succ hG.toMatching hq hqn hqin]
      exact Nat.add_le_add_right (ih S hS) 1
    · -- the other matching takes a live token of `S` that earliest first has used already
      obtain ⟨hlt, e, t, hd, ht, hte⟩ := hM.fits p hp
      obtain ⟨e', he', hd'⟩ := hin
      obtain rfl : e = e' := Option.some.inj (hd.symm.trans hd')
      rw [hpn] at ht hlt
      have hnone : ∀ q ∈ G, q.2 = n → ¬ b.Within S q.1 :=
        fun q hq hqn hqin => hown ⟨q, hq, hqn, hqin⟩
      have hfree : ∀ q ∈ M, q.1 = p.1 → n ≤ q.2 := by
        intro q hq hqp
        rw [hM.token q hq p hp hqp, hpn]
      have htoken : p.1 ∈ tokens b n (S \ Set.Iic t) :=
        mem_tokens.mpr ⟨hlt, e, ⟨he', not_le.mpr hte⟩, hd⟩
      have hroom := card_formed_lt_tokens hM htoken hfree
      have hused := hG.exhausted hS ht hnone
      have hbefore := ih (S ∩ Set.Iic t) (hS.inter (isLowerSet_Iic t))
      have hsplitM := card_formed_split (b := b) (M := M) (n := n) (S := S) t
      have hsplitG := card_formed_split (b := b) (M := G) (n := n) (S := S) t
      omega
  · rw [formed_succ_of_none fun p hp hpn hin => hpair ⟨p, hp, hpn, hin⟩]
    exact (ih S hS).trans hmono

theorem EarliestFirst.card_formed_le (hG : EarliestFirst b G) (hM : Matching b M) (n : ℕ)
    (hS : IsLowerSet S) : (formed b M n S).card ≤ (formed b G n S).card := by
  induction n generalizing S with
  | zero => simp [formed]
  | succ n ih => exact hG.card_formed_le_succ hM (fun S hS => ih hS) hS

/-- Beyond every request, the formed pairs are all the pairs. -/
theorem formed_univ (hM : Matching b M) (hn : ∀ p ∈ M, p.2 < n) :
    formed b M n Set.univ = M := by
  ext p
  rw [mem_formed]
  constructor
  · exact fun h => h.1
  · intro hp
    obtain ⟨_, e, _, hd, _⟩ := hM.fits p hp
    exact ⟨hp, hn p hp, e, Set.mem_univ e, hd⟩

/-- No matching is larger than an earliest-first one. -/
theorem EarliestFirst.optimal (hG : EarliestFirst b G) (hM : Matching b M) :
    M.card ≤ G.card := by
  obtain ⟨n, hn⟩ := (M.image Prod.snd).exists_nat_subset_range
  have hlast : ∀ p ∈ M, p.2 < n := fun p hp =>
    Finset.mem_range.mp (hn (Finset.mem_image_of_mem _ hp))
  have hle := hG.card_formed_le hM n isLowerSet_univ
  rw [formed_univ hM hlast] at hle
  exact hle.trans (Finset.card_le_card (Finset.filter_subset _ _))

end AikoIsland.DeadlineMatching
