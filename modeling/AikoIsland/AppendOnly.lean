import Mathlib.Data.List.Basic

/-!
# Append-only tables

A table that only gains rows at its end, all of them of one kind. The kind says
whose rows they are, so that two writers with different kinds leave each
other's rows alone: a filter that accepts none of the gained rows sees the same
table before and after.
-/
namespace AikoIsland.AppendOnly

variable {α : Type} {P Q : α → Prop} {xs ys zs : List α}

/-- `ys` is `xs` followed by rows that satisfy `P`. -/
def Appends (P : α → Prop) (xs ys : List α) : Prop := ∃ zs, ys = xs ++ zs ∧ ∀ z ∈ zs, P z

theorem Appends.refl (P : α → Prop) (xs : List α) : Appends P xs xs := ⟨[], by simp⟩

theorem Appends.trans (h : Appends P xs ys) (h' : Appends P ys zs) : Appends P xs zs := by
  obtain ⟨a, rfl, ha⟩ := h
  obtain ⟨b, rfl, hb⟩ := h'
  refine ⟨a ++ b, List.append_assoc xs a b, fun z hz => ?_⟩
  exact (List.mem_append.mp hz).elim (ha z) (hb z)

theorem Appends.mono (h : Appends P xs ys) (hPQ : ∀ z, P z → Q z) : Appends Q xs ys := by
  obtain ⟨zs, rfl, hz⟩ := h
  exact ⟨zs, rfl, fun z hm => hPQ z (hz z hm)⟩

theorem Appends.single {a : α} (xs : List α) (h : P a) : Appends P xs (xs ++ [a]) :=
  ⟨[a], rfl, by simpa using h⟩

theorem Appends.of_eq (h : ys = xs) : Appends P xs ys := by
  subst h
  exact Appends.refl P ys

theorem Appends.mem (h : Appends P xs ys) {a : α} (ha : a ∈ xs) : a ∈ ys := by
  obtain ⟨zs, rfl, _⟩ := h
  exact List.mem_append_left zs ha

/-- A row of the longer table was there or is one of the gained rows. -/
theorem Appends.cases (h : Appends P xs ys) {a : α} (ha : a ∈ ys) : a ∈ xs ∨ P a := by
  obtain ⟨zs, rfl, hz⟩ := h
  exact (List.mem_append.mp ha).imp id (hz a)

/-- A filter that rejects every gained row sees no difference. -/
theorem Appends.filter_eq (h : Appends P xs ys) {q : α → Bool} (hq : ∀ z, P z → q z = false) :
    ys.filter q = xs.filter q := by
  obtain ⟨zs, rfl, hz⟩ := h
  have hnil : zs.filter q = [] := by
    rw [List.filter_eq_nil_iff]
    intro z hm
    simp [hq z (hz z hm)]
  rw [List.filter_append, hnil, List.append_nil]

end AikoIsland.AppendOnly
