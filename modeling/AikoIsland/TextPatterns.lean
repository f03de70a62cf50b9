import Mathlib.Tactic

/-!
# Runs of a character class up to the anchor `$`

`match` of `[class]{low,high}$` tries every length of the run and asks for the
end of the text behind it. The anchor also stands before a newline that is the
last character, so a pattern which ends in it matches a text and the same text
with one newline more.
-/
namespace AikoIsland.TextPatterns

/-- Where `$` matches without the multiline flag. -/
def atEnd (s : List ℕ) : Bool := s = [] || s = [10]

/-- `[class]{low,high}$` at the head of a text. -/
def runToEnd (cls : ℕ → Bool) (low high : ℕ) (s : List ℕ) : Bool :=
  (List.range (high + 1)).any fun n =>
    low ≤ n && n ≤ s.length && (s.take n).all cls && atEnd (s.drop n)

theorem atEnd_iff {s : List ℕ} : atEnd s = true ↔ s = [] ∨ s = [10] := by
  simp [atEnd]

/-- A run up to the anchor is a run that is all of the text, or all but a last newline. -/
theorem runToEnd_iff {cls : ℕ → Bool} {low high : ℕ} {s : List ℕ} :
    runToEnd cls low high s = true ↔ ∃ run, (s = run ∨ s = run ++ [10]) ∧
      low ≤ run.length ∧ run.length ≤ high ∧ ∀ c ∈ run, cls c = true := by
  constructor
  · intro h
    obtain ⟨n, hn, hmatch⟩ := List.any_eq_true.mp h
    simp only [Bool.and_eq_true, decide_eq_true_eq, List.all_eq_true, atEnd_iff] at hmatch
    have hlength : (s.take n).length = n := by
      rw [List.length_take]
      omega
    have hbound := List.mem_range.mp hn
    refine ⟨s.take n, ?_, by omega, by omega, hmatch.1.2⟩
    cases hmatch.2 with
    | inl hempty =>
        have hsplit := List.take_append_drop n s
        rw [hempty, List.append_nil] at hsplit
        exact Or.inl hsplit.symm
    | inr hnewline =>
        have hsplit := List.take_append_drop n s
        rw [hnewline] at hsplit
        exact Or.inr hsplit.symm
  · intro h
    obtain ⟨run, hs, hlow, hhigh, hall⟩ := h
    apply List.any_eq_true.mpr
    refine ⟨run.length, List.mem_range.mpr (by omega), ?_⟩
    simp only [Bool.and_eq_true, decide_eq_true_eq, List.all_eq_true, atEnd_iff]
    cases hs with
    | inl hwhole =>
        subst hwhole
        refine ⟨⟨⟨hlow, le_refl _⟩, ?_⟩, Or.inl (List.drop_length)⟩
        rw [List.take_length]
        exact hall
    | inr hnewline =>
        subst hnewline
        refine ⟨⟨⟨hlow, by simp⟩, ?_⟩, Or.inr (List.drop_left)⟩
        rw [List.take_left]
        exact hall

end AikoIsland.TextPatterns
