import Mathlib.Tactic

/-!
# Self-delimiting encodings

An encoding fails outside its bounds, and where it succeeds it delimits itself:
no other word of it is a prefix of a continuation. Words of a fixed width and
words behind their length are of that kind. Parts in a row can then be read off
one by one, so a record of such parts is injective, and records whose first
parts differ are different whatever follows.
-/
namespace AikoIsland.SelfDelimiting

variable {α β γ : Type}

/-- From an encoded value followed by anything, the value and the rest can be told. -/
def Delimits (f : α → Option (List γ)) : Prop :=
  ∀ a a' x x' s s', f a = some x → f a' = some x' → x ++ s = x' ++ s' → a = a' ∧ s = s'

/-- The parts in a row; one that fails fails the whole. -/
def join : List (Option (List γ)) → Option (List γ)
  | [] => some []
  | p :: ps => p.bind fun x => (join ps).map (x ++ ·)

theorem join_cons_eq_some {p : Option (List γ)} {ps : List (Option (List γ))} {y : List γ} :
    join (p :: ps) = some y ↔ ∃ x s, p = some x ∧ join ps = some s ∧ y = x ++ s := by
  simp only [join, Option.bind_eq_some_iff, Option.map_eq_some_iff]
  constructor
  · rintro ⟨x, hx, s, hs, rfl⟩
    exact ⟨x, s, hx, hs, rfl⟩
  · rintro ⟨x, s, hx, hs, rfl⟩
    exact ⟨x, hx, s, hs, rfl⟩

namespace Delimits

theorem injective {f : α → Option (List γ)} (h : Delimits f) {a a' : α} {x : List γ}
    (ha : f a = some x) (ha' : f a' = some x) : a = a' :=
  (h a a' x x [] [] ha ha' rfl).1

/-- Words of one width delimit themselves when they are injective. -/
theorem fixed {f : α → Option (List γ)} {n : ℕ} (hlen : ∀ a x, f a = some x → x.length = n)
    (hinj : ∀ a a' x, f a = some x → f a' = some x → a = a') : Delimits f := by
  intro a a' x x' s s' ha ha' heq
  have hsame : x.length = x'.length := by rw [hlen a x ha, hlen a' x' ha']
  obtain ⟨rfl, rfl⟩ := List.append_inj heq hsame
  exact ⟨hinj a a' x ha ha', rfl⟩

/-- Any word behind its length delimits itself when lengths do. -/
theorem prefixed {header : ℕ → Option (List γ)} (h : Delimits header) :
    Delimits fun b : List γ => (header b.length).map (· ++ b) := by
  intro b b' x x' s s' hb hb' heq
  obtain ⟨n, hn, rfl⟩ := Option.map_eq_some_iff.mp hb
  obtain ⟨n', hn', rfl⟩ := Option.map_eq_some_iff.mp hb'
  rw [List.append_assoc, List.append_assoc] at heq
  obtain ⟨hlen, hrest⟩ := h _ _ _ _ _ _ hn hn' heq
  exact List.append_inj hrest hlen

/-- Behind a partial injection the encoding still delimits itself. -/
theorem bind {f : β → Option (List γ)} {g : α → Option β} (h : Delimits f)
    (hg : ∀ a a' b, g a = some b → g a' = some b → a = a') : Delimits fun a => (g a).bind f := by
  intro a a' x x' s s' ha ha' heq
  obtain ⟨b, hb, hx⟩ := Option.bind_eq_some_iff.mp ha
  obtain ⟨b', hb', hx'⟩ := Option.bind_eq_some_iff.mp ha'
  obtain ⟨rfl, hs⟩ := h _ _ _ _ _ _ hx hx' heq
  exact ⟨hg a a' b hb hb', hs⟩

/-- The first part of a row can be read off. -/
theorem peel {f : α → Option (List γ)} (h : Delimits f) {a a' : α}
    {ps ps' : List (Option (List γ))} {y : List γ} (hy : join (f a :: ps) = some y)
    (hy' : join (f a' :: ps') = some y) :
    a = a' ∧ ∃ s, join ps = some s ∧ join ps' = some s := by
  obtain ⟨x, s, hx, hs, rfl⟩ := join_cons_eq_some.mp hy
  obtain ⟨x', s', hx', hs', heq⟩ := join_cons_eq_some.mp hy'
  obtain ⟨rfl, rfl⟩ := h a a' x x' s s' hx hx' heq
  exact ⟨rfl, s, hs, hs'⟩

end Delimits

end AikoIsland.SelfDelimiting
