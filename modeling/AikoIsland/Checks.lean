import Mathlib.Tactic

/-!
# Functions that return a value or raise

`Except` read from its results: when a sequence of steps returns, when a step is
applied to all of a list, and which exceptions can leave a computation.
`RaisesOnly P x` says of `x` that every exception it raises is one of `P`, with a
rule for each way in which computations are put together.
-/
namespace AikoIsland.Checks

variable {ε α β : Type} {P Q : ε → Prop} {x : Except ε α} {f : α → Except ε β} {b : β} {e : ε}

theorem ok_bind {a : α} : ((.ok a : Except ε α) >>= f) = f a := rfl

theorem error_bind : ((.error e : Except ε α) >>= f) = .error e := rfl

theorem bind_eq_ok : (x >>= f) = .ok b ↔ ∃ a, x = .ok a ∧ f a = .ok b := by
  cases x with
  | ok a =>
      constructor
      · intro h
        exact ⟨a, rfl, h⟩
      · rintro ⟨a', ha, hf⟩
        obtain rfl := Except.ok.inj ha
        exact hf
  | error e =>
      constructor
      · intro h
        cases h
      · rintro ⟨a', ha, _⟩
        cases ha

theorem bind_eq_error :
    (x >>= f) = .error e ↔ x = .error e ∨ ∃ a, x = .ok a ∧ f a = .error e := by
  cases x with
  | ok a =>
      constructor
      · intro h
        exact Or.inr ⟨a, rfl, h⟩
      · rintro (hx | ⟨a', ha, hf⟩)
        · cases hx
        · obtain rfl := Except.ok.inj ha
          exact hf
  | error e' =>
      constructor
      · intro h
        cases h
        exact Or.inl rfl
      · rintro (hx | ⟨a', ha, _⟩)
        · cases hx
          rfl
        · cases ha

theorem map_eq_ok {g : α → β} : x.map g = .ok b ↔ ∃ a, x = .ok a ∧ g a = b := by
  cases x <;> simp [Except.map]

theorem map_eq_error {g : α → β} : x.map g = .error e ↔ x = .error e := by
  cases x <;> simp [Except.map]

theorem toOption_bind : (x >>= f).toOption = x.toOption.bind fun a => (f a).toOption := by
  cases x <;> rfl

theorem eq_ok_iff_toOption {a : α} : x = .ok a ↔ x.toOption = some a := by
  cases x <;> simp [Except.toOption]

theorem mapError_eq_ok {δ : Type} {g : ε → δ} {a : α} : x.mapError g = .ok a ↔ x = .ok a := by
  cases x <;> simp [Except.mapError]

theorem mapError_ok {δ : Type} {g : ε → δ} {a : α} :
    (.ok a : Except ε α).mapError g = .ok a := rfl

theorem mapError_error {δ : Type} {g : ε → δ} :
    (.error e : Except ε α).mapError g = .error (g e) := rfl

theorem mapError_bind {δ : Type} {g : ε → δ} :
    (x >>= f).mapError g = x.mapError g >>= fun a => (f a).mapError g := by
  cases x <;> rfl

/-- A list of steps returns the list of what they return. -/
theorem mapM_eq_ok {xs : List α} {ys : List β} :
    xs.mapM f = .ok ys ↔ List.Forall₂ (fun x y => f x = .ok y) xs ys := by
  induction xs generalizing ys with
  | nil =>
      rw [List.mapM_nil, List.forall₂_nil_left_iff]
      constructor
      · intro h
        exact (Except.ok.inj h).symm
      · intro h
        rw [h]
        rfl
  | cons x xs ih =>
      rw [List.mapM_cons, bind_eq_ok]
      constructor
      · rintro ⟨y, hy, h⟩
        obtain ⟨ys', hys', h⟩ := bind_eq_ok.mp h
        obtain rfl := Except.ok.inj h
        exact .cons hy (ih.mp hys')
      · intro h
        cases h with
        | cons hy hys => exact ⟨_, hy, bind_eq_ok.mpr ⟨_, ih.mpr hys, rfl⟩⟩

/-- What a list of steps returned is what each of them returned. -/
theorem mem_of_mapM_eq_ok {xs : List α} {ys : List β} (h : xs.mapM f = .ok ys) :
    (∀ x ∈ xs, ∃ y ∈ ys, f x = .ok y) ∧ ∀ y ∈ ys, ∃ x ∈ xs, f x = .ok y := by
  induction mapM_eq_ok.mp h with
  | nil => simp
  | cons hy hys ih =>
      rename_i x y xs ys
      obtain ⟨hleft, hright⟩ := ih (mapM_eq_ok.mpr hys)
      constructor
      · intro x' hx'
        cases List.mem_cons.mp hx' with
        | inl heq => exact ⟨y, List.mem_cons_self, by rw [heq]; exact hy⟩
        | inr hmem =>
            obtain ⟨y', hy', hf⟩ := hleft x' hmem
            exact ⟨y', List.mem_cons_of_mem _ hy', hf⟩
      · intro y' hy'
        cases List.mem_cons.mp hy' with
        | inl heq => exact ⟨x, List.mem_cons_self, by rw [heq]; exact hy⟩
        | inr hmem =>
            obtain ⟨x', hx', hf⟩ := hright y' hmem
            exact ⟨x', List.mem_cons_of_mem _ hx', hf⟩

/-- What a list of steps raises is raised by the first of them that does not return. -/
theorem mapM_eq_error {xs : List α} :
    xs.mapM f = .error e ↔ ∃ front x back, xs = front ++ x :: back ∧
      (∀ y ∈ front, ∃ b, f y = .ok b) ∧ f x = .error e := by
  induction xs with
  | nil => simp [pure, Except.pure]
  | cons x xs ih =>
      rw [List.mapM_cons, bind_eq_error]
      constructor
      · intro h
        cases h with
        | inl hx => exact ⟨[], x, xs, rfl, by simp, hx⟩
        | inr hlater =>
            obtain ⟨b, hb, hlater⟩ := hlater
            cases bind_eq_error.mp hlater with
            | inl hxs =>
                obtain ⟨front, x', back, hsplit, hfront, hx'⟩ := ih.mp hxs
                refine ⟨x :: front, x', back, by rw [hsplit, List.cons_append], ?_, hx'⟩
                intro y hy
                cases List.mem_cons.mp hy with
                | inl heq =>
                    rw [heq]
                    exact ⟨b, hb⟩
                | inr hmem => exact hfront y hmem
            | inr hnone =>
                obtain ⟨ys, _, hnone⟩ := hnone
                cases hnone
      · intro h
        obtain ⟨front, x', back, hsplit, hfront, hx'⟩ := h
        cases front with
        | nil =>
            cases hsplit
            exact Or.inl hx'
        | cons y front =>
            cases hsplit
            obtain ⟨b, hb⟩ := hfront x List.mem_cons_self
            right
            refine ⟨b, hb, bind_eq_error.mpr (Or.inl (ih.mpr ⟨front, x', back, rfl, ?_, hx'⟩))⟩
            exact fun z hz => hfront z (List.mem_cons_of_mem x hz)

theorem exists_of_mapM_eq_error {xs : List α} (h : xs.mapM f = .error e) :
    ∃ x ∈ xs, f x = .error e := by
  obtain ⟨front, x, back, hsplit, _, hx⟩ := mapM_eq_error.mp h
  refine ⟨x, ?_, hx⟩
  rw [hsplit]
  exact List.mem_append_right front List.mem_cons_self

/-! ## Which exceptions leave a computation -/

def RaisesOnly (P : ε → Prop) (x : Except ε α) : Prop := ∀ e, x = .error e → P e

theorem RaisesOnly.mono (h : RaisesOnly P x) (himp : ∀ e, P e → Q e) : RaisesOnly Q x :=
  fun e he => himp e (h e he)

@[simp] theorem raisesOnly_ok {a : α} : RaisesOnly P (.ok a : Except ε α) := by
  intro e h
  cases h

@[simp] theorem raisesOnly_error : RaisesOnly P (.error e : Except ε α) ↔ P e := by
  constructor
  · intro h
    exact h e rfl
  · intro h e' he
    cases he
    exact h

theorem RaisesOnly.bind (hx : RaisesOnly P x) (hf : ∀ a, x = .ok a → RaisesOnly P (f a)) :
    RaisesOnly P (x >>= f) := by
  intro e h
  rcases bind_eq_error.mp h with he | ⟨a, ha, he⟩
  · exact hx e he
  · exact hf a ha e he

theorem RaisesOnly.map {g : α → β} (hx : RaisesOnly P x) : RaisesOnly P (x.map g) := by
  intro e h
  exact hx e (map_eq_error.mp h)

theorem raisesOnly_mapError {δ : Type} {R : δ → Prop} {g : ε → δ} (h : ∀ e, R (g e)) :
    RaisesOnly R (x.mapError g) := by
  intro d hd
  cases x with
  | ok a => cases hd
  | error e =>
      cases hd
      exact h e

theorem RaisesOnly.mapM {xs : List α} (h : ∀ x ∈ xs, RaisesOnly P (f x)) :
    RaisesOnly P (xs.mapM f) := by
  intro e he
  obtain ⟨x, hx, hf⟩ := exists_of_mapM_eq_error he
  exact h x hx e hf

/-- A computation returns, or raises one of `P`. -/
theorem RaisesOnly.ok_or (h : RaisesOnly P x) : (∃ a, x = .ok a) ∨ ∃ e, P e ∧ x = .error e := by
  cases x with
  | ok a => exact Or.inl ⟨a, rfl⟩
  | error e => exact Or.inr ⟨e, h e rfl, rfl⟩

end AikoIsland.Checks
