import AikoIsland.Publishing

/-!
# Requests that stop on the way

A request may fail or be cancelled between any two of its statements: its
transaction is rolled back and the caller sees an exception, or nobody sees
anything. `cut` runs so many statements and stops there. What is proved of a
request statement by statement holds of it however early it stops.

The last rules are for the other requests of a run, of which nothing is known:
where the specification asks nothing of the store, any request will do.
-/
namespace AikoIsland.Stopping
open WriterLock RelyGuarantee Publishing

variable {σ μ τ ε α π : Type}

/-- The first `n` statements of a request, then a rollback and the exception `e`. -/
def cut (e : ε) : ℕ → Request σ μ τ ε α → Request σ μ τ ε α
  | _, .ret a => .ret a
  | _, .raise e' => .raise e'
  | 0, _ => .rollback (.raise e)
  | n + 1, .select k => .select fun s => cut e n (k s)
  | n + 1, .write b t f ok fail => .write b t f (fun s => cut e n (ok s)) fun s => cut e n (fail s)
  | n + 1, .commit t k => .commit t (cut e n k)
  | n + 1, .rollback k => .rollback (cut e n k)
  | n + 1, .act t g k => .act t g fun s m => cut e n (k s m)

/-- A request that may stop: `none` lets it run to its end. -/
def cutAt (e : ε) : Option ℕ → Request σ μ τ ε α → Request σ μ τ ε α
  | none, r => r
  | some n, r => cut e n r

section
variable {S : Spec π σ μ τ} {p : π} {x : Point σ μ} {e : ε}

theorem safe_cut {r : Request σ μ τ ε α} {Q : α → Point σ μ → Prop} {E : ε → Point σ μ → Prop}
    (h : Safe S p r Q E x) (hE : ∀ y, E e y) (n : ℕ) : Safe S p (cut e n r) Q E x := by
  induction r generalizing n x with
  | ret a => cases n <;> exact h
  | raise e' => cases n <;> exact h
  | select k ih =>
      cases n with
      | zero => exact fun _ _ z _ => hE z
      | succ n => exact fun y hy => ih y.view (h y hy) n
  | write b t f ok fail ihok ihfail =>
      cases n with
      | zero => exact fun _ _ z _ => hE z
      | succ n =>
          intro y hy hm
          obtain ⟨hok, hfail⟩ := h y hy hm
          constructor
          · exact fun s hs => ⟨(hok s hs).1, ihok y.view (hok s hs).2 n⟩
          · exact fun hn => ihfail y.view (hfail hn) n
  | commit t k ih =>
      cases n with
      | zero => exact fun _ _ z _ => hE z
      | succ n => exact fun y hy hm => ⟨(h y hy hm).1, ih (h y hy hm).2 n⟩
  | rollback k ih =>
      cases n with
      | zero => exact fun _ _ z _ => hE z
      | succ n => exact fun y hy => ih (h y hy) n
  | act t g k ih =>
      cases n with
      | zero => exact fun _ _ z _ => hE z
      | succ n => exact fun y hy hm => ⟨(h y hy hm).1, ih y.view y.mem (h y hy hm).2 n⟩

theorem safe_cutAt {r : Request σ μ τ ε α} {Q : α → Point σ μ → Prop} {E : ε → Point σ μ → Prop}
    (h : Safe S p r Q E x) (hE : ∀ y, E e y) (stop : Option ℕ) :
    Safe S p (cutAt e stop r) Q E x := by
  cases stop with
  | none => exact h
  | some n => exact safe_cut h hE n

theorem publishes_cut {r : Request σ μ τ ε α} {G : σ → σ → Prop}
    {N : Option (σ × σ) → Except ε α → Prop} {past : List (σ × σ)}
    (h : Publishes S p G N past r x) (hN : ∀ ab, N ab (.error e)) (n : ℕ) :
    Publishes S p G N past (cut e n r) x := by
  have hstop : ∀ past' y, Publishes S p G N past'
      (.rollback (.raise e) : Request σ μ τ ε α) y :=
    fun _ _ _ _ => ⟨fun _ => hN none, fun ab _ => hN (some ab)⟩
  induction r generalizing n x past with
  | ret a => cases n <;> exact h
  | raise e' => cases n <;> exact h
  | select k ih =>
      cases n with
      | zero => exact hstop past x
      | succ n => exact fun y hy => ih y.view (h y hy) n
  | write b t f ok fail ihok ihfail =>
      cases n with
      | zero => exact hstop past x
      | succ n =>
          intro y hy hm
          obtain ⟨hok, hfail⟩ := h y hy hm
          constructor
          · intro s hs
            constructor
            · intro hb
              obtain ⟨hg, hallow, hnext⟩ := (hok s hs).1 hb
              exact ⟨hg, hallow, ihok y.view hnext n⟩
            · exact fun hb => ihok y.view ((hok s hs).2 hb) n
          · exact fun hn => ihfail y.view (hfail hn) n
  | commit t k ih =>
      cases n with
      | zero => exact hstop past x
      | succ n =>
          intro y hy hm
          obtain ⟨hfree, hheld⟩ := h y hy hm
          constructor
          · exact fun hw => ih (hfree hw) n
          · intro w hw
            obtain ⟨hg, hallow, hnext⟩ := hheld w hw
            exact ⟨hg, hallow, ih hnext n⟩
  | rollback k ih =>
      cases n with
      | zero => exact hstop past x
      | succ n => exact fun y hy => ih (h y hy) n
  | act t g k ih =>
      cases n with
      | zero => exact hstop past x
      | succ n => exact fun y hy hm => ⟨(h y hy hm).1, ih y.view y.mem (h y hy hm).2 n⟩

theorem publishes_cutAt {r : Request σ μ τ ε α} {G : σ → σ → Prop}
    {N : Option (σ × σ) → Except ε α → Prop} {past : List (σ × σ)}
    (h : Publishes S p G N past r x) (hN : ∀ ab, N ab (.error e)) (stop : Option ℕ) :
    Publishes S p G N past (cutAt e stop r) x := by
  cases stop with
  | none => exact h
  | some n => exact publishes_cut h hN n

theorem safe_any (hS : ∀ x y, S.Allows p x y) (r : Request σ μ τ ε α) :
    Safe S p r (fun _ _ => True) (fun _ _ => True) x := by
  induction r generalizing x with
  | ret a => exact fun _ _ => trivial
  | raise e' => exact fun _ _ => trivial
  | select k ih => exact fun y _ => ih y.view
  | write b t f ok fail ihok ihfail =>
      exact fun y _ _ => ⟨fun s _ => ⟨fun _ _ => hS _ _, ihok y.view⟩, fun _ => ihfail y.view⟩
  | commit t k ih => exact fun _ _ _ => ⟨fun _ _ => hS _ _, ih⟩
  | rollback k ih => exact fun _ _ => ih
  | act t g k ih => exact fun y _ _ => ⟨hS _ _, ih y.view y.mem⟩

/-- Any request publishes something or other. -/
theorem publishes_any (hS : ∀ x y, S.Allows p x y) (r : Request σ μ τ ε α)
    (past : List (σ × σ)) : Publishes S p (fun _ _ => True) (fun _ _ => True) past r x := by
  induction r generalizing x past with
  | ret a => exact ⟨fun _ => trivial, fun _ _ => trivial⟩
  | raise e' => exact ⟨fun _ => trivial, fun _ _ => trivial⟩
  | select k ih => exact fun y _ => ih y.view past
  | write b t f ok fail ihok ihfail =>
      intro y _ _
      constructor
      · exact fun s _ => ⟨fun _ => ⟨trivial, hS _ _, ihok y.view _⟩, fun _ => ihok y.view past⟩
      · exact fun _ => ihfail y.view past
  | commit t k ih =>
      intro y _ _
      constructor
      · exact fun _ => ih past
      · exact fun w _ => ⟨trivial, hS _ _, ih _⟩
  | rollback k ih => exact fun _ _ => ih past
  | act t g k ih => exact fun y _ _ => ⟨hS _ _, ih y.view y.mem past⟩

end

end AikoIsland.Stopping
