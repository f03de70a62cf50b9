import AikoIsland.Publishing

/-!
# Labels that say whose statement it is

A condition on runs sees the label of a statement and the point where it is
taken. `Request.relabel` puts more into the labels, such as the call that the
statement belongs to; what is proved of a request under the labels it was
written with then holds of the relabelled one, the condition read through the
map of labels.
-/
namespace AikoIsland.Relabelling
open WriterLock RelyGuarantee Publishing

variable {σ μ τ τ' ε α β π : Type}

/-- The same statements under other labels. -/
def relabel (g : τ → τ') : Request σ μ τ ε α → Request σ μ τ' ε α
  | .ret a => .ret a
  | .raise e => .raise e
  | .select k => .select fun s => relabel g (k s)
  | .write n t f ok fail =>
      .write n (g t) f (fun s => relabel g (ok s)) fun s => relabel g (fail s)
  | .commit t k => .commit (g t) (relabel g k)
  | .rollback k => .rollback (relabel g k)
  | .act t h k => .act (g t) h fun s m => relabel g (k s m)

/-- A specification read through the map of labels. -/
def along (g : τ → τ') (S : Spec π σ μ τ') : Spec π σ μ τ where
  inv := S.inv
  rely := S.rely
  meets t x := S.meets (g t) x
  rely_refl := S.rely_refl
  rely_trans := S.rely_trans

section
variable {g : τ → τ'} {S : Spec π σ μ τ'} {p : π} {x y : Point σ μ}

theorem env_along (h : S.Env p x y) : (along g S).Env p x y :=
  ⟨h.work, h.rely, h.held, h.inv⟩

theorem allows_of_along (h : (along g S).Allows p x y) : S.Allows p x y :=
  ⟨h.inv, h.others⟩

theorem safe_relabel {r : Request σ μ τ ε α} {Q : α → Point σ μ → Prop}
    {E : ε → Point σ μ → Prop} (h : Safe (along g S) p r Q E x) :
    Safe S p (relabel g r) Q E x := by
  induction r generalizing x with
  | ret a => exact fun y hy => h y (env_along hy)
  | raise e => exact fun y hy => h y (env_along hy)
  | select k ih => exact fun y hy => ih y.view (h y (env_along hy))
  | write n t f ok fail ihok ihfail =>
      intro y hy hm
      obtain ⟨hok, hfail⟩ := h y (env_along hy) hm
      constructor
      · intro s hs
        obtain ⟨hallow, hnext⟩ := hok s hs
        exact ⟨fun hn hw => allows_of_along (hallow hn hw), ihok y.view hnext⟩
      · exact fun hn => ihfail y.view (hfail hn)
  | commit t k ih =>
      intro y hy hm
      obtain ⟨hallow, hnext⟩ := h y (env_along hy) hm
      exact ⟨fun w hw => allows_of_along (hallow w hw), ih hnext⟩
  | rollback k ih => exact fun y hy => ih (h y (env_along hy))
  | act t f k ih =>
      intro y hy hm
      obtain ⟨hallow, hnext⟩ := h y (env_along hy) hm
      exact ⟨allows_of_along hallow, ih y.view y.mem hnext⟩

theorem publishes_relabel {r : Request σ μ τ ε α} {G : σ → σ → Prop}
    {N : Option (σ × σ) → Except ε α → Prop} {past : List (σ × σ)}
    (h : Publishes (along g S) p G N past r x) : Publishes S p G N past (relabel g r) x := by
  induction r generalizing x past with
  | ret a => exact h
  | raise e => exact h
  | select k ih => exact fun y hy => ih y.view (h y (env_along hy))
  | write n t f ok fail ihok ihfail =>
      intro y hy hm
      obtain ⟨hok, hfail⟩ := h y (env_along hy) hm
      constructor
      · intro s hs
        constructor
        · intro hn
          obtain ⟨hg, hallow, hnext⟩ := (hok s hs).1 hn
          exact ⟨hg, allows_of_along hallow, ihok y.view hnext⟩
        · exact fun hn => ihok y.view ((hok s hs).2 hn)
      · exact fun hn => ihfail y.view (hfail hn)
  | commit t k ih =>
      intro y hy hm
      obtain ⟨hfree, hheld⟩ := h y (env_along hy) hm
      constructor
      · exact fun hw => ih (hfree hw)
      · intro w hw
        obtain ⟨hg, hallow, hnext⟩ := hheld w hw
        exact ⟨hg, allows_of_along hallow, ih hnext⟩
  | rollback k ih => exact fun y hy => ih (h y (env_along hy))
  | act t f k ih =>
      intro y hy hm
      obtain ⟨hallow, hnext⟩ := h y (env_along hy) hm
      exact ⟨allows_of_along hallow, ih y.view y.mem hnext⟩

end

end AikoIsland.Relabelling
