import AikoIsland.WriterLock

/-!
# Rely and guarantee for requests with one writer lock

A specification names an invariant of the committed store and the memory, and
for each request what the others may do to them between two of its statements.
`Safe` is the weakest precondition of a request under that interference: it is
closed under the environment at every statement, and it owes the guarantee
only where others can see the effect (a commit, a released savepoint, a
segment on the memory).

A request that holds the lock keeps the committed store to itself; the memory
is still open to everybody. The condition on labelled statements is assumed
where the statement is taken, so a result speaks about the runs that meet it.

Soundness: when every request of a configuration is safe, so is every
configuration that a run reaches, and a request that has ended satisfies its
postcondition there.
-/
namespace AikoIsland.RelyGuarantee
open WriterLock

variable {σ μ τ ε α β π : Type}

/-- What a family of requests agrees on. -/
structure Spec (π σ μ τ : Type) where
  inv : σ → μ → Prop
  rely : π → σ → μ → σ → μ → Prop
  meets : τ → Point σ μ → Prop
  rely_refl : ∀ p db mem, rely p db mem db mem
  rely_trans : ∀ {p db mem db' mem' db'' mem''},
    rely p db mem db' mem' → rely p db' mem' db'' mem'' → rely p db mem db'' mem''

namespace Spec

/-- What happens between two statements of `p`. -/
structure Env (S : Spec π σ μ τ) (p : π) (x y : Point σ μ) : Prop where
  work : y.work = x.work
  rely : S.rely p x.db x.mem y.db y.mem
  held : x.work.isSome = true → y.db = x.db
  inv : S.inv y.db y.mem

/-- The step from `x` to `y` keeps the invariant and what the others rely on. -/
structure Allows (S : Spec π σ μ τ) (p : π) (x y : Point σ μ) : Prop where
  inv : S.inv y.db y.mem
  others : ∀ q, q ≠ p → S.rely q x.db x.mem y.db y.mem

theorem Env.refl {S : Spec π σ μ τ} {p : π} {x : Point σ μ} (h : S.inv x.db x.mem) :
    S.Env p x x :=
  ⟨rfl, S.rely_refl p _ _, fun _ => rfl, h⟩

theorem Env.trans {S : Spec π σ μ τ} {p : π} {x y z : Point σ μ} (h : S.Env p x y)
    (h' : S.Env p y z) : S.Env p x z where
  work := h'.work.trans h.work
  rely := S.rely_trans h.rely h'.rely
  held hw := (h'.held (by rw [h.work]; exact hw)).trans (h.held hw)
  inv := h'.inv

theorem Env.rolledBack {S : Spec π σ μ τ} {p : π} {x y : Point σ μ} (h : S.Env p x y) :
    S.Env p x.rolledBack y.rolledBack where
  work := rfl
  rely := h.rely
  held hw := by cases hw
  inv := h.inv

theorem Env.free {S : Spec π σ μ τ} {p : π} {x y : Point σ μ} (h : S.Env p x y)
    (hw : x.work = none) : y.work = none :=
  h.work.trans hw

theorem Env.view_eq {S : Spec π σ μ τ} {p : π} {x y : Point σ μ} (h : S.Env p x y) {w : σ}
    (hw : x.work = some w) : y.view = w := by
  rw [Point.view_of_some (h.work.trans hw)]

theorem Env.rolledBack_of_free {S : Spec π σ μ τ} {p : π} {x y : Point σ μ} (h : S.Env p x y)
    (hx : x.work = none) : S.Env p x y.rolledBack where
  work := hx.symm
  rely := h.rely
  held hw := by
    rw [hx] at hw
    cases hw
  inv := h.inv

/-- Seen from before its first write, a transaction is one point with no lock. -/
theorem Env.unlocked {S : Spec π σ μ τ} {p : π} {x y z : Point σ μ} {w : Option σ}
    (hxy : S.Env p x y) (hx : x.work = none) (hyz : S.Env p { y with work := w } z) :
    S.Env p x z.rolledBack :=
  (hxy.rolledBack_of_free hx).trans hyz.rolledBack

/-- Under the lock, interference does not depend on the working copy. -/
theorem Env.rewritten {S : Spec π σ μ τ} {p : π} {x y : Point σ μ} (h : S.Env p x y) {w : σ}
    (hw : x.work = some w) (s : σ) :
    S.Env p { x with work := some s } { y with work := some s } where
  work := rfl
  rely := h.rely
  held _ := h.held (by simp [hw])
  inv := h.inv

/-- A fact about the store that every rely keeps also holds of what `p` sees. -/
theorem Env.stable {S : Spec π σ μ τ} {p : π} {x y : Point σ μ} (h : S.Env p x y)
    {V : σ → Prop} (hV : S.rely p x.db x.mem y.db y.mem → V x.db → V y.db) (hx : V x.view) :
    V y.view := by
  cases hw : x.work with
  | none =>
      rw [Point.view_of_none (h.free hw)]
      rw [Point.view_of_none hw] at hx
      exact hV h.rely hx
  | some w =>
      rw [h.view_eq hw]
      rwa [Point.view_of_some hw] at hx

theorem Env.db_eq {S : Spec π σ μ τ} {p : π} {x y : Point σ μ} (h : S.Env p x y) {w : σ}
    (hw : x.work = some w) : y.db = x.db :=
  h.held (by simp [hw])

end Spec

open Spec

/-- `r` is safe at `x`: it keeps the guarantee and ends in `Q` or, on an exception, in `E`. -/
def Safe (S : Spec π σ μ τ) (p : π) :
    Request σ μ τ ε α → (α → Point σ μ → Prop) → (ε → Point σ μ → Prop) → Point σ μ → Prop
  | .ret a, Q, _, x => ∀ y, S.Env p x y → Q a y
  | .raise e, _, E, x => ∀ y, S.Env p x y → E e y
  | .select k, Q, E, x => ∀ y, S.Env p x y → Safe S p (k y.view) Q E y
  | .write n t f ok fail, Q, E, x => ∀ y, S.Env p x y → S.meets t y →
      (∀ s, f y.view = some s →
        (n = true → y.work = none → S.Allows p y { y with db := s }) ∧
          Safe S p (ok y.view) Q E (y.wrote n s)) ∧
      (f y.view = none → Safe S p (fail y.view) Q E y.refused)
  | .commit t k, Q, E, x => ∀ y, S.Env p x y → S.meets t y →
      (∀ w, y.work = some w → S.Allows p y y.committed) ∧ Safe S p k Q E y.committed
  | .rollback k, Q, E, x => ∀ y, S.Env p x y → Safe S p k Q E y.rolledBack
  | .act t g k, Q, E, x => ∀ y, S.Env p x y → S.meets t y →
      S.Allows p y (y.acted g) ∧ Safe S p (k y.view y.mem) Q E (y.acted g)

section
variable {S : Spec π σ μ τ} {p : π} {x y : Point σ μ}

/-- Interference before a statement is part of its precondition. -/
theorem Safe.env {r : Request σ μ τ ε α} {Q : α → Point σ μ → Prop} {E : ε → Point σ μ → Prop}
    (h : Safe S p r Q E x) (he : S.Env p x y) : Safe S p r Q E y := by
  cases r <;> exact fun z hz => h z (he.trans hz)

/-- Weakening; the invariant holds wherever a request ends. -/
theorem Safe.mono {r : Request σ μ τ ε α} {Q Q' : α → Point σ μ → Prop}
    {E E' : ε → Point σ μ → Prop} (h : Safe S p r Q E x)
    (hQ : ∀ a y, S.inv y.db y.mem → Q a y → Q' a y)
    (hE : ∀ e y, S.inv y.db y.mem → E e y → E' e y) : Safe S p r Q' E' x := by
  induction r generalizing x with
  | ret a => exact fun y hy => hQ a y hy.inv (h y hy)
  | raise e => exact fun y hy => hE e y hy.inv (h y hy)
  | select k ih => exact fun y hy => ih y.view (h y hy)
  | write n t f ok fail ihok ihfail =>
      intro y hy hm
      refine ⟨fun s hs => ?_, fun hn => ihfail _ ((h y hy hm).2 hn)⟩
      exact ⟨((h y hy hm).1 s hs).1, ihok _ ((h y hy hm).1 s hs).2⟩
  | commit t k ih => exact fun y hy hm => ⟨(h y hy hm).1, ih (h y hy hm).2⟩
  | rollback k ih => exact fun y hy => ih (h y hy)
  | act t g k ih => exact fun y hy hm => ⟨(h y hy hm).1, ih _ _ (h y hy hm).2⟩

/-- A sequence is safe when the rest is safe wherever the first part may end. -/
theorem Safe.bind {r : Request σ μ τ ε α} {f : α → Request σ μ τ ε β}
    {Q : β → Point σ μ → Prop} {E : ε → Point σ μ → Prop}
    (h : Safe S p r (fun a y => Safe S p (f a) Q E y) E x) (hx : S.inv x.db x.mem) :
    Safe S p (r >>= f) Q E x := by
  change Safe S p (r.bind f) Q E x
  induction r generalizing x with
  | ret a => exact h x (Env.refl hx)
  | raise e => exact h
  | select k ih => exact fun y hy => ih _ (h y hy) hy.inv
  | write n t g ok fail ihok ihfail =>
      intro y hy hm
      refine ⟨fun s hs => ⟨((h y hy hm).1 s hs).1, ihok _ ((h y hy hm).1 s hs).2 ?_⟩,
        fun hn => ihfail _ ((h y hy hm).2 hn) hy.inv⟩
      unfold Point.wrote
      split_ifs with hw
      · obtain ⟨hn, hw⟩ := by simpa using hw
        exact (((h y hy hm).1 s hs).1 hn hw).inv
      · exact hy.inv
  | commit t k ih =>
      intro y hy hm
      refine ⟨(h y hy hm).1, ih (h y hy hm).2 ?_⟩
      cases hw : y.work with
      | none => simpa [Point.view_of_none hw] using hy.inv
      | some w => exact ((h y hy hm).1 w hw).inv
  | rollback k ih => exact fun y hy => ih (h y hy) hy.inv
  | act t g k ih => exact fun y hy hm => ⟨(h y hy hm).1, ih _ _ (h y hy hm).2 (h y hy hm).1.inv⟩

/-- `Safe.bind` from the specification of the first part. -/
theorem Safe.andThen {r : Request σ μ τ ε α} {f : α → Request σ μ τ ε β}
    {R : α → Point σ μ → Prop} {Q : β → Point σ μ → Prop} {E : ε → Point σ μ → Prop}
    (h : Safe S p r R E x) (hx : S.inv x.db x.mem)
    (hf : ∀ a y, S.inv y.db y.mem → R a y → Safe S p (f a) Q E y) :
    Safe S p (r >>= f) Q E x :=
  Safe.bind (h.mono hf fun _ _ _ he => he) hx

/-- A handler is safe when it is safe wherever an exception may leave the body. -/
theorem Safe.handle {r : Request σ μ τ ε α} {f : ε → Request σ μ τ ε α}
    {Q : α → Point σ μ → Prop} {E : ε → Point σ μ → Prop}
    (h : Safe S p r Q (fun e y => Safe S p (f e) Q E y) x) (hx : S.inv x.db x.mem) :
    Safe S p (r.handle f) Q E x := by
  induction r generalizing x with
  | ret a => exact h
  | raise e => exact h x (Env.refl hx)
  | select k ih => exact fun y hy => ih _ (h y hy) hy.inv
  | write n t g ok fail ihok ihfail =>
      intro y hy hm
      refine ⟨fun s hs => ⟨((h y hy hm).1 s hs).1, ihok _ ((h y hy hm).1 s hs).2 ?_⟩,
        fun hn => ihfail _ ((h y hy hm).2 hn) hy.inv⟩
      unfold Point.wrote
      split_ifs with hw
      · obtain ⟨hn, hw⟩ := by simpa using hw
        exact (((h y hy hm).1 s hs).1 hn hw).inv
      · exact hy.inv
  | commit t k ih =>
      intro y hy hm
      refine ⟨(h y hy hm).1, ih (h y hy hm).2 ?_⟩
      cases hw : y.work with
      | none => simpa [Point.view_of_none hw] using hy.inv
      | some w => exact ((h y hy hm).1 w hw).inv
  | rollback k ih => exact fun y hy => ih (h y hy) hy.inv
  | act t g k ih => exact fun y hy hm => ⟨(h y hy hm).1, ih _ _ (h y hy hm).2 (h y hy hm).1.inv⟩

theorem Safe.pure {a : α} {Q : α → Point σ μ → Prop} {E : ε → Point σ μ → Prop}
    (h : ∀ y, S.Env p x y → Q a y) : Safe S p (Pure.pure a : Request σ μ τ ε α) Q E x :=
  h

theorem Safe.pure_bind {a : α} {f : α → Request σ μ τ ε β} {Q : β → Point σ μ → Prop}
    {E : ε → Point σ μ → Prop} (h : Safe S p (f a) Q E x) : Safe S p (Pure.pure a >>= f) Q E x :=
  h

theorem Safe.raise {e : ε} {Q : α → Point σ μ → Prop} {E : ε → Point σ μ → Prop}
    (h : ∀ y, S.Env p x y → E e y) : Safe S p (.raise e : Request σ μ τ ε α) Q E x :=
  h

theorem Safe.query {q : σ → α} {f : α → Request σ μ τ ε β} {Q : β → Point σ μ → Prop}
    {E : ε → Point σ μ → Prop} (h : ∀ y, S.Env p x y → Safe S p (f (q y.view)) Q E y) :
    Safe S p (Request.query q >>= f) Q E x :=
  h

theorem Safe.exec {t : τ} {g : σ → σ} {q : σ → α} {f : α → Request σ μ τ ε β}
    {Q : β → Point σ μ → Prop} {E : ε → Point σ μ → Prop}
    (h : ∀ y, S.Env p x y → S.meets t y →
      Safe S p (f (q y.view)) Q E { y with work := some (g y.view) }) :
    Safe S p (Request.exec t g q >>= f) Q E x := by
  intro y hy hm
  refine ⟨fun s hs => ⟨fun hn => absurd hn (by decide), ?_⟩, fun hn => by cases hn⟩
  obtain rfl : g y.view = s := Option.some.inj hs
  exact h y hy hm

theorem Safe.attempt {n : Bool} {t : τ} {g : σ → Option σ} {f : Bool → Request σ μ τ ε β}
    {Q : β → Point σ μ → Prop} {E : ε → Point σ μ → Prop}
    (hok : ∀ y s, S.Env p x y → S.meets t y → g y.view = some s →
      (n = true → y.work = none → S.Allows p y { y with db := s }) ∧
        Safe S p (f true) Q E (y.wrote n s))
    (hfail : ∀ y, S.Env p x y → S.meets t y → g y.view = none →
      Safe S p (f false) Q E y.refused) :
    Safe S p (Request.attempt n t g >>= f) Q E x :=
  fun y hy hm => ⟨fun s hs => hok y s hy hm hs, fun hn => hfail y hy hm hn⟩

theorem Safe.atomically {t : τ} {g : σ → μ → μ} {q : σ → μ → α} {f : α → Request σ μ τ ε β}
    {Q : β → Point σ μ → Prop} {E : ε → Point σ μ → Prop}
    (h : ∀ y, S.Env p x y → S.meets t y →
      S.Allows p y (y.acted g) ∧ Safe S p (f (q y.view y.mem)) Q E (y.acted g)) :
    Safe S p (Request.atomically t g q >>= f) Q E x :=
  h

theorem Safe.commit {t : τ} {f : Unit → Request σ μ τ ε β}
    {Q : β → Point σ μ → Prop} {E : ε → Point σ μ → Prop}
    (h : ∀ y, S.Env p x y → S.meets t y →
      (∀ w, y.work = some w → S.Allows p y y.committed) ∧ Safe S p (f ()) Q E y.committed) :
    Safe S p (Request.commitNow t >>= f) Q E x :=
  h

theorem Safe.rollback {f : Unit → Request σ μ τ ε β}
    {Q : β → Point σ μ → Prop} {E : ε → Point σ μ → Prop}
    (h : ∀ y, S.Env p x y → Safe S p (f ()) Q E y.rolledBack) :
    Safe S p (Request.rollbackNow >>= f) Q E x :=
  h

/-- A session leaves no lock behind: its postconditions hold after the closing rollback. -/
theorem Safe.session {r : Request σ μ τ ε α} {Q : α → Point σ μ → Prop}
    {E : ε → Point σ μ → Prop}
    (h : Safe S p r (fun a y => ∀ z, S.Env p y.rolledBack z → Q a z)
      (fun e y => ∀ z, S.Env p y.rolledBack z → E e z) x) (hx : S.inv x.db x.mem) :
    Safe S p r.session Q E x := by
  refine Safe.bind (Safe.handle (h.mono ?_ ?_) hx) hx
  · intro a y _ hy z hz v hv
    exact hy v (hz.rolledBack.trans hv)
  · intro e y _ hy z hz v hv
    exact hy v (hz.rolledBack.trans hv)

/-- The step lemma of one request: what it owes, and that it stays safe. -/
theorem Safe.advance {r : Request σ μ τ ε α} {Q : α → Point σ μ → Prop}
    {E : ε → Point σ μ → Prop} {x : Point σ μ} (h : Safe S p r Q E x) (hx : S.inv x.db x.mem)
    (hr : r.ended = false) (hm : ∀ t ∈ r.label, S.meets t x) :
    S.Allows p x (r.advance x).2 ∧ Safe S p (r.advance x).1 Q E (r.advance x).2 := by
  have hstay : ∀ w, S.Allows p x { x with work := w } :=
    fun w => ⟨hx, fun q _ => S.rely_refl q _ _⟩
  have henv : S.Env p x x := Env.refl hx
  cases r with
  | ret a => cases hr
  | raise e => cases hr
  | select k => exact ⟨hstay x.work, h x henv⟩
  | write n t f ok fail =>
      obtain ⟨hok, hfail⟩ := h x henv (hm t rfl)
      simp only [Request.advance]
      cases hf : f x.view with
      | none => exact ⟨hstay _, hfail hf⟩
      | some s =>
          refine ⟨?_, (hok s hf).2⟩
          unfold Point.wrote
          split_ifs with hw
          · obtain ⟨hn, hw⟩ := by simpa using hw
            exact (hok s hf).1 hn hw
          · exact hstay _
  | commit t k =>
      obtain ⟨hall, hk⟩ := h x henv (hm t rfl)
      refine ⟨?_, hk⟩
      cases hw : x.work with
      | none =>
          have hc : x.committed = { x with work := none } := by
            simp [Point.committed, Point.view_of_none hw]
          simpa [Request.advance, hc] using hstay none
      | some w => exact hall w hw
  | rollback k => exact ⟨hstay none, h x henv⟩
  | act t g k => exact h x henv (hm t rfl)

/-- What a request owes when it has settled, having taken the lock in the transaction of `x`. -/
def Settles (S : Spec π σ μ τ) (p : π) (Q : α → Point σ μ → Prop) (E : ε → Point σ μ → Prop)
    (x : Point σ μ) : Settled σ μ τ ε α → Prop
  | .returned a s => ∀ y, S.Env p { x with work := some s } y → Q a y
  | .raised e s => ∀ y, S.Env p { x with work := some s } y → E e y
  | .committed t s k => ∀ y, S.Env p { x with work := some s } y → S.meets t y →
      S.Allows p y y.committed ∧ Safe S p k Q E y.committed
  | .rolledBack k => ∀ y, S.Env p x.rolledBack y → Safe S p k Q E y
  | .acting t g k s => Safe S p (.act t g k) Q E { x with work := some s }

theorem Settles.env {Q : α → Point σ μ → Prop} {E : ε → Point σ μ → Prop} {w : σ}
    {o : Settled σ μ τ ε α} (hw : x.work = some w) (he : S.Env p x y) (h : Settles S p Q E x o) :
    Settles S p Q E y o := by
  cases o with
  | returned a s => exact fun z hz => h z ((he.rewritten hw s).trans hz)
  | raised e s => exact fun z hz => h z ((he.rewritten hw s).trans hz)
  | committed t s k => exact fun z hz => h z ((he.rewritten hw s).trans hz)
  | rolledBack k => exact fun z hz => h z (he.rolledBack.trans hz)
  | acting t g k s => exact Safe.env h (he.rewritten hw s)

theorem Settles.rewritten {Q : α → Point σ μ → Prop} {E : ε → Point σ μ → Prop} {w : Option σ}
    {o : Settled σ μ τ ε α} (h : Settles S p Q E x o) :
    Settles S p Q E { x with work := w } o := by
  cases o <;> exact h

/-- With the lock held nobody changes the store: the statements up to the commit, the rollback
or the first segment on the memory are one computation on the working copy. -/
theorem Safe.settle {r : Request σ μ τ ε α} {Q : α → Point σ μ → Prop} {E : ε → Point σ μ → Prop}
    {w : σ} (hw : x.work = some w) (h : Settles S p Q E x (r.settle w)) : Safe S p r Q E x := by
  have hself : ∀ {y : Point σ μ} {s : σ}, y.work = some s → ({ y with work := some s }) = y := by
    rintro ⟨db, mem, _⟩ s rfl
    rfl
  have hsame : ∀ {y : Point σ μ}, S.Env p x y → S.Env p { x with work := some w } y := by
    intro y hy
    rwa [hself hw]
  induction r generalizing x w with
  | ret a => exact fun y hy => h y (hsame hy)
  | raise e => exact fun y hy => h y (hsame hy)
  | select k ih =>
      intro y hy
      have hyw : y.work = some w := hy.work.trans hw
      rw [hy.view_eq hw]
      exact ih w hyw (h.env hw hy) fun hz => by rwa [hself hyw]
  | write n t f ok fail ihok ihfail =>
      intro y hy hm
      have hyw : y.work = some w := hy.work.trans hw
      rw [hy.view_eq hw]
      simp only [Request.settle] at h
      refine ⟨fun s hs => ⟨fun _ hnone => ?_, ?_⟩, fun hn => ?_⟩
      · rw [hyw] at hnone
        cases hnone
      · rw [hs] at h
        have hwrote : y.wrote n s = { y with work := some s } := by
          simp [Point.wrote, hyw]
        rw [hwrote]
        exact ihok w rfl (h.env hw hy).rewritten fun hz => hz
      · rw [hn] at h
        have hrefused : y.refused = y := by
          rw [Point.refused, hy.view_eq hw, hself hyw]
        rw [hrefused]
        exact ihfail w hyw (h.env hw hy) fun hz => by rwa [hself hyw]
  | commit t k ih => exact fun y hy hm => ⟨fun _ _ => (h y (hsame hy) hm).1, (h y (hsame hy) hm).2⟩
  | rollback k ih =>
      intro y hy
      exact h y.rolledBack hy.rolledBack
  | act t g k ih =>
      have hact : Safe S p (.act t g k) Q E { x with work := some w } := h
      rwa [hself hw] at hact

/-- A list of writes under the lock is the fold of its updates. -/
theorem Safe.execHeld (ss : List (τ × (σ → σ))) {k : PUnit → Request σ μ τ ε β}
    {Q : β → Point σ μ → Prop} {E : ε → Point σ μ → Prop} {w : σ} (hw : x.work = some w)
    (h : Safe S p (k ()) Q E { x with work := some (ss.foldl (fun s t => t.2 s) w) }) :
    Safe S p (ss.forM (fun s => Request.exec s.1 s.2 fun _ => ()) >>= k) Q E x := by
  induction ss generalizing x w with
  | nil =>
      have hx : ({ x with work := some w } : Point σ μ) = x := by rw [← hw]
      rw [List.foldl_nil, hx] at h
      exact h
  | cons s ss ih =>
      intro y hy _
      refine ⟨fun v hv => ⟨fun hn => absurd hn (by decide), ?_⟩, fun hn => by cases hn⟩
      obtain rfl : s.2 y.view = v := Option.some.inj hv
      rw [hy.view_eq hw]
      exact ih rfl (h.env (hy.rewritten hw _))

/-- A list of writes takes the lock with its first one and is the fold of its updates. -/
theorem Safe.execAll {ss : List (τ × (σ → σ))} (hne : ss ≠ []) {k : PUnit → Request σ μ τ ε β}
    {Q : β → Point σ μ → Prop} {E : ε → Point σ μ → Prop}
    (h : ∀ y, S.Env p x y →
      Safe S p (k ()) Q E { y with work := some (ss.foldl (fun s t => t.2 s) y.view) }) :
    Safe S p (ss.forM (fun s => Request.exec s.1 s.2 fun _ => ()) >>= k) Q E x := by
  cases ss with
  | nil => exact absurd rfl hne
  | cons s ss =>
      intro y hy _
      refine ⟨fun v hv => ⟨fun hn => absurd hn (by decide), ?_⟩, fun hn => by cases hn⟩
      obtain rfl : s.2 y.view = v := Option.some.inj hv
      exact Safe.execHeld ss rfl (h y hy)

end

/-- Every request of `c` is safe where it stands. -/
structure Sound [DecidableEq π] (S : Spec π σ μ τ) (Q : π → α → Point σ μ → Prop)
    (E : π → ε → Point σ μ → Prop) (c : Cfg π σ μ τ ε α) : Prop where
  inv : S.inv c.db c.mem
  safe : ∀ p, Safe S p (c.procs p) (Q p) (E p) (c.point p)

section
variable [DecidableEq π] {S : Spec π σ μ τ} {Q : π → α → Point σ μ → Prop}
  {E : π → ε → Point σ μ → Prop} {c c' : Cfg π σ μ τ ε α} {p : π}

/-- The step lemma of a configuration. -/
theorem Sound.step (h : Sound S Q E c) (hm : c.Meets S.meets p) (hs : c.step p = some c') :
    Sound S Q E c' := by
  obtain ⟨hend, hlock, rfl⟩ := Cfg.step_cases hs
  obtain ⟨hallow, hsafe⟩ := (h.safe p).advance h.inv hend hm
  have hfree : c.locked p = true →
      ((c.procs p).advance (c.point p)).2.db = c.db ∧
        ((c.procs p).advance (c.point p)).2.work = none := by
    intro hl
    have hw : (c.procs p).writes = false := by
      by_contra hne
      rw [hlock (by simpa using hne)] at hl
      cases hl
    exact Request.advance_free hw (Cfg.work_of_locked hl)
  refine ⟨hallow.inv, fun q => ?_⟩
  by_cases hqp : q = p
  · subst hqp
    rw [Cfg.point_put_self]
    simpa [Cfg.put] using hsafe
  · have hwork := Cfg.work_put_other (c := c) hqp ((c.procs p).advance (c.point p)).1
      (fun hl => (hfree hl).2)
    have hproc : (c.put p ((c.procs p).advance (c.point p)).1
        ((c.procs p).advance (c.point p)).2).procs q = c.procs q := by
      simp [Cfg.put, hqp]
    rw [hproc]
    refine (h.safe q).env ⟨hwork, hallow.others q hqp, fun hheld => ?_, hallow.inv⟩
    obtain ⟨s, hs⟩ := Option.isSome_iff_exists.mp hheld
    exact (hfree (Cfg.locked_of_work hs hqp)).1

/-- The run lemma: safety holds in every configuration that a run reaches. -/
theorem Sound.reach (h : Sound S Q E c) (hr : Cfg.Reach S.meets c c') : Sound S Q E c' := by
  induction hr with
  | start => exact h
  | step _ hm hs ih => exact ih.step hm hs

theorem Sound.init {db : σ} {mem : μ} {procs : π → Request σ μ τ ε α} (hi : S.inv db mem)
    (hp : ∀ p, Safe S p (procs p) (Q p) (E p) ⟨db, mem, none⟩) :
    Sound S Q E (Cfg.init db mem procs) :=
  ⟨hi, hp⟩

/-- A request that has returned satisfies its postcondition where it stands. -/
theorem Sound.returned (h : Sound S Q E c) {a : α} (hp : c.procs p = .ret a) :
    Q p a (c.point p) := by
  have hs := h.safe p
  rw [hp] at hs
  exact hs _ (Env.refl h.inv)

theorem Sound.raised (h : Sound S Q E c) {e : ε} (hp : c.procs p = .raise e) :
    E p e (c.point p) := by
  have hs := h.safe p
  rw [hp] at hs
  exact hs _ (Env.refl h.inv)

/-- What a step of another request does is within the rely. -/
theorem Sound.step_rely (h : Sound S Q E c) (hm : c.Meets S.meets p) (hs : c.step p = some c')
    {q : π} (hq : q ≠ p) : S.rely q c.db c.mem c'.db c'.mem := by
  obtain ⟨hend, _, rfl⟩ := Cfg.step_cases hs
  exact ((h.safe p).advance h.inv hend hm).1.others q hq

/-- A request that has returned stays so, and all that happens since is within its rely. -/
theorem Sound.since_returned (h : Sound S Q E c) {q : π} {a : α} (hq : c.procs q = .ret a)
    (hr : Cfg.Reach S.meets c c') :
    c'.procs q = .ret a ∧ S.rely q c.db c.mem c'.db c'.mem := by
  induction hr with
  | start => exact ⟨hq, S.rely_refl q _ _⟩
  | @step d d' r hr hm hs ih =>
      obtain ⟨hret, hrely⟩ := ih
      obtain ⟨hend, _, hput⟩ := Cfg.step_cases hs
      have hne : q ≠ r := by
        rintro rfl
        rw [hret] at hend
        cases hend
      refine ⟨?_, S.rely_trans hrely ((h.reach hr).step_rely hm hs hne)⟩
      rw [hput]
      simpa [Cfg.put, hne] using hret

end

end AikoIsland.RelyGuarantee
