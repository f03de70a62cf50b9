import AikoIsland.RelyGuarantee

/-!
# Footprints: what the statements of a request may be

A footprint says of every write of a request which labelled statement it is,
and of every atomic segment which update of the memory, on every branch. It is
established once for a request, by following its text, and says nothing about
the order of the statements.

A specification whose relation between two stores is reflexive and transitive,
and is kept by each statement of a footprint, holds of every request with that
footprint: the working copy stays related to the committed store, so a commit
owes nothing more. A request that breaks the relation in the middle of its
transaction and repairs it before the commit needs the rules of `Safe` instead.
-/
namespace AikoIsland.Footprint
open WriterLock RelyGuarantee

variable {σ μ τ ε α β π : Type}

/-- Every write of `r` is one of `W`, every segment on the memory is one of `A`. -/
def Uses (W : τ → (σ → Option σ) → Prop) (A : τ → (σ → μ → μ) → Prop) :
    Request σ μ τ ε α → Prop
  | .ret _ => True
  | .raise _ => True
  | .select k => ∀ v, Uses W A (k v)
  | .write _ t f ok fail => W t f ∧ (∀ v, Uses W A (ok v)) ∧ ∀ v, Uses W A (fail v)
  | .commit _ k => Uses W A k
  | .rollback k => Uses W A k
  | .act t g k => A t g ∧ ∀ v m, Uses W A (k v m)

section
variable {W W' : τ → (σ → Option σ) → Prop} {A A' : τ → (σ → μ → μ) → Prop}

theorem Uses.mono {r : Request σ μ τ ε α} (h : Uses W A r) (hW : ∀ t f, W t f → W' t f)
    (hA : ∀ t g, A t g → A' t g) : Uses W' A' r := by
  induction r with
  | ret a => trivial
  | raise e => trivial
  | select k ih => exact fun v => ih v (h v)
  | write n t f ok fail ihok ihfail =>
      exact ⟨hW t f h.1, fun v => ihok v (h.2.1 v), fun v => ihfail v (h.2.2 v)⟩
  | commit t k ih => exact ih h
  | rollback k ih => exact ih h
  | act t g k ih => exact ⟨hA t g h.1, fun v m => ih v m (h.2 v m)⟩

theorem Uses.pure (a : α) : Uses W A (Pure.pure a : Request σ μ τ ε α) := trivial

theorem Uses.raise (e : ε) : Uses W A (.raise e : Request σ μ τ ε α) := trivial

theorem Uses.bind {r : Request σ μ τ ε α} {f : α → Request σ μ τ ε β} (h : Uses W A r)
    (hf : ∀ a, Uses W A (f a)) : Uses W A (r >>= f) := by
  change Uses W A (r.bind f)
  induction r with
  | ret a => exact hf a
  | raise e => trivial
  | select k ih => exact fun v => ih v (h v)
  | write n t g ok fail ihok ihfail =>
      exact ⟨h.1, fun v => ihok v (h.2.1 v), fun v => ihfail v (h.2.2 v)⟩
  | commit t k ih => exact ih h
  | rollback k ih => exact ih h
  | act t g k ih => exact ⟨h.1, fun v m => ih v m (h.2 v m)⟩

theorem Uses.handle {r : Request σ μ τ ε α} {f : ε → Request σ μ τ ε α} (h : Uses W A r)
    (hf : ∀ e, Uses W A (f e)) : Uses W A (r.handle f) := by
  induction r with
  | ret a => trivial
  | raise e => exact hf e
  | select k ih => exact fun v => ih v (h v)
  | write n t g ok fail ihok ihfail =>
      exact ⟨h.1, fun v => ihok v (h.2.1 v), fun v => ihfail v (h.2.2 v)⟩
  | commit t k ih => exact ih h
  | rollback k ih => exact ih h
  | act t g k ih => exact ⟨h.1, fun v m => ih v m (h.2 v m)⟩

theorem Uses.session {r : Request σ μ τ ε α} (h : Uses W A r) : Uses W A r.session :=
  Uses.bind (Uses.handle h fun _ => trivial) fun _ => trivial

theorem Uses.query (q : σ → α) : Uses W A (Request.query q : Request σ μ τ ε α) :=
  fun _ => trivial

theorem Uses.exec {t : τ} {f : σ → σ} {q : σ → α} (h : W t fun s => some (f s)) :
    Uses W A (Request.exec t f q : Request σ μ τ ε α) :=
  ⟨h, fun _ => trivial, fun _ => trivial⟩

theorem Uses.attempt {n : Bool} {t : τ} {f : σ → Option σ} (h : W t f) :
    Uses W A (Request.attempt n t f : Request σ μ τ ε Bool) :=
  ⟨h, fun _ => trivial, fun _ => trivial⟩

theorem Uses.atomically {t : τ} {g : σ → μ → μ} {q : σ → μ → α} (h : A t g) :
    Uses W A (Request.atomically t g q : Request σ μ τ ε α) :=
  ⟨h, fun _ _ => trivial⟩

theorem Uses.commitNow (t : τ) : Uses W A (Request.commitNow t : Request σ μ τ ε Unit) :=
  trivial

theorem Uses.rollbackNow : Uses W A (Request.rollbackNow : Request σ μ τ ε Unit) :=
  trivial

/-- A loop uses what its body uses. -/
theorem Uses.forM {xs : List β} {f : β → Request σ μ τ ε PUnit} (h : ∀ x ∈ xs, Uses W A (f x)) :
    Uses W A (xs.forM f) := by
  induction xs with
  | nil => trivial
  | cons x xs ih =>
      exact Uses.bind (h x List.mem_cons_self) fun _ =>
        ih fun y hy => h y (List.mem_cons_of_mem x hy)

end

/-! ## Footprints over good stores -/

/-- As `Uses`, on the branches that see stores with `I` only; every result satisfies `Q`. -/
def Performs (I : σ → Prop) (W : τ → (σ → Option σ) → Prop) (A : τ → (σ → μ → μ) → Prop)
    (Q : α → Prop) : Request σ μ τ ε α → Prop
  | .ret a => Q a
  | .raise _ => True
  | .select k => ∀ v, I v → Performs I W A Q (k v)
  | .write _ t f ok fail =>
      W t f ∧ (∀ v, I v → Performs I W A Q (ok v)) ∧ ∀ v, I v → Performs I W A Q (fail v)
  | .commit _ k => Performs I W A Q k
  | .rollback k => Performs I W A Q k
  | .act t g k => A t g ∧ ∀ v m, I v → Performs I W A Q (k v m)

section
variable {I : σ → Prop} {W : τ → (σ → Option σ) → Prop} {A : τ → (σ → μ → μ) → Prop}
  {Q Q' : α → Prop}

theorem Performs.mono {r : Request σ μ τ ε α} (h : Performs I W A Q r) (hQ : ∀ a, Q a → Q' a) :
    Performs I W A Q' r := by
  induction r with
  | ret a => exact hQ a h
  | raise e => trivial
  | select k ih => exact fun v hv => ih v (h v hv)
  | write n t f ok fail ihok ihfail =>
      exact ⟨h.1, fun v hv => ihok v (h.2.1 v hv), fun v hv => ihfail v (h.2.2 v hv)⟩
  | commit t k ih => exact ih h
  | rollback k ih => exact ih h
  | act t g k ih => exact ⟨h.1, fun v m hv => ih v m (h.2 v m hv)⟩

theorem Uses.performs {r : Request σ μ τ ε α} (h : Uses W A r) :
    Performs I W A (fun _ => True) r := by
  induction r with
  | ret a => trivial
  | raise e => trivial
  | select k ih => exact fun v _ => ih v (h v)
  | write n t f ok fail ihok ihfail =>
      exact ⟨h.1, fun v _ => ihok v (h.2.1 v), fun v _ => ihfail v (h.2.2 v)⟩
  | commit t k ih => exact ih h
  | rollback k ih => exact ih h
  | act t g k ih => exact ⟨h.1, fun v m _ => ih v m (h.2 v m)⟩

theorem Performs.bind {r : Request σ μ τ ε α} {f : α → Request σ μ τ ε β} {Q : β → Prop}
    {R : α → Prop} (h : Performs I W A R r) (hf : ∀ a, R a → Performs I W A Q (f a)) :
    Performs I W A Q (r >>= f) := by
  change Performs I W A Q (r.bind f)
  induction r with
  | ret a => exact hf a h
  | raise e => trivial
  | select k ih => exact fun v hv => ih v (h v hv)
  | write n t g ok fail ihok ihfail =>
      exact ⟨h.1, fun v hv => ihok v (h.2.1 v hv), fun v hv => ihfail v (h.2.2 v hv)⟩
  | commit t k ih => exact ih h
  | rollback k ih => exact ih h
  | act t g k ih => exact ⟨h.1, fun v m hv => ih v m (h.2 v m hv)⟩

theorem Performs.handle {r : Request σ μ τ ε α} {f : ε → Request σ μ τ ε α}
    (h : Performs I W A Q r) (hf : ∀ e, Performs I W A Q (f e)) :
    Performs I W A Q (r.handle f) := by
  induction r with
  | ret a => exact h
  | raise e => exact hf e
  | select k ih => exact fun v hv => ih v (h v hv)
  | write n t g ok fail ihok ihfail =>
      exact ⟨h.1, fun v hv => ihok v (h.2.1 v hv), fun v hv => ihfail v (h.2.2 v hv)⟩
  | commit t k ih => exact ih h
  | rollback k ih => exact ih h
  | act t g k ih => exact ⟨h.1, fun v m hv => ih v m (h.2 v m hv)⟩

theorem Performs.session {r : Request σ μ τ ε α} (h : Performs I W A Q r) :
    Performs I W A Q r.session :=
  Performs.bind (Performs.handle h fun _ => trivial) fun _ ha => ha

theorem Performs.query {q : σ → α} (h : ∀ s, I s → Q (q s)) :
    Performs I W A Q (Request.query q : Request σ μ τ ε α) :=
  h

end

/-! ## Exceptions -/

/-- Every exception that `r` may raise satisfies `P`. -/
def Raises (P : ε → Prop) : Request σ μ τ ε α → Prop
  | .ret _ => True
  | .raise e => P e
  | .select k => ∀ v, Raises P (k v)
  | .write _ _ _ ok fail => (∀ v, Raises P (ok v)) ∧ ∀ v, Raises P (fail v)
  | .commit _ k => Raises P k
  | .rollback k => Raises P k
  | .act _ _ k => ∀ v m, Raises P (k v m)

section
variable {P : ε → Prop}

theorem Raises.bind {r : Request σ μ τ ε α} {f : α → Request σ μ τ ε β} (h : Raises P r)
    (hf : ∀ a, Raises P (f a)) : Raises P (r >>= f) := by
  change Raises P (r.bind f)
  induction r with
  | ret a => exact hf a
  | raise e => exact h
  | select k ih => exact fun v => ih v (h v)
  | write n t g ok fail ihok ihfail => exact ⟨fun v => ihok v (h.1 v), fun v => ihfail v (h.2 v)⟩
  | commit t k ih => exact ih h
  | rollback k ih => exact ih h
  | act t g k ih => exact fun v m => ih v m (h v m)

/-- What a request may raise at all is part of its exceptional postcondition. -/
theorem Raises.safe {S : Spec π σ μ τ} {p : π} {x : Point σ μ} {r : Request σ μ τ ε α}
    {Q : α → Point σ μ → Prop} {E : ε → Point σ μ → Prop} (h : Raises P r)
    (hs : Safe S p r Q E x) : Safe S p r Q (fun e y => P e ∧ E e y) x := by
  induction r generalizing x with
  | ret a => exact hs
  | raise e => exact fun y hy => ⟨h, hs y hy⟩
  | select k ih => exact fun y hy => ih _ (h _) (hs y hy)
  | write n t g ok fail ihok ihfail =>
      intro y hy hm
      obtain ⟨hok, hfail⟩ := hs y hy hm
      exact ⟨fun s hg => ⟨(hok s hg).1, ihok _ (h.1 _) (hok s hg).2⟩,
        fun hn => ihfail _ (h.2 _) (hfail hn)⟩
  | commit t k ih => exact fun y hy hm => ⟨(hs y hy hm).1, ih h (hs y hy hm).2⟩
  | rollback k ih => exact fun y hy => ih h (hs y hy)
  | act t g k ih => exact fun y hy hm => ⟨(hs y hy hm).1, ih _ _ (h _ _) (hs y hy hm).2⟩

end

/-! ## Lookups -/

/-- Every branch of `r` that returns has passed a lookup: a SELECT which, with the request that
was left and the store it saw, is related by `L` to the result. `done` is what was passed before. -/
def Through (L : Request σ μ τ ε α → σ → α → Prop) : (α → Prop) → Request σ μ τ ε α → Prop
  | done, .ret a => done a
  | _, .raise _ => True
  | done, .select k => ∀ s, Through L (fun a => done a ∨ L (.select k) s a) (k s)
  | done, .write _ _ _ ok fail => (∀ s, Through L done (ok s)) ∧ ∀ s, Through L done (fail s)
  | done, .commit _ k => Through L done k
  | done, .rollback k => Through L done k
  | done, .act _ _ k => ∀ s m, Through L done (k s m)

section
variable {L : Request σ μ τ ε α → σ → α → Prop} {done done' : α → Prop}

theorem Through.mono {r : Request σ μ τ ε α} (h : Through L done r)
    (hd : ∀ a, done a → done' a) : Through L done' r := by
  induction r generalizing done done' with
  | ret a => exact hd a h
  | raise e => trivial
  | select k ih => exact fun s => ih s (h s) fun a => Or.imp_left (hd a)
  | write n t f ok fail ihok ihfail => exact ⟨fun s => ihok s (h.1 s) hd, fun s => ihfail s (h.2 s) hd⟩
  | commit t k ih => exact ih h hd
  | rollback k ih => exact ih h hd
  | act t g k ih => exact fun s m => ih s m (h s m) hd

/-- What follows a first part may pass the lookup. -/
theorem Through.bind {r : Request σ μ τ ε β} {f : β → Request σ μ τ ε α}
    (h : ∀ b, Through L done (f b)) : Through L done (r >>= f) := by
  change Through L done (r.bind f)
  induction r with
  | ret b => exact h b
  | raise e => trivial
  | select k ih => exact fun s => (ih s).mono fun a => Or.inl
  | write n t g ok fail ihok ihfail => exact ⟨ihok, ihfail⟩
  | commit t k ih => exact ih
  | rollback k ih => exact ih
  | act t g k ih => exact ih

theorem Through.session_bind {r : Request σ μ τ ε β} {f : β → Request σ μ τ ε α}
    (h : ∀ b, Through L done (f b).session) : Through L done (r >>= f).session := by
  change Through L done (r.bind f).session
  induction r with
  | ret b => exact h b
  | raise e => trivial
  | select k ih => exact fun s => (ih s).mono fun a => Or.inl
  | write n t g ok fail ihok ihfail => exact ⟨ihok, ihfail⟩
  | commit t k ih => exact ih
  | rollback k ih => exact ih
  | act t g k ih => exact ih

/-- The run lemma: what a request has returned, it looked up in a state of the run. -/
theorem Through.reach [DecidableEq π] {P : τ → Point σ μ → Prop} {c c' : Cfg π σ μ τ ε α} {p : π}
    (h : Through L done (c.procs p)) (hr : Cfg.Reach P c c') :
    Through L (fun a => done a ∨ ∃ c₁ c₂, Cfg.Reach P c c₁ ∧ c₁.step p = some c₂ ∧
      Cfg.Reach P c₂ c' ∧ L (c₁.procs p) (c₁.point p).view a) (c'.procs p) := by
  induction hr with
  | start => exact h.mono fun a => Or.inl
  | @step d d' q hr hm hs ih =>
      have hlater : Through L (fun a => done a ∨ ∃ c₁ c₂, Cfg.Reach P c c₁ ∧ c₁.step p = some c₂ ∧
          Cfg.Reach P c₂ d' ∧ L (c₁.procs p) (c₁.point p).view a) (d.procs p) := by
        apply ih.mono
        rintro a (hd | ⟨c₁, c₂, h₁, hstep, h₂, hl⟩)
        · exact Or.inl hd
        · exact Or.inr ⟨c₁, c₂, h₁, hstep, h₂.step hm hs, hl⟩
      obtain ⟨hend, _, hput⟩ := Cfg.step_cases hs
      by_cases hqp : q = p
      · subst hqp
        have hnext : d'.procs q = ((d.procs q).advance (d.point q)).1 := by simp [hput, Cfg.put]
        rw [hnext]
        cases hreq : d.procs q with
        | ret a => simp [hreq, Request.ended] at hend
        | raise e => simp [hreq, Request.ended] at hend
        | select k =>
            rw [hreq] at hlater
            apply (hlater (d.point q).view).mono
            rintro a (hold | hl)
            · exact hold
            · right
              refine ⟨d, d', hr, hs, Cfg.Reach.start, ?_⟩
              rw [hreq]
              exact hl
        | write n t f ok fail =>
            rw [hreq] at hlater
            simp only [Request.advance]
            cases f (d.point q).view with
            | some s => exact hlater.1 _
            | none => exact hlater.2 _
        | commit t k =>
            rw [hreq] at hlater
            exact hlater
        | rollback k =>
            rw [hreq] at hlater
            exact hlater
        | act t g k =>
            rw [hreq] at hlater
            exact hlater _ _
      · have hsame : d'.procs p = d.procs p := by
          rw [hput]
          simp [Cfg.put, Ne.symm hqp]
        rw [hsame]
        exact hlater

/-- Every result of `r` satisfies `Q`, whatever its statements see. -/
def Returns (Q : α → Prop) (r : Request σ μ τ ε α) : Prop := Through (fun _ _ _ => False) Q r

theorem Returns.session {Q : α → Prop} {r : Request σ μ τ ε α} (h : Returns Q r) :
    Returns Q r.session := by
  induction r with
  | ret a => exact h
  | raise e => trivial
  | select k ih =>
      intro s
      exact (ih s ((h s).mono fun a ha => ha.elim id False.elim)).mono fun a => Or.inl
  | write n t g ok fail ihok ihfail => exact ⟨fun s => ihok s (h.1 s), fun s => ihfail s (h.2 s)⟩
  | commit t k ih => exact ih h
  | rollback k ih => exact ih h
  | act t g k ih => exact fun s m => ih s m (h s m)

/-- What follows a first part passes the lookup on every result that part can have. -/
theorem Returns.bind {Q : β → Prop} {r : Request σ μ τ ε β} {f : β → Request σ μ τ ε α}
    (h : Returns Q r) (hf : ∀ b, Q b → Through L done (f b)) : Through L done (r >>= f) := by
  change Through L done (r.bind f)
  induction r with
  | ret b => exact hf b h
  | raise e => trivial
  | select k ih =>
      intro s
      exact (ih s ((h s).mono fun a ha => ha.elim id False.elim)).mono fun a => Or.inl
  | write n t g ok fail ihok ihfail => exact ⟨fun s => ihok s (h.1 s), fun s => ihfail s (h.2 s)⟩
  | commit t k ih => exact ih h
  | rollback k ih => exact ih h
  | act t g k ih => exact fun s m => ih s m (h s m)

theorem Returns.reach [DecidableEq π] {P : τ → Point σ μ → Prop} {c c' : Cfg π σ μ τ ε α} {p : π}
    {Q : α → Prop} (h : Returns Q (c.procs p)) (hr : Cfg.Reach P c c') {a : α}
    (ha : c'.procs p = .ret a) : Q a := by
  have hlater := Through.reach h hr
  rw [ha] at hlater
  rcases hlater with hq | ⟨_, _, _, _, _, hfalse⟩
  · exact hq
  · exact hfalse.elim

end

section
variable {S : Spec π σ μ τ} {p : π} {x y : Point σ μ} {R : σ → σ → Prop}

/-- A request that only reads holds no lock, and between its ends is the environment alone. -/
theorem Uses.readOnly {r : Request σ μ τ ε α} (h : Uses (fun _ _ => False) (fun _ _ => False) r)
    (hx : x.work = none) :
    Safe S p r (fun _ y => S.Env p x y) (fun _ y => S.Env p x y) x := by
  -- the induction runs over what was seen since `x`
  have hmain : ∀ {y : Point σ μ}, S.Env p x y ∨ y = x →
      Safe S p r (fun _ z => S.Env p x z) (fun _ z => S.Env p x z) y := by
    induction r with
    | ret a => exact fun hy z hz => hy.elim (fun he => he.trans hz) fun he => he ▸ hz
    | raise e => exact fun hy z hz => hy.elim (fun he => he.trans hz) fun he => he ▸ hz
    | select k ih =>
        intro y hy z hz
        have hxz : S.Env p x z := hy.elim (fun he => he.trans hz) fun he => he ▸ hz
        exact ih z.view (h z.view) (Or.inl hxz)
    | write n t f ok fail ihok ihfail => exact h.1.elim
    | commit t k ih =>
        intro y hy z hz _
        have hxz : S.Env p x z := hy.elim (fun he => he.trans hz) fun he => he ▸ hz
        have hzw : z.work = none := hxz.free hx
        have hsame : z.committed = z.rolledBack := by
          simp [Point.committed, Point.rolledBack, Point.view_of_none hzw]
        constructor
        · intro w hw
          rw [hzw] at hw
          cases hw
        · rw [hsame]
          exact ih h (Or.inl (hxz.rolledBack_of_free hx))
    | rollback k ih =>
        intro y hy z hz
        have hxz : S.Env p x z := hy.elim (fun he => he.trans hz) fun he => he ▸ hz
        exact ih h (Or.inl (hxz.rolledBack_of_free hx))
    | act t g k ih => exact h.1.elim
  exact hmain (Or.inr rfl)

/-- Interference between two statements keeps the working copy related to the store. -/
theorem env_view (hrefl : ∀ s, R s s) (h : S.Env p x y) (hx : R x.db x.view) :
    R y.db y.view := by
  cases hw : x.work with
  | none =>
      rw [Point.view_of_none (h.free hw)]
      exact hrefl y.db
  | some w =>
      rw [h.view_eq hw, h.db_eq hw]
      rwa [Point.view_of_some hw] at hx

/-- What the statements of a footprint do under `S`: the view stays related to the committed
store by `R`, the fact `V` about the store and the memory stays true, and nothing published
breaks the invariant or a rely. -/
structure Respects (S : Spec π σ μ τ) (p : π) (V : σ → μ → Prop) (R : σ → σ → Prop)
    (W : τ → (σ → Option σ) → Prop) (A : τ → (σ → μ → μ) → Prop) : Prop where
  refl : ∀ s, R s s
  trans : ∀ {a b c}, R a b → R b c → R a c
  stable : ∀ {x y}, S.Env p x y → V x.db x.mem → V y.db y.mem
  write : ∀ t f z s, W t f → S.inv z.db z.mem → V z.db z.mem → R z.db z.view → S.meets t z →
    f z.view = some s → R z.view s
  segment : ∀ t g z, A t g → S.inv z.db z.mem → V z.db z.mem → S.meets t z →
    S.Allows p z (z.acted g) ∧ V z.db (g z.db z.mem)
  commit : ∀ db mem s, S.inv db mem → V db mem → R db s →
    S.Allows p ⟨db, mem, none⟩ ⟨s, mem, none⟩ ∧ V s mem

variable {V : σ → μ → Prop} {W : τ → (σ → Option σ) → Prop} {A : τ → (σ → μ → μ) → Prop}

/-- The obligation of a commit, or of a released savepoint, wherever it is taken. -/
theorem Respects.allows (h : Respects S p V R W A) {z : Point σ μ} (hz : S.inv z.db z.mem)
    (hv : V z.db z.mem) {s : σ} (hs : R z.db s) (w : Option σ) : S.Allows p z ⟨s, z.mem, w⟩ :=
  ⟨(h.commit z.db z.mem s hz hv hs).1.inv, (h.commit z.db z.mem s hz hv hs).1.others⟩

/-- A request with such a footprint is safe; the fact and the relation hold where it ends. -/
theorem Respects.safe (hR : Respects S p V R W A) {r : Request σ μ τ ε α} (h : Uses W A r)
    (hv : V x.db x.mem) (hx : R x.db x.view) :
    Safe S p r (fun _ y => V y.db y.mem ∧ R y.db y.view)
      (fun _ y => V y.db y.mem ∧ R y.db y.view) x := by
  induction r generalizing x with
  | ret a => exact fun y hy => ⟨hR.stable hy hv, env_view hR.refl hy hx⟩
  | raise e => exact fun y hy => ⟨hR.stable hy hv, env_view hR.refl hy hx⟩
  | select k ih =>
      exact fun y hy => ih y.view (h y.view) (hR.stable hy hv) (env_view hR.refl hy hx)
  | write n t f ok fail ihok ihfail =>
      intro y hy hm
      have hvy : V y.db y.mem := hR.stable hy hv
      have hview : R y.db y.view := env_view hR.refl hy hx
      refine ⟨fun s hs => ?_, fun _ => ihfail y.view (h.2.2 y.view) hvy hview⟩
      have hstep : R y.view s := hR.write t f y s h.1 hy.inv hvy hview hm hs
      have hs' : R y.db s := hR.trans hview hstep
      refine ⟨fun _ _ => hR.allows hy.inv hvy hs' y.work, ihok y.view (h.2.1 y.view) ?_ ?_⟩
      all_goals unfold Point.wrote; split_ifs with hn
      · exact (hR.commit y.db y.mem s hy.inv hvy hs').2
      · exact hvy
      · obtain ⟨_, hw⟩ := by simpa using hn
        simp only [Point.view, hw, Option.getD_none]
        exact hR.refl s
      · exact hs'
  | commit t k ih =>
      intro y hy _
      have hvy : V y.db y.mem := hR.stable hy hv
      have hview : R y.db y.view := env_view hR.refl hy hx
      exact ⟨fun w _ => hR.allows hy.inv hvy hview none,
        ih h (hR.commit y.db y.mem y.view hy.inv hvy hview).2 (hR.refl y.view)⟩
  | rollback k ih =>
      intro y hy
      have hvy : V y.db y.mem := hR.stable hy hv
      exact ih h hvy (hR.refl y.db)
  | act t g k ih =>
      intro y hy hm
      have hview : R y.db y.view := env_view hR.refl hy hx
      obtain ⟨hallow, hva⟩ := hR.segment t g y h.1 hy.inv (hR.stable hy hv) hm
      exact ⟨hallow, ih y.view y.mem (h.2 y.view y.mem) hva hview⟩

end

/-- A fact about the memory that every segment keeps holds in every state of a run. -/
theorem memory_of_reach [DecidableEq π] {I : μ → Prop} {P : τ → Point σ μ → Prop} {db : σ} {mem : μ}
    {procs : π → Request σ μ τ ε α} {c : Cfg π σ μ τ ε α} (hmem : I mem)
    (h : ∀ p, Uses (fun _ _ => True) (fun _ g => ∀ s m, I m → I (g s m)) (procs p))
    (hr : Cfg.Reach P (Cfg.init db mem procs) c) : I c.mem := by
  let S : Spec π σ μ τ :=
    { inv := fun _ m => I m
      rely := fun _ _ _ _ _ => True
      meets := P
      rely_refl := fun _ _ _ => trivial
      rely_trans := fun _ _ => trivial }
  have hR : ∀ p, Respects S p (fun _ _ => True) (fun _ _ => True) (fun _ _ => True)
      (fun _ g => ∀ s m, I m → I (g s m)) := fun p =>
    { refl := fun _ => trivial
      trans := fun _ _ => trivial
      stable := fun _ _ => trivial
      write := fun _ _ _ _ _ _ _ _ _ _ => trivial
      segment := fun _ g z hg hz _ _ => ⟨⟨hg z.db z.mem hz, fun _ _ => trivial⟩, trivial⟩
      commit := fun _ _ _ hi _ _ => ⟨⟨hi, fun _ _ => trivial⟩, trivial⟩ }
  have hinit : Sound S (fun _ _ _ => True) (fun _ _ _ => True) (Cfg.init db mem procs) :=
    Sound.init hmem fun p => ((hR p).safe (x := ⟨db, mem, none⟩) (h p) trivial trivial).mono
      (fun _ _ _ _ => trivial) fun _ _ _ _ => trivial
  exact (hinit.reach hr).inv

end AikoIsland.Footprint
