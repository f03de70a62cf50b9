import AikoIsland.Footprint
import Mathlib.Logic.Relation

/-!
# Writes that a lookup plans

Some requests decide what to write from the rows that an earlier SELECT found,
and write long after. `Plans` says of every write of a request that it is one of
those which the stores it has looked up so far plan.

The run lemma: whatever such a request commits, it obtained from the committed
store by writes that were planned at lookups of this run. Between the lookup and
the write anything may have happened to the store.
-/
namespace AikoIsland.Planning
open WriterLock Footprint

variable {σ μ τ ε α β π : Type}

/-- Every write is one of `done`, or planned by `W` from a store that was looked up before it. -/
def Plans (W : σ → τ → (σ → Option σ) → Prop) :
    (τ → (σ → Option σ) → Prop) → Request σ μ τ ε α → Prop
  | _, .ret _ => True
  | _, .raise _ => True
  | done, .select k => ∀ s, Plans W (fun t f => done t f ∨ W s t f) (k s)
  | done, .write _ t f ok fail =>
      done t f ∧ (∀ s, Plans W done (ok s)) ∧ ∀ s, Plans W done (fail s)
  | done, .commit _ k => Plans W done k
  | done, .rollback k => Plans W done k
  | done, .act _ _ k => ∀ s m, Plans W done (k s m)

section
variable {W : σ → τ → (σ → Option σ) → Prop} {done done' : τ → (σ → Option σ) → Prop}

theorem Plans.mono {r : Request σ μ τ ε α} (h : Plans W done r)
    (hd : ∀ t f, done t f → done' t f) : Plans W done' r := by
  induction r generalizing done done' with
  | ret a => trivial
  | raise e => trivial
  | select k ih => exact fun s => ih s (h s) fun t f => Or.imp_left (hd t f)
  | write n t f ok fail ihok ihfail =>
      exact ⟨hd t f h.1, fun s => ihok s (h.2.1 s) hd, fun s => ihfail s (h.2.2 s) hd⟩
  | commit t k ih => exact ih h hd
  | rollback k ih => exact ih h hd
  | act t g k ih => exact fun s m => ih s m (h s m) hd

theorem Plans.of_uses {A : τ → (σ → μ → μ) → Prop} {r : Request σ μ τ ε α} (h : Uses done A r) :
    Plans W done r := by
  induction r generalizing done with
  | ret a => trivial
  | raise e => trivial
  | select k ih => exact fun s => (ih s (h s)).mono fun t f => Or.inl
  | write n t f ok fail ihok ihfail =>
      exact ⟨h.1, fun s => ihok s (h.2.1 s), fun s => ihfail s (h.2.2 s)⟩
  | commit t k ih => exact ih h
  | rollback k ih => exact ih h
  | act t g k ih => exact fun s m => ih s m (h.2 s m)

theorem Plans.bind {r : Request σ μ τ ε β} {f : β → Request σ μ τ ε α} (h : Plans W done r)
    (hf : ∀ b, Plans W done (f b)) : Plans W done (r >>= f) := by
  change Plans W done (r.bind f)
  induction r generalizing done with
  | ret b => exact hf b
  | raise e => trivial
  | select k ih => exact fun s => ih s (h s) fun b => (hf b).mono fun t f => Or.inl
  | write n t g ok fail ihok ihfail =>
      exact ⟨h.1, fun s => ihok s (h.2.1 s) hf, fun s => ihfail s (h.2.2 s) hf⟩
  | commit t k ih => exact ih h hf
  | rollback k ih => exact ih h hf
  | act t g k ih => exact fun s m => ih s m (h s m) hf

theorem Plans.handle {r : Request σ μ τ ε α} {f : ε → Request σ μ τ ε α} (h : Plans W done r)
    (hf : ∀ e, Plans W done (f e)) : Plans W done (r.handle f) := by
  induction r generalizing done with
  | ret a => trivial
  | raise e => exact hf e
  | select k ih => exact fun s => ih s (h s) fun e => (hf e).mono fun t f => Or.inl
  | write n t g ok fail ihok ihfail =>
      exact ⟨h.1, fun s => ihok s (h.2.1 s) hf, fun s => ihfail s (h.2.2 s) hf⟩
  | commit t k ih => exact ih h hf
  | rollback k ih => exact ih h hf
  | act t g k ih => exact fun s m => ih s m (h s m) hf

theorem Plans.session {r : Request σ μ τ ε α} (h : Plans W done r) : Plans W done r.session :=
  Plans.bind (Plans.handle h fun _ => trivial) fun _ => trivial

/-- What follows a SELECT may write what the store it saw plans. -/
theorem Plans.query {q : σ → β} {f : β → Request σ μ τ ε α}
    (h : ∀ s, Plans W (fun t g => done t g ∨ W s t g) (f (q s))) :
    Plans W done (Request.query q >>= f) :=
  h

end

/-! ## Runs -/

/-- One of the writes in `done`, applied. -/
def Wrote (done : τ → (σ → Option σ) → Prop) (a b : σ) : Prop := ∃ t f, done t f ∧ f a = some b

section
variable [DecidableEq π] {W : σ → τ → (σ → Option σ) → Prop} {P : τ → Point σ μ → Prop}
  {c c' c'' : Cfg π σ μ τ ε α} {p q : π}

/-- The writes planned at lookups that `p` took in the run from `c` to `c'`. -/
def Planned (W : σ → τ → (σ → Option σ) → Prop) (P : τ → Point σ μ → Prop) (p : π)
    (c c' : Cfg π σ μ τ ε α) (t : τ) (f : σ → Option σ) : Prop :=
  ∃ c₁ c₂, Cfg.Reach P c c₁ ∧ c₁.Meets P p ∧ c₁.step p = some c₂ ∧ Cfg.Reach P c₂ c' ∧
    W (c₁.point p).view t f

theorem Planned.later (hm : c'.Meets P q) (hs : c'.step q = some c'') {t : τ} {f : σ → Option σ}
    (h : Planned W P p c c' t f) : Planned W P p c c'' t f := by
  obtain ⟨c₁, c₂, h₁, hmeets, hstep, h₂, hw⟩ := h
  exact ⟨c₁, c₂, h₁, hmeets, hstep, h₂.step hm hs, hw⟩

theorem Wrote.mono {done done' : τ → (σ → Option σ) → Prop} (hd : ∀ t f, done t f → done' t f)
    {a b : σ} (h : Relation.ReflTransGen (Wrote done) a b) :
    Relation.ReflTransGen (Wrote done') a b := by
  have hstep : ∀ a b : σ, Wrote done a b → Wrote done' a b := by
    rintro a b ⟨t, f, hdone, hf⟩
    exact ⟨t, f, hd t f hdone, hf⟩
  exact Relation.ReflTransGen.mono hstep a b h

/-- What was true before some writes and is not after them, one of them made false. -/
theorem exists_wrote_of_lost {done : τ → (σ → Option σ) → Prop} {V : σ → Prop} {a b : σ}
    (h : Relation.ReflTransGen (Wrote done) a b) (ha : V a) (hb : ¬V b) :
    ∃ x y t f, done t f ∧ f x = some y ∧ V x ∧ ¬V y := by
  induction h using Relation.ReflTransGen.head_induction_on with
  | refl => exact absurd ha hb
  | @head x y hwrote _ ih =>
      by_cases hy : V y
      · exact ih hy
      · obtain ⟨t, f, hdone, hf⟩ := hwrote
        exact ⟨x, y, t, f, hdone, hf, ha, hy⟩

/-- What every planned write keeps holds all along. -/
theorem Wrote.keeps {done : τ → (σ → Option σ) → Prop} {R : σ → σ → Prop} (hrefl : ∀ s, R s s)
    (htrans : ∀ {x y z}, R x y → R y z → R x z)
    (hstep : ∀ t f x y, done t f → f x = some y → R x y) {a b : σ}
    (h : Relation.ReflTransGen (Wrote done) a b) : R a b := by
  induction h with
  | refl => exact hrefl a
  | tail _ hwrote ih =>
      obtain ⟨t, f, hdone, hf⟩ := hwrote
      exact htrans ih (hstep t f _ _ hdone hf)

/-- What holds of `p` all along a run: its writes are planned, and so is its working copy. -/
structure Follows (W : σ → τ → (σ → Option σ) → Prop) (P : τ → Point σ μ → Prop) (p : π)
    (c c' : Cfg π σ μ τ ε α) : Prop where
  plans : Plans W (Planned W P p c c') (c'.procs p)
  view : Relation.ReflTransGen (Wrote (Planned W P p c c')) c'.db (c'.point p).view

/-- The step lemma for `p` itself: also what it publishes is planned. -/
theorem Follows.own (h : Follows W P p c c') (hr : Cfg.Reach P c c') (hm : c'.Meets P p)
    (hs : c'.step p = some c'') :
    Follows W P p c c'' ∧ Relation.ReflTransGen (Wrote (Planned W P p c c')) c'.db c''.db := by
  have hlater : ∀ t f, Planned W P p c c' t f → Planned W P p c c'' t f :=
    fun t f hp => hp.later hm hs
  obtain ⟨hend, _, hput⟩ := Cfg.step_cases hs
  have hproc : c''.procs p = ((c'.procs p).advance (c'.point p)).1 := by simp [hput, Cfg.put]
  have hpoint : c''.point p = ((c'.procs p).advance (c'.point p)).2 := by
    rw [hput, Cfg.point_put_self]
  have hdb : c''.db = ((c'.procs p).advance (c'.point p)).2.db := by rw [hput]; rfl
  obtain ⟨hplans, hview⟩ := h
  have hstart : (c'.point p).db = c'.db := rfl
  cases hreq : c'.procs p with
  | ret a => simp [hreq, Request.ended] at hend
  | raise e => simp [hreq, Request.ended] at hend
  | select k =>
      rw [hreq] at hplans hproc hpoint hdb
      refine ⟨⟨?_, ?_⟩, ?_⟩
      · rw [hproc]
        apply (hplans (c'.point p).view).mono
        rintro t f (hold | hnew)
        · exact hlater t f hold
        · exact ⟨c', c'', hr, hm, hs, Cfg.Reach.start, hnew⟩
      · rw [hpoint, hdb]
        exact Wrote.mono hlater hview
      · rw [hdb]
        exact Relation.ReflTransGen.refl
  | write n t f ok fail =>
      rw [hreq] at hplans hproc hpoint hdb
      obtain ⟨hdone, hok, hfail⟩ := hplans
      simp only [Request.advance] at hproc hpoint hdb
      cases hf : f (c'.point p).view with
      | none =>
          rw [hf] at hproc hpoint hdb
          refine ⟨⟨?_, ?_⟩, ?_⟩
          · rw [hproc]
            exact (hfail _).mono hlater
          · rw [hpoint, hdb]
            exact Wrote.mono hlater hview
          · rw [hdb]
            exact Relation.ReflTransGen.refl
      | some s =>
          rw [hf] at hproc hpoint hdb
          have hstep : Relation.ReflTransGen (Wrote (Planned W P p c c')) c'.db s :=
            hview.tail ⟨t, f, hdone, hf⟩
          by_cases hn : n = true ∧ (c'.point p).work = none
          · have hwrote : (c'.point p).wrote n s = { c'.point p with db := s } := by
              simp [Point.wrote, hn.1, hn.2]
            dsimp only at hproc hpoint hdb
            rw [hwrote] at hpoint hdb
            refine ⟨⟨?_, ?_⟩, ?_⟩
            · rw [hproc]
              exact (hok _).mono hlater
            · rw [hpoint, hdb]
              have hsame : ({ c'.point p with db := s } : Point σ μ).view = s :=
                Point.view_of_none hn.2
              rw [hsame]
            · rw [hdb]
              exact hstep
          · have hwrote : (c'.point p).wrote n s = { c'.point p with work := some s } := by
              unfold Point.wrote
              rw [if_neg]
              simpa using hn
            dsimp only at hproc hpoint hdb
            rw [hwrote] at hpoint hdb
            refine ⟨⟨?_, ?_⟩, ?_⟩
            · rw [hproc]
              exact (hok _).mono hlater
            · rw [hpoint, hdb]
              exact Wrote.mono hlater hstep
            · rw [hdb]
              exact Relation.ReflTransGen.refl
  | commit t k =>
      rw [hreq] at hplans hproc hpoint hdb
      refine ⟨⟨?_, ?_⟩, ?_⟩
      · rw [hproc]
        exact Plans.mono hplans hlater
      · rw [hpoint, hdb]
        exact Relation.ReflTransGen.refl
      · rw [hdb]
        exact hview
  | rollback k =>
      rw [hreq] at hplans hproc hpoint hdb
      refine ⟨⟨?_, ?_⟩, ?_⟩
      · rw [hproc]
        exact Plans.mono hplans hlater
      · rw [hpoint, hdb]
        exact Relation.ReflTransGen.refl
      · rw [hdb]
        exact Relation.ReflTransGen.refl
  | act t g k =>
      rw [hreq] at hplans hproc hpoint hdb
      refine ⟨⟨?_, ?_⟩, ?_⟩
      · rw [hproc]
        exact (hplans _ _).mono hlater
      · rw [hpoint, hdb]
        exact Wrote.mono hlater hview
      · rw [hdb]
        exact Relation.ReflTransGen.refl

/-- Another request moves `p` only by what it commits while `p` has no transaction. -/
theorem Follows.other (h : Follows W P p c c') (hm : c'.Meets P q) (hs : c'.step q = some c'')
    (hqp : q ≠ p) : Follows W P p c c'' := by
  have hlater : ∀ t f, Planned W P p c c' t f → Planned W P p c c'' t f :=
    fun t f hp => hp.later hm hs
  obtain ⟨_, hlock, hput⟩ := Cfg.step_cases hs
  have hfree : c'.locked q = true → ((c'.procs q).advance (c'.point q)).2.db = c'.db ∧
      ((c'.procs q).advance (c'.point q)).2.work = none := by
    intro hl
    have hw : (c'.procs q).writes = false := by
      by_contra hne
      rw [hlock (by simpa using hne)] at hl
      cases hl
    exact Request.advance_free hw (Cfg.work_of_locked hl)
  have hwork : c''.work p = c'.work p := by
    rw [hput]
    exact Cfg.work_put_other (Ne.symm hqp) _ fun hl => (hfree hl).2
  have hproc : c''.procs p = c'.procs p := by
    rw [hput]
    simp [Cfg.put, Ne.symm hqp]
  constructor
  · rw [hproc]
    exact h.plans.mono hlater
  · cases hw : c'.work p with
    | none =>
        have hsame : (c''.point p).view = c''.db := Point.view_of_none (hwork.trans hw)
        rw [hsame]
    | some w =>
        have hdb : c''.db = c'.db := by
          rw [hput]
          exact (hfree (Cfg.locked_of_work hw (Ne.symm hqp))).1
        have hsame : (c''.point p).view = (c'.point p).view := by
          rw [Point.view_of_some (hwork.trans hw), Point.view_of_some hw]
        rw [hdb, hsame]
        exact Wrote.mono hlater h.view

/-- The run lemma. -/
theorem Plans.reach (h : Plans W (fun _ _ => False) (c.procs p)) (hw : c.work p = none)
    (hr : Cfg.Reach P c c') : Follows W P p c c' := by
  induction hr with
  | start =>
      refine ⟨h.mono fun t f hn => hn.elim, ?_⟩
      have hsame : (c.point p).view = c.db := Point.view_of_none hw
      rw [hsame]
  | @step d d' q hr hm hs ih =>
      by_cases hqp : q = p
      · subst hqp
        exact (ih.own hr hm hs).1
      · exact ih.other hm hs hqp

/-- What a step of `p` commits was written as lookups of the run planned it. -/
theorem Plans.change (h : Plans W (fun _ _ => False) (c.procs p)) (hw : c.work p = none)
    (hr : Cfg.Reach P c c') (hm : c'.Meets P p) (hs : c'.step p = some c'') :
    Relation.ReflTransGen (Wrote (Planned W P p c c')) c'.db c''.db :=
  ((h.reach hw hr).own hr hm hs).2

end

end AikoIsland.Planning
