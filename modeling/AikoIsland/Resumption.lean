import AikoIsland.History

/-!
# A call inside a request

A request makes a call and goes on: with `k` on the answer, with `h` on an
exception. The call may stand below any number of binds, handlers and sessions;
`resume` is that request, whatever surrounds the call.

Once the call holds the lock, its statements up to the end of the transaction are
one computation on the working copy. The run lemma finds in a run the
configuration in which the computation has come to its end, whatever the other
requests did in between.
-/
namespace AikoIsland.Resumption
open WriterLock History

variable {σ μ τ ε α β γ π ℓ : Type}

/-- Run `r`, then `k` on its result or `h` on its exception. -/
def resume : Request σ μ τ ε α → (α → Request σ μ τ ε β) → (ε → Request σ μ τ ε β) →
    Request σ μ τ ε β
  | .ret a, k, _ => k a
  | .raise e, _, h => h e
  | .select q, k, h => .select fun s => resume (q s) k h
  | .write n t f ok fail, k, h =>
      .write n t f (fun s => resume (ok s) k h) fun s => resume (fail s) k h
  | .commit t r, k, h => .commit t (resume r k h)
  | .rollback r, k, h => .rollback (resume r k h)
  | .act t g q, k, h => .act t g fun s m => resume (q s m) k h

section
variable {r : Request σ μ τ ε α} {k : α → Request σ μ τ ε β} {h : ε → Request σ μ τ ε β}

theorem bind_eq_resume (r : Request σ μ τ ε α) (k : α → Request σ μ τ ε β) :
    r >>= k = resume r k .raise := by
  change r.bind k = _
  induction r with
  | ret a => rfl
  | raise e => rfl
  | select q ih => simp [Request.bind, resume, ih]
  | write n t f ok fail ihok ihfail => simp [Request.bind, resume, ihok, ihfail]
  | commit t r ih => simp [Request.bind, resume, ih]
  | rollback r ih => simp [Request.bind, resume, ih]
  | act t g q ih => simp [Request.bind, resume, ih]

theorem resume_bind (f : β → Request σ μ τ ε γ) :
    resume r k h >>= f = resume r (fun a => k a >>= f) fun e => h e >>= f := by
  change (resume r k h).bind f = resume r (fun a => (k a).bind f) fun e => (h e).bind f
  induction r with
  | ret a => rfl
  | raise e => rfl
  | select q ih => simp [Request.bind, resume, ih]
  | write n t f ok fail ihok ihfail => simp [Request.bind, resume, ihok, ihfail]
  | commit t r ih => simp [Request.bind, resume, ih]
  | rollback r ih => simp [Request.bind, resume, ih]
  | act t g q ih => simp [Request.bind, resume, ih]

theorem resume_handle (f : ε → Request σ μ τ ε β) :
    (resume r k h).handle f = resume r (fun a => (k a).handle f) fun e => (h e).handle f := by
  induction r with
  | ret a => rfl
  | raise e => rfl
  | select q ih => simp [Request.handle, resume, ih]
  | write n t f ok fail ihok ihfail => simp [Request.handle, resume, ihok, ihfail]
  | commit t r ih => simp [Request.handle, resume, ih]
  | rollback r ih => simp [Request.handle, resume, ih]
  | act t g q ih => simp [Request.handle, resume, ih]

theorem resume_session :
    (resume r k h).session = resume r (fun a => (k a).session) fun e => (h e).session := by
  unfold Request.session
  rw [resume_handle]
  exact resume_bind _

end

theorem noting_resume (note : σ → σ → List ℓ) (r : Request σ μ τ ε α) (k : α → Request σ μ τ ε β)
    (h : ε → Request σ μ τ ε β) : noting note (resume r k h) =
      resume (noting note r) (fun a => noting note (k a)) fun e => noting note (h e) := by
  induction r with
  | ret a => rfl
  | raise e => rfl
  | select q ih => simp [resume, noting, ih]
  | write n t f ok fail ihok ihfail => simp [resume, noting, ihok, ihfail]
  | commit t r ih => simp [resume, noting, ih]
  | rollback r ih => simp [resume, noting, ih]
  | act t g q ih => simp [resume, noting, ih]

/-! ## Steps -/

section
variable [DecidableEq π] {c c' : Cfg π σ μ τ ε α} {p q : π}

theorem step_self (hs : c.step p = some c') : (c.procs p).ended = false ∧
    c'.procs p = ((c.procs p).advance (c.point p)).1 ∧
      c'.point p = ((c.procs p).advance (c.point p)).2 := by
  obtain ⟨hend, _, rfl⟩ := Cfg.step_cases hs
  refine ⟨hend, ?_, Cfg.point_put_self _ _⟩
  simp [Cfg.put]

theorem step_other (hs : c.step q = some c') (hpq : p ≠ q) :
    c'.procs p = c.procs p ∧ c'.work p = c.work p := by
  obtain ⟨_, hlock, rfl⟩ := Cfg.step_cases hs
  constructor
  · simp [Cfg.put, hpq]
  · apply Cfg.work_put_other hpq
    intro hl
    have hwrites : (c.procs q).writes = false := by
      by_contra hne
      rw [hlock (by simpa using hne)] at hl
      cases hl
    exact (Request.advance_free hwrites (Cfg.work_of_locked hl)).2

/-- The run lemma of the next statement: it was not taken yet, or somewhere in the run. -/
theorem first_step {P : τ → Point σ μ → Prop} (hr : Cfg.Reach P c c') (p : π) :
    c'.procs p = c.procs p ∧ c'.work p = c.work p ∨
      ∃ c₁ c₂, Cfg.Reach P c c₁ ∧ c₁.procs p = c.procs p ∧ c₁.work p = c.work p ∧
        c₁.step p = some c₂ ∧ Cfg.Reach P c₂ c' := by
  induction hr with
  | start => exact Or.inl ⟨rfl, rfl⟩
  | @step d d' q hr hm hs ih =>
      rcases ih with ⟨hproc, hwork⟩ | ⟨c₁, c₂, h₁, hproc, hwork, hstep, h₂⟩
      · by_cases hpq : p = q
        · subst hpq
          exact Or.inr ⟨d, d', hr, hproc, hwork, hs, Cfg.Reach.start⟩
        · obtain ⟨hproc', hwork'⟩ := step_other hs hpq
          exact Or.inl ⟨hproc'.trans hproc, hwork'.trans hwork⟩
      · exact Or.inr ⟨c₁, c₂, h₁, hproc, hwork, hstep, h₂.step hm hs⟩

end

/-! ## The end of the transaction -/

/-- The request stands where the call has settled. -/
def Stands [DecidableEq π] (k : α → Request σ μ τ ε β) (h : ε → Request σ μ τ ε β) (p : π)
    (c : Cfg π σ μ τ ε β) : Settled σ μ τ ε α → Prop
  | .returned a s => c.procs p = k a ∧ c.work p = some s
  | .raised e s => c.procs p = h e ∧ c.work p = some s
  | .committed _ s r => c.procs p = resume r k h ∧ c.point p = ⟨s, c.mem, none⟩
  | .rolledBack r => c.procs p = resume r k h ∧ c.work p = none
  | .acting t g q s => c.procs p = resume (.act t g q) k h ∧ c.work p = some s

section
variable [DecidableEq π] {k : α → Request σ μ τ ε β} {h : ε → Request σ μ τ ε β} {p : π}
  {c c' : Cfg π σ μ τ ε β} {r : Request σ μ τ ε α} {s : σ}

/-- The next statement is one of the transaction. -/
def inside : Request σ μ τ ε α → Bool
  | .select _ => true
  | .write _ _ _ _ _ => true
  | .commit _ _ => true
  | .rollback _ => true
  | _ => false

/-- The request holds the lock inside the call, and the call will settle as `o`. -/
def Midway (k : α → Request σ μ τ ε β) (h : ε → Request σ μ τ ε β) (p : π) (o : Settled σ μ τ ε α)
    (c : Cfg π σ μ τ ε β) : Prop :=
  ∃ r s, inside r = true ∧ c.procs p = resume r k h ∧ c.work p = some s ∧ r.settle s = o

theorem stands_or_midway (hp : c.procs p = resume r k h) (hw : c.work p = some s) :
    Stands k h p c (r.settle s) ∨ Midway k h p (r.settle s) c := by
  cases hr : inside r with
  | true => exact Or.inr ⟨r, s, hr, hp, hw, rfl⟩
  | false =>
      left
      cases r with
      | ret a => exact ⟨hp, hw⟩
      | raise e => exact ⟨hp, hw⟩
      | act t g q => exact ⟨hp, hw⟩
      | select _ => cases hr
      | write _ _ _ _ _ => cases hr
      | commit _ _ => cases hr
      | rollback _ => cases hr

/-- The step lemma of the call: one more statement of its transaction. -/
theorem Midway.step {o : Settled σ μ τ ε α} (hmid : Midway k h p o c) (hs : c.step p = some c') :
    Stands k h p c' o ∨ Midway k h p o c' := by
  obtain ⟨r, s, hr, hp, hw, rfl⟩ := hmid
  obtain ⟨_, hproc, hpoint⟩ := step_self hs
  have hview : (c.point p).view = s := Point.view_of_some hw
  have hwork : ∀ {x : Point σ μ} {w : Option σ}, c'.point p = x → x.work = w → c'.work p = w := by
    rintro _ _ rfl rfl
    rfl
  rw [hp] at hproc hpoint
  cases r with
  | ret a => cases hr
  | raise e => cases hr
  | act t g q => cases hr
  | select q =>
      rw [Request.settle, ← hview]
      exact stands_or_midway hproc (hwork hpoint (hw.trans (by rw [hview])))
  | write n t f ok fail =>
      simp only [resume, Request.advance, hview] at hproc hpoint
      simp only [Request.settle]
      cases hf : f s with
      | none =>
          rw [hf] at hproc hpoint
          apply stands_or_midway hproc
          apply hwork hpoint
          rw [Point.refused, hview]
      | some s' =>
          rw [hf] at hproc hpoint
          apply stands_or_midway hproc
          apply hwork hpoint
          have hheld : (c.point p).work = some s := hw
          simp [Point.wrote, hheld]
  | commit t r =>
      refine Or.inl ⟨hproc, ?_⟩
      have hmem : c'.mem = c.mem := congrArg Point.mem hpoint
      rw [hpoint, hmem]
      simp only [resume, Request.advance, Point.committed, hview]
      rfl
  | rollback r => exact Or.inl ⟨hproc, hwork hpoint rfl⟩

/-- The run lemma: the call is still in its transaction, or somewhere in the run it settled as
it does on the working copy alone. -/
theorem settles {P : τ → Point σ μ → Prop} (hr : Cfg.Reach P c c') (hp : c.procs p = resume r k h)
    (hw : c.work p = some s) : Midway k h p (r.settle s) c' ∨
      ∃ c₁, Cfg.Reach P c c₁ ∧ Cfg.Reach P c₁ c' ∧ Stands k h p c₁ (r.settle s) := by
  induction hr with
  | start =>
      rcases stands_or_midway hp hw with hstands | hmid
      · exact Or.inr ⟨c, Cfg.Reach.start, Cfg.Reach.start, hstands⟩
      · exact Or.inl hmid
  | @step d d' q hr hm hs ih =>
      rcases ih with hmid | ⟨c₁, h₁, h₂, hstands⟩
      · by_cases hpq : p = q
        · subst hpq
          rcases hmid.step hs with hstands | hmid'
          · exact Or.inr ⟨d', hr.step hm hs, Cfg.Reach.start, hstands⟩
          · exact Or.inl hmid'
        · obtain ⟨r', s', hinside, hproc, hwork, hsettle⟩ := hmid
          obtain ⟨hproc', hwork'⟩ := step_other hs hpq
          exact Or.inl ⟨r', s', hinside, hproc'.trans hproc, hwork'.trans hwork, hsettle⟩
      · exact Or.inr ⟨c₁, h₁, h₂.step hm hs, hstands⟩

end

end AikoIsland.Resumption
