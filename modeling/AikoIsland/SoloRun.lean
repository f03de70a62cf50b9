import AikoIsland.WriterLock

/-!
# One request run alone

The run of a single request from a point, with nobody else taking a step: a
function, since a request is a finite tree. It composes along `bind` and
`handle`, and a configuration in which nobody else holds the lock reaches its
result, whatever the other requests are.

A result about runs alone says nothing about interference; the rules of `Safe`
and the footprints do.
-/
namespace AikoIsland.WriterLock

variable {σ μ τ ε α β π : Type}

namespace Request

/-- The result of the request and the point it leaves behind. -/
def run : Request σ μ τ ε α → Point σ μ → Except ε α × Point σ μ
  | ret a, x => (.ok a, x)
  | raise e, x => (.error e, x)
  | select k, x => (k x.view).run x
  | write n _ f ok fail, x =>
      match f x.view with
      | some s => (ok x.view).run (x.wrote n s)
      | none => (fail x.view).run x.refused
  | commit _ k, x => k.run x.committed
  | rollback k, x => k.run x.rolledBack
  | act _ g k, x => (k x.view x.mem).run (x.acted g)

/-- The request that has this result. -/
def ofResult : Except ε α → Request σ μ τ ε α
  | .ok a => ret a
  | .error e => raise e

theorem run_bind (r : Request σ μ τ ε α) (f : α → Request σ μ τ ε β) (x : Point σ μ) :
    (r >>= f).run x =
      match r.run x with
      | (.ok a, y) => (f a).run y
      | (.error e, y) => (.error e, y) := by
  change (r.bind f).run x = _
  induction r generalizing x with
  | ret a => rfl
  | raise e => rfl
  | select k ih => exact ih x.view x
  | write n t g ok fail ihok ihfail =>
      simp only [bind, run]
      cases g x.view with
      | some s => exact ihok x.view (x.wrote n s)
      | none => exact ihfail x.view x.refused
  | commit t k ih => exact ih x.committed
  | rollback k ih => exact ih x.rolledBack
  | act t g k ih => exact ih x.view x.mem (x.acted g)

theorem run_handle (r : Request σ μ τ ε α) (h : ε → Request σ μ τ ε α) (x : Point σ μ) :
    (r.handle h).run x =
      match r.run x with
      | (.ok a, y) => (.ok a, y)
      | (.error e, y) => (h e).run y := by
  induction r generalizing x with
  | ret a => rfl
  | raise e => rfl
  | select k ih => exact ih x.view x
  | write n t g ok fail ihok ihfail =>
      simp only [handle, run]
      cases g x.view with
      | some s => exact ihok x.view (x.wrote n s)
      | none => exact ihfail x.view x.refused
  | commit t k ih => exact ih x.committed
  | rollback k ih => exact ih x.rolledBack
  | act t g k ih => exact ih x.view x.mem (x.acted g)

/-- A session gives the result of its body and drops what the body left open. -/
theorem run_session (r : Request σ μ τ ε α) (x : Point σ μ) :
    r.session.run x = ((r.run x).1, (r.run x).2.rolledBack) := by
  have hbind := run_bind (r.handle fun e => rollback (raise e)) (fun a => rollback (ret a)) x
  rw [run_handle] at hbind
  change ((r.handle fun e => rollback (raise e)) >>= fun a => rollback (ret a)).run x = _
  rw [hbind]
  cases hr : r.run x with
  | mk result y => cases result <;> rfl

@[simp] theorem run_pure (a : α) (x : Point σ μ) :
    (Pure.pure a : Request σ μ τ ε α).run x = (.ok a, x) := rfl
@[simp] theorem run_raise (e : ε) (x : Point σ μ) :
    (raise e : Request σ μ τ ε α).run x = (.error e, x) := rfl
@[simp] theorem run_query (q : σ → α) (x : Point σ μ) :
    (query q : Request σ μ τ ε α).run x = (.ok (q x.view), x) := rfl
@[simp] theorem run_exec (t : τ) (f : σ → σ) (q : σ → α) (x : Point σ μ) :
    (exec t f q : Request σ μ τ ε α).run x =
      (.ok (q x.view), { x with work := some (f x.view) }) := rfl
@[simp] theorem run_atomically (t : τ) (g : σ → μ → μ) (q : σ → μ → α) (x : Point σ μ) :
    (atomically t g q : Request σ μ τ ε α).run x = (.ok (q x.view x.mem), x.acted g) := rfl
@[simp] theorem run_commitNow (t : τ) (x : Point σ μ) :
    (commitNow t : Request σ μ τ ε Unit).run x = (.ok (), x.committed) := rfl
@[simp] theorem run_rollbackNow (x : Point σ μ) :
    (rollbackNow : Request σ μ τ ε Unit).run x = (.ok (), x.rolledBack) := rfl

theorem run_attempt_some {n : Bool} {t : τ} {f : σ → Option σ} {x : Point σ μ} {s : σ}
    (h : f x.view = some s) :
    (attempt n t f : Request σ μ τ ε Bool).run x = (.ok true, x.wrote n s) := by
  simp [attempt, run, h]

theorem run_attempt_none {n : Bool} {t : τ} {f : σ → Option σ} {x : Point σ μ}
    (h : f x.view = none) :
    (attempt n t f : Request σ μ τ ε Bool).run x = (.ok false, x.refused) := by
  simp [attempt, run, h]

theorem run_advance (r : Request σ μ τ ε α) (x : Point σ μ) :
    (r.advance x).1.run (r.advance x).2 = r.run x := by
  cases r with
  | write n t f ok fail =>
      simp only [advance, run]
      cases f x.view <;> rfl
  | ret a => rfl
  | raise e => rfl
  | select k => rfl
  | commit t k => rfl
  | rollback k => rfl
  | act t g k => rfl

end Request

namespace Cfg

section
variable [DecidableEq π] {c : Cfg π σ μ τ ε α} {p : π}

theorem put_procs_self (r : Request σ μ τ ε α) (x : Point σ μ) : (c.put p r x).procs p = r := by
  simp [put]

theorem locked_put_self (h : c.locked p = false) (r : Request σ μ τ ε α) (x : Point σ μ) :
    (c.put p r x).locked p = false := by
  cases hw : x.work with
  | some s => simp [put, locked, hw]
  | none =>
      have hlock : (c.put p r x).lock = none := by simp [put, hw, h]
      simp [locked, hlock]

/-- Unless somebody else holds the lock, a request that has not ended may take its step. -/
theorem step_of_unlocked (h : c.locked p = false) (hr : (c.procs p).ended = false) :
    c.step p =
      some (c.put p ((c.procs p).advance (c.point p)).1 ((c.procs p).advance (c.point p)).2) := by
  simp [step, h, hr]

/-- The other requests standing still, a request comes to the result of its run alone. -/
theorem reach_run (h : c.locked p = false) :
    ∃ c', Reach (fun _ _ => True) c c' ∧
      c'.procs p = Request.ofResult ((c.procs p).run (c.point p)).1 ∧
      c'.point p = ((c.procs p).run (c.point p)).2 := by
  have hstep : ∀ (r : Request σ μ τ ε α) (d : Cfg π σ μ τ ε α), d.procs p = r →
      d.locked p = false → r.ended = false →
      (∀ d' : Cfg π σ μ τ ε α, d'.procs p = (r.advance (d.point p)).1 →
        d'.locked p = false → ∃ c', Reach (fun _ _ => True) d' c' ∧
          c'.procs p = Request.ofResult ((r.advance (d.point p)).1.run (d'.point p)).1 ∧
          c'.point p = ((r.advance (d.point p)).1.run (d'.point p)).2) →
      ∃ c', Reach (fun _ _ => True) d c' ∧
        c'.procs p = Request.ofResult (r.run (d.point p)).1 ∧
        c'.point p = (r.run (d.point p)).2 := by
    intro r d hd hl he hnext
    subst hd
    obtain ⟨c', hreach, hproc, hpoint⟩ := hnext _ (put_procs_self _ _)
      (locked_put_self hl _ ((d.procs p).advance (d.point p)).2)
    rw [point_put_self, Request.run_advance] at hproc hpoint
    have hfirst : Reach (fun _ _ => True) d (d.put p ((d.procs p).advance (d.point p)).1
        ((d.procs p).advance (d.point p)).2) :=
      Reach.start.step (fun _ _ => trivial) (step_of_unlocked hl he)
    exact ⟨c', hfirst.trans hreach, hproc, hpoint⟩
  -- along the request, one statement at a time
  have hmain : ∀ (r : Request σ μ τ ε α) (d : Cfg π σ μ τ ε α), d.procs p = r →
      d.locked p = false → ∃ c', Reach (fun _ _ => True) d c' ∧
        c'.procs p = Request.ofResult (r.run (d.point p)).1 ∧
        c'.point p = (r.run (d.point p)).2 := by
    intro r
    induction r with
    | ret a => exact fun d hd _ => ⟨d, Reach.start, hd, rfl⟩
    | raise e => exact fun d hd _ => ⟨d, Reach.start, hd, rfl⟩
    | select k ih => exact fun d hd hl => hstep _ d hd hl rfl fun d' => ih _ d'
    | write n t f ok fail ihok ihfail =>
        intro d hd hl
        refine hstep _ d hd hl rfl fun d' hd' hl' => ?_
        simp only [Request.advance] at hd' ⊢
        cases hf : f (d.point p).view with
        | some s =>
            rw [hf] at hd'
            exact ihok _ d' hd' hl'
        | none =>
            rw [hf] at hd'
            exact ihfail _ d' hd' hl'
    | commit t k ih => exact fun d hd hl => hstep _ d hd hl rfl fun d' => ih d'
    | rollback k ih => exact fun d hd hl => hstep _ d hd hl rfl fun d' => ih d'
    | act t g k ih => exact fun d hd hl => hstep _ d hd hl rfl fun d' => ih _ _ d'
  exact hmain (c.procs p) c rfl h

end

end Cfg

end AikoIsland.WriterLock
