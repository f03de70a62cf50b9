import Mathlib.Logic.Function.Basic
import Mathlib.Tactic

/-!
# Requests over one store with a single writer lock

A request is a finite tree of statements. Reads take no lock: they see the
committed store, or the request's own working copy while it holds the lock.
The first write takes the lock and works on a copy; a commit publishes the
copy, a rollback drops it. Another request's write waits while the lock is
held. Between statements a request may also update a shared memory in one
atomic segment.

A nested write is one inside a savepoint. When no transaction is open the
savepoint is the transaction, so its release publishes the write at once,
while a failure leaves the transaction open. A failed write changes nothing
but keeps the lock until the request commits or rolls back.

Labels on writes, commits and segments carry no meaning here. They let a
result name the steps that a condition on runs speaks about. Waiting forever,
lock timeouts and crashes are NOT modelled: a waiting request takes no step.
-/
namespace AikoIsland.WriterLock

/-- The body of a request: `σ` is the store, `μ` the shared memory, `τ` the labels. -/
inductive Request (σ μ τ ε α : Type) where
  | ret (a : α)
  | raise (e : ε)
  | select (k : σ → Request σ μ τ ε α)
  | write (nested : Bool) (t : τ) (f : σ → Option σ) (ok fail : σ → Request σ μ τ ε α)
  | commit (t : τ) (k : Request σ μ τ ε α)
  | rollback (k : Request σ μ τ ε α)
  | act (t : τ) (g : σ → μ → μ) (k : σ → μ → Request σ μ τ ε α)

variable {σ μ τ ε α β π : Type}

namespace Request

/-- Run `r`, then `f` on its result; an exception of `r` passes through. -/
def bind : Request σ μ τ ε α → (α → Request σ μ τ ε β) → Request σ μ τ ε β
  | ret a, f => f a
  | raise e, _ => raise e
  | select k, f => select fun s => (k s).bind f
  | write n t g ok fail, f => write n t g (fun s => (ok s).bind f) fun s => (fail s).bind f
  | commit t k, f => commit t (k.bind f)
  | rollback k, f => rollback (k.bind f)
  | act t g k, f => act t g fun s m => (k s m).bind f

/-- Run `r` and hand its exception to `h`. -/
def handle : Request σ μ τ ε α → (ε → Request σ μ τ ε α) → Request σ μ τ ε α
  | ret a, _ => ret a
  | raise e, h => h e
  | select k, h => select fun s => (k s).handle h
  | write n t g ok fail, h => write n t g (fun s => (ok s).handle h) fun s => (fail s).handle h
  | commit t k, h => commit t (k.handle h)
  | rollback k, h => rollback (k.handle h)
  | act t g k, h => act t g fun s m => (k s m).handle h

instance : Monad (Request σ μ τ ε) where
  pure := ret
  bind := bind

theorem bind_assoc (r : Request σ μ τ ε α) (f : α → Request σ μ τ ε β)
    (g : β → Request σ μ τ ε π) : (r.bind f).bind g = r.bind fun a => (f a).bind g := by
  induction r with
  | ret a => rfl
  | raise e => rfl
  | select k ih => simp [bind, ih]
  | write n t h ok fail ihok ihfail => simp [bind, ihok, ihfail]
  | commit t k ih => simp [bind, ih]
  | rollback k ih => simp [bind, ih]
  | act t h k ih => simp [bind, ih]

/-- A read-only statement and its result. -/
def query (q : σ → α) : Request σ μ τ ε α := select fun s => ret (q s)

/-- A write that cannot fail; its result is computed from the store it was applied to. -/
def exec (t : τ) (f : σ → σ) (q : σ → α) : Request σ μ τ ε α :=
  write false t (fun s => some (f s)) (fun s => ret (q s)) fun s => ret (q s)

/-- A write that a constraint may refuse: `true` when it was applied. -/
def attempt (nested : Bool) (t : τ) (f : σ → Option σ) : Request σ μ τ ε Bool :=
  write nested t f (fun _ => ret true) fun _ => ret false

/-- An atomic segment on the shared memory. -/
def atomically (t : τ) (g : σ → μ → μ) (q : σ → μ → α) : Request σ μ τ ε α :=
  act t g fun s m => ret (q s m)

def commitNow (t : τ) : Request σ μ τ ε Unit := commit t (ret ())

def rollbackNow : Request σ μ τ ε Unit := rollback (ret ())

/-- A session scope: the transaction still open at its end is rolled back. -/
def session (r : Request σ μ τ ε α) : Request σ μ τ ε α :=
  (r.handle fun e => rollback (raise e)).bind fun a => rollback (ret a)

/-- The request has no statement left. -/
def ended : Request σ μ τ ε α → Bool
  | ret _ => true
  | raise _ => true
  | _ => false

/-- The result of a request that has returned. -/
def returned : Request σ μ τ ε α → Option α
  | ret a => some a
  | _ => none

theorem returned_eq_some {r : Request σ μ τ ε α} {a : α} : r.returned = some a ↔ r = ret a := by
  cases r <;> simp [returned]

end Request

/-- What one request can see: the committed store, the memory, and its working copy, if it
holds the lock. -/
structure Point (σ μ : Type) where
  db : σ
  mem : μ
  work : Option σ

namespace Point

def view (x : Point σ μ) : σ := x.work.getD x.db

/-- After an applied write that produced `s`. -/
def wrote (nested : Bool) (s : σ) (x : Point σ μ) : Point σ μ :=
  if nested && x.work.isNone then { x with db := s } else { x with work := some s }

/-- After a refused write. -/
def refused (x : Point σ μ) : Point σ μ := { x with work := some x.view }

def committed (x : Point σ μ) : Point σ μ := { x with db := x.view, work := none }

def rolledBack (x : Point σ μ) : Point σ μ := { x with work := none }

def acted (g : σ → μ → μ) (x : Point σ μ) : Point σ μ := { x with mem := g x.db x.mem }

@[simp] theorem view_mk_none (db : σ) (mem : μ) : (Point.mk db mem none).view = db := rfl
@[simp] theorem view_mk_some (db s : σ) (mem : μ) : (Point.mk db mem (some s)).view = s := rfl

theorem view_of_none {x : Point σ μ} (h : x.work = none) : x.view = x.db := by
  simp [view, h]

theorem view_of_some {x : Point σ μ} {s : σ} (h : x.work = some s) : x.view = s := by
  simp [view, h]

@[simp] theorem wrote_mem (n : Bool) (s : σ) (x : Point σ μ) : (x.wrote n s).mem = x.mem := by
  unfold wrote
  split_ifs <;> rfl

@[simp] theorem refused_mem (x : Point σ μ) : x.refused.mem = x.mem := rfl
@[simp] theorem refused_db (x : Point σ μ) : x.refused.db = x.db := rfl
@[simp] theorem refused_view (x : Point σ μ) : x.refused.view = x.view := rfl
@[simp] theorem committed_mem (x : Point σ μ) : x.committed.mem = x.mem := rfl
@[simp] theorem committed_db (x : Point σ μ) : x.committed.db = x.view := rfl
@[simp] theorem committed_work (x : Point σ μ) : x.committed.work = none := rfl
@[simp] theorem committed_view (x : Point σ μ) : x.committed.view = x.view := rfl
@[simp] theorem rolledBack_mem (x : Point σ μ) : x.rolledBack.mem = x.mem := rfl
@[simp] theorem rolledBack_db (x : Point σ μ) : x.rolledBack.db = x.db := rfl
@[simp] theorem rolledBack_work (x : Point σ μ) : x.rolledBack.work = none := rfl
@[simp] theorem rolledBack_view (x : Point σ μ) : x.rolledBack.view = x.db := rfl
@[simp] theorem acted_mem (g : σ → μ → μ) (x : Point σ μ) : (x.acted g).mem = g x.db x.mem := rfl
@[simp] theorem acted_db (g : σ → μ → μ) (x : Point σ μ) : (x.acted g).db = x.db := rfl
@[simp] theorem acted_work (g : σ → μ → μ) (x : Point σ μ) : (x.acted g).work = x.work := rfl
@[simp] theorem acted_view (g : σ → μ → μ) (x : Point σ μ) : (x.acted g).view = x.view := rfl

theorem committed_of_view {x : Point σ μ} {s : σ} (h : x.view = s) :
    x.committed = { x.rolledBack with db := s } := by
  simp [committed, rolledBack, h]

@[simp] theorem wrote_plain (s : σ) (x : Point σ μ) :
    x.wrote false s = { x with work := some s } := rfl

theorem wrote_nested_free (s : σ) {x : Point σ μ} (h : x.work = none) :
    x.wrote true s = { x with db := s } := by
  simp [wrote, h]

theorem wrote_nested_held (s : σ) {x : Point σ μ} {w : σ} (h : x.work = some w) :
    x.wrote true s = { x with work := some s } := by
  simp [wrote, h]

end Point

namespace Request

/-- One statement of the request that sees `x`. -/
def advance : Request σ μ τ ε α → Point σ μ → Request σ μ τ ε α × Point σ μ
  | select k, x => (k x.view, x)
  | write n _ f ok fail, x =>
      match f x.view with
      | some s => (ok x.view, x.wrote n s)
      | none => (fail x.view, x.refused)
  | commit _ k, x => (k, x.committed)
  | rollback k, x => (k, x.rolledBack)
  | act _ g k, x => (k x.view x.mem, x.acted g)
  | r, x => (r, x)

/-- The request's next statement takes the writer lock. -/
def writes : Request σ μ τ ε α → Bool
  | write _ _ _ _ _ => true
  | _ => false

/-- Without the lock, only a write reaches the committed store or takes the lock. -/
theorem advance_free {r : Request σ μ τ ε α} {x : Point σ μ} (hr : r.writes = false)
    (hx : x.work = none) : (r.advance x).2.db = x.db ∧ (r.advance x).2.work = none := by
  cases r with
  | write n t f ok fail => cases hr
  | commit t k => exact ⟨Point.view_of_none hx, rfl⟩
  | rollback k => exact ⟨rfl, rfl⟩
  | ret a => exact ⟨rfl, hx⟩
  | raise e => exact ⟨rfl, hx⟩
  | select k => exact ⟨rfl, hx⟩
  | act t g k => exact ⟨rfl, hx⟩

end Request

/-- How far a request comes on its own working copy: to its end, to the end of its transaction,
or to a segment on the memory. -/
inductive Settled (σ μ τ ε α : Type) where
  | returned (a : α) (s : σ)
  | raised (e : ε) (s : σ)
  | committed (t : τ) (s : σ) (k : Request σ μ τ ε α)
  | rolledBack (k : Request σ μ τ ε α)
  | acting (t : τ) (g : σ → μ → μ) (k : σ → μ → Request σ μ τ ε α) (s : σ)

namespace Request

/-- The statements of the current transaction, run on the working copy. -/
def settle : Request σ μ τ ε α → σ → Settled σ μ τ ε α
  | ret a, s => .returned a s
  | raise e, s => .raised e s
  | select k, s => (k s).settle s
  | write _ _ f ok fail, s =>
      match f s with
      | some s' => (ok s).settle s'
      | none => (fail s).settle s
  | commit t k, s => .committed t s k
  | rollback k, _ => .rolledBack k
  | act t g k, s => .acting t g k s

/-- The label of the next statement, if it has one. -/
def label : Request σ μ τ ε α → Option τ
  | write _ t _ _ _ => some t
  | commit t _ => some t
  | act t _ _ => some t
  | _ => none

end Request

/-- All requests over one store: `lock` names the holder and its working copy. -/
structure Cfg (π σ μ τ ε α : Type) where
  db : σ
  mem : μ
  lock : Option (π × σ)
  procs : π → Request σ μ τ ε α

namespace Cfg

section
variable [DecidableEq π]

def work (c : Cfg π σ μ τ ε α) (p : π) : Option σ :=
  match c.lock with
  | some (q, s) => if q = p then some s else none
  | none => none

def point (c : Cfg π σ μ τ ε α) (p : π) : Point σ μ := ⟨c.db, c.mem, c.work p⟩

/-- Another request holds the lock. -/
def locked (c : Cfg π σ μ τ ε α) (p : π) : Bool :=
  match c.lock with
  | some (q, _) => decide (q ≠ p)
  | none => false

theorem work_of_locked {c : Cfg π σ μ τ ε α} {p : π} (h : c.locked p = true) :
    c.work p = none := by
  unfold locked at h
  unfold work
  split at h <;> simp_all

theorem locked_of_work {c : Cfg π σ μ τ ε α} {p q : π} {s : σ} (h : c.work q = some s)
    (hpq : q ≠ p) : c.locked p = true := by
  unfold work at h
  unfold locked
  split at h <;> simp_all

/-- The configuration after request `p` moved to `r` and now sees `x`. -/
def put (c : Cfg π σ μ τ ε α) (p : π) (r : Request σ μ τ ε α) (x : Point σ μ) :
    Cfg π σ μ τ ε α where
  db := x.db
  mem := x.mem
  lock := match x.work with
    | some s => some (p, s)
    | none => if c.locked p then c.lock else none
  procs := Function.update c.procs p r

theorem point_put_self {c : Cfg π σ μ τ ε α} {p : π} (r : Request σ μ τ ε α) (x : Point σ μ) :
    (c.put p r x).point p = x := by
  obtain ⟨db, mem, w⟩ := x
  cases w with
  | some s => simp [point, put, work]
  | none =>
      by_cases hl : c.locked p = true
      · have hw : c.work p = none := work_of_locked hl
        simpa [point, put, work, hl] using hw
      · simp [point, put, work, hl]

theorem work_put_other {c : Cfg π σ μ τ ε α} {p q : π} (hqp : q ≠ p) (r : Request σ μ τ ε α)
    {x : Point σ μ} (hx : c.locked p = true → x.work = none) :
    (c.put p r x).work q = c.work q := by
  by_cases hl : c.locked p = true
  · simp [put, work, hx hl, hl]
  · have hq : c.work q = none := by
      by_contra hne
      obtain ⟨s, hs⟩ := Option.ne_none_iff_exists'.mp hne
      exact hl (locked_of_work hs hqp)
    rw [hq]
    cases hw : x.work with
    | none => simp [put, work, hw, hl]
    | some s => simp [put, work, hw, Ne.symm hqp]

/-- One statement of request `p`: refused when it has ended, or when it must wait. -/
def step (c : Cfg π σ μ τ ε α) (p : π) : Option (Cfg π σ μ τ ε α) :=
  if (c.procs p).ended then none
  else if (c.procs p).writes && c.locked p then none
  else some (c.put p ((c.procs p).advance (c.point p)).1 ((c.procs p).advance (c.point p)).2)

theorem step_cases {c c' : Cfg π σ μ τ ε α} {p : π} (h : c.step p = some c') :
    (c.procs p).ended = false ∧ ((c.procs p).writes = true → c.locked p = false) ∧
      c' = c.put p ((c.procs p).advance (c.point p)).1 ((c.procs p).advance (c.point p)).2 := by
  unfold step at h
  split_ifs at h with he hw
  refine ⟨by simpa using he, fun hwr => ?_, (Option.some.inj h).symm⟩
  simpa [hwr] using hw

/-- The schedule `ps`, one statement at a time. -/
def play : List π → Cfg π σ μ τ ε α → Option (Cfg π σ μ τ ε α)
  | [], c => some c
  | p :: ps, c => (c.step p).bind (play ps)

/-- The next statement of `p` satisfies the condition `P` on labelled statements. -/
def Meets (P : τ → Point σ μ → Prop) (c : Cfg π σ μ τ ε α) (p : π) : Prop :=
  ∀ t ∈ (c.procs p).label, P t (c.point p)

/-- What runs reach from `c₀` when every labelled statement satisfies `P` as it is taken. -/
inductive Reach (P : τ → Point σ μ → Prop) (c₀ : Cfg π σ μ τ ε α) : Cfg π σ μ τ ε α → Prop
  | start : Reach P c₀ c₀
  | step {c c' : Cfg π σ μ τ ε α} {p : π} :
      Reach P c₀ c → c.Meets P p → c.step p = some c' → Reach P c₀ c'

/-- Every request still to run, none started. -/
def init (db : σ) (mem : μ) (procs : π → Request σ μ τ ε α) : Cfg π σ μ τ ε α where
  db := db
  mem := mem
  lock := none
  procs := procs

theorem Reach.trans {P : τ → Point σ μ → Prop} {a b c : Cfg π σ μ τ ε α}
    (h : Reach P a b) (h' : Reach P b c) : Reach P a c := by
  induction h' with
  | start => exact h
  | step _ hm hs ih => exact ih.step hm hs

theorem Reach.mono {P P' : τ → Point σ μ → Prop} {a b : Cfg π σ μ τ ε α} (h : Reach P a b)
    (hP : ∀ t x, P t x → P' t x) : Reach P' a b := by
  induction h with
  | start => exact Reach.start
  | step _ hm hs ih => exact ih.step (fun t ht => hP _ _ (hm t ht)) hs

/-- A schedule played without any condition is a run. -/
theorem reach_of_play {c₀ : Cfg π σ μ τ ε α} {ps : List π} :
    ∀ {c c' : Cfg π σ μ τ ε α}, Reach (fun _ _ => True) c₀ c → play ps c = some c' →
      Reach (fun _ _ => True) c₀ c' := by
  induction ps with
  | nil =>
      intro c c' h hp
      obtain rfl : c = c' := by simpa [play] using hp
      exact h
  | cons p ps ih =>
      intro c c' h hp
      obtain ⟨d, hd, hp⟩ := Option.bind_eq_some_iff.mp hp
      exact ih (h.step (fun _ _ => trivial) hd) hp

/-- The schedule in which every taken statement is also checked against `P`. -/
def playChecked (P : τ → Point σ μ → Bool) :
    List π → Cfg π σ μ τ ε α → Option (Cfg π σ μ τ ε α)
  | [], c => some c
  | p :: ps, c =>
      if (c.procs p).label.all fun t => P t (c.point p) then
        (c.step p).bind (playChecked P ps)
      else none

theorem reach_of_playChecked {P : τ → Point σ μ → Prop} {B : τ → Point σ μ → Bool}
    (hB : ∀ t x, B t x = true → P t x) {c₀ : Cfg π σ μ τ ε α} {ps : List π} :
    ∀ {c c' : Cfg π σ μ τ ε α}, Reach P c₀ c → playChecked B ps c = some c' →
      Reach P c₀ c' := by
  induction ps with
  | nil =>
      intro c c' h hp
      obtain rfl : c = c' := by simpa [playChecked] using hp
      exact h
  | cons p ps ih =>
      intro c c' h hp
      rw [playChecked] at hp
      split_ifs at hp with hall
      obtain ⟨d, hd, hp⟩ := Option.bind_eq_some_iff.mp hp
      refine ih (h.step (fun t ht => hB _ _ ?_) hd) hp
      simpa [Option.mem_def.mp ht] using hall

end

end Cfg

end AikoIsland.WriterLock
