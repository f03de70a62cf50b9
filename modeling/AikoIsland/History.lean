import AikoIsland.Footprint

/-!
# History variables

A run is easier to speak about when the store remembers what was done to it.
`noting` adds a log to the store: every applied write appends what a function of
the store before and after it says, and nothing reads the log. A rollback drops
the entries of its transaction together with the working copy, so the log of the
committed store lists what committed transactions did, in the order of their
statements.

The requests themselves are unchanged: a run without the log and the run with it
go in step.
-/
namespace AikoIsland.History
open WriterLock Footprint

variable {σ μ τ ε α β π ℓ : Type}

/-- A write that also appends its note. -/
def noted (note : σ → σ → List ℓ) (f : σ → Option σ) (s : σ × List ℓ) : Option (σ × List ℓ) :=
  (f s.1).map fun s' => (s', s.2 ++ note s.1 s')

theorem noted_eq_some {note : σ → σ → List ℓ} {f : σ → Option σ} {s s' : σ × List ℓ} :
    noted note f s = some s' ↔ f s.1 = some s'.1 ∧ s'.2 = s.2 ++ note s.1 s'.1 := by
  unfold noted
  rw [Option.map_eq_some_iff]
  constructor
  · rintro ⟨t, ht, rfl⟩
    exact ⟨ht, rfl⟩
  · rintro ⟨ht, hlog⟩
    exact ⟨s'.1, ht, Prod.ext rfl hlog.symm⟩

/-- The request over the store with its log. -/
def noting (note : σ → σ → List ℓ) : Request σ μ τ ε α → Request (σ × List ℓ) μ τ ε α
  | .ret a => .ret a
  | .raise e => .raise e
  | .select k => .select fun s => noting note (k s.1)
  | .write n t f ok fail =>
      .write n t (noted note f) (fun s => noting note (ok s.1)) fun s => noting note (fail s.1)
  | .commit t k => .commit t (noting note k)
  | .rollback k => .rollback (noting note k)
  | .act t g k => .act t (fun s m => g s.1 m) fun s m => noting note (k s.1 m)

section
variable {note : σ → σ → List ℓ}

/-- The footprint with the notes. -/
theorem uses_noting {W : τ → (σ → Option σ) → Prop} {A : τ → (σ → μ → μ) → Prop}
    {r : Request σ μ τ ε α} (h : Uses W A r) :
    Uses (fun t f' => ∃ f, W t f ∧ f' = noted note f)
      (fun t g' => ∃ g, A t g ∧ g' = fun s m => g s.1 m) (noting note r) := by
  induction r with
  | ret a => trivial
  | raise e => trivial
  | select k ih => exact fun s => ih s.1 (h s.1)
  | write n t f ok fail ihok ihfail =>
      exact ⟨⟨f, h.1, rfl⟩, fun s => ihok s.1 (h.2.1 s.1), fun s => ihfail s.1 (h.2.2 s.1)⟩
  | commit t k ih => exact ih h
  | rollback k ih => exact ih h
  | act t g k ih => exact ⟨⟨g, h.1, rfl⟩, fun s m => ih s.1 m (h.2 s.1 m)⟩

theorem noting_bind (r : Request σ μ τ ε α) (f : α → Request σ μ τ ε β) :
    noting note (r >>= f) = noting note r >>= fun a => noting note (f a) := by
  change noting note (r.bind f) = (noting note r).bind fun a => noting note (f a)
  induction r with
  | ret a => rfl
  | raise e => rfl
  | select k ih => simp [Request.bind, noting, ih]
  | write n t g ok fail ihok ihfail => simp [Request.bind, noting, ihok, ihfail]
  | commit t k ih => simp [Request.bind, noting, ih]
  | rollback k ih => simp [Request.bind, noting, ih]
  | act t g k ih => simp [Request.bind, noting, ih]

theorem noting_handle (r : Request σ μ τ ε α) (f : ε → Request σ μ τ ε α) :
    noting note (r.handle f) = (noting note r).handle fun e => noting note (f e) := by
  induction r with
  | ret a => rfl
  | raise e => rfl
  | select k ih => simp [Request.handle, noting, ih]
  | write n t g ok fail ihok ihfail => simp [Request.handle, noting, ihok, ihfail]
  | commit t k ih => simp [Request.handle, noting, ih]
  | rollback k ih => simp [Request.handle, noting, ih]
  | act t g k ih => simp [Request.handle, noting, ih]

theorem noting_session (r : Request σ μ τ ε α) :
    noting note r.session = (noting note r).session := by
  change noting note ((r.handle fun e => .rollback (.raise e)) >>= fun a => .rollback (.ret a)) = _
  rw [noting_bind, noting_handle]
  rfl

/-- The same point without the log. -/
def plain (x : Point (σ × List ℓ) μ) : Point σ μ := ⟨x.db.1, x.mem, x.work.map Prod.fst⟩

theorem plain_view (x : Point (σ × List ℓ) μ) : (plain x).view = x.view.1 := by
  obtain ⟨db, mem, work⟩ := x
  cases work <;> rfl

/-- A statement with notes does what the statement without them does. -/
theorem advance_noting (note : σ → σ → List ℓ) (r : Request σ μ τ ε α) (x : Point (σ × List ℓ) μ) :
    ((noting note r).advance x).1 = noting note (r.advance (plain x)).1 ∧
      plain ((noting note r).advance x).2 = (r.advance (plain x)).2 := by
  cases r with
  | ret a => exact ⟨rfl, rfl⟩
  | raise e => exact ⟨rfl, rfl⟩
  | select k =>
      simp only [noting, Request.advance, plain_view]
      exact ⟨trivial, trivial⟩
  | write n t f ok fail =>
      simp only [noting, Request.advance, plain_view, noted]
      cases hf : f x.view.1 with
      | none =>
          constructor
          · rfl
          · simp [plain, Point.refused, Point.view, Option.getD_map]
      | some s =>
          constructor
          · rfl
          · obtain ⟨db, mem, work⟩ := x
            cases n <;> cases work <;> rfl
  | commit t k =>
      constructor
      · rfl
      · obtain ⟨db, mem, work⟩ := x
        cases work <;> rfl
  | rollback k => exact ⟨rfl, rfl⟩
  | act t g k =>
      simp only [noting, Request.advance, plain_view]
      exact ⟨rfl, rfl⟩

@[simp] theorem ended_noting (r : Request σ μ τ ε α) : (noting note r).ended = r.ended := by
  cases r <;> rfl

@[simp] theorem writes_noting (r : Request σ μ τ ε α) : (noting note r).writes = r.writes := by
  cases r <;> rfl

end

/-! ## Runs -/

/-- `c` is `d` with a log. -/
structure Shadows (note : π → σ → σ → List ℓ) (d : Cfg π σ μ τ ε α)
    (c : Cfg π (σ × List ℓ) μ τ ε α) : Prop where
  db : c.db.1 = d.db
  mem : c.mem = d.mem
  lock : c.lock.map (fun l => (l.1, l.2.1)) = d.lock
  procs : ∀ p, c.procs p = noting (note p) (d.procs p)

theorem shadows_init {note : π → σ → σ → List ℓ} (db : σ) (mem : μ)
    (procs : π → Request σ μ τ ε α) (log : List ℓ) :
    Shadows note (Cfg.init db mem procs)
      (Cfg.init (db, log) mem fun p => noting (note p) (procs p)) :=
  ⟨rfl, rfl, rfl, fun _ => rfl⟩

section
variable [DecidableEq π] {note : π → σ → σ → List ℓ} {d d' : Cfg π σ μ τ ε α}
  {c c' : Cfg π (σ × List ℓ) μ τ ε α} {p : π}

theorem Shadows.point (h : Shadows note d c) (p : π) : plain (c.point p) = d.point p := by
  obtain ⟨hdb, hmem, hlock, _⟩ := h
  obtain ⟨db, mem, lock, procs⟩ := d
  obtain ⟨db', mem', lock', procs'⟩ := c
  subst hdb hmem hlock
  unfold Cfg.point plain Cfg.work
  cases lock' with
  | none => rfl
  | some l =>
      obtain ⟨q, s⟩ := l
      by_cases hq : q = p <;> simp [hq]

theorem Shadows.locked (h : Shadows note d c) (p : π) : c.locked p = d.locked p := by
  obtain ⟨_, _, hlock, _⟩ := h
  unfold Cfg.locked
  rw [← hlock]
  cases c.lock <;> rfl

theorem Shadows.put (h : Shadows note d c) (p : π) (r : Request σ μ τ ε α)
    (x : Point (σ × List ℓ) μ) :
    Shadows note (d.put p r (plain x)) (c.put p (noting (note p) r) x) := by
  constructor
  · rfl
  · rfl
  · obtain ⟨db, mem, work⟩ := x
    cases work with
    | some s => rfl
    | none =>
        simp only [Cfg.put, plain, Option.map_none, h.locked p]
        split_ifs
        · exact h.lock
        · rfl
  · intro q
    by_cases hq : q = p
    · subst hq
      simp [Cfg.put]
    · simp [Cfg.put, hq, h.procs q]

/-- Every step without the log is a step with it. -/
theorem Shadows.step (h : Shadows note d c) (hs : d.step p = some d') :
    ∃ c', c.step p = some c' ∧ Shadows note d' c' := by
  obtain ⟨hend, hlock, rfl⟩ := Cfg.step_cases hs
  have hadv := advance_noting (note p) (d.procs p) (c.point p)
  rw [h.point p, ← h.procs p] at hadv
  refine ⟨c.put p ((c.procs p).advance (c.point p)).1 ((c.procs p).advance (c.point p)).2, ?_, ?_⟩
  · unfold Cfg.step
    have hend' : (c.procs p).ended = false := by rw [h.procs p, ended_noting, hend]
    have hwait : ((c.procs p).writes && c.locked p) = false := by
      rw [h.procs p, writes_noting, h.locked p]
      cases hw : (d.procs p).writes with
      | false => rfl
      | true => simpa using hlock hw
    simp [hend', hwait]
  · have hput := h.put p ((d.procs p).advance (d.point p)).1 ((c.procs p).advance (c.point p)).2
    rwa [hadv.1, ← hadv.2]

/-- A run without the log is the shadow of one with it. -/
theorem Shadows.reach (h : Shadows note d c) (hr : Cfg.Reach (fun _ _ => True) d d') :
    ∃ c', Cfg.Reach (fun _ _ => True) c c' ∧ Shadows note d' c' := by
  induction hr with
  | start => exact ⟨c, .start, h⟩
  | step _ _ hs ih =>
      obtain ⟨c₁, hreach, hshadow⟩ := ih
      obtain ⟨c₂, hstep, hshadow'⟩ := hshadow.step hs
      exact ⟨c₂, hreach.step (fun _ _ => trivial) hstep, hshadow'⟩

/-- And a run with the log is a run without it. -/
theorem Shadows.reach_plain (h : Shadows note d c) (hr : Cfg.Reach (fun _ _ => True) c c') :
    ∃ d', Cfg.Reach (fun _ _ => True) d d' ∧ Shadows note d' c' := by
  induction hr with
  | start => exact ⟨d, .start, h⟩
  | @step c₁ c₂ q _ _ hs ih =>
      obtain ⟨d₁, hreach, hshadow⟩ := ih
      obtain ⟨hend, hlock, rfl⟩ := Cfg.step_cases hs
      rw [hshadow.procs q, ended_noting] at hend
      rw [hshadow.procs q, writes_noting, hshadow.locked q] at hlock
      have hwait : ((d₁.procs q).writes && d₁.locked q) = false := by
        cases hw : (d₁.procs q).writes with
        | false => rfl
        | true => simpa using hlock hw
      have hstep : d₁.step q = some (d₁.put q ((d₁.procs q).advance (d₁.point q)).1
          ((d₁.procs q).advance (d₁.point q)).2) := by
        simp [Cfg.step, hend, hwait]
      obtain ⟨c₃, hc₃, hshadow'⟩ := hshadow.step hstep
      obtain rfl := Option.some.inj (hs.symm.trans hc₃)
      exact ⟨_, hreach.step (fun _ _ => trivial) hstep, hshadow'⟩

end

end AikoIsland.History
