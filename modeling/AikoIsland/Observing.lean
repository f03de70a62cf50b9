import AikoIsland.Publishing

/-!
# Labels that say what a request has seen

A condition on runs sees the label of a statement and the point where it is
taken. `observe` gives every statement a label, a SELECT too, and the label may
depend on the store that the statement before it left behind. A condition can
then say that something the request saw is still there.

A SELECT becomes a segment that leaves the memory alone, so the requests take
the same steps as before: a run of the requests is a run of the observed ones.

What a request sees is the committed store with its own statements on top: a
relation that its statements keep relates the two throughout a run.
-/
namespace AikoIsland.Observing
open WriterLock RelyGuarantee Footprint Publishing

variable {σ μ τ τ' ε α π : Type}

/-- The same statements, labelled with what was seen before them and their own label. -/
def observe (g : Option σ → Option τ → τ') :
    Option σ → Request σ μ τ ε α → Request σ μ τ' ε α
  | _, .ret a => .ret a
  | _, .raise e => .raise e
  | seen, .select k => .act (g seen none) (fun _ m => m) fun s _ => observe g (some s) (k s)
  | seen, .write n t f ok fail =>
      .write n (g seen (some t)) f (fun s => observe g (some ((f s).getD s)) (ok s))
        fun s => observe g (some s) (fail s)
  | seen, .commit t k => .commit (g seen (some t)) (observe g seen k)
  | _, .rollback k => .rollback (observe g none k)
  | seen, .act t h k => .act (g seen (some t)) h fun s m => observe g (some s) (k s m)

section
variable {g : Option σ → Option τ → τ'} {seen : Option σ}

@[simp] theorem ended_observe (r : Request σ μ τ ε α) : (observe g seen r).ended = r.ended := by
  cases r <;> rfl

@[simp] theorem writes_observe (r : Request σ μ τ ε α) : (observe g seen r).writes = r.writes := by
  cases r <;> rfl

/-- An observed statement does what the statement does. -/
theorem advance_observe (r : Request σ μ τ ε α) (x : Point σ μ) :
    (∃ seen', ((observe g seen r).advance x).1 = observe g seen' (r.advance x).1) ∧
      ((observe g seen r).advance x).2 = (r.advance x).2 := by
  cases r with
  | ret a => exact ⟨⟨none, rfl⟩, rfl⟩
  | raise e => exact ⟨⟨none, rfl⟩, rfl⟩
  | select k => exact ⟨⟨_, rfl⟩, rfl⟩
  | write n t f ok fail =>
      simp only [observe, Request.advance]
      cases f x.view with
      | some s => exact ⟨⟨_, rfl⟩, rfl⟩
      | none => exact ⟨⟨_, rfl⟩, rfl⟩
  | commit t k => exact ⟨⟨_, rfl⟩, rfl⟩
  | rollback k => exact ⟨⟨_, rfl⟩, rfl⟩
  | act t h k => exact ⟨⟨_, rfl⟩, rfl⟩

end

/-! ## Runs -/

/-- `c` is `d` with its requests observed. -/
structure Observes (g : π → Option σ → Option τ → τ') (d : Cfg π σ μ τ ε α)
    (c : Cfg π σ μ τ' ε α) : Prop where
  db : c.db = d.db
  mem : c.mem = d.mem
  lock : c.lock = d.lock
  procs : ∀ p, ∃ seen, c.procs p = observe (g p) seen (d.procs p)

theorem observes_init {g : π → Option σ → Option τ → τ'} (db : σ) (mem : μ)
    (procs : π → Request σ μ τ ε α) :
    Observes g (Cfg.init db mem procs)
      (Cfg.init db mem fun p => observe (g p) none (procs p)) :=
  ⟨rfl, rfl, rfl, fun _ => ⟨none, rfl⟩⟩

section
variable [DecidableEq π] {g : π → Option σ → Option τ → τ'} {d d' : Cfg π σ μ τ ε α}
  {c : Cfg π σ μ τ' ε α} {p : π}

theorem Observes.step (h : Observes g d c) (hs : d.step p = some d') :
    ∃ c', c.step p = some c' ∧ Observes g d' c' := by
  obtain ⟨hend, hlock, rfl⟩ := Cfg.step_cases hs
  obtain ⟨seen, hproc⟩ := h.procs p
  obtain ⟨db, mem, lock, procs⟩ := d
  obtain ⟨db', mem', lock', procs'⟩ := c
  obtain ⟨hdb, hmem, hlocks, hprocs⟩ := h
  dsimp only at hdb hmem hlocks hprocs hproc hend hlock
  subst hdb hmem hlocks
  have hpoint : (Cfg.mk db' mem' lock' procs').point p = (Cfg.mk db' mem' lock' procs).point p :=
    rfl
  obtain ⟨⟨seen', hnext⟩, hafter⟩ :=
    @advance_observe _ _ _ _ _ _ (g p) seen (procs p) ((Cfg.mk db' mem' lock' procs).point p)
  refine ⟨(Cfg.mk db' mem' lock' procs').put p
    (observe (g p) seen' ((procs p).advance ((Cfg.mk db' mem' lock' procs).point p)).1)
    ((procs p).advance ((Cfg.mk db' mem' lock' procs).point p)).2, ?_, ?_⟩
  · have hwait : ((procs p).writes && (Cfg.mk db' mem' lock' procs').locked p) = false := by
      cases hw : (procs p).writes with
      | false => rfl
      | true => exact hlock hw
    unfold Cfg.step
    simp only [hproc, ended_observe, writes_observe, hend, hwait, hpoint, hnext, hafter]
    simp
  · constructor
    · rfl
    · rfl
    · rfl
    · intro q
      by_cases hq : q = p
      · subst hq
        exact ⟨seen', by simp [Cfg.put]⟩
      · obtain ⟨seen, hother⟩ := hprocs q
        exact ⟨seen, by simpa [Cfg.put, hq] using hother⟩

/-- Every run of the requests is a run of the observed requests. -/
theorem Observes.reach (h : Observes g d c) (hr : Cfg.Reach (fun _ _ => True) d d') :
    ∃ c', Cfg.Reach (fun _ _ => True) c c' ∧ Observes g d' c' := by
  induction hr with
  | start => exact ⟨c, Cfg.Reach.start, h⟩
  | step _ _ hs ih =>
      obtain ⟨c₁, hreach, hobs⟩ := ih
      obtain ⟨c₂, hstep, hobs'⟩ := hobs.step hs
      exact ⟨c₂, hreach.step (fun _ _ => trivial) hstep, hobs'⟩

end

/-! ## Requests that have not started -/

/-- What may be left of a request after one statement. -/
inductive Next : Request σ μ τ ε α → Request σ μ τ ε α → Prop
  | select {k : σ → Request σ μ τ ε α} (s : σ) : Next (k s) (.select k)
  | ok {n : Bool} {t : τ} {f : σ → Option σ} {ok fail : σ → Request σ μ τ ε α} (s : σ) :
      Next (ok s) (.write n t f ok fail)
  | fail {n : Bool} {t : τ} {f : σ → Option σ} {ok fail : σ → Request σ μ τ ε α} (s : σ) :
      Next (fail s) (.write n t f ok fail)
  | commit {t : τ} {k : Request σ μ τ ε α} : Next k (.commit t k)
  | rollback {k : Request σ μ τ ε α} : Next k (.rollback k)
  | act {t : τ} {h : σ → μ → μ} {k : σ → μ → Request σ μ τ ε α} (s : σ) (m : μ) :
      Next (k s m) (.act t h k)

theorem wellFounded_next : WellFounded (@Next σ μ τ ε α) := by
  constructor
  intro r
  induction r with
  | ret a => exact ⟨_, fun _ h => by cases h⟩
  | raise e => exact ⟨_, fun _ h => by cases h⟩
  | select k ih =>
      constructor
      intro r h
      cases h with
      | select s => exact ih s
  | write n t f ok fail ihok ihfail =>
      constructor
      intro r h
      cases h with
      | ok s => exact ihok s
      | fail s => exact ihfail s
  | commit t k ih =>
      constructor
      intro r h
      cases h
      exact ih
  | rollback k ih =>
      constructor
      intro r h
      cases h
      exact ih
  | act t f k ih =>
      constructor
      intro r h
      cases h with
      | act s m => exact ih s m

theorem next_advance {r : Request σ μ τ ε α} (hr : r.ended = false) (x : Point σ μ) :
    Next (r.advance x).1 r := by
  cases r with
  | ret a => cases hr
  | raise e => cases hr
  | select k => exact Next.select _
  | write n t f ok fail =>
      simp only [Request.advance]
      cases f x.view with
      | some s => exact Next.ok _
      | none => exact Next.fail _
  | commit t k => exact Next.commit
  | rollback k => exact Next.rollback
  | act t h k => exact Next.act _ _

/-- A request never comes back to its first statement. -/
theorem unstarted_or_next [DecidableEq π] {P : τ → Point σ μ → Prop} {db : σ} {mem : μ}
    {procs : π → Request σ μ τ ε α} {c : Cfg π σ μ τ ε α}
    (hr : Cfg.Reach P (Cfg.init db mem procs) c) (p : π) :
    c.procs p = procs p ∧ c.work p = none ∨ Relation.TransGen Next (c.procs p) (procs p) := by
  induction hr with
  | start => exact Or.inl ⟨rfl, rfl⟩
  | @step d d' q _ _ hs ih =>
      obtain ⟨hend, hlock, rfl⟩ := Cfg.step_cases hs
      by_cases hqp : p = q
      · subst hqp
        right
        have hnext : Next ((d.procs p).advance (d.point p)).1 (d.procs p) := next_advance hend _
        change Relation.TransGen Next
          (Function.update d.procs p ((d.procs p).advance (d.point p)).1 p) (procs p)
        rw [Function.update_self]
        rcases ih with ⟨hsame, _⟩ | hlater
        · rw [← hsame]
          exact Relation.TransGen.single hnext
        · exact Relation.TransGen.head hnext hlater
      · have hfree : d.locked q = true → ((d.procs q).advance (d.point q)).2.work = none := by
          intro hl
          have hw : (d.procs q).writes = false := by
            by_contra hne
            rw [hlock (by simpa using hne)] at hl
            cases hl
          exact (Request.advance_free hw (Cfg.work_of_locked hl)).2
        rw [Cfg.work_put_other hqp _ hfree]
        have hproc : (d.put q ((d.procs q).advance (d.point q)).1
            ((d.procs q).advance (d.point q)).2).procs p = d.procs p := by
          simp [Cfg.put, hqp]
        rw [hproc]
        exact ih

theorem work_of_unstarted [DecidableEq π] {P : τ → Point σ μ → Prop} {db : σ} {mem : μ}
    {procs : π → Request σ μ τ ε α} {c : Cfg π σ μ τ ε α} {p : π}
    (hr : Cfg.Reach P (Cfg.init db mem procs) c) (hp : c.procs p = procs p) :
    c.work p = none := by
  rcases unstarted_or_next hr p with ⟨_, hwork⟩ | hlater
  · exact hwork
  · rw [hp] at hlater
    exact absurd hlater (wellFounded_next.transGen.irrefl.irrefl _)

/-! ## Requests whose condition does not look back -/

/-- A specification for the requests as they are: their statements meet its condition whatever
was seen. -/
def unseen (g : Option σ → Option τ → τ') (S : Spec π σ μ τ') : Spec π σ μ τ where
  inv := S.inv
  rely := S.rely
  meets t x := ∃ seen, S.meets (g seen (some t)) x
  rely_refl := S.rely_refl
  rely_trans := S.rely_trans

section
variable {g : Option σ → Option τ → τ'} {S : Spec π σ μ τ'} {p : π} {x y : Point σ μ}

theorem env_unseen (h : S.Env p x y) : (unseen g S).Env p x y :=
  ⟨h.work, h.rely, h.held, h.inv⟩

theorem allows_of_unseen (h : (unseen g S).Allows p x y) : S.Allows p x y :=
  ⟨h.inv, h.others⟩

theorem publishes_observe {r : Request σ μ τ ε α} {G : σ → σ → Prop}
    {N : Option (σ × σ) → Except ε α → Prop} {past : List (σ × σ)} {seen : Option σ}
    (h : Publishes (unseen g S) p G N past r x) :
    Publishes S p G N past (observe g seen r) x := by
  induction r generalizing x past seen with
  | ret a => exact h
  | raise e => exact h
  | select k ih =>
      intro y hy _
      have hsame : y.acted (fun _ m => m) = y := rfl
      rw [hsame]
      exact ⟨⟨hy.inv, fun q _ => S.rely_refl q _ _⟩, ih y.view (h y (env_unseen hy))⟩
  | write n t f ok fail ihok ihfail =>
      intro y hy hm
      obtain ⟨hok, hfail⟩ := h y (env_unseen hy) ⟨_, hm⟩
      constructor
      · intro s hs
        constructor
        · intro hn
          obtain ⟨hg, hallow, hnext⟩ := (hok s hs).1 hn
          exact ⟨hg, allows_of_unseen hallow, ihok y.view hnext⟩
        · exact fun hn => ihok y.view ((hok s hs).2 hn)
      · exact fun hn => ihfail y.view (hfail hn)
  | commit t k ih =>
      intro y hy hm
      obtain ⟨hfree, hheld⟩ := h y (env_unseen hy) ⟨_, hm⟩
      constructor
      · exact fun hw => ih (hfree hw)
      · intro w hw
        obtain ⟨hg, hallow, hnext⟩ := hheld w hw
        exact ⟨hg, allows_of_unseen hallow, ih hnext⟩
  | rollback k ih => exact fun y hy => ih (h y (env_unseen hy))
  | act t k₀ k ih =>
      intro y hy hm
      obtain ⟨hallow, hnext⟩ := h y (env_unseen hy) ⟨_, hm⟩
      exact ⟨allows_of_unseen hallow, ih y.view y.mem hnext⟩

end

/-! ## What a request sees -/

section
variable {R : σ → σ → Prop} {W : τ → (σ → Option σ) → Prop} {A : τ → (σ → μ → μ) → Prop}

/-- What a footprint does to the view, it does to the view over any store. -/
theorem advance_view (refl : ∀ s, R s s) (trans : ∀ {a b c}, R a b → R b c → R a c)
    (hW : ∀ t f s s', W t f → f s = some s' → R s s') {r : Request σ μ τ ε α} {x : Point σ μ}
    (h : Uses W A r) (hx : R x.db x.view) :
    Uses W A (r.advance x).1 ∧ R (r.advance x).2.db (r.advance x).2.view := by
  cases r with
  | ret a => exact ⟨h, hx⟩
  | raise e => exact ⟨h, hx⟩
  | select k => exact ⟨h x.view, hx⟩
  | write n t f ok fail =>
      simp only [Request.advance]
      cases hf : f x.view with
      | none => exact ⟨h.2.2 x.view, hx⟩
      | some s =>
          have hs : R x.db s := trans hx (hW t f x.view s h.1 hf)
          refine ⟨h.2.1 x.view, ?_⟩
          unfold Point.wrote
          split_ifs with hn
          · rw [Bool.and_eq_true, Option.isNone_iff_eq_none] at hn
            have hview : ({ x with db := s } : Point σ μ).view = s := Point.view_of_none hn.2
            rw [hview]
            exact refl s
          · exact hs
  | commit t k => exact ⟨h, refl _⟩
  | rollback k => exact ⟨h, refl _⟩
  | act t g k => exact ⟨h.2 x.view x.mem, hx⟩

/-- The run lemma: a request sees the committed store, up to its own statements. -/
theorem reach_view [DecidableEq π] (refl : ∀ s, R s s)
    (trans : ∀ {a b c}, R a b → R b c → R a c)
    (hW : ∀ t f s s', W t f → f s = some s' → R s s') {P : τ → Point σ μ → Prop}
    {c c' : Cfg π σ μ τ ε α} {p : π} (hr : Cfg.Reach P c c') (h : Uses W A (c.procs p))
    (hc : R c.db (c.point p).view) :
    Uses W A (c'.procs p) ∧ R c'.db (c'.point p).view := by
  induction hr with
  | start => exact ⟨h, hc⟩
  | @step d d' q _ _ hs ih =>
      obtain ⟨huses, hview⟩ := ih
      obtain ⟨hend, hlock, rfl⟩ := Cfg.step_cases hs
      by_cases hqp : p = q
      · subst hqp
        have hproc : (d.put p ((d.procs p).advance (d.point p)).1
            ((d.procs p).advance (d.point p)).2).procs p =
              ((d.procs p).advance (d.point p)).1 := by
          simp [Cfg.put]
        rw [Cfg.point_put_self, hproc]
        exact advance_view refl trans hW huses hview
      · have hfree : d.locked q = true →
            ((d.procs q).advance (d.point q)).2.db = d.db ∧
              ((d.procs q).advance (d.point q)).2.work = none := by
          intro hl
          have hw : (d.procs q).writes = false := by
            by_contra hne
            rw [hlock (by simpa using hne)] at hl
            cases hl
          exact Request.advance_free hw (Cfg.work_of_locked hl)
        have hwork := Cfg.work_put_other (c := d) hqp ((d.procs q).advance (d.point q)).1
          (fun hl => (hfree hl).2)
        have hproc : (d.put q ((d.procs q).advance (d.point q)).1
            ((d.procs q).advance (d.point q)).2).procs p = d.procs p := by
          simp [Cfg.put, hqp]
        rw [hproc]
        refine ⟨huses, ?_⟩
        cases hheld : d.work p with
        | none =>
            have hsame : ((d.put q ((d.procs q).advance (d.point q)).1
                ((d.procs q).advance (d.point q)).2).point p).view =
                (d.put q ((d.procs q).advance (d.point q)).1
                  ((d.procs q).advance (d.point q)).2).db := by
              apply Point.view_of_none
              exact hwork.trans hheld
            rw [hsame]
            exact refl _
        | some w =>
            -- under the lock of `p` the store stays, and so does the view
            have hdb := (hfree (Cfg.locked_of_work hheld hqp)).1
            have hlater : ((d.put q ((d.procs q).advance (d.point q)).1
                ((d.procs q).advance (d.point q)).2).point p).view = w :=
              Point.view_of_some (hwork.trans hheld)
            have hbefore : (d.point p).view = w := Point.view_of_some hheld
            rw [hlater]
            rw [hbefore] at hview
            change R ((d.procs q).advance (d.point q)).2.db w
            rw [hdb]
            exact hview

end
end AikoIsland.Observing
