import AikoIsland.Publishing
import AikoIsland.History

/-!
# A transaction as one step

From its first write to its commit a request holds the lock: nobody else changes the
committed store, and what it reads and writes is its own working copy. So its
statements up to the commit, the rollback or the next segment on the memory are one
computation on that copy, and what it owes can be read off where that computation
settles.
-/
namespace AikoIsland.Settling
open WriterLock RelyGuarantee Publishing History

variable {σ μ τ ε α β π ℓ : Type}

/-! ## Settling a sequence -/

theorem settle_query (q : σ → β) (f : β → Request σ μ τ ε α) (s : σ) :
    (Request.query q >>= f).settle s = (f (q s)).settle s := rfl

theorem settle_exec (t : τ) (g : σ → σ) (q : σ → β) (f : β → Request σ μ τ ε α) (s : σ) :
    (Request.exec t g q >>= f).settle s = (f (q s)).settle (g s) := rfl

theorem attempt_bind (n : Bool) (t : τ) (g : σ → Option σ) (f : Bool → Request σ μ τ ε α) :
    (Request.attempt n t g >>= f) =
      .write n t g (fun _ => f true) (fun _ => f false) := rfl

theorem settle_attempt_some {n : Bool} {t : τ} {g : σ → Option σ} {f : Bool → Request σ μ τ ε α}
    {s s' : σ} (h : g s = some s') :
    (Request.attempt n t g >>= f).settle s = (f true).settle s' := by
  rw [attempt_bind]
  simp only [Request.settle, h]

theorem settle_attempt_none {n : Bool} {t : τ} {g : σ → Option σ} {f : Bool → Request σ μ τ ε α}
    {s : σ} (h : g s = none) : (Request.attempt n t g >>= f).settle s = (f false).settle s := by
  rw [attempt_bind]
  simp only [Request.settle, h]

/-- A list of writes is the fold of its updates. -/
theorem settle_execs (ss : List (τ × (σ → σ))) (k : PUnit → Request σ μ τ ε α) (s : σ) :
    (ss.forM (fun t => Request.exec t.1 t.2 fun _ => ()) >>= k).settle s =
      (k ()).settle (ss.foldl (fun s t => t.2 s) s) := by
  induction ss generalizing s with
  | nil => rfl
  | cons t ss ih => exact ih (t.2 s)

def andThen : Settled σ μ τ ε α → (α → Request σ μ τ ε β) → Settled σ μ τ ε β
  | .returned a s, f => (f a).settle s
  | .raised e s, _ => .raised e s
  | .committed t s k, f => .committed t s (k >>= f)
  | .rolledBack k, f => .rolledBack (k >>= f)
  | .acting t g k s, f => .acting t g (fun v m => k v m >>= f) s

def handled : Settled σ μ τ ε α → (ε → Request σ μ τ ε α) → Settled σ μ τ ε α
  | .returned a s, _ => .returned a s
  | .raised e s, h => (h e).settle s
  | .committed t s k, h => .committed t s (k.handle h)
  | .rolledBack k, h => .rolledBack (k.handle h)
  | .acting t g k s, h => .acting t g (fun v m => (k v m).handle h) s

theorem settle_bind (r : Request σ μ τ ε α) (f : α → Request σ μ τ ε β) (s : σ) :
    (r >>= f).settle s = andThen (r.settle s) f := by
  change (r.bind f).settle s = _
  induction r generalizing s with
  | ret a => rfl
  | raise e => rfl
  | select k ih => exact ih s s
  | write n t g ok fail ihok ihfail =>
      simp only [Request.bind, Request.settle]
      cases g s with
      | none => exact ihfail s s
      | some s' => exact ihok s s'
  | commit t k => rfl
  | rollback k => rfl
  | act t g k => rfl

theorem settle_handle (r : Request σ μ τ ε α) (h : ε → Request σ μ τ ε α) (s : σ) :
    (r.handle h).settle s = handled (r.settle s) h := by
  induction r generalizing s with
  | ret a => rfl
  | raise e => rfl
  | select k ih => exact ih s s
  | write n t g ok fail ihok ihfail =>
      simp only [Request.handle, Request.settle]
      cases g s with
      | none => exact ihfail s s
      | some s' => exact ihok s s'
  | commit t k => rfl
  | rollback k => rfl
  | act t g k => rfl

/-! ## Refusals -/

/-- The exception of a request that has raised. -/
def raised : Request σ μ τ ε α → Option ε
  | .raise e => some e
  | _ => none

theorem raised_eq_some {r : Request σ μ τ ε α} {e : ε} : raised r = some e ↔ r = .raise e := by
  cases r <;> simp [raised]

/-- Nothing but an exception can come of the request, and it publishes nothing. -/
def Barren : Request σ μ τ ε α → Prop
  | .raise _ => True
  | .select k => ∀ s, Barren (k s)
  | .rollback k => Barren k
  | _ => False

/-- The transaction ends in an exception or a rollback, and what follows is barren. -/
def Lost : Settled σ μ τ ε α → Prop
  | .raised _ _ => True
  | .rolledBack k => Barren k
  | _ => False

theorem Barren.bind {r : Request σ μ τ ε α} (h : Barren r) (f : α → Request σ μ τ ε β) :
    Barren (r >>= f) := by
  change Barren (r.bind f)
  induction r with
  | raise e => trivial
  | select k ih => exact fun s => ih s (h s)
  | rollback k ih => exact ih h
  | ret a => exact h.elim
  | write n t g ok fail => exact h.elim
  | commit t k => exact h.elim
  | act t g k => exact h.elim

theorem Barren.handle {r : Request σ μ τ ε α} {h : ε → Request σ μ τ ε α} (hr : Barren r)
    (hh : ∀ e, Barren (h e)) : Barren (r.handle h) := by
  induction r with
  | raise e => exact hh e
  | select k ih => exact fun s => ih s (hr s)
  | rollback k ih => exact ih hr
  | ret a => exact hr.elim
  | write n t g ok fail => exact hr.elim
  | commit t k => exact hr.elim
  | act t g k => exact hr.elim

theorem Barren.lost {r : Request σ μ τ ε α} (h : Barren r) (s : σ) : Lost (r.settle s) := by
  induction r with
  | raise e => trivial
  | select k ih => exact ih s (h s)
  | rollback k => exact h
  | ret a => exact h.elim
  | write n t g ok fail => exact h.elim
  | commit t k => exact h.elim
  | act t g k => exact h.elim

theorem Barren.uses {W : τ → (σ → Option σ) → Prop} {A : τ → (σ → μ → μ) → Prop}
    {r : Request σ μ τ ε α} (h : Barren r) : Footprint.Uses W A r := by
  induction r with
  | raise e => trivial
  | select k ih => exact fun s => ih s (h s)
  | rollback k ih => exact ih h
  | ret a => exact h.elim
  | write n t g ok fail => exact h.elim
  | commit t k => exact h.elim
  | act t g k => exact h.elim

theorem Lost.andThen {o : Settled σ μ τ ε α} (h : Lost o) (f : α → Request σ μ τ ε β) :
    Lost (andThen o f) := by
  cases o with
  | raised e s => trivial
  | rolledBack k => exact Barren.bind h f
  | returned a s => exact h.elim
  | committed t s k => exact h.elim
  | acting t g k s => exact h.elim

theorem Lost.handled {o : Settled σ μ τ ε α} {h : ε → Request σ μ τ ε α} (ho : Lost o)
    (hh : ∀ e, Barren (h e)) : Lost (handled o h) := by
  cases o with
  | raised e s => exact (hh e).lost s
  | rolledBack k => exact Barren.handle ho hh
  | returned a s => exact ho.elim
  | committed t s k => exact ho.elim
  | acting t g k s => exact ho.elim

/-! ## What is owed where a transaction settles -/

/-- What a request owes when it has settled, having taken the lock in the transaction of `x`. -/
def Owes (S : Spec π σ μ τ) (p : π) (G : σ → σ → Prop) (N : Option (σ × σ) → Except ε α → Prop)
    (past : List (σ × σ)) (x : Point σ μ) : Settled σ μ τ ε α → Prop
  | .returned a _ => Owed N past (.ok a)
  | .raised e _ => Owed N past (.error e)
  | .committed t s k => ∀ y, S.Env p { x with work := some s } y → S.meets t y →
      G y.db s ∧ S.Allows p y { y with db := s } ∧
        Publishes S p G N ((y.db, s) :: past) k { y with db := s, work := none }
  | .rolledBack k => ∀ y, S.Env p x.rolledBack y → Publishes S p G N past k y
  | .acting t g k s => Publishes S p G N past (.act t g k) { x with work := some s }

section
variable {S : Spec π σ μ τ} {p : π} {G : σ → σ → Prop} {N : Option (σ × σ) → Except ε α → Prop}
  {past : List (σ × σ)} {x y : Point σ μ}

theorem Owes.env {w : σ} {o : Settled σ μ τ ε α} (hw : x.work = some w) (he : S.Env p x y)
    (h : Owes S p G N past x o) : Owes S p G N past y o := by
  cases o with
  | returned a s => exact h
  | raised e s => exact h
  | committed t s k => exact fun z hz => h z ((he.rewritten hw s).trans hz)
  | rolledBack k => exact fun z hz => h z (he.rolledBack.trans hz)
  | acting t g k s => exact Publishes.env h (he.rewritten hw s)

theorem Owes.rewritten {w : Option σ} {o : Settled σ μ τ ε α} (h : Owes S p G N past x o) :
    Owes S p G N past { x with work := w } o := by
  cases o <;> exact h

/-- Under the lock it is enough to look where the request settles. -/
theorem publishes_of_settle {r : Request σ μ τ ε α} {w : σ} (hw : x.work = some w)
    (h : Owes S p G N past x (r.settle w)) : Publishes S p G N past r x := by
  have hself : ∀ {y : Point σ μ} {s : σ}, y.work = some s → ({ y with work := some s }) = y := by
    rintro ⟨db, mem, _⟩ s rfl
    rfl
  induction r generalizing x w with
  | ret a => exact h
  | raise e => exact h
  | select k ih =>
      intro y hy
      rw [hy.view_eq hw]
      exact ih w (hy.work.trans hw) (h.env hw hy)
  | write n t f ok fail ihok ihfail =>
      intro y hy _
      have hyw : y.work = some w := hy.work.trans hw
      have hown := h.env hw hy
      rw [hy.view_eq hw]
      simp only [Request.settle] at hown
      constructor
      · intro s hs
        rw [hs] at hown
        constructor
        · intro hn
          rw [hyw] at hn
          cases hn.2
        · intro _
          exact ihok w rfl hown.rewritten
      · intro hn
        rw [hn] at hown
        have hrefused : y.refused = y := by
          rw [Point.refused, hy.view_eq hw, hself hyw]
        rw [hrefused]
        exact ihfail w hyw hown
  | commit t k ih =>
      apply Publishes.commit hw
      intro y hy hm
      apply h y _ hm
      rwa [hself hw]
  | rollback k ih =>
      intro y hy
      exact h y.rolledBack hy.rolledBack
  | act t g k ih =>
      have hact : Publishes S p G N past (.act t g k) { x with work := some w } := h
      rwa [hself hw] at hact

theorem Barren.publishes {r : Request σ μ τ ε α} (h : Barren r)
    (hraise : ∀ e, Owed N past (.error e)) : Publishes S p G N past r x := by
  induction r generalizing x with
  | raise e => exact hraise e
  | select k ih => exact fun y _ => ih y.view (h y.view)
  | rollback k ih => exact fun y _ => ih h
  | ret a => exact h.elim
  | write n t g ok fail => exact h.elim
  | commit t k => exact h.elim
  | act t g k => exact h.elim

theorem Owes.of_lost {o : Settled σ μ τ ε α} (h : Lost o) (hraise : ∀ e, Owed N past (.error e)) :
    Owes S p G N past x o := by
  cases o with
  | raised e s => exact hraise e
  | rolledBack k => exact fun y _ => Barren.publishes h hraise
  | returned a s => exact h.elim
  | committed t s k => exact h.elim
  | acting t g k s => exact h.elim

end

/-! ## Sequences of transactions -/

section
variable {S : Spec π σ μ τ} {p : π} {G : σ → σ → Prop} {past : List (σ × σ)} {x : Point σ μ}

/-- What follows a first part owes its result to what that part has published. -/
theorem publishes_bind {M : Option (σ × σ) → Except ε α → Prop}
    {N : Option (σ × σ) → Except ε β → Prop} {r : Request σ μ τ ε α}
    {f : α → Request σ μ τ ε β} (h : Publishes S p G M past r x)
    (hraise : ∀ past e, Owed M past (.error e) → Owed N past (.error e))
    (hf : ∀ past a y, Owed M past (.ok a) → Publishes S p G N past (f a) y) :
    Publishes S p G N past (r >>= f) x := by
  change Publishes S p G N past (r.bind f) x
  induction r generalizing past x with
  | ret a => exact hf past a x h
  | raise e => exact hraise past e h
  | select k ih => exact fun y hy => ih y.view (h y hy)
  | write n t g ok fail ihok ihfail =>
      intro y hy hm
      obtain ⟨hok, hfail⟩ := h y hy hm
      constructor
      · intro s hs
        constructor
        · intro hn
          obtain ⟨hg, hallow, hk⟩ := (hok s hs).1 hn
          exact ⟨hg, hallow, ihok y.view hk⟩
        · exact fun hn => ihok y.view ((hok s hs).2 hn)
      · exact fun hn => ihfail y.view (hfail hn)
  | commit t k ih =>
      intro y hy hm
      obtain ⟨hfree, hheld⟩ := h y hy hm
      constructor
      · exact fun hw => ih (hfree hw)
      · intro w hw
        obtain ⟨hg, hallow, hk⟩ := hheld w hw
        exact ⟨hg, hallow, ih hk⟩
  | rollback k ih => exact fun y hy => ih (h y hy)
  | act t g k ih =>
      intro y hy hm
      obtain ⟨hallow, hk⟩ := h y hy hm
      exact ⟨hallow, ih y.view y.mem hk⟩

theorem publishes_handle {M N : Option (σ × σ) → Except ε α → Prop} {r : Request σ μ τ ε α}
    {f : ε → Request σ μ τ ε α} (h : Publishes S p G M past r x)
    (hok : ∀ past a, Owed M past (.ok a) → Owed N past (.ok a))
    (hf : ∀ past e y, Owed M past (.error e) → Publishes S p G N past (f e) y) :
    Publishes S p G N past (r.handle f) x := by
  induction r generalizing past x with
  | ret a => exact hok past a h
  | raise e => exact hf past e x h
  | select k ih => exact fun y hy => ih y.view (h y hy)
  | write n t g ok fail ihok ihfail =>
      intro y hy hm
      obtain ⟨happlied, hfail⟩ := h y hy hm
      constructor
      · intro s hs
        constructor
        · intro hn
          obtain ⟨hg, hallow, hk⟩ := (happlied s hs).1 hn
          exact ⟨hg, hallow, ihok y.view hk⟩
        · exact fun hn => ihok y.view ((happlied s hs).2 hn)
      · exact fun hn => ihfail y.view (hfail hn)
  | commit t k ih =>
      intro y hy hm
      obtain ⟨hfree, hheld⟩ := h y hy hm
      constructor
      · exact fun hw => ih (hfree hw)
      · intro w hw
        obtain ⟨hg, hallow, hk⟩ := hheld w hw
        exact ⟨hg, hallow, ih hk⟩
  | rollback k ih => exact fun y hy => ih (h y hy)
  | act t g k ih =>
      intro y hy hm
      obtain ⟨hallow, hk⟩ := h y hy hm
      exact ⟨hallow, ih y.view y.mem hk⟩

end

/-! ## With a history -/

/-- The notes of the statements up to where the request settles. -/
def trail (note : σ → σ → List ℓ) : Request σ μ τ ε α → σ → List ℓ
  | .select k, s => trail note (k s) s
  | .write _ _ f ok fail, s =>
      match f s with
      | some s' => note s s' ++ trail note (ok s) s'
      | none => trail note (fail s) s
  | _, _ => []

/-- The same outcome over the store with this log. -/
def notedOutcome (note : σ → σ → List ℓ) (log : List ℓ) :
    Settled σ μ τ ε α → Settled (σ × List ℓ) μ τ ε α
  | .returned a s => .returned a (s, log)
  | .raised e s => .raised e (s, log)
  | .committed t s k => .committed t (s, log) (noting note k)
  | .rolledBack k => .rolledBack (noting note k)
  | .acting t g k s => .acting t (fun s m => g s.1 m) (fun s m => noting note (k s.1 m)) (s, log)

section
variable {note : σ → σ → List ℓ}

theorem settle_noting (r : Request σ μ τ ε α) (s : σ × List ℓ) :
    (noting note r).settle s = notedOutcome note (s.2 ++ trail note r s.1) (r.settle s.1) := by
  induction r generalizing s with
  | ret a => simp [noting, Request.settle, notedOutcome, trail]
  | raise e => simp [noting, Request.settle, notedOutcome, trail]
  | select k ih => exact ih s.1 s
  | write n t f ok fail ihok ihfail =>
      simp only [noting, Request.settle, trail, noted]
      cases hf : f s.1 with
      | none => exact ihfail s.1 s
      | some s' =>
          simp only [Option.map_some]
          rw [ihok, List.append_assoc]
  | commit t k => simp [noting, Request.settle, notedOutcome, trail]
  | rollback k => simp [noting, Request.settle, notedOutcome]
  | act t g k => simp [noting, Request.settle, notedOutcome, trail]

theorem trail_forM_cons (t : τ × (σ → σ)) (ss : List (τ × (σ → σ))) (s : σ) :
    trail note ((t :: ss).forM fun t => (Request.exec t.1 t.2 fun _ => () :
      Request σ μ τ ε Unit)) s = note s (t.2 s) ++
      trail note (ss.forM fun t => (Request.exec t.1 t.2 fun _ => () : Request σ μ τ ε Unit))
        (t.2 s) := rfl

variable (note) in
theorem trail_forM_append (pre post : List (τ × (σ → σ))) (s : σ) :
    trail note ((pre ++ post).forM fun t => (Request.exec t.1 t.2 fun _ => () :
      Request σ μ τ ε Unit)) s =
      trail note (pre.forM fun t => (Request.exec t.1 t.2 fun _ => () : Request σ μ τ ε Unit)) s ++
        trail note (post.forM fun t => (Request.exec t.1 t.2 fun _ => () : Request σ μ τ ε Unit))
          (pre.foldl (fun s t => t.2 s) s) := by
  induction pre generalizing s with
  | nil => rfl
  | cons t pre ih =>
      rw [List.cons_append, trail_forM_cons, trail_forM_cons, ih, List.append_assoc]
      rfl

/-- Writes that make no note leave no trail. -/
theorem trail_forM_of_silent {ss : List (τ × (σ → σ))} (h : ∀ t ∈ ss, ∀ s, note s (t.2 s) = [])
    (s : σ) :
    trail note (ss.forM fun t => (Request.exec t.1 t.2 fun _ => () : Request σ μ τ ε Unit)) s =
      [] := by
  induction ss generalizing s with
  | nil => rfl
  | cons t ss ih =>
      rw [trail_forM_cons, h t List.mem_cons_self s, List.nil_append]
      exact ih (fun t' ht' => h t' (List.mem_cons_of_mem t ht')) (t.2 s)

variable (note) in
/-- Statements that make no note leave no trail. -/
theorem trail_of_silent {W : τ → (σ → Option σ) → Prop} {A : τ → (σ → μ → μ) → Prop}
    (hW : ∀ t f, W t f → ∀ s s', f s = some s' → note s s' = []) {r : Request σ μ τ ε α}
    (h : Footprint.Uses W A r) (s : σ) : trail note r s = [] := by
  induction r generalizing s with
  | ret a => rfl
  | raise e => rfl
  | select k ih => exact ih s (h s) s
  | write n t f ok fail ihok ihfail =>
      simp only [trail]
      cases hf : f s with
      | none => exact ihfail s (h.2.2 s) s
      | some s' =>
          dsimp only
          rw [hW t f h.1 s s' hf, ihok s (h.2.1 s) s']
          rfl
  | commit t k => rfl
  | rollback k => rfl
  | act t g k => rfl

/-- What the rest of a sequence adds to the notes, if it is reached. -/
def trailAfter (note : σ → σ → List ℓ) (f : α → Request σ μ τ ε β) :
    Settled σ μ τ ε α → List ℓ
  | .returned a s => trail note (f a) s
  | _ => []

theorem trail_bind (r : Request σ μ τ ε α) (f : α → Request σ μ τ ε β) (s : σ) :
    trail note (r >>= f) s = trail note r s ++ trailAfter note f (r.settle s) := by
  change trail note (r.bind f) s = _
  induction r generalizing s with
  | ret a => rfl
  | raise e => rfl
  | select k ih => exact ih s s
  | write n t g ok fail ihok ihfail =>
      simp only [Request.bind, Request.settle, trail]
      cases g s with
      | none => exact ihfail s s
      | some s' =>
          dsimp only
          rw [ihok, List.append_assoc]
  | commit t k => rfl
  | rollback k => rfl
  | act t g k => rfl

/-- A handler that is not called adds nothing. -/
theorem trail_handle_returned {r : Request σ μ τ ε α} {h : ε → Request σ μ τ ε α} {s s' : σ} {a : α}
    (hr : r.settle s = .returned a s') : trail note (r.handle h) s = trail note r s := by
  induction r generalizing s with
  | ret a => rfl
  | raise e => cases hr
  | select k ih => exact ih s hr
  | write n t g ok fail ihok ihfail =>
      simp only [Request.handle, trail]
      simp only [Request.settle] at hr
      cases hg : g s with
      | none =>
          rw [hg] at hr
          exact ihfail s hr
      | some s' =>
          rw [hg] at hr
          dsimp only
          rw [ihok s hr]
  | commit t k => cases hr
  | rollback k => cases hr
  | act t g k => cases hr

theorem trail_query (q : σ → β) (f : β → Request σ μ τ ε α) (s : σ) :
    trail note (Request.query q >>= f) s = trail note (f (q s)) s := rfl

theorem trail_exec (t : τ) (g : σ → σ) (q : σ → β) (f : β → Request σ μ τ ε α) (s : σ) :
    trail note (Request.exec t g q >>= f) s = note s (g s) ++ trail note (f (q s)) (g s) := rfl

theorem trail_attempt_some {n : Bool} {t : τ} {g : σ → Option σ} {f : Bool → Request σ μ τ ε α}
    {s s' : σ} (h : g s = some s') :
    trail note (Request.attempt n t g >>= f) s = note s s' ++ trail note (f true) s' := by
  rw [attempt_bind]
  simp only [trail, h]

variable (note) in
theorem trail_execs (ss : List (τ × (σ → σ))) (k : PUnit → Request σ μ τ ε α) (s : σ) :
    trail note (ss.forM (fun t => Request.exec t.1 t.2 fun _ => ()) >>= k) s =
      trail note (ss.forM fun t => (Request.exec t.1 t.2 fun _ => () : Request σ μ τ ε Unit)) s ++
        trail note (k ()) (ss.foldl (fun s t => t.2 s) s) := by
  induction ss generalizing s with
  | nil => rfl
  | cons t ss ih =>
      change note s (t.2 s) ++ trail note (ss.forM _ >>= k) (t.2 s) =
        (note s (t.2 s) ++ trail note (ss.forM _) (t.2 s)) ++ _
      rw [ih, List.append_assoc]
      rfl

theorem barren_noting {r : Request σ μ τ ε α} (h : Barren r) : Barren (noting note r) := by
  induction r with
  | raise e => trivial
  | select k ih => exact fun s => ih s.1 (h s.1)
  | rollback k ih => exact ih h
  | ret a => exact h.elim
  | write n t g ok fail => exact h.elim
  | commit t k => exact h.elim
  | act t g k => exact h.elim

end

section
variable {S : Spec π (σ × List ℓ) μ τ} {p : π} {G : σ × List ℓ → σ × List ℓ → Prop}
  {N : Option ((σ × List ℓ) × (σ × List ℓ)) → Except ε α → Prop}
  {past : List ((σ × List ℓ) × (σ × List ℓ))} {x : Point (σ × List ℓ) μ}
  {note : σ → σ → List ℓ}

/-- A request with notes that starts with its first write; the rest settles without them. -/
theorem publishes_noted_write {r : Request σ μ τ ε α}
    (hr : ∃ t f ok fail, r = .write false t f ok fail)
    (h : ∀ y, S.Env p x y → Owes S p G N past y.refused
      (notedOutcome note (y.view.2 ++ trail note r y.view.1) (r.settle y.view.1))) :
    Publishes S p G N past (noting note r) x := by
  obtain ⟨t, f, ok, fail, rfl⟩ := hr
  intro y hy _
  have hown := h y hy
  simp only [Request.settle, trail] at hown
  constructor
  · intro s hs
    obtain ⟨hf, hlog⟩ := noted_eq_some.mp hs
    rw [hf] at hown
    dsimp only at hown
    rw [← List.append_assoc, ← hlog] at hown
    constructor
    · intro hn
      cases hn.1
    · intro _
      apply publishes_of_settle rfl
      rw [settle_noting]
      exact hown.rewritten
  · intro hn
    have hf : f y.view.1 = none := Option.map_eq_none_iff.mp hn
    rw [hf] at hown
    apply publishes_of_settle rfl
    rw [settle_noting]
    exact hown

/-- What is owed for the outcome of a transaction that starts at `y`. -/
def Yields (S : Spec π (σ × List ℓ) μ τ) (p : π) (G : σ × List ℓ → σ × List ℓ → Prop)
    (N : Option ((σ × List ℓ) × (σ × List ℓ)) → Except ε α → Prop)
    (past : List ((σ × List ℓ) × (σ × List ℓ))) (note : σ → σ → List ℓ)
    (y : Point (σ × List ℓ) μ) (log : List ℓ) : Settled σ μ τ ε α → Prop
  | .returned a _ => Owed N past (.ok a)
  | .raised e _ => Owed N past (.error e)
  | .rolledBack k => ∀ z, Publishes S p G N past (noting note k) z
  | .committed _ s k => G y.db (s, log) ∧ S.Allows p y { y with db := (s, log) } ∧
      ∀ z, z.db = (s, log) → z.work = none →
        Publishes S p G N ((y.db, (s, log)) :: past) (noting note k) z
  | .acting _ _ _ _ => False

theorem Yields.of_lost {o : Settled σ μ τ ε α} {y : Point (σ × List ℓ) μ} {log : List ℓ}
    (h : Lost o) (hraise : ∀ e, Owed N past (.error e)) : Yields S p G N past note y log o := by
  cases o with
  | raised e s => exact hraise e
  | rolledBack k => exact fun _ => (barren_noting h).publishes hraise
  | returned a s => exact h.elim
  | committed t s k => exact h.elim
  | acting t g k s => exact h.elim

/-- A request whose first statement is its first write is one step on the store that it finds. -/
theorem publishes_transaction {r : Request σ μ τ ε α} (hx : x.work = none)
    (hr : ∃ t f ok fail, r = .write false t f ok fail)
    (h : ∀ y, S.Env p x y → Yields S p G N past note y (y.db.2 ++ trail note r y.db.1)
      (r.settle y.db.1)) : Publishes S p G N past (noting note r) x := by
  apply publishes_noted_write hr
  intro y hy
  rw [Point.view_of_none (hy.free hx)]
  have hsame : ∀ w z, S.Env p { y with work := some w } z →
      S.Env p x z.rolledBack ∧ z.db = y.db := by
    intro w z hz
    exact ⟨hy.unlocked hx hz, hz.db_eq rfl⟩
  cases hsettle : r.settle y.db.1 with
  | returned a s =>
      have hown := h y hy
      rw [hsettle] at hown
      exact hown
  | raised e s =>
      have hown := h y hy
      rw [hsettle] at hown
      exact hown
  | rolledBack k =>
      have hown := h y hy
      rw [hsettle] at hown
      exact fun z _ => hown z
  | acting t g k s =>
      have hown := h y hy
      rw [hsettle] at hown
      exact hown.elim
  | committed t s k =>
      intro z hz _
      obtain ⟨henv, hdb⟩ := hsame _ z hz
      have hown := h z.rolledBack henv
      rw [Point.rolledBack_db, hdb, hsettle] at hown
      obtain ⟨hG, hallow, hk⟩ := hown
      rw [Point.rolledBack_db, hdb] at hG hk
      rw [hdb]
      refine ⟨hG, ⟨hallow.inv, ?_⟩, hk _ rfl rfl⟩
      intro q hq
      have hrely := hallow.others q hq
      rw [Point.rolledBack_db, hdb] at hrely
      rw [hdb]
      exact hrely

/-- A list of writes takes the lock with its first one. -/
theorem publishes_noted_execs {ss : List (τ × (σ → σ))} (hne : ss ≠ [])
    {k : PUnit → Request σ μ τ ε α}
    (h : ∀ y, S.Env p x y → Owes S p G N past y.refused (notedOutcome note
      (y.view.2 ++ trail note (ss.forM (fun t => Request.exec t.1 t.2 fun _ => ()) >>= k) y.view.1)
        ((k ()).settle (ss.foldl (fun s t => t.2 s) y.view.1)))) :
    Publishes S p G N past
      (noting note (ss.forM (fun t => Request.exec t.1 t.2 fun _ => ()) >>= k)) x := by
  cases ss with
  | nil => exact absurd rfl hne
  | cons t ss =>
      apply publishes_noted_write
      · exact ⟨_, _, _, _, rfl⟩
      · intro y hy
        rw [settle_execs]
        exact h y hy

end

end AikoIsland.Settling
