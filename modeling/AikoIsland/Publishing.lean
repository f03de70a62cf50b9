import AikoIsland.Footprint

/-!
# What a request publishes

A request changes the committed store when it commits its working copy, or when
it releases a savepoint that no transaction surrounds. `Publishes` asks of every
such moment a relation `G` between the store before and after, which need not be
transitive, and relates each of them to the result of the request by `N`; a
request that published nothing owes `N none` to its result.

The rely, the invariant and the condition on labelled statements are those of a
`Spec`. The run lemma says where in a run the published pair was published.
-/
namespace AikoIsland.Publishing
open WriterLock RelyGuarantee Footprint

variable {σ μ τ ε α β π : Type}

/-- What a result must satisfy after these publications, newest first. -/
def Owed (N : Option (σ × σ) → Except ε α → Prop) (past : List (σ × σ)) (r : Except ε α) : Prop :=
  (past = [] → N none r) ∧ ∀ ab ∈ past, N (some ab) r

def Publishes (S : Spec π σ μ τ) (p : π) (G : σ → σ → Prop)
    (N : Option (σ × σ) → Except ε α → Prop) :
    List (σ × σ) → Request σ μ τ ε α → Point σ μ → Prop
  | past, .ret a, _ => Owed N past (.ok a)
  | past, .raise e, _ => Owed N past (.error e)
  | past, .select k, x => ∀ y, S.Env p x y → Publishes S p G N past (k y.view) y
  | past, .write n t f ok fail, x => ∀ y, S.Env p x y → S.meets t y →
      (∀ s, f y.view = some s →
        (n = true ∧ y.work = none → G y.db s ∧ S.Allows p y { y with db := s } ∧
          Publishes S p G N ((y.db, s) :: past) (ok y.view) { y with db := s }) ∧
        (¬(n = true ∧ y.work = none) →
          Publishes S p G N past (ok y.view) { y with work := some s })) ∧
      (f y.view = none → Publishes S p G N past (fail y.view) y.refused)
  | past, .commit t k, x => ∀ y, S.Env p x y → S.meets t y →
      (y.work = none → Publishes S p G N past k y) ∧
      ∀ w, y.work = some w → G y.db w ∧ S.Allows p y y.committed ∧
        Publishes S p G N ((y.db, w) :: past) k y.committed
  | past, .rollback k, x => ∀ y, S.Env p x y → Publishes S p G N past k y.rolledBack
  | past, .act t g k, x => ∀ y, S.Env p x y → S.meets t y →
      S.Allows p y (y.acted g) ∧ Publishes S p G N past (k y.view y.mem) (y.acted g)

section
variable {S : Spec π σ μ τ} {p : π} {G G' : σ → σ → Prop}
  {N N' : Option (σ × σ) → Except ε α → Prop} {past : List (σ × σ)} {x y : Point σ μ}

theorem Owed.mono {r : Except ε α} (h : Owed N past r) (hN : ∀ ab r, N ab r → N' ab r) :
    Owed N' past r :=
  ⟨fun hp => hN _ _ (h.1 hp), fun ab hab => hN _ _ (h.2 ab hab)⟩

theorem Owed.elim {r : Except ε α} (h : Owed N past r) : ∃ ab, N ab r := by
  cases past with
  | nil => exact ⟨none, h.1 rfl⟩
  | cons ab rest => exact ⟨some ab, h.2 ab List.mem_cons_self⟩

/-- Interference before a statement is part of its precondition. -/
theorem Publishes.env {r : Request σ μ τ ε α} (h : Publishes S p G N past r x)
    (he : S.Env p x y) : Publishes S p G N past r y := by
  cases r with
  | ret a => exact h
  | raise e => exact h
  | select k => exact fun z hz => h z (he.trans hz)
  | write n t f ok fail => exact fun z hz => h z (he.trans hz)
  | commit t k => exact fun z hz => h z (he.trans hz)
  | rollback k => exact fun z hz => h z (he.trans hz)
  | act t g k => exact fun z hz => h z (he.trans hz)

theorem Publishes.mono {r : Request σ μ τ ε α} (h : Publishes S p G N past r x)
    (hG : ∀ a b, G a b → G' a b) (hN : ∀ ab r, N ab r → N' ab r) :
    Publishes S p G' N' past r x := by
  induction r generalizing past x with
  | ret a => exact h.mono hN
  | raise e => exact h.mono hN
  | select k ih => exact fun y hy => ih _ (h y hy)
  | write n t f ok fail ihok ihfail =>
      intro y hy hm
      obtain ⟨hok, hfail⟩ := h y hy hm
      refine ⟨fun s hs => ⟨fun hn => ?_, fun hn => ihok _ ((hok s hs).2 hn)⟩,
        fun hn => ihfail _ (hfail hn)⟩
      obtain ⟨hg, ha, hk⟩ := (hok s hs).1 hn
      exact ⟨hG _ _ hg, ha, ihok _ hk⟩
  | commit t k ih =>
      intro y hy hm
      obtain ⟨hfree, hheld⟩ := h y hy hm
      refine ⟨fun hw => ih (hfree hw), fun w hw => ?_⟩
      obtain ⟨hg, ha, hk⟩ := hheld w hw
      exact ⟨hG _ _ hg, ha, ih hk⟩
  | rollback k ih => exact fun y hy => ih (h y hy)
  | act t g k ih => exact fun y hy hm => ⟨(h y hy hm).1, ih _ _ (h y hy hm).2⟩

/-- The rollback at the end of a session publishes nothing. -/
theorem Publishes.session {r : Request σ μ τ ε α} (h : Publishes S p G N past r x) :
    Publishes S p G N past r.session x := by
  induction r generalizing past x with
  | ret a => exact fun y hy => h
  | raise e => exact fun y hy => h
  | select k ih => exact fun y hy => ih _ (h y hy)
  | write n t f ok fail ihok ihfail =>
      intro y hy hm
      obtain ⟨hok, hfail⟩ := h y hy hm
      refine ⟨fun s hs => ⟨fun hn => ?_, fun hn => ihok _ ((hok s hs).2 hn)⟩,
        fun hn => ihfail _ (hfail hn)⟩
      obtain ⟨hg, ha, hk⟩ := (hok s hs).1 hn
      exact ⟨hg, ha, ihok _ hk⟩
  | commit t k ih =>
      intro y hy hm
      obtain ⟨hfree, hheld⟩ := h y hy hm
      refine ⟨fun hw => ih (hfree hw), fun w hw => ?_⟩
      obtain ⟨hg, ha, hk⟩ := hheld w hw
      exact ⟨hg, ha, ih hk⟩
  | rollback k ih => exact fun y hy => ih (h y hy)
  | act t g k ih => exact fun y hy hm => ⟨(h y hy hm).1, ih _ _ (h y hy hm).2⟩

/-- The result in another form. -/
theorem Publishes.map {N : Option (σ × σ) → Except ε β → Prop} {r : Request σ μ τ ε α}
    {f : α → β} (h : Publishes S p G (fun ab res => N ab (res.map f)) past r x) :
    Publishes S p G N past (r >>= fun a => Pure.pure (f a)) x := by
  change Publishes S p G N past (r.bind fun a => .ret (f a)) x
  induction r generalizing past x with
  | ret a => exact h
  | raise e => exact h
  | select k ih => exact fun y hy => ih _ (h y hy)
  | write n t g ok fail ihok ihfail =>
      intro y hy hm
      obtain ⟨hok, hfail⟩ := h y hy hm
      refine ⟨fun s hs => ⟨fun hn => ?_, fun hn => ihok _ ((hok s hs).2 hn)⟩,
        fun hn => ihfail _ (hfail hn)⟩
      obtain ⟨hg, ha, hk⟩ := (hok s hs).1 hn
      exact ⟨hg, ha, ihok _ hk⟩
  | commit t k ih =>
      intro y hy hm
      obtain ⟨hfree, hheld⟩ := h y hy hm
      refine ⟨fun hw => ih (hfree hw), fun w hw => ?_⟩
      obtain ⟨hg, ha, hk⟩ := hheld w hw
      exact ⟨hg, ha, ih hk⟩
  | rollback k ih => exact fun y hy => ih (h y hy)
  | act t g k ih => exact fun y hy hm => ⟨(h y hy hm).1, ih _ _ (h y hy hm).2⟩

/-! The rules of single statements. -/

theorem Publishes.query {q : σ → β} {f : β → Request σ μ τ ε α}
    (h : ∀ y, S.Env p x y → Publishes S p G N past (f (q y.view)) y) :
    Publishes S p G N past (Request.query q >>= f) x :=
  h

theorem Publishes.exec {t : τ} {g : σ → σ} {q : σ → β} {f : β → Request σ μ τ ε α}
    (h : ∀ y, S.Env p x y → S.meets t y →
      Publishes S p G N past (f (q y.view)) { y with work := some (g y.view) }) :
    Publishes S p G N past (Request.exec t g q >>= f) x := by
  intro y hy hm
  constructor
  · intro s hs
    obtain rfl := Option.some.inj hs
    exact ⟨fun hn => absurd hn.1 (by decide), fun _ => h y hy hm⟩
  · intro hn
    cases hn

/-- A commit under the lock publishes the working copy. -/
theorem Publishes.commit {t : τ} {k : Request σ μ τ ε α} {w : σ} (hw : x.work = some w)
    (h : ∀ y, S.Env p x y → S.meets t y → G y.db w ∧ S.Allows p y { y with db := w } ∧
      Publishes S p G N ((y.db, w) :: past) k { y with db := w, work := none }) :
    Publishes S p G N past (.commit t k) x := by
  intro y hy hm
  have hyw : y.work = some w := hy.work.trans hw
  constructor
  · intro hfree
    rw [hyw] at hfree
    cases hfree
  · intro w' hw'
    obtain rfl : w = w' := Option.some.inj (hyw.symm.trans hw')
    obtain ⟨hG, hallow, hk⟩ := h y hy hm
    rw [Point.committed, Point.view_of_some hyw]
    exact ⟨hG, ⟨hallow.inv, hallow.others⟩, hk⟩

/-- A request that writes nothing owes its result to what was published before it. -/
theorem Publishes.of_segments {r : Request σ μ τ ε α}
    (hr : Uses (fun _ _ => False) (fun _ _ => True) r) (hx : x.work = none)
    (hok : Returns (fun a => Owed N past (.ok a)) r) (hraise : ∀ e, Owed N past (.error e))
    (hact : ∀ g y, S.inv y.db y.mem → S.Allows p y (y.acted g)) :
    Publishes S p G N past r x := by
  induction r generalizing x with
  | ret a => exact hok
  | raise e => exact hraise e
  | select k ih =>
      intro y hy
      apply ih y.view (hr y.view) (hy.free hx)
      exact (hok y.view).mono fun a ha => ha.elim id False.elim
  | write n t f ok fail ihok ihfail => exact hr.1.elim
  | commit t k ih =>
      intro y hy _
      have hfree : y.work = none := hy.free hx
      constructor
      · exact fun _ => ih hr hfree hok
      · intro w hw
        rw [hfree] at hw
        cases hw
  | rollback k ih => exact fun y _ => ih hr rfl hok
  | act t g k ih =>
      intro y hy _
      exact ⟨hact g y hy.inv, ih y.view y.mem (hr.2 y.view y.mem) (hy.free hx) (hok _ _)⟩

/-- After a first part that only reads, the rest starts where that part ended. -/
theorem Publishes.after_reads {r : Request σ μ τ ε β} {f : β → Request σ μ τ ε α}
    {Q : β → Point σ μ → Prop} {E : ε → Point σ μ → Prop}
    (hr : Uses (fun _ _ => False) (fun _ _ => False) r) (hx : x.work = none)
    (hi : S.inv x.db x.mem) (hsafe : Safe S p r Q E x) (hraise : ∀ e, Owed N past (.error e))
    (h : ∀ b y, y.work = none → S.inv y.db y.mem → Q b y → Publishes S p G N past (f b) y) :
    Publishes S p G N past (r >>= f) x := by
  change Publishes S p G N past (r.bind f) x
  induction r generalizing x with
  | ret b => exact h b x hx hi (hsafe x (Spec.Env.refl hi))
  | raise e => exact hraise e
  | select k ih => exact fun y hy => ih y.view (hr y.view) (hy.free hx) hy.inv (hsafe y hy)
  | write n t f ok fail ihok ihfail => exact hr.1.elim
  | commit t k ih =>
      intro y hy hm
      have hfree : y.work = none := hy.free hx
      constructor
      · intro _
        have hsame : y.committed = y := by
          obtain ⟨db, mem, work⟩ := y
          cases hfree
          rfl
        have hnext := (hsafe y hy hm).2
        rw [hsame] at hnext
        exact ih hr hfree hy.inv hnext
      · intro w hw
        rw [hfree] at hw
        cases hw
  | rollback k ih => exact fun y hy => ih hr rfl hy.inv (hsafe y hy)
  | act t g k ih => exact hr.1.elim

/-- A footprint whose relation is kept by every statement is a guarantee. -/
theorem of_respects {R : σ → σ → Prop} {W : τ → (σ → Option σ) → Prop}
    {A : τ → (σ → μ → μ) → Prop} (hR : Respects S p (fun _ _ => True) R W A)
    {r : Request σ μ τ ε α} (h : Uses W A r) (hx : R x.db x.view) :
    Publishes S p R (fun _ _ => True) past r x := by
  induction r generalizing past x with
  | ret a => exact ⟨fun _ => trivial, fun _ _ => trivial⟩
  | raise e => exact ⟨fun _ => trivial, fun _ _ => trivial⟩
  | select k ih => exact fun y hy => ih y.view (h y.view) (env_view hR.refl hy hx)
  | write n t f ok fail ihok ihfail =>
      intro y hy hm
      have hview : R y.db y.view := env_view hR.refl hy hx
      refine ⟨fun s hs => ?_, fun _ => ihfail y.view (h.2.2 y.view) hview⟩
      have hs' : R y.db s := hR.trans hview (hR.write t f y s h.1 hy.inv trivial hview hm hs)
      refine ⟨fun hn => ⟨hs', hR.allows hy.inv trivial hs' y.work, ihok _ (h.2.1 _) ?_⟩,
        fun _ => ihok _ (h.2.1 _) hs'⟩
      have hsame : ({ y with db := s } : Point σ μ).view = s := Point.view_of_none hn.2
      rw [hsame]
      exact hR.refl s
  | commit t k ih =>
      intro y hy _
      have hview : R y.db y.view := env_view hR.refl hy hx
      refine ⟨fun _ => ih h hview, fun w hw => ?_⟩
      rw [Point.view_of_some hw] at hview
      refine ⟨hview, ?_, ih h (hR.refl _)⟩
      rw [Point.committed, Point.view_of_some hw]
      exact hR.allows hy.inv trivial hview none
  | rollback k ih => exact fun y hy => ih h (hR.refl _)
  | act t g k ih =>
      intro y hy hm
      have hview : R y.db y.view := env_view hR.refl hy hx
      exact ⟨(hR.segment t g y h.1 hy.inv trivial hm).1, ih _ _ (h.2 _ _) hview⟩

/-- The same for a request that keeps the relation because of what it read. -/
theorem of_performs {R : σ → σ → Prop} {I : σ → Prop} {W : τ → (σ → Option σ) → Prop}
    {A : τ → (σ → μ → μ) → Prop} {Q : α → Prop}
    (hR : Respects S p (fun _ _ => True) R W A)
    (hI : ∀ db mem s, S.inv db mem → R db s → I s) {r : Request σ μ τ ε α}
    (h : Performs I W A Q r) (hx : R x.db x.view) :
    Publishes S p R (fun _ res => ∀ a, res = .ok a → Q a) past r x := by
  induction r generalizing past x with
  | ret a =>
      have hres : ∀ b, (Except.ok a : Except ε α) = .ok b → Q b := fun b hb =>
        Except.ok.inj hb ▸ h
      exact ⟨fun _ => hres, fun _ _ => hres⟩
  | raise e => exact ⟨fun _ b hb => (by cases hb), fun _ _ b hb => (by cases hb)⟩
  | select k ih =>
      intro y hy
      have hview : R y.db y.view := env_view hR.refl hy hx
      exact ih y.view (h y.view (hI y.db y.mem y.view hy.inv hview)) hview
  | write n t f ok fail ihok ihfail =>
      intro y hy hm
      have hview : R y.db y.view := env_view hR.refl hy hx
      have hseen : I y.view := hI y.db y.mem y.view hy.inv hview
      refine ⟨fun s hs => ?_, fun _ => ihfail y.view (h.2.2 y.view hseen) hview⟩
      have hs' : R y.db s := hR.trans hview (hR.write t f y s h.1 hy.inv trivial hview hm hs)
      refine ⟨fun hn => ⟨hs', hR.allows hy.inv trivial hs' y.work, ihok _ (h.2.1 _ hseen) ?_⟩,
        fun _ => ihok _ (h.2.1 _ hseen) hs'⟩
      have hsame : ({ y with db := s } : Point σ μ).view = s := Point.view_of_none hn.2
      rw [hsame]
      exact hR.refl s
  | commit t k ih =>
      intro y hy _
      have hview : R y.db y.view := env_view hR.refl hy hx
      refine ⟨fun _ => ih h hview, fun w hw => ?_⟩
      rw [Point.view_of_some hw] at hview
      refine ⟨hview, ?_, ih h (hR.refl _)⟩
      rw [Point.committed, Point.view_of_some hw]
      exact hR.allows hy.inv trivial hview none
  | rollback k ih => exact fun y hy => ih h (hR.refl _)
  | act t g k ih =>
      intro y hy hm
      have hview : R y.db y.view := env_view hR.refl hy hx
      exact ⟨(hR.segment t g y h.1 hy.inv trivial hm).1,
        ih _ _ (h.2 _ _ (hI y.db y.mem y.view hy.inv hview)) hview⟩

/-- A first part with such a footprint leaves the view related to the store. -/
theorem Publishes.after_respects {R : σ → σ → Prop} {P : ε → Prop}
    {W : τ → (σ → Option σ) → Prop} {A : τ → (σ → μ → μ) → Prop}
    (hR : Respects S p (fun _ _ => True) R W A) {r : Request σ μ τ ε β}
    {f : β → Request σ μ τ ε α} (h : Uses W A r) (hraises : Raises P r) (hx : R x.db x.view)
    (hN : ∀ past e, P e → Owed N past (.error e))
    (hf : ∀ past b y, R y.db y.view → Publishes S p R N past (f b) y) :
    Publishes S p R N past (r >>= f) x := by
  change Publishes S p R N past (r.bind f) x
  induction r generalizing past x with
  | ret b => exact hf past b x hx
  | raise e => exact hN past e hraises
  | select k ih =>
      exact fun y hy => ih y.view (h y.view) (hraises y.view) (env_view hR.refl hy hx)
  | write n t g ok fail ihok ihfail =>
      intro y hy hm
      have hview : R y.db y.view := env_view hR.refl hy hx
      refine ⟨fun s hs => ?_, fun _ => ihfail y.view (h.2.2 y.view) (hraises.2 y.view) hview⟩
      have hs' : R y.db s := hR.trans hview (hR.write t g y s h.1 hy.inv trivial hview hm hs)
      refine ⟨fun hn => ⟨hs', hR.allows hy.inv trivial hs' y.work,
          ihok _ (h.2.1 _) (hraises.1 _) ?_⟩, fun _ => ihok _ (h.2.1 _) (hraises.1 _) hs'⟩
      have hsame : ({ y with db := s } : Point σ μ).view = s := Point.view_of_none hn.2
      rw [hsame]
      exact hR.refl s
  | commit t k ih =>
      intro y hy _
      have hview : R y.db y.view := env_view hR.refl hy hx
      refine ⟨fun _ => ih h hraises hview, fun w hw => ?_⟩
      rw [Point.view_of_some hw] at hview
      refine ⟨hview, ?_, ih h hraises (hR.refl _)⟩
      rw [Point.committed, Point.view_of_some hw]
      exact hR.allows hy.inv trivial hview none
  | rollback k ih => exact fun y hy => ih h hraises (hR.refl _)
  | act t g k ih =>
      intro y hy hm
      have hview : R y.db y.view := env_view hR.refl hy hx
      exact ⟨(hR.segment t g y h.1 hy.inv trivial hm).1, ih _ _ (h.2 _ _) (hraises _ _) hview⟩

/-- What a request may raise at all is part of what it owes. -/
theorem raises_publishes {P : ε → Prop} {r : Request σ μ τ ε α} (h : Raises P r)
    (hp : Publishes S p G N past r x) :
    Publishes S p G (fun ab res => N ab res ∧ ∀ e, res = .error e → P e) past r x := by
  induction r generalizing past x with
  | ret a =>
      have hres : ∀ e, (Except.ok a : Except ε α) = .error e → P e := fun e he => by cases he
      exact ⟨fun hpast => ⟨hp.1 hpast, hres⟩, fun ab hab => ⟨hp.2 ab hab, hres⟩⟩
  | raise e =>
      have hres : ∀ e', (Except.error e : Except ε α) = .error e' → P e' := fun e' he =>
        Except.error.inj he ▸ h
      exact ⟨fun hpast => ⟨hp.1 hpast, hres⟩, fun ab hab => ⟨hp.2 ab hab, hres⟩⟩
  | select k ih => exact fun y hy => ih y.view (h y.view) (hp y hy)
  | write n t f ok fail ihok ihfail =>
      intro y hy hm
      obtain ⟨hok, hfail⟩ := hp y hy hm
      constructor
      · intro s hs
        constructor
        · intro hn
          obtain ⟨hg, hallow, hnext⟩ := (hok s hs).1 hn
          exact ⟨hg, hallow, ihok y.view (h.1 y.view) hnext⟩
        · exact fun hn => ihok y.view (h.1 y.view) ((hok s hs).2 hn)
      · exact fun hn => ihfail y.view (h.2 y.view) (hfail hn)
  | commit t k ih =>
      intro y hy hm
      obtain ⟨hfree, hheld⟩ := hp y hy hm
      constructor
      · exact fun hw => ih h (hfree hw)
      · intro w hw
        obtain ⟨hg, hallow, hnext⟩ := hheld w hw
        exact ⟨hg, hallow, ih h hnext⟩
  | rollback k ih => exact fun y hy => ih h (hp y hy)
  | act t g k ih =>
      intro y hy hm
      obtain ⟨hallow, hnext⟩ := hp y hy hm
      exact ⟨hallow, ih y.view y.mem (h y.view y.mem) hnext⟩

/-- The next statement publishes: a commit of the working copy, or an applied nested write that
no transaction surrounds. -/
def publishing : Request σ μ τ ε α → Point σ μ → Bool
  | .write n _ f _ _, x => n && x.work.isNone && (f x.view).isSome
  | .commit _ _, x => x.work.isSome
  | _, _ => false

/-- The step lemma of one request. -/
theorem Publishes.advance {r : Request σ μ τ ε α} (h : Publishes S p G N past r x)
    (hx : S.inv x.db x.mem) (hr : r.ended = false) (hm : ∀ t ∈ r.label, S.meets t x) :
    ∃ past', S.Allows p x (r.advance x).2 ∧
      Publishes S p G N past' (r.advance x).1 (r.advance x).2 ∧
      (past' = past ∧ (r.advance x).2.db = x.db ∨
        past' = (x.db, (r.advance x).2.db) :: past ∧ G x.db (r.advance x).2.db ∧
          publishing r x = true) := by
  have hstay : ∀ w, S.Allows p x { x with work := w } :=
    fun w => ⟨hx, fun q _ => S.rely_refl q _ _⟩
  have henv : S.Env p x x := Spec.Env.refl hx
  cases r with
  | ret a => cases hr
  | raise e => cases hr
  | select k => exact ⟨past, hstay x.work, h x henv, Or.inl ⟨rfl, rfl⟩⟩
  | write n t f ok fail =>
      obtain ⟨hok, hfail⟩ := h x henv (hm t rfl)
      simp only [Request.advance]
      cases hf : f x.view with
      | none => exact ⟨past, hstay _, hfail hf, Or.inl ⟨rfl, rfl⟩⟩
      | some s =>
          by_cases hn : n = true ∧ x.work = none
          · obtain ⟨hg, ha, hk⟩ := (hok s hf).1 hn
            have hwrote : x.wrote n s = { x with db := s } := by
              simp [Point.wrote, hn.1, hn.2]
            have hpublish : publishing (.write n t f ok fail) x = true := by
              simp [publishing, hn.1, hn.2, hf]
            dsimp only
            rw [hwrote]
            exact ⟨_, ha, hk, Or.inr ⟨rfl, hg, hpublish⟩⟩
          · have hwrote : x.wrote n s = { x with work := some s } := by
              unfold Point.wrote
              rw [if_neg]
              simpa using hn
            dsimp only
            rw [hwrote]
            exact ⟨past, hstay _, (hok s hf).2 hn, Or.inl ⟨rfl, rfl⟩⟩
  | commit t k =>
      obtain ⟨hfree, hheld⟩ := h x henv (hm t rfl)
      cases hw : x.work with
      | none =>
          have hsame : x.committed = x := by
            obtain ⟨db, mem, work⟩ := x
            cases hw
            rfl
          change ∃ past', S.Allows p x x.committed ∧ Publishes S p G N past' k x.committed ∧ _
          refine ⟨past, ?_, ?_, Or.inl ⟨rfl, ?_⟩⟩
          · rw [hsame]
            exact hstay x.work
          · rw [hsame]
            exact hfree hw
          · change x.committed.db = x.db
            rw [hsame]
      | some w =>
          obtain ⟨hg, ha, hk⟩ := hheld w hw
          refine ⟨_, ha, hk, Or.inr ⟨?_, ?_, ?_⟩⟩
          · simp [Request.advance, Point.view_of_some hw]
          · simpa [Request.advance, Point.view_of_some hw] using hg
          · simp [publishing, hw]
  | rollback k => exact ⟨past, hstay none, h x henv, Or.inl ⟨rfl, rfl⟩⟩
  | act t g k =>
      obtain ⟨ha, hk⟩ := h x henv (hm t rfl)
      exact ⟨past, ha, hk, Or.inl ⟨rfl, rfl⟩⟩

end

/-! ## Runs -/

/-- Every request of `c` publishes as it should from where it stands. -/
structure Guarded [DecidableEq π] (S : Spec π σ μ τ) (G : π → σ → σ → Prop)
    (N : π → Option (σ × σ) → Except ε α → Prop) (past : π → List (σ × σ))
    (c : Cfg π σ μ τ ε α) : Prop where
  inv : S.inv c.db c.mem
  publishes : ∀ p, Publishes S p (G p) (N p) (past p) (c.procs p) (c.point p)

section
variable [DecidableEq π] {S : Spec π σ μ τ} {G : π → σ → σ → Prop}
  {N : π → Option (σ × σ) → Except ε α → Prop} {past : π → List (σ × σ)}
  {c c' : Cfg π σ μ τ ε α} {p : π}

/-- The step lemma of a configuration: who moved published this change, or nothing. -/
theorem Guarded.step (h : Guarded S G N past c) (hm : c.Meets S.meets p) (hs : c.step p = some c') :
    ∃ past', Guarded S G N past' c' ∧ (∀ q, q ≠ p → past' q = past q) ∧
      (past' p = past p ∧ c'.db = c.db ∨
        past' p = (c.db, c'.db) :: past p ∧ G p c.db c'.db ∧
          publishing (c.procs p) (c.point p) = true) := by
  obtain ⟨hend, hlock, rfl⟩ := Cfg.step_cases hs
  obtain ⟨own, hallow, hnext, hown⟩ := (h.publishes p).advance h.inv hend hm
  have hfree : c.locked p = true →
      ((c.procs p).advance (c.point p)).2.db = c.db ∧
        ((c.procs p).advance (c.point p)).2.work = none := by
    intro hl
    have hw : (c.procs p).writes = false := by
      by_contra hne
      rw [hlock (by simpa using hne)] at hl
      cases hl
    exact Request.advance_free hw (Cfg.work_of_locked hl)
  refine ⟨Function.update past p own, ⟨hallow.inv, fun q => ?_⟩, fun q hq => ?_, ?_⟩
  · by_cases hqp : q = p
    · subst hqp
      rw [Cfg.point_put_self]
      simpa [Cfg.put] using hnext
    · have hwork := Cfg.work_put_other (c := c) hqp ((c.procs p).advance (c.point p)).1
        (fun hl => (hfree hl).2)
      have hproc : (c.put p ((c.procs p).advance (c.point p)).1
          ((c.procs p).advance (c.point p)).2).procs q = c.procs q := by
        simp [Cfg.put, hqp]
      rw [hproc, Function.update_of_ne hqp]
      refine (h.publishes q).env ⟨hwork, hallow.others q hqp, fun hheld => ?_, hallow.inv⟩
      obtain ⟨s, hs⟩ := Option.isSome_iff_exists.mp hheld
      exact (hfree (Cfg.locked_of_work hs hqp)).1
  · exact Function.update_of_ne hq _ _
  · rw [Function.update_self]
    exact hown

/-- The run lemma: the configuration stays guarded, and what a request has published since, it
published with one of its publishing steps in the run. -/
theorem Guarded.reach_publishing (h : Guarded S G N past c) (hr : Cfg.Reach S.meets c c') :
    ∃ past', Guarded S G N past' c' ∧ (∀ q, ∀ ab ∈ past q, ab ∈ past' q) ∧
      ∀ q, ∀ ab ∈ past' q, ab ∈ past q ∨ ∃ c₁ c₂, Cfg.Reach S.meets c c₁ ∧
        c₁.step q = some c₂ ∧ Cfg.Reach S.meets c₂ c' ∧ ab = (c₁.db, c₂.db) ∧
          publishing (c₁.procs q) (c₁.point q) = true := by
  induction hr with
  | start => exact ⟨past, h, fun _ _ => id, fun _ _ => Or.inl⟩
  | @step d d' p hr hm hs ih =>
      obtain ⟨past₁, hd, hkept, hnew⟩ := ih
      obtain ⟨past₂, hd', hother, hself⟩ := hd.step hm hs
      refine ⟨past₂, hd', fun q ab hab => ?_, fun q ab hab => ?_⟩
      · by_cases hqp : q = p
        · subst hqp
          rcases hself with ⟨hsame, _⟩ | ⟨hmore, _⟩
          · rw [hsame]
            exact hkept q ab hab
          · rw [hmore]
            exact List.mem_cons_of_mem _ (hkept q ab hab)
        · rw [hother q hqp]
          exact hkept q ab hab
      · have hold : ab ∈ past₁ q → ab ∈ past q ∨ ∃ c₁ c₂, Cfg.Reach S.meets c c₁ ∧
            c₁.step q = some c₂ ∧ Cfg.Reach S.meets c₂ d' ∧ ab = (c₁.db, c₂.db) ∧
              publishing (c₁.procs q) (c₁.point q) = true := by
          intro hin
          rcases hnew q ab hin with hpast | ⟨c₁, c₂, h₁, hstep, h₂, heq⟩
          · exact Or.inl hpast
          · exact Or.inr ⟨c₁, c₂, h₁, hstep, h₂.step hm hs, heq⟩
        by_cases hqp : q = p
        · subst hqp
          rcases hself with ⟨hsame, _⟩ | ⟨hmore, _, hpublish⟩
          · rw [hsame] at hab
            exact hold hab
          · rw [hmore] at hab
            rcases List.mem_cons.mp hab with rfl | hin
            · exact Or.inr ⟨d, d', hr, hs, Cfg.Reach.start, rfl, hpublish⟩
            · exact hold hin
        · rw [hother q hqp] at hab
          exact hold hab

theorem Guarded.reach (h : Guarded S G N past c) (hr : Cfg.Reach S.meets c c') :
    ∃ past', Guarded S G N past' c' ∧ (∀ q, ∀ ab ∈ past q, ab ∈ past' q) ∧
      ∀ q, ∀ ab ∈ past' q, ab ∈ past q ∨ ∃ c₁ c₂, Cfg.Reach S.meets c c₁ ∧
        c₁.step q = some c₂ ∧ Cfg.Reach S.meets c₂ c' ∧ ab = (c₁.db, c₂.db) := by
  obtain ⟨past', hguarded, hkept, hnew⟩ := h.reach_publishing hr
  refine ⟨past', hguarded, hkept, fun q ab hab => ?_⟩
  rcases hnew q ab hab with hpast | ⟨c₁, c₂, h₁, hstep, h₂, heq, _⟩
  · exact Or.inl hpast
  · exact Or.inr ⟨c₁, c₂, h₁, hstep, h₂, heq⟩

/-- Every change of the committed store is a publication of the request that moved. -/
theorem Guarded.change (h : Guarded S G N past c) (hm : c.Meets S.meets p)
    (hs : c.step p = some c') : c'.db = c.db ∨ G p c.db c'.db := by
  obtain ⟨_, _, _, hself⟩ := h.step hm hs
  rcases hself with ⟨_, hsame⟩ | ⟨_, hg, _⟩
  · exact Or.inl hsame
  · exact Or.inr hg

/-- The result of a request is what it owes to its publications. -/
theorem Guarded.result (h : Guarded S G N past c) {r : Except ε α}
    (hp : c.procs p = match r with | .ok a => .ret a | .error e => .raise e) :
    Owed (N p) (past p) r := by
  have hpub := h.publishes p
  rw [hp] at hpub
  cases r <;> exact hpub

end

end AikoIsland.Publishing
