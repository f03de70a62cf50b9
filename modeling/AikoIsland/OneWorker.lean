import AikoIsland.WorkerGuard

/-!
# At most one worker

Runs of the worker guard. A process that serves holds the lock of a file, and no file is
locked by two. A child that was forked by the holder keeps a descriptor of the lock that
nobody closes: while it lives the lock is free for nobody, and the child itself never
takes it. Where processes are spawned and not forked, a call is refused if and only if
another process holds the lock, so no lock outlives its holder.
-/
namespace AikoIsland.OneWorker
open Tables OpenOnly Flock WorkerGuard

variable {F ι : Type} [DecidableEq ι] {platform : Platform F ι} {s s' : System ι}
  {p q : ProcessId} {process : Option Process} {kernel : Kernel ProcessId ι} {P : Action → Prop}

/-! ## Played runs -/

theorem reach_of_play {as : List Action} (h : s.play platform as = some s') (hP : ∀ a ∈ as, P a) :
    Reach platform P s s' := by
  have hfrom : ∀ {s₀ s₁ : System ι} (as : List Action), Reach platform P s₀ s₁ →
      s₁.play platform as = some s' → (∀ a ∈ as, P a) → Reach platform P s₀ s' := by
    intro s₀ s₁ as
    induction as generalizing s₁ with
    | nil =>
        intro hr hplay _
        rwa [← Option.some.inj hplay]
    | cons a as ih =>
        intro hr hplay hP
        obtain ⟨s₂, hs, hrest⟩ := Option.bind_eq_some_iff.mp hplay
        exact ih (hr.step (hP a List.mem_cons_self) hs) hrest
          fun a' ha' => hP a' (List.mem_cons_of_mem a ha')
  exact hfrom as .start h hP

/-- One island, with its database at `/data/aiko.db`. -/
def oneIsland : Platform (List UInt8) PyStr where
  driver _ := plainRoot
  isDir _ _ := true
  inode _ path := path
  lower value := value

def islandEnv : Environment := ⟨none, none, ⟨true, some (codes "/data/aiko.db"), fun _ => none⟩⟩

def islandLock : PyStr := codes "/data/.aiko-worker.lock"

/-- A worker boots and takes the lock. -/
def boots (p : ProcessId) : List Action :=
  [.boot p, .acquire p islandEnv, .open p (some 3), .flock p true]

/-! ## One worker -/

/-- The process holds the lock of the file. -/
def HasLock (s : System ι) (p : ProcessId) (file : ι) : Prop :=
  ∃ x d, Knows s p x d ∧ x.lockPid = some p.pid ∧ d ∈ s.kernel.locks ∧ d.file = file

def Serving (s : System ι) (p : ProcessId) : Prop :=
  ∃ x alone, s.processes p = some x ∧ x.stage = .serving alone

/-- The lock as the kernel shows it. -/
def System.shows (s : System ι) (p : ProcessId) (file : ι) : Bool :=
  (s.processes p).any fun x => x.lockPid = some p.pid &&
    (x.lockFd.bind (s.kernel.lookup p)).any fun d =>
      (s.kernel.locks.any fun l => l = d) && d.file = file

theorem hasLock_iff {file : ι} (hg : Guarded platform s) :
    HasLock s p file ↔ System.shows s p file = true := by
  unfold System.shows HasLock Knows
  simp only [Option.any_eq_true, List.any_eq_true, exists_eq_right, Bool.and_eq_true,
    decide_eq_true_eq, Option.bind_eq_some_iff, lookup_eq_some hg.sound]
  constructor
  · intro h
    obtain ⟨x, d, ⟨hx, fd, hfd, href⟩, hpid, hd, hfile⟩ := h
    exact ⟨x, hx, hpid, d, ⟨fd, hfd, href⟩, hd, hfile⟩
  · intro h
    obtain ⟨x, hx, hpid, d, ⟨fd, hfd, href⟩, hd, hfile⟩ := h
    exact ⟨x, d, ⟨hx, fd, hfd, href⟩, hpid, hd, hfile⟩

omit [DecidableEq ι] in
theorem guarded_unique {file : ι} (hg : Guarded platform s) (hp : HasLock s p file)
    (hq : HasLock s q file) : p = q := by
  obtain ⟨x, d, hk, hpid, hd, hfile⟩ := hp
  obtain ⟨x', d', hk', hpid', hd', hfile'⟩ := hq
  have hsame : d = d' := hg.sound.alone d hd d' hd' (hfile.trans hfile'.symm)
  rw [← hsame] at hk'
  obtain ⟨hcontainer, hpids⟩ := hg.agree p q x x' d hk hk'
  have hpidq : p.pid = q.pid := by
    apply Option.some.inj
    rw [← hpid, ← hpid', hpids]
  obtain ⟨pc, pp⟩ := p
  obtain ⟨qc, qp⟩ := q
  dsimp only at hcontainer hpidq
  rw [hcontainer, hpidq]

/-- Calls are made with one of these environments, and none of them allows several workers. -/
def Deployed (platform : Platform F ι) (envs : Set Environment) : Action → Prop
  | .acquire _ env => env ∈ envs ∧ multiworkerAllowed platform.lower env.allowMultiworker = false
  | _ => True

/-- A path that one of these environments gives for the lock in the container. -/
def IsLockPath (platform : Platform F ι) (envs : Set Environment) (container : ℕ)
    (path : PyStr) : Prop :=
  ∃ env ∈ envs, lockPath platform container env = some (some path)

section
variable {envs : Set Environment}

/-- What a process stands at, if no call allows several workers. -/
def PlacedAt (platform : Platform F ι) (envs : Set Environment) (container : ℕ) : Stage → Prop
  | .opening path => IsLockPath platform envs container path
  | .serving alone => alone = true
  | _ => True

structure Placed (platform : Platform F ι) (envs : Set Environment) (s : System ι) : Prop where
  stages : ∀ p x, s.processes p = some x → PlacedAt platform envs p.container x.stage
  files : ∀ r ∈ s.kernel.references, ∃ path, IsLockPath platform envs r.process.container path ∧
    r.description.file = platform.inode r.process.container path

omit [DecidableEq ι] in
theorem Placed.set (h : Placed platform envs s)
    (hstage : ∀ x, process = some x → PlacedAt platform envs p.container x.stage)
    (hfiles : ∀ r ∈ kernel.references, (∃ r' ∈ s.kernel.references,
      r.process.container = r'.process.container ∧ r.description = r'.description) ∨
        ∃ path, IsLockPath platform envs r.process.container path ∧
          r.description.file = platform.inode r.process.container path) :
    Placed platform envs (s.set p process kernel) := by
  constructor
  · intro q x hx
    by_cases hq : q = p
    · subst hq
      rw [set_self] at hx
      exact hstage x hx
    · rw [set_other hq] at hx
      exact h.stages q x hx
  · intro r hr
    rcases hfiles r hr with ⟨r', hr', hcontainer, hsame⟩ | hnew
    · rw [hcontainer, hsame]
      exact h.files r' hr'
    · exact hnew

omit [DecidableEq ι] in
theorem placed_acquire {env : Environment} (henv : env ∈ envs)
    (hallowed : multiworkerAllowed platform.lower env.allowMultiworker = false) (p : ProcessId)
    (x : Process) : PlacedAt platform envs p.container (acquire platform p env x).stage := by
  unfold acquire
  rw [hallowed, if_neg Bool.false_ne_true]
  split_ifs
  · rfl
  · cases hpath : lockPath platform p.container env with
    | none => trivial
    | some path =>
        cases path with
        | none => trivial
        | some path => exact ⟨env, henv, hpath⟩

theorem Placed.step {a : Action} (h : Placed platform envs s) (ha : Deployed platform envs a)
    (hs : s.step platform a = some s') : Placed platform envs s' := by
  obtain ⟨p, process, kernel, hmoves, rfl⟩ := step_moves hs
  have hsame : ∀ r ∈ s.kernel.references, (∃ r' ∈ s.kernel.references,
      r.process.container = r'.process.container ∧ r.description = r'.description) ∨
        ∃ path, IsLockPath platform envs r.process.container path ∧
          r.description.file = platform.inode r.process.container path :=
    fun r hr => Or.inl ⟨r, hr, rfl, rfl⟩
  have hstage : ∀ {x : Process} {container : ℕ}, PlacedAt platform envs container x.stage →
      ∀ y, some x = some y → PlacedAt platform envs container y.stage := by
    intro x container hx y hy
    rwa [← Option.some.inj hy]
  cases hmoves with
  | boot hp =>
      apply h.set _ hsame
      exact hstage trivial
  | fork hp hchild hcontainer =>
      apply h.set (fun y hy => hstage (by trivial) y hy)
      intro r hr
      rcases mem_fork.mp hr with hold | ⟨r', hr', hparent, rfl⟩
      · exact hsame r hold
      · refine Or.inl ⟨r', hr', ?_, rfl⟩
        rw [hparent]
        exact hcontainer
  | exit hp =>
      apply h.set (fun y (hy : none = some y) => nomatch hy)
      exact fun r hr => hsame r (mem_exit.mp hr).1
  | @acquire _ env x hp =>
      apply h.set _ hsame
      exact hstage (placed_acquire ha.1 ha.2 p x)
  | unopened hp hopening =>
      apply h.set _ hsame
      exact hstage trivial
  | @opened _ x path fd hp hopening hfree =>
      have hpath := h.stages p x hp
      rw [hopening] at hpath
      apply h.set (fun y hy => hstage (by trivial) y hy)
      intro r hr
      rcases mem_open.mp hr with hold | rfl
      · exact hsame r hold
      · exact Or.inr ⟨path, hpath, rfl⟩
  | granted hp hlocking hd hflock =>
      apply h.set (fun y hy => hstage (by trivial) y hy)
      rw [(flock_spec hflock).1]
      exact hsame
  | refused hp hlocking _ =>
      apply h.set _ hsame
      exact hstage trivial
  | closed hp hrefusing =>
      apply h.set (fun y hy => hstage (by trivial) y hy)
      exact fun r hr => hsame r (mem_close.mp hr).1
  | forgot hp hother =>
      apply h.set _ hsame
      exact hstage trivial
  | released hp hfd hpid =>
      apply h.set (fun y hy => hstage (by trivial) y hy)
      exact fun r hr => hsame r (mem_close.mp hr).1

theorem placed_of_reach (hr : Reach platform (Deployed platform envs) s s')
    (h : Placed platform envs s) : Placed platform envs s' := by
  induction hr with
  | start => exact h
  | step _ ha hs ih => exact ih.step ha hs

/-- What a run of such calls has placed. -/
theorem placed_of_run (hr : Reach platform (Deployed platform envs) {} s) :
    Placed platform envs s := by
  apply placed_of_reach hr
  constructor
  · exact fun p x hx => nomatch hx
  · exact fun r hr => absurd hr List.not_mem_nil

omit [DecidableEq ι] in
theorem lock_of_serving (hg : Guarded platform s) (hplaced : Placed platform envs s)
    (hserving : Serving s p) :
    ∃ path, IsLockPath platform envs p.container path ∧
      HasLock s p (platform.inode p.container path) := by
  obtain ⟨x, alone, hx, hstage⟩ := hserving
  have halone := hplaced.stages p x hx
  have hcalm := hg.calm p x hx
  rw [hstage] at halone hcalm
  obtain ⟨hpid, hfd⟩ := hcalm halone
  obtain ⟨fd, hfd⟩ := Option.isSome_iff_exists.mp hfd
  obtain ⟨d, hd, href⟩ := hg.held p x fd hx hfd
  obtain ⟨path, hpath, hfile⟩ := hplaced.files _ href
  exact ⟨path, hpath, x, d, ⟨hx, fd, hfd, href⟩, hpid, hd, hfile⟩

/-- Where no call allows several workers, every process that serves holds the lock of a file that
the environments lead to, and no file is locked by two. -/
theorem one_worker_serves (hr : Reach platform (Deployed platform envs) {} s) :
    (∀ p, Serving s p → ∃ path, IsLockPath platform envs p.container path ∧
      HasLock s p (platform.inode p.container path)) ∧
    ∀ p q file, HasLock s p file → HasLock s q file → p = q := by
  have hg := hr.guarded guarded_empty
  constructor
  · exact fun p hserving => lock_of_serving hg (placed_of_run hr) hserving
  · exact fun p q file hp hq => guarded_unique hg hp hq

/-- A second worker, in another container, is refused. -/
theorem one_worker_serves_island : ∃ s : System PyStr,
    Reach oneIsland (Deployed oneIsland {islandEnv}) {} s ∧
      Serving s ⟨0, 1⟩ ∧ s.processes ⟨1, 1⟩ = some ⟨none, none, .refusing 3⟩ ∧
      (∀ p, Serving s p → ∃ path, IsLockPath oneIsland {islandEnv} p.container path ∧
        HasLock s p (oneIsland.inode p.container path)) ∧
      ∀ p q file, HasLock s p file → HasLock s q file → p = q := by
  have hstages : (({} : System PyStr).play oneIsland (boots ⟨0, 1⟩ ++ boots ⟨1, 1⟩)).map
      (fun s => (s.processes ⟨0, 1⟩, s.processes ⟨1, 1⟩)) =
        some (some ⟨some 3, some 1, .serving true⟩, some ⟨none, none, .refusing 3⟩) := by
    decide
  obtain ⟨s, hs, hpair⟩ := Option.map_eq_some_iff.mp hstages
  obtain ⟨hserving, hrefused⟩ := Prod.mk.inj hpair
  have hboots : ∀ p, ∀ a ∈ boots p, Deployed oneIsland {islandEnv} a := by
    intro p a ha
    simp only [boots, List.mem_cons, List.not_mem_nil, or_false] at ha
    rcases ha with rfl | rfl | rfl | rfl
    · trivial
    · exact ⟨rfl, by decide⟩
    · trivial
    · trivial
  have hr : Reach oneIsland (Deployed oneIsland {islandEnv}) {} s := by
    apply reach_of_play hs
    intro a ha
    rcases List.mem_append.mp ha with hfirst | hsecond
    · exact hboots _ a hfirst
    · exact hboots _ a hsecond
  exact ⟨s, hr, ⟨_, _, hserving, rfl⟩, hrefused, one_worker_serves hr⟩

/-- One worker a database: the URLs name a file whose directory is the same in all containers,
wherever they have it. -/
theorem one_worker_a_database {db : ℕ → PyStr} {lock : ι}
    (hdb : ∀ container, ∀ env ∈ envs, env.workerLock.getD [] = [] ∧
      sqliteFile (platform.driver container) env.dbUrl = some (some (db container)))
    (hshared : ∀ container,
      platform.inode container (joined (parent (db container)) lockFilename) = lock)
    (hr : Reach platform (Deployed platform envs) {} s) (hp : Serving s p) (hq : Serving s q) :
    p = q := by
  have hlocked : ∀ container path, IsLockPath platform envs container path →
      platform.inode container path = lock := by
    intro container path hpath
    obtain ⟨env, henv, hlock⟩ := hpath
    obtain ⟨hunset, hfile⟩ := hdb container env henv
    unfold lockPath at hlock
    rw [hunset, hfile, if_neg (by simp)] at hlock
    simp only [Option.map_some, Option.bind_some, Option.some.injEq] at hlock
    split_ifs at hlock
    rw [← Option.some.inj hlock]
    exact hshared container
  have hg := hr.guarded guarded_empty
  obtain ⟨path, hpath, hlock⟩ := lock_of_serving hg (placed_of_run hr) hp
  obtain ⟨path', hpath', hlock'⟩ := lock_of_serving hg (placed_of_run hr) hq
  rw [hlocked _ path hpath] at hlock
  rw [hlocked _ path' hpath'] at hlock'
  exact guarded_unique hg hlock hlock'

end

/-! ## The children of a worker -/

/-- `child` has a descriptor of the locked `d` that nothing will close, and `d` is known under
the pid of `p` only. -/
structure Inherited (p child : ProcessId) (d : Description ι) (s : System ι) : Prop where
  reference : ∃ fd, ⟨child, fd, d⟩ ∈ s.kernel.references
  locked : d ∈ s.kernel.locks
  refusing : ∀ x fd, s.processes child = some x → x.stage = .refusing fd →
    ⟨child, fd, d⟩ ∉ s.kernel.references
  knowers : ∀ q x, Knows s q x d → q.container = p.container ∧ x.lockPid = some p.pid

section
variable {child : ProcessId} {d : Description ι} {a : Action}

omit [DecidableEq ι] in
theorem Inherited.set (h : Inherited p child d s) (hf : Fits platform s q process kernel)
    (hkeep : ∀ fd, ⟨child, fd, d⟩ ∈ s.kernel.references → ⟨child, fd, d⟩ ∈ kernel.references)
    (hrefusing : q = child → ∀ x fd, process = some x → x.stage = .refusing fd →
      ⟨child, fd, d⟩ ∉ kernel.references)
    (hknow : ∀ x fd, process = some x → x.lockFd = some fd → ⟨q, fd, d⟩ ∈ kernel.references →
      q.container = p.container ∧ x.lockPid = some p.pid) :
    Inherited p child d (s.set q process kernel) := by
  obtain ⟨fd, href⟩ := h.reference
  constructor
  · exact ⟨fd, hkeep fd href⟩
  · exact hf.locks d h.locked ⟨_, hkeep fd href, rfl⟩
  · intro x fd' hx hstage
    by_cases hq : child = q
    · rw [hq, set_self] at hx
      exact hrefusing hq.symm x fd' hx hstage
    · rw [set_other hq] at hx
      intro href'
      exact h.refusing x fd' hx hstage ((hf.others _ hq).mp href')
  · intro q' x hk
    by_cases hq : q' = q
    · rw [hq] at hk ⊢
      obtain ⟨hx, fd', hfd, href'⟩ := knows_self hk
      exact hknow x fd' hx hfd href'
    · exact h.knowers q' x (knows_other hf hq hk)

/-- No step of anyone frees what the child has inherited. -/
theorem Inherited.step (h : Inherited p child d s) (hg : Guarded platform s)
    (hne : child ≠ p) (hcontainer : child.container = p.container) (ha : a ≠ .exit child)
    (hs : s.step platform a = some s') : Inherited p child d s' := by
  obtain ⟨q, process, kernel, hmoves, rfl⟩ := step_moves hs
  have hfits := hmoves.fits hg
  have hsame : ∀ {x : Process} {fd : ℕ}, s.processes q = some x → x.lockFd = some fd →
      ⟨q, fd, d⟩ ∈ s.kernel.references → q.container = p.container ∧ x.lockPid = some p.pid :=
    fun hx hfd href => h.knowers _ _ ⟨hx, _, hfd, href⟩
  have hopened : ∀ {x : Process} {path : PyStr} {fd : ℕ}, s.processes q = some x →
      x.stage = .locking path fd → ⟨q, fd, d⟩ ∉ s.kernel.references := by
    intro x path fd hx hstage href
    obtain ⟨_, _, hopened⟩ := Locking.opened hg ⟨x, path, fd, hx, hstage, href⟩
    exact hopened.unlocked h.locked
  cases hmoves with
  | boot hp =>
      apply h.set hfits (fun _ href => href)
      · intro _ x fd hx hstage
        rw [← Option.some.inj hx] at hstage
        cases hstage
      · intro x fd hx hfd
        rw [← Option.some.inj hx] at hfd
        cases hfd
  | @fork r _ x hr hnone hparent =>
      have hother : child ≠ q := by
        intro heq
        obtain ⟨fd, href⟩ := h.reference
        apply hg.alive _ href
        rw [heq]
        exact hnone
      apply h.set hfits
      · exact fun fd href => mem_fork.mpr (Or.inl href)
      · exact fun heq => absurd heq.symm hother
      · intro y fd hy hfd href
        rw [← Option.some.inj hy] at hfd ⊢
        rcases mem_fork.mp href with hold | ⟨r', hr', hrp, heq⟩
        · exact absurd hnone (hg.alive _ hold)
        · obtain ⟨rp, rfd, rd⟩ := r'
          injection heq with _ hfd' hd'
          dsimp only at hrp hfd' hd'
          rw [hrp, ← hfd', ← hd'] at hr'
          rw [hparent]
          exact h.knowers r x ⟨hr, fd, hfd, hr'⟩
  | exit hp =>
      have hother : child ≠ q := by
        intro heq
        rw [heq] at ha
        exact ha rfl
      apply h.set hfits
      · exact fun fd href => mem_exit.mpr ⟨href, hother⟩
      · exact fun heq => absurd heq.symm hother
      · exact fun x fd hx => nomatch hx
  | @acquire _ env x hp =>
      obtain ⟨hcalm, _, hknown⟩ := acquire_spec platform q env x
      apply h.set hfits (fun _ href => href)
      · intro _ y fd hy hstage
        rw [← Option.some.inj hy] at hstage
        unfold acquire at hstage
        split_ifs at hstage
        split at hstage <;> cases hstage
      · intro y fd hy hfd href
        rw [← Option.some.inj hy] at hfd ⊢
        obtain ⟨hfd₀, hpid⟩ := hknown fd hfd
        rw [← hpid]
        exact hsame hp hfd₀ href
  | @unopened _ x path hp hstage =>
      apply h.set hfits (fun _ href => href)
      · intro _ y fd hy hstage'
        rw [← Option.some.inj hy] at hstage'
        cases hstage'
      · intro y fd hy hfd href
        rw [← Option.some.inj hy] at hfd ⊢
        have hold := hsame hp hfd href
        exact hold
  | @opened _ x path fd hp hstage hfree =>
      have hforgot := hg.calm q x hp
      rw [hstage] at hforgot
      apply h.set hfits
      · exact fun fd' href => mem_open.mpr (Or.inl href)
      · intro _ y fd' hy hstage'
        rw [← Option.some.inj hy] at hstage'
        cases hstage'
      · intro y fd' hy hfd
        rw [← Option.some.inj hy] at hfd
        cases hforgot.symm.trans hfd
  | @granted _ x path fd d' _ hp hstage hd hflock =>
      have hreferences := (flock_spec hflock).1
      apply h.set hfits
      · intro fd' href
        rwa [hreferences]
      · intro _ y fd' hy hstage'
        rw [← Option.some.inj hy] at hstage'
        cases hstage'
      · intro y fd' hy hfd href
        rw [← Option.some.inj hy] at hfd
        obtain rfl := Option.some.inj hfd
        rw [hreferences] at href
        exact absurd href (hopened hp hstage)
  | @refused _ x path fd supported hp hstage _ =>
      apply h.set hfits (fun _ href => href)
      · intro heq y fd' hy hstage'
        rw [← Option.some.inj hy] at hstage'
        injection hstage' with hfd
        rw [← hfd, ← heq]
        exact hopened hp hstage
      · intro y fd' hy hfd href
        rw [← Option.some.inj hy] at hfd ⊢
        have hold := hsame hp hfd href
        exact hold
  | @closed _ x fd hp hstage =>
      apply h.set hfits
      · intro fd' href
        refine mem_close.mpr ⟨href, ?_⟩
        intro hclosed
        obtain ⟨hq, rfl⟩ := hclosed
        dsimp only at hq
        rw [← hq] at hp
        exact h.refusing x _ hp hstage href
      · intro _ y fd' hy hstage'
        rw [← Option.some.inj hy] at hstage'
        cases hstage'
      · intro y fd' hy hfd href
        rw [← Option.some.inj hy] at hfd ⊢
        have hold := hsame hp hfd (mem_close.mp href).1
        exact hold
  | forgot hp hother =>
      apply h.set hfits (fun _ href => href)
      · intro _ y fd hy hstage
        rw [← Option.some.inj hy] at hstage
        cases hstage
      · intro y fd hy hfd
        rw [← Option.some.inj hy] at hfd
        cases hfd
  | @released _ x fd hp hfd hpid =>
      apply h.set hfits
      · intro fd' href
        refine mem_close.mpr ⟨href, ?_⟩
        intro hclosed
        obtain ⟨hq, rfl⟩ := hclosed
        dsimp only at hq
        rw [← hq] at hp hpid
        have hpids := (h.knowers child x ⟨hp, _, hfd, href⟩).2
        have hsamePid : child.pid = p.pid := Option.some.inj (hpid.symm.trans hpids)
        obtain ⟨cc, cp⟩ := child
        obtain ⟨pc, pp⟩ := p
        dsimp only at hsamePid hcontainer
        exact hne (by rw [hsamePid, hcontainer])
      · intro _ y fd' hy hstage
        rw [← Option.some.inj hy] at hstage
        cases hstage
      · intro y fd' hy hfd'
        rw [← Option.some.inj hy] at hfd'
        cases hfd'

theorem inherited_fork {x : Process} (hg : Guarded platform s) (hk : Knows s p x d)
    (hpid : x.lockPid = some p.pid) (hs : s.step platform (.fork p child) = some s') :
    Inherited p child d s' ∧ child ≠ p ∧ child.container = p.container := by
  obtain ⟨q, process, kernel, hmoves, rfl⟩ := step_moves hs
  have hfits := hmoves.fits hg
  have hlocked := hk.locked hg
  have hknow := hk
  obtain ⟨hx, fd, hfd, href⟩ := hk
  cases hmoves with
  | @fork _ _ y hp hchild hcontainer =>
      obtain rfl := Option.some.inj (hx.symm.trans hp)
      refine ⟨?_, ?_, hcontainer⟩
      · constructor
        · exact ⟨fd, mem_fork.mpr (Or.inr ⟨_, href, rfl, rfl⟩)⟩
        · exact hlocked
        · intro y fd' hy hstage
          rw [set_self] at hy
          rw [← Option.some.inj hy] at hstage
          cases hstage
        · intro q y hk'
          by_cases hq : q = child
          · rw [hq] at hk'
            obtain ⟨hy, _⟩ := knows_self hk'
            rw [hq, ← Option.some.inj hy]
            exact ⟨hcontainer, hpid⟩
          · obtain ⟨hcontainers, hpids⟩ := hg.agree p q x y d hknow (knows_other hfits hq hk')
            rw [← hpids]
            exact ⟨hcontainers.symm, hpid⟩
      · intro heq
        rw [heq, hp] at hchild
        cases hchild

/-- While a child lives that was forked by the holder of the lock, the lock is nobody's but that
holder's: never the child's, also when the holder is gone. -/
theorem fork_child_never_serves {file : ι} {s₁ s₂ : System ι} (hr : Reach platform P {} s)
    (hlock : HasLock s p file) (hfork : s.step platform (.fork p child) = some s₁)
    (hlives : Reach platform (fun a => a ≠ .exit child) s₁ s₂) :
    ¬HasLock s₂ child file ∧ ∀ q, HasLock s₂ q file → q = p := by
  have hg := hr.guarded guarded_empty
  obtain ⟨x, d, hk, hpid, _, hfile⟩ := hlock
  obtain ⟨hinherited, hne, hcontainer⟩ := inherited_fork hg hk hpid hfork
  have hend : Guarded platform s₂ ∧ Inherited p child d s₂ := by
    induction hlives with
    | start => exact ⟨hg.step hfork, hinherited⟩
    | step _ ha hs ih => exact ⟨ih.1.step hs, ih.2.step ih.1 hne hcontainer ha hs⟩
  obtain ⟨hg₂, hinherited₂⟩ := hend
  have hholder : ∀ q, HasLock s₂ q file → q = p := by
    intro q hq
    obtain ⟨y, e, hk', hpid', he, hfile'⟩ := hq
    have hsame : e = d := hg₂.sound.alone e he d hinherited₂.locked (hfile'.trans hfile.symm)
    rw [hsame] at hk'
    obtain ⟨hcontainers, hpids⟩ := hinherited₂.knowers q y hk'
    have hpidq : q.pid = p.pid := Option.some.inj (hpid'.symm.trans hpids)
    obtain ⟨qc, qp⟩ := q
    obtain ⟨pc, pp⟩ := p
    dsimp only at hcontainers hpidq
    rw [hcontainers, hpidq]
  constructor
  · exact fun hchild => hne (hholder child hchild)
  · exact hholder

/-- The worker dies, and its child tries. -/
def orphaned : List Action :=
  [.exit ⟨0, 1⟩, .acquire ⟨0, 2⟩ islandEnv, .open ⟨0, 2⟩ (some 4), .flock ⟨0, 2⟩ true,
    .close ⟨0, 2⟩]

theorem fork_child_never_serves_orphan : ∃ s s₁ s₂ : System PyStr,
    HasLock s ⟨0, 1⟩ islandLock ∧ s.step oneIsland (.fork ⟨0, 1⟩ ⟨0, 2⟩) = some s₁ ∧
      s₁.play oneIsland orphaned = some s₂ ∧ ¬HasLock s₂ ⟨0, 2⟩ islandLock ∧
        ∀ q, HasLock s₂ q islandLock → q = ⟨0, 1⟩ := by
  have hrun : ((({} : System PyStr).play oneIsland (boots ⟨0, 1⟩)).bind fun s =>
      (s.step oneIsland (.fork ⟨0, 1⟩ ⟨0, 2⟩)).bind fun s₁ => s₁.play oneIsland orphaned).isSome =
        true := by decide
  have hshows : (({} : System PyStr).play oneIsland (boots ⟨0, 1⟩)).all
      (fun s => System.shows s ⟨0, 1⟩ islandLock) = true := by decide
  obtain ⟨s₂, hs₂⟩ := Option.isSome_iff_exists.mp hrun
  obtain ⟨s, hs, hfork⟩ := Option.bind_eq_some_iff.mp hs₂
  obtain ⟨s₁, hs₁, hlast⟩ := Option.bind_eq_some_iff.mp hfork
  rw [hs] at hshows
  have hr : Reach oneIsland (fun _ => True) {} s := reach_of_play hs fun _ _ => trivial
  have hlock := (hasLock_iff (hr.guarded guarded_empty)).mpr hshows
  have hlives : Reach oneIsland (fun a => a ≠ .exit ⟨0, 2⟩) s₁ s₂ := by
    apply reach_of_play hlast
    intro a ha heq
    rw [heq] at ha
    simp [orphaned] at ha
  exact ⟨s, s₁, s₂, hlock, hs₁, hlast, fork_child_never_serves hr hlock hs₁ hlives⟩

end

/-! ## No stale lock -/

/-- Without forks, who refers to a locked description knows it under its own pid. -/
structure Direct (s : System ι) : Prop where
  own : ∀ p x fd, s.processes p = some x → x.lockFd = some fd → x.lockPid = some p.pid
  single : ∀ r ∈ s.kernel.references, ∀ r' ∈ s.kernel.references,
    r.description = r'.description → r = r'
  holders : ∀ r ∈ s.kernel.references, r.description ∈ s.kernel.locks →
    ∃ x, s.processes r.process = some x ∧ x.lockFd = some r.fd

omit [DecidableEq ι] in
theorem Direct.set (h : Direct s) (hfits : Fits platform s q process kernel)
    (hown : ∀ x fd, process = some x → x.lockFd = some fd → x.lockPid = some q.pid)
    (hsingle : ∀ r ∈ kernel.references, ∀ r' ∈ kernel.references,
      r.description = r'.description → r = r')
    (hholders : ∀ fd d, ⟨q, fd, d⟩ ∈ kernel.references → d ∈ kernel.locks →
      ∃ x, process = some x ∧ x.lockFd = some fd)
    (htaken : ∀ d ∈ kernel.locks, d ∉ s.kernel.locks → ∃ fd, ⟨q, fd, d⟩ ∈ kernel.references) :
    Direct (s.set q process kernel) := by
  constructor
  · intro q' x fd hx hfd
    by_cases hq : q' = q
    · rw [hq, set_self] at hx
      rw [hq]
      exact hown x fd hx hfd
    · rw [set_other hq] at hx
      exact h.own q' x fd hx hfd
  · exact hsingle
  · intro r hr hlocked
    by_cases hq : r.process = q
    · obtain ⟨rp, rfd, rd⟩ := r
      dsimp only at hq hlocked ⊢
      rw [hq] at hr ⊢
      rw [set_self]
      exact hholders rfd rd hr hlocked
    · rw [set_other hq]
      have hold := (hfits.others r hq).mp hr
      by_cases hbefore : r.description ∈ s.kernel.locks
      · exact h.holders r hold hbefore
      · obtain ⟨fd, href⟩ := htaken r.description hlocked hbefore
        have heq := hsingle r hr _ href rfl
        rw [heq] at hq
        exact absurd rfl hq

omit [DecidableEq ι] in
/-- A process that goes on with the same kernel and the same memory of its lock. -/
theorem Direct.same {x₀ x : Process} (h : Direct s) (hfits : Fits platform s q (some x) s.kernel)
    (hq : s.processes q = some x₀) (hfd : x.lockFd = x₀.lockFd)
    (hpid : ∀ fd, x.lockFd = some fd → x.lockPid = x₀.lockPid) :
    Direct (s.set q (some x) s.kernel) := by
  apply h.set hfits
  · intro y fd hy hyfd
    rw [← Option.some.inj hy] at hyfd ⊢
    rw [hpid fd hyfd]
    exact h.own q x₀ fd hq (hfd.symm.trans hyfd)
  · exact h.single
  · intro fd d href hlocked
    obtain ⟨y, hy, hyfd⟩ := h.holders _ href hlocked
    obtain rfl := Option.some.inj (hq.symm.trans hy)
    exact ⟨x, rfl, hfd.trans hyfd⟩
  · exact fun d hd hnot => absurd hd hnot

/-- A process with these descriptors fewer; of the locked ones it has only its own. -/
theorem Direct.keep {kept : Reference ProcessId ι → Bool} (h : Direct s)
    (hfits : Fits platform s q process (s.kernel.keep kept))
    (hforgot : ∀ x, process = some x → x.lockFd = none)
    (hclosed : ∀ fd d, ⟨q, fd, d⟩ ∈ s.kernel.references → kept ⟨q, fd, d⟩ = true →
      d ∉ s.kernel.locks) :
    Direct (s.set q process (s.kernel.keep kept)) := by
  apply h.set hfits
  · intro x fd hx hfd
    rw [hforgot x hx] at hfd
    cases hfd
  · intro r hr r' hr'
    exact h.single r (mem_keep.mp hr).1 r' (mem_keep.mp hr').1
  · intro fd d href hlocked
    obtain ⟨hold, hkept⟩ := mem_keep.mp href
    exact absurd (mem_keep_locks.mp hlocked).1 (hclosed fd d hold hkept)
  · exact fun d hd hnot => absurd (mem_keep_locks.mp hd).1 hnot

omit [DecidableEq ι] in
/-- A process whose globals are empty has no descriptor of a lock. -/
theorem Direct.unlocked {x : Process} {fd : ℕ} {d : Description ι} (h : Direct s)
    (hq : s.processes q = some x) (hforgot : x.lockFd = none)
    (href : ⟨q, fd, d⟩ ∈ s.kernel.references) : d ∉ s.kernel.locks := by
  intro hlocked
  obtain ⟨y, hy, hfd⟩ := h.holders _ href hlocked
  obtain rfl := Option.some.inj (hq.symm.trans hy)
  cases hforgot.symm.trans hfd

variable (platform) in
omit [DecidableEq ι] in
/-- A call keeps the memory of the lock that is the process's own. -/
theorem Direct.acquire (h : Direct s) {x : Process} (hq : s.processes q = some x)
    (env : Environment) : (WorkerGuard.acquire platform q env x).lockFd = x.lockFd ∧
      ∀ fd, (WorkerGuard.acquire platform q env x).lockFd = some fd →
        (WorkerGuard.acquire platform q env x).lockPid = x.lockPid := by
  unfold WorkerGuard.acquire
  split_ifs with hallowed hheld
  · exact ⟨rfl, fun _ _ => rfl⟩
  · exact ⟨rfl, fun _ _ => rfl⟩
  · have hforgot : x.lockFd = none := by
      cases hfd : x.lockFd with
      | none => rfl
      | some fd =>
          have hpid := h.own q x fd hq hfd
          simp [hfd, hpid] at hheld
    rw [hforgot]
    split
    · exact ⟨rfl, fun fd hfd => nomatch hfd⟩
    · exact ⟨rfl, fun fd hfd => nomatch hfd⟩

theorem Direct.step {a : Action} (h : Direct s) (hg : Guarded platform s)
    (ha : ∀ p child, a ≠ .fork p child) (hs : s.step platform a = some s') : Direct s' := by
  obtain ⟨q, process, kernel, hmoves, rfl⟩ := step_moves hs
  have hfits := hmoves.fits hg
  cases hmoves with
  | boot hp =>
      apply h.set hfits
      · intro x fd hx hfd
        rw [← Option.some.inj hx] at hfd
        cases hfd
      · exact h.single
      · exact fun fd d href => absurd hp (hg.alive _ href)
      · exact fun d hd hnot => absurd hd hnot
  | fork hp hchild hcontainer => exact absurd rfl (ha _ _)
  | exit hp =>
      apply h.keep hfits
      · exact fun x hx => nomatch hx
      · intro fd d href hkept
        simp at hkept
  | @acquire _ env x hp =>
      obtain ⟨hfd, hpid⟩ := h.acquire platform hp env
      exact h.same hfits hp hfd hpid
  | unopened hp hstage => exact h.same hfits hp rfl fun _ _ => rfl
  | @opened _ x path fd hp hstage hfree =>
      have hforgot := hg.calm q x hp
      rw [hstage] at hforgot
      have hnew : ∀ r ∈ s.kernel.references,
          r.description ≠ ⟨s.kernel.next, platform.inode q.container path⟩ := by
        intro r hr heq
        have hlt := hg.sound.numbered r hr
        rw [heq] at hlt
        exact absurd hlt (lt_irrefl _)
      apply h.set hfits
      · intro y fd' hy hfd
        rw [← Option.some.inj hy] at hfd
        cases hforgot.symm.trans hfd
      · intro r hr r' hr' hsame
        rcases mem_open.mp hr with hold | rfl
        · rcases mem_open.mp hr' with hold' | rfl
          · exact h.single r hold r' hold' hsame
          · exact absurd hsame (hnew r hold)
        · rcases mem_open.mp hr' with hold' | rfl
          · exact absurd hsame.symm (hnew r' hold')
          · rfl
      · intro fd' d href hlocked
        rcases mem_open.mp href with hold | heq
        · exact absurd hlocked (h.unlocked hp hforgot hold)
        · injection heq with _ _ hd
          obtain ⟨r, hr, hrd⟩ := hg.sound.held d hlocked
          exact absurd (hrd.trans hd) (hnew r hr)
      · exact fun d hd hnot => absurd hd hnot
  | @granted _ x path fd d _ hp hstage hd hflock =>
      obtain ⟨hreferences, _, hlocks⟩ := flock_spec hflock
      have href := (lookup_eq_some hg.sound).mp hd
      have hforgot := hg.calm q x hp
      rw [hstage] at hforgot
      apply h.set hfits
      · intro y fd' hy _
        rw [← Option.some.inj hy]
      · rw [hreferences]
        exact h.single
      · intro fd' d' href' hlocked
        rw [hreferences] at href'
        rcases (hlocks d').mp hlocked with rfl | hold
        · have heq := h.single _ href' _ href rfl
          injection heq with _ hfd
          exact ⟨_, rfl, by rw [hfd]⟩
        · exact absurd hold (h.unlocked hp hforgot href')
      · intro d' hlocked hnot
        rcases (hlocks d').mp hlocked with rfl | hold
        · rw [hreferences]
          exact ⟨fd, href⟩
        · exact absurd hold hnot
  | refused hp hstage _ => exact h.same hfits hp rfl fun _ _ => rfl
  | @closed _ x fd hp hstage =>
      have hforgot : x.lockFd = none := by
        have := hg.calm q x hp
        rwa [hstage] at this
      apply h.keep hfits
      · intro y hy
        rw [← Option.some.inj hy]
        exact hforgot
      · exact fun fd' d href _ => h.unlocked hp hforgot href
  | @forgot _ x hp hother =>
      have hforgot : x.lockFd = none := by
        rcases hother with hnone | hforeign
        · exact hnone
        · cases hfd : x.lockFd with
          | none => rfl
          | some fd => exact absurd (h.own q x fd hp hfd) hforeign
      exact h.same hfits hp hforgot.symm fun fd hfd => nomatch hfd
  | @released _ x fd hp hfd hpid =>
      apply h.keep hfits
      · intro y hy
        rw [← Option.some.inj hy]
      · intro fd' d href hkept hlocked
        obtain ⟨y, hy, hyfd⟩ := h.holders _ href hlocked
        obtain rfl := Option.some.inj (hp.symm.trans hy)
        have hsame : fd' = fd := Option.some.inj (hyfd.symm.trans hfd)
        simp [hsame] at hkept

theorem direct_of_reach (hr : Reach platform (fun a => ∀ p child, a ≠ .fork p child) {} s) :
    Guarded platform s ∧ Direct s := by
  induction hr with
  | start =>
      refine ⟨guarded_empty, ?_⟩
      constructor
      · exact fun p x fd hx => nomatch hx
      · exact fun r hr => absurd hr List.not_mem_nil
      · exact fun r hr => absurd hr List.not_mem_nil
  | step _ ha hs ih => exact ⟨ih.1.step hs, ih.2.step ih.1 ha hs⟩

/-- Where processes are spawned and not forked, and the file system answers `flock`, the lock of the
file that a call has opened is refused if and only if a process holds it at that moment. A file
system without `flock` refuses every call. -/
theorem refused_only_while_held
    (hr : Reach platform (fun a => ∀ p child, a ≠ .fork p child) {} s) {x : Process}
    {path : PyStr} {fd : ℕ} (hp : s.processes p = some x) (hstage : x.stage = .locking path fd)
    (hs : s.step platform (.flock p true) = some s') :
    HasLock s' p (platform.inode p.container path) ↔
      ∀ q, ¬HasLock s q (platform.inode p.container path) := by
  obtain ⟨hg, hdirect⟩ := direct_of_reach hr
  obtain ⟨d, hopened⟩ := hg.opened p x path fd hp hstage
  have hlookup := (lookup_eq_some hg.sound).mpr hopened.reference
  obtain ⟨_, process, kernel, hmoves, rfl⟩ := step_moves hs
  cases hmoves with
  | @granted _ y path' fd' d' _ hp' hstage' hd hflock =>
      obtain rfl := Option.some.inj (hp.symm.trans hp')
      injection hstage.symm.trans hstage' with _ hfd
      obtain ⟨hreferences, _, hlocks⟩ := flock_spec hflock
      rw [← hfd] at hd ⊢
      obtain rfl := Option.some.inj (hlookup.symm.trans hd)
      constructor
      · intro _ q hq
        obtain ⟨_, e, _, _, he, hfile⟩ := hq
        have hsame := flock_eq_some.mp ⟨_, hflock⟩ e he (hfile.trans hopened.file.symm)
        rw [hsame] at he
        exact hopened.unlocked he
      · intro _
        refine ⟨_, d, ⟨set_self, fd, rfl, ?_⟩, rfl, (hlocks d).mpr (Or.inl rfl), hopened.file⟩
        rw [set_kernel, hreferences]
        exact hopened.reference
  | @refused _ y path' fd' _ hp' hstage' hcontended =>
      obtain rfl := Option.some.inj (hp.symm.trans hp')
      injection hstage.symm.trans hstage' with _ hfd
      have hforgot := hg.calm p x hp
      rw [hstage] at hforgot
      rw [← hfd] at hcontended
      have hnone := hcontended rfl d hlookup
      constructor
      · intro hlock
        obtain ⟨z, e, hk, _⟩ := hlock
        obtain ⟨hz, fd'', hfd'', _⟩ := knows_self hk
        rw [← Option.some.inj hz] at hfd''
        cases hforgot.symm.trans hfd''
      · intro hfree
        have hgranted : ∃ kernel, s.kernel.flock d = some kernel := by
          apply flock_eq_some.mpr
          intro e he hfile
          obtain ⟨r, hr, hre⟩ := hg.sound.held e he
          obtain ⟨z, hz, hzfd⟩ := hdirect.holders r hr (hre ▸ he)
          have hlock : HasLock s r.process (platform.inode p.container path) := by
            refine ⟨z, e, ⟨hz, r.fd, hzfd, ?_⟩, hdirect.own _ z _ hz hzfd, he,
              hfile.trans hopened.file⟩
            rw [← hre]
            exact hr
          exact absurd hlock (hfree r.process)
        obtain ⟨kernel, hkernel⟩ := hgranted
        rw [hkernel] at hnone
        cases hnone

/-- The holder has died, and the next worker takes the lock. -/
theorem refused_only_while_held_restart : ∃ s s' : System PyStr,
    s.processes ⟨0, 1⟩ = none ∧ s.step oneIsland (.flock ⟨1, 1⟩ true) = some s' ∧
      (HasLock s' ⟨1, 1⟩ islandLock ↔ ∀ q, ¬HasLock s q islandLock) := by
  have hrun : ((({} : System PyStr).play oneIsland (boots ⟨0, 1⟩ ++ [.exit ⟨0, 1⟩] ++
      (boots ⟨1, 1⟩).take 3)).bind fun s => s.step oneIsland (.flock ⟨1, 1⟩ true)).isSome =
        true := by decide
  have hstage : (({} : System PyStr).play oneIsland (boots ⟨0, 1⟩ ++ [.exit ⟨0, 1⟩] ++
      (boots ⟨1, 1⟩).take 3)).map (fun s => (s.processes ⟨0, 1⟩, s.processes ⟨1, 1⟩)) =
        some (none, some ⟨none, none, .locking islandLock 3⟩) := by decide
  obtain ⟨s', hs'⟩ := Option.isSome_iff_exists.mp hrun
  obtain ⟨s, hs, hstep⟩ := Option.bind_eq_some_iff.mp hs'
  rw [hs] at hstage
  obtain ⟨hgone, hlocking⟩ := Prod.mk.inj (Option.some.inj hstage)
  refine ⟨s, s', hgone, hstep, refused_only_while_held ?_ hlocking rfl hstep⟩
  apply reach_of_play hs
  intro a ha p child heq
  rw [heq] at ha
  simp [boots] at ha

end AikoIsland.OneWorker
