import AikoIsland.Flock
import AikoIsland.OpenOnly
import AikoIsland.Reactions

/-!
# One serving worker

The lock by which a booting gateway process makes sure that it serves alone: an
exclusive lock on a file beside the database, held through a descriptor that the module
remembers together with the pid of the process that opened it.

The processes of any number of containers on one host boot, fork, die and make their
system calls in any order. A pid is free again when its process is gone, and processes
of different containers may have the same one; a child lives in the container of its
parent. Nothing else closes the descriptor of the lock, and the lock file is never
deleted, so a path leads to one file.

`Moves` says once what a step can do, and `Guarded` what every step keeps: what the
globals point to is locked, and processes whose globals point to one description have
the same pid in them.
-/
namespace AikoIsland.WorkerGuard
open Tables OpenOnly Flock

/-! ## The code -/

def truthy : List PyStr := [codes "1", codes "true", codes "yes", codes "on"]

/-- `_multiworker_allowed`, with what `str.lower` does. -/
def multiworkerAllowed (lower : PyStr → PyStr) (value : Option PyStr) : Bool :=
  lower (Reactions.strip (value.getD [])) ∈ truthy

def lockFilename : PyStr := codes ".aiko-worker.lock"

/-- `Path.parent` of an absolute path. -/
def parent (path : PyStr) : PyStr :=
  let dir := (path.rdropWhile fun c => c ≠ slash).dropLast
  if dir = [] then [slash] else dir

def joined (dir name : PyStr) : PyStr :=
  if dir = [slash] then slash :: name else dir ++ slash :: name

/-- What a call reads of its environment and its settings. -/
structure Environment where
  allowMultiworker : Option PyStr
  workerLock : Option PyStr
  dbUrl : Url

/-- The driver of the database URLs and the file system as each container sees them, and
`str.lower`. Two containers may see one file under two paths, and two files under one. -/
structure Platform (F ι : Type) where
  driver : ℕ → Driver F
  isDir : ℕ → PyStr → Bool
  inode : ℕ → PyStr → ι
  lower : PyStr → PyStr

/-- A process: its container, and its pid there. -/
structure ProcessId where
  container : ℕ
  pid : ℕ
  deriving DecidableEq, Repr

section
variable {F ι : Type} (platform : Platform F ι)

/-- `_lock_path`; the outer `none` is an exception. -/
def lockPath (container : ℕ) (env : Environment) : Option (Option PyStr) :=
  if env.workerLock.getD [] ≠ [] then some env.workerLock
  else (sqliteFile (platform.driver container) env.dbUrl).map fun db => db.bind fun db =>
    if platform.isDir container (parent db) then some (joined (parent db) lockFilename) else none

/-- Where a process stands in `acquire_single_worker_lock`; serving after it has returned. -/
inductive Stage where
  | idle
  | opening (path : PyStr)
  | locking (path : PyStr) (fd : ℕ)
  | refusing (fd : ℕ)
  | serving (alone : Bool)
  deriving DecidableEq

/-- The globals of the module, and where the process stands. -/
structure Process where
  lockFd : Option ℕ := none
  lockPid : Option ℕ := none
  stage : Stage := .idle
  deriving DecidableEq

/-- A call up to its first system call: it returns, raises or goes to open the file. -/
def acquire (self : ProcessId) (env : Environment) (process : Process) : Process :=
  if multiworkerAllowed platform.lower env.allowMultiworker then
    { process with stage := .serving false }
  else if process.lockFd.isSome && process.lockPid = some self.pid then
    { process with stage := .serving true }
  else
    match lockPath platform self.container env with
    | some (some path) => { stage := .opening path }
    | _ => {}

/-! ## The processes and the kernel -/

structure System (ι : Type) where
  kernel : Kernel ProcessId ι := {}
  processes : ProcessId → Option Process := fun _ => none

inductive Action where
  | boot (p : ProcessId)
  | fork (p child : ProcessId)
  | exit (p : ProcessId)
  | acquire (p : ProcessId) (env : Environment)
  | open (p : ProcessId) (fd : Option ℕ)
  | flock (p : ProcessId) (supported : Bool)
  | close (p : ProcessId)
  | release (p : ProcessId)

/-- No call of the guard is going on. -/
def Stage.outside : Stage → Bool
  | .idle => true
  | .serving _ => true
  | _ => false

variable [DecidableEq ι]

def System.set (s : System ι) (p : ProcessId) (process : Option Process)
    (kernel : Kernel ProcessId ι) : System ι :=
  ⟨kernel, Function.update s.processes p process⟩

/-- `flock` on the descriptor that the call has opened; `supported` unless the file system
answers with another error. -/
def System.flocked (s : System ι) (p : ProcessId) (process : Process) (fd : ℕ) (supported : Bool) :
    System ι :=
  match (s.kernel.lookup p fd).bind fun d => if supported then s.kernel.flock d else none with
  | some kernel => s.set p (some ⟨some fd, some p.pid, .serving true⟩) kernel
  | none => s.set p (some { process with stage := .refusing fd }) s.kernel

/-- `release_single_worker_lock`. -/
def System.released (s : System ι) (p : ProcessId) (process : Process) : System ι :=
  match process.lockFd with
  | some fd =>
      if process.lockPid = some p.pid then s.set p (some {}) (s.kernel.close p fd)
      else s.set p (some {}) s.kernel
  | none => s.set p (some {}) s.kernel

/-- What an action does to a process that is there. -/
def System.act (s : System ι) (process : Process) : Action → Option (System ι)
  | .boot _ => none
  | .fork p child =>
      -- the child has the globals, but it serves only after a call of its own
      if child.container = p.container ∧ s.processes child = none then
        some (s.set child (some { process with stage := .idle }) (s.kernel.fork p child))
      else none
  | .exit p => some (s.set p none (s.kernel.exit p))
  | .acquire p env =>
      if process.stage.outside then
        some (s.set p (some (acquire platform p env process)) s.kernel)
      else none
  | .open p fd =>
      match process.stage, fd with
      | .opening _, none => some (s.set p (some { process with stage := .idle }) s.kernel)
      | .opening path, some fd =>
          if s.kernel.InUse p fd then none
          else some (s.set p (some { process with stage := .locking path fd })
            (s.kernel.open p fd (platform.inode p.container path)))
      | _, _ => none
  | .flock p supported =>
      match process.stage with
      | .locking _ fd => some (s.flocked p process fd supported)
      | _ => none
  | .close p =>
      match process.stage with
      | .refusing fd => some (s.set p (some { process with stage := .idle }) (s.kernel.close p fd))
      | _ => none
  | .release p => if process.stage.outside then some (s.released p process) else none

def Action.process : Action → ProcessId
  | .boot p => p
  | .fork p _ => p
  | .exit p => p
  | .acquire p _ => p
  | .open p _ => p
  | .flock p _ => p
  | .close p => p
  | .release p => p

def System.step (s : System ι) (a : Action) : Option (System ι) :=
  match s.processes a.process with
  | none =>
      match a with
      | .boot p => some (s.set p (some {}) s.kernel)
      | _ => none
  | some process => s.act platform process a

/-- Runs of actions that satisfy `P`. -/
inductive Reach (P : Action → Prop) (s : System ι) : System ι → Prop
  | start : Reach P s s
  | step {s₁ s₂ : System ι} {a : Action} (hr : Reach P s s₁) (ha : P a)
      (hs : s₁.step platform a = some s₂) : Reach P s s₂

/-- The system after these actions. -/
def System.play (s : System ι) : List Action → Option (System ι)
  | [] => some s
  | a :: as => (s.step platform a).bind fun s' => s'.play as

end

/-! ## What every run keeps -/

section
variable {F ι : Type}

/-- The description that the globals of the process point to. -/
def Knows (s : System ι) (p : ProcessId) (process : Process) (d : Description ι) : Prop :=
  s.processes p = some process ∧
    ∃ fd, process.lockFd = some fd ∧ ⟨p, fd, d⟩ ∈ s.kernel.references

/-- The process has opened the lock file and goes to lock it. -/
def Locking (s : System ι) (p : ProcessId) (d : Description ι) : Prop :=
  ∃ process path fd, s.processes p = some process ∧ process.stage = .locking path fd ∧
    ⟨p, fd, d⟩ ∈ s.kernel.references

/-- What the globals are at each stage. -/
def Stage.Calm (p : ProcessId) (process : Process) : Stage → Prop
  | .idle => True
  | .serving alone => alone = true → process.lockPid = some p.pid ∧ process.lockFd.isSome
  | _ => process.lockFd = none

variable (platform : Platform F ι)

/-- The description of a process about to lock is its own, new and unlocked. -/
structure Opened (s : System ι) (p : ProcessId) (path : PyStr) (fd : ℕ) (d : Description ι) :
    Prop where
  reference : ⟨p, fd, d⟩ ∈ s.kernel.references
  file : d.file = platform.inode p.container path
  unlocked : d ∉ s.kernel.locks
  unknown : ∀ q process, ¬Knows s q process d
  own : ∀ q, Locking s q d → q = p

structure Guarded (s : System ι) : Prop where
  sound : Sound s.kernel
  alive : ∀ r ∈ s.kernel.references, s.processes r.process ≠ none
  calm : ∀ p process, s.processes p = some process → process.stage.Calm p process
  held : ∀ p process fd, s.processes p = some process → process.lockFd = some fd →
    ∃ d ∈ s.kernel.locks, ⟨p, fd, d⟩ ∈ s.kernel.references
  agree : ∀ p q process process' d, Knows s p process d → Knows s q process' d →
    p.container = q.container ∧ process.lockPid = process'.lockPid
  opened : ∀ p process path fd, s.processes p = some process →
    process.stage = .locking path fd → ∃ d, Opened platform s p path fd d

/-- What changes when one process moves. -/
structure Fits (s : System ι) (p : ProcessId) (process : Option Process)
    (kernel : Kernel ProcessId ι) : Prop where
  sound : Sound kernel
  others : ∀ r, r.process ≠ p → (r ∈ kernel.references ↔ r ∈ s.kernel.references)
  gone : process = none → ∀ r ∈ kernel.references, r.process ≠ p
  locks : ∀ d ∈ s.kernel.locks, (∃ r ∈ kernel.references, r.description = d) → d ∈ kernel.locks
  taken : ∀ d ∈ kernel.locks, d ∈ s.kernel.locks ∨ Locking s p d
  calm : ∀ x, process = some x → x.stage.Calm p x
  held : ∀ x fd, process = some x → x.lockFd = some fd →
    ∃ d ∈ kernel.locks, ⟨p, fd, d⟩ ∈ kernel.references
  agree : ∀ x fd d, process = some x → x.lockFd = some fd → ⟨p, fd, d⟩ ∈ kernel.references →
    (∀ q, q ≠ p → ¬Locking s q d) ∧ ∀ q process', q ≠ p → Knows s q process' d →
      p.container = q.container ∧ x.lockPid = process'.lockPid
  opened : ∀ x path fd, process = some x → x.stage = .locking path fd →
    ∃ d, ⟨p, fd, d⟩ ∈ kernel.references ∧ d.file = platform.inode p.container path ∧
      d ∉ kernel.locks ∧ ∀ q, q ≠ p → ¬Locking s q d ∧ ∀ process', ¬Knows s q process' d

/-- What a step can do: the process that moves, and what becomes of it and of the kernel. -/
inductive Moves [DecidableEq ι] (s : System ι) :
    Action → ProcessId → Option Process → Kernel ProcessId ι → Prop
  | boot {p : ProcessId} (hp : s.processes p = none) : Moves s (.boot p) p (some {}) s.kernel
  | fork {p child : ProcessId} {x : Process} (hp : s.processes p = some x)
      (hchild : s.processes child = none) (hcontainer : child.container = p.container) :
      Moves s (.fork p child) child (some { x with stage := .idle }) (s.kernel.fork p child)
  | exit {p : ProcessId} {x : Process} (hp : s.processes p = some x) :
      Moves s (.exit p) p none (s.kernel.exit p)
  | acquire {p : ProcessId} {env : Environment} {x : Process} (hp : s.processes p = some x) :
      Moves s (.acquire p env) p (some (WorkerGuard.acquire platform p env x)) s.kernel
  | unopened {p : ProcessId} {x : Process} {path : PyStr} (hp : s.processes p = some x)
      (hstage : x.stage = .opening path) :
      Moves s (.open p none) p (some { x with stage := .idle }) s.kernel
  | opened {p : ProcessId} {x : Process} {path : PyStr} {fd : ℕ} (hp : s.processes p = some x)
      (hstage : x.stage = .opening path) (hfree : ¬s.kernel.InUse p fd) :
      Moves s (.open p (some fd)) p (some { x with stage := .locking path fd })
        (s.kernel.open p fd (platform.inode p.container path))
  | granted {p : ProcessId} {x : Process} {path : PyStr} {fd : ℕ} {d : Description ι}
      {kernel : Kernel ProcessId ι} (hp : s.processes p = some x)
      (hstage : x.stage = .locking path fd) (hd : s.kernel.lookup p fd = some d)
      (hflock : s.kernel.flock d = some kernel) :
      Moves s (.flock p true) p (some ⟨some fd, some p.pid, .serving true⟩) kernel
  | refused {p : ProcessId} {x : Process} {path : PyStr} {fd : ℕ} {supported : Bool}
      (hp : s.processes p = some x) (hstage : x.stage = .locking path fd)
      (hcontended : supported = true → ∀ d, s.kernel.lookup p fd = some d →
        s.kernel.flock d = none) :
      Moves s (.flock p supported) p (some { x with stage := .refusing fd }) s.kernel
  | closed {p : ProcessId} {x : Process} {fd : ℕ} (hp : s.processes p = some x)
      (hstage : x.stage = .refusing fd) :
      Moves s (.close p) p (some { x with stage := .idle }) (s.kernel.close p fd)
  | forgot {p : ProcessId} {x : Process} (hp : s.processes p = some x)
      (hother : x.lockFd = none ∨ x.lockPid ≠ some p.pid) :
      Moves s (.release p) p (some {}) s.kernel
  | released {p : ProcessId} {x : Process} {fd : ℕ} (hp : s.processes p = some x)
      (hfd : x.lockFd = some fd) (hpid : x.lockPid = some p.pid) :
      Moves s (.release p) p (some {}) (s.kernel.close p fd)

variable {platform} {s s' : System ι} {p q : ProcessId} {process : Option Process}
  {kernel : Kernel ProcessId ι}

@[simp] theorem set_kernel : (s.set p process kernel).kernel = kernel := rfl

@[simp] theorem set_self : (s.set p process kernel).processes p = process := by
  simp [System.set]

theorem set_other (hq : q ≠ p) : (s.set p process kernel).processes q = s.processes q := by
  simp [System.set, hq]

theorem knows_other (h : Fits platform s p process kernel) (hq : q ≠ p) {x : Process}
    {d : Description ι} (hk : Knows (s.set p process kernel) q x d) : Knows s q x d := by
  obtain ⟨hx, fd, hfd, href⟩ := hk
  refine ⟨?_, fd, hfd, (h.others _ hq).mp href⟩
  rwa [set_other hq] at hx

theorem knows_self {x : Process} {d : Description ι}
    (hk : Knows (s.set p process kernel) p x d) :
    process = some x ∧ ∃ fd, x.lockFd = some fd ∧ ⟨p, fd, d⟩ ∈ kernel.references := by
  obtain ⟨hx, fd, hfd, href⟩ := hk
  rw [set_self] at hx
  exact ⟨hx, fd, hfd, href⟩

theorem locking_other (h : Fits platform s p process kernel) (hq : q ≠ p) {d : Description ι}
    (hl : Locking (s.set p process kernel) q d) : Locking s q d := by
  obtain ⟨x, path, fd, hx, hstage, href⟩ := hl
  refine ⟨x, path, fd, ?_, hstage, (h.others _ hq).mp href⟩
  rwa [set_other hq] at hx

/-- The step lemma: a process that moves like this keeps what every run keeps. -/
theorem Guarded.set (hg : Guarded platform s) (h : Fits platform s p process kernel) :
    Guarded platform (s.set p process kernel) := by
  have hlookup : ∀ {q x}, q ≠ p → (s.set p process kernel).processes q = some x →
      s.processes q = some x := by
    intro q x hq hx
    rwa [set_other hq] at hx
  have hself : ∀ {x}, (s.set p process kernel).processes p = some x → process = some x := by
    intro x hx
    rwa [set_self] at hx
  constructor
  case sound => exact h.sound
  case alive =>
    intro r hr hnone
    by_cases hp : r.process = p
    · rw [hp, set_self] at hnone
      exact h.gone hnone r hr hp
    · rw [set_other hp] at hnone
      exact hg.alive r ((h.others r hp).mp hr) hnone
  case calm =>
    intro q x hx
    by_cases hq : q = p
    · subst hq
      exact h.calm x (hself hx)
    · exact hg.calm q x (hlookup hq hx)
  case held =>
    intro q x fd hx hfd
    by_cases hq : q = p
    · subst hq
      exact h.held x fd (hself hx) hfd
    · obtain ⟨d, hd, href⟩ := hg.held q x fd (hlookup hq hx) hfd
      have hkept := (h.others ⟨q, fd, d⟩ hq).mpr href
      exact ⟨d, h.locks d hd ⟨_, hkept, rfl⟩, hkept⟩
  case agree =>
    intro q q' x x' d hk hk'
    by_cases hq : q = p
    · subst hq
      obtain ⟨hx, fd, hfd, href⟩ := knows_self hk
      by_cases hq' : q' = q
      · subst hq'
        obtain ⟨hx', _⟩ := knows_self hk'
        rw [Option.some.inj (hx.symm.trans hx')]
        exact ⟨rfl, rfl⟩
      · exact (h.agree x fd d hx hfd href).2 q' x' hq' (knows_other h hq' hk')
    · by_cases hq' : q' = p
      · subst hq'
        obtain ⟨hx', fd, hfd, href⟩ := knows_self hk'
        have hagree := (h.agree x' fd d hx' hfd href).2 q x hq (knows_other h hq hk)
        exact ⟨hagree.1.symm, hagree.2.symm⟩
      · exact hg.agree q q' x x' d (knows_other h hq hk) (knows_other h hq' hk')
  case opened =>
    intro q x path fd hx hstage
    by_cases hq : q = p
    · subst hq
      obtain ⟨d, href, hfile, hunlocked, hothers⟩ := h.opened x path fd (hself hx) hstage
      refine ⟨d, href, hfile, hunlocked, ?_, ?_⟩
      · intro q' x' hk
        by_cases hq' : q' = q
        · subst hq'
          obtain ⟨hx', fd', hfd', href'⟩ := knows_self hk
          obtain ⟨d', hd', href''⟩ := h.held x' fd' hx' hfd'
          rw [h.sound.unique href' href''] at hunlocked
          exact hunlocked hd'
        · exact (hothers q' hq').2 x' (knows_other h hq' hk)
      · intro q' hl
        by_contra hq'
        exact (hothers q' hq').1 (locking_other h hq' hl)
    · obtain ⟨d, hd⟩ := hg.opened q x path fd (hlookup hq hx) hstage
      have hlocking : Locking s q d := ⟨x, path, fd, hlookup hq hx, hstage, hd.reference⟩
      refine ⟨d, (h.others _ hq).mpr hd.reference, hd.file, ?_, ?_, ?_⟩
      · intro hlocked
        rcases h.taken d hlocked with hold | hown
        · exact hd.unlocked hold
        · exact hq (hd.own p hown).symm
      · intro q' x' hk
        by_cases hq' : q' = p
        · subst hq'
          obtain ⟨hx', fd', hfd', href'⟩ := knows_self hk
          exact (h.agree x' fd' d hx' hfd' href').1 q hq hlocking
        · exact hd.unknown q' x' (knows_other h hq' hk)
      · intro q' hl
        by_cases hq' : q' = p
        · subst hq'
          obtain ⟨x', path', fd', hx', hstage', href'⟩ := hl
          obtain ⟨d', href'', _, _, hothers⟩ := h.opened x' path' fd' (hself hx') hstage'
          rw [h.sound.unique href'' href'] at hothers
          exact absurd hlocking (hothers q hq).1
        · exact hd.own q' (locking_other h hq' hl)

theorem Locking.opened {d : Description ι} (hg : Guarded platform s) (h : Locking s p d) :
    ∃ path fd, Opened platform s p path fd d := by
  obtain ⟨process, path, fd, hprocess, hstage, href⟩ := h
  obtain ⟨d', hd'⟩ := hg.opened p process path fd hprocess hstage
  rw [hg.sound.unique href hd'.reference]
  exact ⟨path, fd, hd'⟩

theorem Knows.not_locking {x : Process} {d : Description ι} (hg : Guarded platform s)
    (hk : Knows s p x d) : ¬Locking s q d := by
  intro hl
  obtain ⟨_, _, hopened⟩ := hl.opened hg
  exact hopened.unknown p x hk

/-- What the globals point to is locked. -/
theorem Knows.locked {x : Process} {d : Description ι} (hg : Guarded platform s)
    (hk : Knows s p x d) : d ∈ s.kernel.locks := by
  obtain ⟨hx, fd, hfd, href⟩ := hk
  obtain ⟨d', hd', href'⟩ := hg.held p x fd hx hfd
  rwa [hg.sound.unique href href']

theorem guarded_empty : Guarded platform ({} : System ι) := by
  constructor
  · exact sound_empty
  · exact fun r hr => absurd hr List.not_mem_nil
  · exact fun p x hx => nomatch hx
  · exact fun p x fd hx => nomatch hx
  · exact fun p q x x' d hk => nomatch hk.1
  · exact fun p x path fd hx => nomatch hx

theorem acquire_spec (platform : Platform F ι) (p : ProcessId) (env : Environment) (x : Process) :
    (acquire platform p env x).stage.Calm p (acquire platform p env x) ∧
      (∀ path fd, (acquire platform p env x).stage ≠ .locking path fd) ∧
      ∀ fd, (acquire platform p env x).lockFd = some fd → x.lockFd = some fd ∧
        x.lockPid = (acquire platform p env x).lockPid := by
  unfold acquire
  split_ifs with hallowed hheld
  · refine ⟨?_, ?_, fun fd hfd => ⟨hfd, rfl⟩⟩
    · exact fun h => nomatch h
    · exact fun path fd h => nomatch h
  · simp only [Bool.and_eq_true, decide_eq_true_eq] at hheld
    refine ⟨fun _ => hheld.symm, ?_, fun fd hfd => ⟨hfd, rfl⟩⟩
    exact fun path fd h => nomatch h
  · split
    · refine ⟨rfl, ?_, fun fd hfd => nomatch hfd⟩
      exact fun path fd h => nomatch h
    · refine ⟨trivial, ?_, fun fd hfd => nomatch hfd⟩
      exact fun path fd h => nomatch h

/-! ### The actions -/

/-- Only the process itself moves, and it knows no more than before. -/
theorem fits_same (hg : Guarded platform s) (x : Process) (hcalm : x.stage.Calm p x)
    (hstage : ∀ path fd, x.stage ≠ .locking path fd)
    (hknown : ∀ fd, x.lockFd = some fd → ∃ x₀, s.processes p = some x₀ ∧ x₀.lockFd = some fd ∧
      x₀.lockPid = x.lockPid) : Fits platform s p (some x) s.kernel := by
  constructor
  · exact hg.sound
  · exact fun r _ => Iff.rfl
  · exact fun h => nomatch h
  · exact fun d hd _ => hd
  · exact fun d hd => Or.inl hd
  · intro y hy
    rw [← Option.some.inj hy]
    exact hcalm
  · intro y fd hy hfd
    rw [← Option.some.inj hy] at hfd
    obtain ⟨x₀, hx₀, hfd₀, _⟩ := hknown fd hfd
    exact hg.held p x₀ fd hx₀ hfd₀
  · intro y fd d hy hfd href
    rw [← Option.some.inj hy] at hfd ⊢
    obtain ⟨x₀, hx₀, hfd₀, hpid⟩ := hknown fd hfd
    have hk : Knows s p x₀ d := ⟨hx₀, fd, hfd₀, href⟩
    constructor
    · exact fun q _ => hk.not_locking hg
    · intro q y' _ hk'
      rw [← hpid]
      exact hg.agree p q x₀ y' d hk hk'
  · intro y path fd hy hlocking
    rw [← Option.some.inj hy] at hlocking
    exact absurd hlocking (hstage path fd)

theorem fits_fork {x : Process} (hg : Guarded platform s) (hp : s.processes p = some x)
    (hq : s.processes q = none) (hcontainer : q.container = p.container) :
    Fits platform s q (some { x with stage := .idle }) (s.kernel.fork p q) := by
  have hnew : ∀ r ∈ s.kernel.references, r.process ≠ q := by
    intro r hr hrq
    apply hg.alive r hr
    rw [hrq, hq]
  have hcopied : ∀ {fd d}, ⟨q, fd, d⟩ ∈ (s.kernel.fork p q).references →
      ⟨p, fd, d⟩ ∈ s.kernel.references := by
    intro fd d href
    rcases mem_fork.mp href with hold | ⟨r, hr, hrp, heq⟩
    · exact absurd rfl (hnew _ hold)
    · obtain ⟨rp, rfd, rd⟩ := r
      injection heq with _ hfd hd
      dsimp only at hrp hfd hd
      rw [← hrp, hfd, hd]
      exact hr
  constructor
  · exact hg.sound.fork hnew
  · intro r hr
    rw [mem_fork]
    constructor
    · rintro (hold | ⟨r', _, _, rfl⟩)
      · exact hold
      · exact absurd rfl hr
    · exact Or.inl
  · exact fun h => nomatch h
  · exact fun d hd _ => hd
  · exact fun d hd => Or.inl hd
  · intro y hy
    rw [← Option.some.inj hy]
    trivial
  · intro y fd hy hfd
    rw [← Option.some.inj hy] at hfd
    obtain ⟨d, hd, href⟩ := hg.held p x fd hp hfd
    exact ⟨d, hd, mem_fork.mpr (Or.inr ⟨_, href, rfl, rfl⟩)⟩
  · intro y fd d hy hfd href
    rw [← Option.some.inj hy] at hfd ⊢
    have hk : Knows s p x d := ⟨hp, fd, hfd, hcopied href⟩
    constructor
    · exact fun q' _ => hk.not_locking hg
    · intro q' y' _ hk'
      rw [hcontainer]
      exact hg.agree p q' x y' d hk hk'
  · intro y path fd hy hstage
    rw [← Option.some.inj hy] at hstage
    cases hstage

/-- The new description is nobody else's. -/
theorem fits_open {x : Process} {path : PyStr} {fd : ℕ} (hg : Guarded platform s)
    (hforgot : x.lockFd = none) (hfree : ¬s.kernel.InUse p fd) :
    Fits platform s p (some { x with stage := .locking path fd })
      (s.kernel.open p fd (platform.inode p.container path)) := by
  have hnew : ∀ r ∈ s.kernel.references,
      r.description ≠ ⟨s.kernel.next, platform.inode p.container path⟩ := by
    intro r hr heq
    have hlt := hg.sound.numbered r hr
    rw [heq] at hlt
    exact absurd hlt (lt_irrefl _)
  constructor
  · exact hg.sound.open hfree
  · intro r hr
    rw [mem_open]
    constructor
    · rintro (hold | rfl)
      · exact hold
      · exact absurd rfl hr
    · exact Or.inl
  · exact fun h => nomatch h
  · exact fun d hd _ => hd
  · exact fun d hd => Or.inl hd
  · intro y hy
    rw [← Option.some.inj hy]
    exact hforgot
  · intro y fd' hy hfd
    rw [← Option.some.inj hy] at hfd
    rw [hforgot] at hfd
    cases hfd
  · intro y fd' d hy hfd
    rw [← Option.some.inj hy] at hfd
    rw [hforgot] at hfd
    cases hfd
  · intro y path' fd' hy hstage
    rw [← Option.some.inj hy] at hstage
    injection hstage with hpath hfd
    subst hpath hfd
    refine ⟨⟨s.kernel.next, platform.inode p.container path⟩, mem_open.mpr (Or.inr rfl), rfl,
      ?_, ?_⟩
    · intro hlocked
      obtain ⟨r, hr, hrd⟩ := hg.sound.held _ hlocked
      exact hnew r hr hrd
    · intro q _
      constructor
      · intro hl
        obtain ⟨_, _, _, _, _, href⟩ := hl
        exact hnew _ href rfl
      · intro process' hk
        obtain ⟨_, _, _, href⟩ := hk
        exact hnew _ href rfl

variable [DecidableEq ι]

/-- A process that forgets the lock closes one of its descriptors, or none. -/
theorem fits_keep (hg : Guarded platform s) (x : Option Process)
    {kept : Reference ProcessId ι → Bool}
    (hkept : ∀ r, r.process ≠ p → kept r = true)
    (hgone : x = none → ∀ r ∈ s.kernel.references, kept r = true → r.process ≠ p)
    (hidle : ∀ y, x = some y → y.lockFd = none ∧ y.stage = .idle) :
    Fits platform s p x (s.kernel.keep kept) := by
  constructor
  · exact hg.sound.keep kept
  · intro r hr
    rw [mem_keep]
    exact and_iff_left (hkept r hr)
  · intro hx r hr
    obtain ⟨hmem, hk⟩ := mem_keep.mp hr
    exact hgone hx r hmem hk
  · intro d hd href
    obtain ⟨r, hr, hrd⟩ := href
    obtain ⟨hmem, hk⟩ := mem_keep.mp hr
    exact mem_keep_locks.mpr ⟨hd, r, hmem, hk, hrd⟩
  · intro d hd
    exact Or.inl (mem_keep_locks.mp hd).1
  · intro y hy
    rw [(hidle y hy).2]
    trivial
  · intro y fd hy hfd
    rw [(hidle y hy).1] at hfd
    cases hfd
  · intro y fd d hy hfd
    rw [(hidle y hy).1] at hfd
    cases hfd
  · intro y path fd hy hstage
    rw [(hidle y hy).2] at hstage
    cases hstage

/-- The lock is granted on a description that nobody else knows. -/
theorem fits_granted {x : Process} {path : PyStr} {fd : ℕ} {d : Description ι}
    (hg : Guarded platform s) (hp : s.processes p = some x) (hstage : x.stage = .locking path fd)
    (href : ⟨p, fd, d⟩ ∈ s.kernel.references) (hflock : s.kernel.flock d = some kernel) :
    Fits platform s p (some ⟨some fd, some p.pid, .serving true⟩) kernel := by
  obtain ⟨hreferences, _, hlocks⟩ := flock_spec hflock
  have hlocking : Locking s p d := ⟨x, path, fd, hp, hstage, href⟩
  obtain ⟨_, _, hopened⟩ := hlocking.opened hg
  constructor
  · exact hg.sound.flock ⟨_, href, rfl⟩ hflock
  · intro r _
    rw [hreferences]
  · exact fun h => nomatch h
  · exact fun d' hd' _ => (hlocks d').mpr (Or.inr hd')
  · intro d' hd'
    rcases (hlocks d').mp hd' with rfl | hold
    · exact Or.inr hlocking
    · exact Or.inl hold
  · intro y hy
    rw [← Option.some.inj hy]
    exact fun _ => ⟨rfl, rfl⟩
  · intro y fd' hy hfd
    rw [← Option.some.inj hy] at hfd
    obtain rfl := Option.some.inj hfd
    rw [hreferences]
    exact ⟨d, (hlocks d).mpr (Or.inl rfl), href⟩
  · intro y fd' d' hy hfd href'
    rw [← Option.some.inj hy] at hfd
    obtain rfl := Option.some.inj hfd
    rw [hreferences] at href'
    rw [hg.sound.unique href' href]
    constructor
    · exact fun q hq hl => hq (hopened.own q hl)
    · exact fun q y' _ hk => absurd hk (hopened.unknown q y')
  · intro y path' fd' hy hstage'
    rw [← Option.some.inj hy] at hstage'
    cases hstage'

theorem moves_flocked {x : Process} {path : PyStr} {fd : ℕ} {supported : Bool}
    (hp : s.processes p = some x) (hstage : x.stage = .locking path fd) :
    ∃ process kernel, Moves platform s (.flock p supported) p process kernel ∧
      s.flocked p x fd supported = s.set p process kernel := by
  unfold System.flocked
  cases hlock : (s.kernel.lookup p fd).bind
      fun d => if supported then s.kernel.flock d else none with
  | none =>
      refine ⟨_, _, .refused hp hstage ?_, rfl⟩
      intro hsupported d hd
      rw [hsupported, hd] at hlock
      exact hlock
  | some kernel =>
      obtain ⟨d, hd, hgranted⟩ := Option.bind_eq_some_iff.mp hlock
      cases supported with
      | false => cases hgranted
      | true => exact ⟨_, _, .granted hp hstage hd hgranted, rfl⟩

theorem moves_released {x : Process} (hp : s.processes p = some x) :
    ∃ process kernel, Moves platform s (.release p) p process kernel ∧
      s.released p x = s.set p process kernel := by
  unfold System.released
  cases hfd : x.lockFd with
  | none => exact ⟨_, _, .forgot hp (Or.inl hfd), rfl⟩
  | some fd =>
      dsimp only
      split_ifs with hpid
      · exact ⟨_, _, .released hp hfd hpid, rfl⟩
      · exact ⟨_, _, .forgot hp (Or.inr hpid), rfl⟩

theorem act_moves {x : Process} {a : Action} (hp : s.processes a.process = some x)
    (hs : s.act platform x a = some s') :
    ∃ p process kernel, Moves platform s a p process kernel ∧ s' = s.set p process kernel := by
  cases a with
  | boot p => cases hs
  | fork p child =>
      simp only [System.act] at hs
      split_ifs at hs with hchild
      exact ⟨_, _, _, .fork hp hchild.2 hchild.1, (Option.some.inj hs).symm⟩
  | exit p => exact ⟨_, _, _, .exit hp, (Option.some.inj hs).symm⟩
  | acquire p env =>
      simp only [System.act] at hs
      split_ifs at hs
      exact ⟨_, _, _, .acquire hp, (Option.some.inj hs).symm⟩
  | «open» p fd =>
      simp only [System.act] at hs
      cases hstage : x.stage with
      | opening path =>
          rw [hstage] at hs
          cases fd with
          | none => exact ⟨_, _, _, .unopened hp hstage, (Option.some.inj hs).symm⟩
          | some fd =>
              dsimp only at hs
              split_ifs at hs with hused
              exact ⟨_, _, _, .opened hp hstage hused, (Option.some.inj hs).symm⟩
      | _ => rw [hstage] at hs; cases hs
  | flock p supported =>
      simp only [System.act] at hs
      cases hstage : x.stage with
      | locking path fd =>
          rw [hstage] at hs
          obtain ⟨process, kernel, hmoves, hset⟩ := moves_flocked hp hstage
          exact ⟨_, _, _, hmoves, (Option.some.inj hs).symm.trans hset⟩
      | _ => rw [hstage] at hs; cases hs
  | close p =>
      simp only [System.act] at hs
      cases hstage : x.stage with
      | refusing fd =>
          rw [hstage] at hs
          exact ⟨_, _, _, .closed hp hstage, (Option.some.inj hs).symm⟩
      | _ => rw [hstage] at hs; cases hs
  | release p =>
      simp only [System.act] at hs
      split_ifs at hs
      obtain ⟨process, kernel, hmoves, hset⟩ := moves_released hp
      exact ⟨_, _, _, hmoves, (Option.some.inj hs).symm.trans hset⟩

theorem step_moves {a : Action} (hs : s.step platform a = some s') :
    ∃ p process kernel, Moves platform s a p process kernel ∧ s' = s.set p process kernel := by
  unfold System.step at hs
  cases hp : s.processes a.process with
  | some x =>
      rw [hp] at hs
      exact act_moves hp hs
  | none =>
      rw [hp] at hs
      cases a with
      | boot p => exact ⟨_, _, _, .boot hp, (Option.some.inj hs).symm⟩
      | _ => cases hs

theorem Moves.fits {a : Action} (hm : Moves platform s a p process kernel)
    (hg : Guarded platform s) : Fits platform s p process kernel := by
  have hforget : ∀ {x : Process}, x.lockFd = none → x.stage = .idle →
      ∀ y, some x = some y → y.lockFd = none ∧ y.stage = .idle := by
    intro x hfd hstage y hy
    rw [← Option.some.inj hy]
    exact ⟨hfd, hstage⟩
  cases hm with
  | boot hp =>
      apply fits_same hg
      · trivial
      · exact fun path fd h => nomatch h
      · exact fun fd hfd => nomatch hfd
  | fork hp hchild hcontainer => exact fits_fork hg hp hchild hcontainer
  | exit hp =>
      apply fits_keep hg
      · exact fun r hr => by simpa using hr
      · exact fun _ r _ hr => by simpa using hr
      · exact fun y hy => nomatch hy
  | @acquire _ env x hp =>
      obtain ⟨hcalm, hstage, hknown⟩ := acquire_spec platform p env x
      apply fits_same hg _ hcalm hstage
      intro fd hfd
      obtain ⟨hsame, hpid⟩ := hknown fd hfd
      exact ⟨x, hp, hsame, hpid⟩
  | @unopened _ x path hp hstage =>
      apply fits_same hg
      · trivial
      · exact fun path' fd' h => nomatch h
      · exact fun fd' hfd => ⟨x, hp, hfd, rfl⟩
  | @opened _ x path fd hp hstage hfree =>
      have hcalm := hg.calm p x hp
      rw [hstage] at hcalm
      exact fits_open hg hcalm hfree
  | granted hp hstage hd hflock =>
      exact fits_granted hg hp hstage ((lookup_eq_some hg.sound).mp hd) hflock
  | @refused _ x path fd supported hp hstage _ =>
      have hcalm : x.lockFd = none := by
        have := hg.calm p x hp
        rwa [hstage] at this
      apply fits_same hg
      · exact hcalm
      · exact fun path' fd' h => nomatch h
      · exact fun fd' hfd => ⟨x, hp, hfd, rfl⟩
  | @closed _ x fd hp hstage =>
      have hcalm : x.lockFd = none := by
        have := hg.calm p x hp
        rwa [hstage] at this
      apply fits_keep hg
      · intro r hr
        simp [hr]
      · exact fun h => nomatch h
      · exact hforget hcalm rfl
  | forgot hp _ =>
      apply fits_same hg
      · trivial
      · exact fun path fd h => nomatch h
      · exact fun fd hfd => nomatch hfd
  | released hp hfd hpid =>
      apply fits_keep hg
      · intro r hr
        simp [hr]
      · exact fun h => nomatch h
      · exact hforget rfl rfl

theorem Guarded.step {a : Action} (hg : Guarded platform s) (hs : s.step platform a = some s') :
    Guarded platform s' := by
  obtain ⟨p, process, kernel, hmoves, rfl⟩ := step_moves hs
  exact hg.set (hmoves.fits hg)

variable {P : Action → Prop}

/-- The run lemma. -/
theorem Reach.guarded (hr : Reach platform P s s') (hg : Guarded platform s) :
    Guarded platform s' := by
  induction hr with
  | start => exact hg
  | step _ _ hs ih => exact ih.step hs

end

end AikoIsland.WorkerGuard
