import Mathlib.Tactic

/-!
# Advisory locks on open file descriptions

Descriptors of processes refer to open file descriptions. A fork shares the
descriptions of its parent; a description ends with its last descriptor, and the
exclusive lock that it may have on its file ends with it. The death of a process closes
its descriptors.

`Sound` says what the kernel keeps: one description a descriptor, one lock a file, and no
lock without a descriptor behind it.
-/
namespace AikoIsland.Flock

variable {π ι : Type}

/-- An open file description. -/
structure Description (ι : Type) where
  serial : ℕ
  file : ι
  deriving DecidableEq, Repr

/-- A descriptor of a process. -/
structure Reference (π ι : Type) where
  process : π
  fd : ℕ
  description : Description ι
  deriving DecidableEq, Repr

structure Kernel (π ι : Type) where
  references : List (Reference π ι) := []
  locks : List (Description ι) := []
  next : ℕ := 0

def Kernel.InUse (k : Kernel π ι) (p : π) (fd : ℕ) : Prop :=
  ∃ r ∈ k.references, r.process = p ∧ r.fd = fd

structure Sound (k : Kernel π ι) : Prop where
  functional : ∀ r ∈ k.references, ∀ r' ∈ k.references, r.process = r'.process → r.fd = r'.fd →
    r = r'
  numbered : ∀ r ∈ k.references, r.description.serial < k.next
  alone : ∀ d ∈ k.locks, ∀ d' ∈ k.locks, d.file = d'.file → d = d'
  held : ∀ d ∈ k.locks, ∃ r ∈ k.references, r.description = d

theorem sound_empty : Sound ({} : Kernel π ι) := by
  constructor <;> simp

def Kernel.open (k : Kernel π ι) (p : π) (fd : ℕ) (file : ι) : Kernel π ι :=
  { k with references := k.references ++ [⟨p, fd, ⟨k.next, file⟩⟩], next := k.next + 1 }

section
variable [DecidableEq π]

instance (k : Kernel π ι) (p : π) (fd : ℕ) : Decidable (k.InUse p fd) :=
  inferInstanceAs (Decidable (∃ r ∈ k.references, r.process = p ∧ r.fd = fd))

def Kernel.lookup (k : Kernel π ι) (p : π) (fd : ℕ) : Option (Description ι) :=
  (k.references.find? fun r => r.process = p && r.fd = fd).map (·.description)

/-- The child has the descriptors of its parent. -/
def Kernel.fork (k : Kernel π ι) (p q : π) : Kernel π ι :=
  { k with references := k.references ++
      (k.references.filter fun r => r.process = p).map fun r => { r with process := q } }

end

section
variable [DecidableEq ι]

/-- Only these descriptors are left, and the locks of the descriptions that they refer to. -/
def Kernel.keep (k : Kernel π ι) (kept : Reference π ι → Bool) : Kernel π ι where
  references := k.references.filter kept
  locks := k.locks.filter fun d => (k.references.filter kept).any fun r => r.description = d
  next := k.next

def Kernel.close [DecidableEq π] (k : Kernel π ι) (p : π) (fd : ℕ) : Kernel π ι :=
  k.keep fun r => !(r.process = p && r.fd = fd)

def Kernel.exit [DecidableEq π] (k : Kernel π ι) (p : π) : Kernel π ι :=
  k.keep fun r => r.process ≠ p

/-- `LOCK_EX | LOCK_NB`; `none` where another description has the lock of the file. -/
def Kernel.flock (k : Kernel π ι) (d : Description ι) : Option (Kernel π ι) :=
  if k.locks.any fun d' => d'.file = d.file && d' ≠ d then none
  else if d ∈ k.locks then some k
  else some { k with locks := d :: k.locks }

end

section
variable {k k' : Kernel π ι} {p q : π} {fd : ℕ} {file : ι} {d : Description ι}
  {r : Reference π ι} {kept : Reference π ι → Bool}

/-! ## Looking up -/

theorem lookup_eq_some [DecidableEq π] (h : Sound k) :
    k.lookup p fd = some d ↔ ⟨p, fd, d⟩ ∈ k.references := by
  unfold Kernel.lookup
  rw [Option.map_eq_some_iff]
  constructor
  · intro hfound
    obtain ⟨r, hr, rfl⟩ := hfound
    have hmem := List.mem_of_find?_eq_some hr
    have hwhere := List.find?_some hr
    simp only [Bool.and_eq_true, decide_eq_true_eq] at hwhere
    obtain ⟨rfl, rfl⟩ := hwhere
    exact hmem
  · intro hmem
    cases hfind : k.references.find? fun r => r.process = p && r.fd = fd with
    | none =>
        have hno := List.find?_eq_none.mp hfind ⟨p, fd, d⟩ hmem
        simp at hno
    | some r =>
        have hr := List.mem_of_find?_eq_some hfind
        have hwhere := List.find?_some hfind
        simp only [Bool.and_eq_true, decide_eq_true_eq] at hwhere
        have heq := h.functional r hr ⟨p, fd, d⟩ hmem hwhere.1 hwhere.2
        exact ⟨r, rfl, by rw [heq]⟩

/-- One description a descriptor. -/
theorem Sound.unique (h : Sound k) {d' : Description ι} (hd : ⟨p, fd, d⟩ ∈ k.references)
    (hd' : ⟨p, fd, d'⟩ ∈ k.references) : d = d' := by
  have heq := h.functional _ hd _ hd' rfl rfl
  injection heq

/-! ## What each call keeps -/

theorem mem_open : r ∈ (k.open p fd file).references ↔
    r ∈ k.references ∨ r = ⟨p, fd, ⟨k.next, file⟩⟩ := by
  simp [Kernel.open]

theorem mem_fork [DecidableEq π] : r ∈ (k.fork p q).references ↔
    r ∈ k.references ∨ ∃ r' ∈ k.references, r'.process = p ∧ r = { r' with process := q } := by
  simp only [Kernel.fork, List.mem_append, List.mem_map, List.mem_filter, decide_eq_true_eq]
  constructor
  · rintro (hold | ⟨r', ⟨hmem, hp⟩, rfl⟩)
    · exact Or.inl hold
    · exact Or.inr ⟨r', hmem, hp, rfl⟩
  · rintro (hold | ⟨r', hmem, hp, rfl⟩)
    · exact Or.inl hold
    · exact Or.inr ⟨r', ⟨hmem, hp⟩, rfl⟩

theorem mem_keep [DecidableEq ι] :
    r ∈ (k.keep kept).references ↔ r ∈ k.references ∧ kept r = true :=
  List.mem_filter

theorem mem_keep_locks [DecidableEq ι] : d ∈ (k.keep kept).locks ↔
    d ∈ k.locks ∧ ∃ r ∈ k.references, kept r = true ∧ r.description = d := by
  simp only [Kernel.keep, List.mem_filter, List.any_eq_true, decide_eq_true_eq]
  constructor
  · intro h
    obtain ⟨hd, r, ⟨hr, hkept⟩, rfl⟩ := h
    exact ⟨hd, r, hr, hkept, rfl⟩
  · intro h
    obtain ⟨hd, r, hr, hkept, rfl⟩ := h
    exact ⟨hd, r, ⟨hr, hkept⟩, rfl⟩

theorem mem_close [DecidableEq π] [DecidableEq ι] : r ∈ (k.close p fd).references ↔
    r ∈ k.references ∧ ¬(r.process = p ∧ r.fd = fd) := by
  rw [Kernel.close, mem_keep]
  simp only [Bool.not_eq_true', Bool.and_eq_false_iff, decide_eq_false_iff_not, not_and_or]

theorem mem_exit [DecidableEq π] [DecidableEq ι] :
    r ∈ (k.exit p).references ↔ r ∈ k.references ∧ r.process ≠ p := by
  rw [Kernel.exit, mem_keep]
  simp

theorem Sound.open (h : Sound k) (hfree : ¬k.InUse p fd) : Sound (k.open p fd file) := by
  constructor
  · intro r hr r' hr' hprocess hfd
    rcases mem_open.mp hr with hold | rfl
    · rcases mem_open.mp hr' with hold' | rfl
      · exact h.functional r hold r' hold' hprocess hfd
      · exact absurd ⟨r, hold, hprocess, hfd⟩ hfree
    · rcases mem_open.mp hr' with hold' | rfl
      · exact absurd ⟨r', hold', hprocess.symm, hfd.symm⟩ hfree
      · rfl
  · intro r hr
    rcases mem_open.mp hr with hold | rfl
    · exact Nat.lt_succ_of_lt (h.numbered r hold)
    · exact Nat.lt_succ_self k.next
  · exact h.alone
  · intro d hd
    obtain ⟨r, hr, hrd⟩ := h.held d hd
    exact ⟨r, mem_open.mpr (Or.inl hr), hrd⟩

theorem Sound.fork [DecidableEq π] (h : Sound k) (hnew : ∀ r ∈ k.references, r.process ≠ q) :
    Sound (k.fork p q) := by
  constructor
  · intro r hr r' hr' hprocess hfd
    rcases mem_fork.mp hr with hold | ⟨s, hs, hsp, rfl⟩
    · rcases mem_fork.mp hr' with hold' | ⟨s', hs', hsp', rfl⟩
      · exact h.functional r hold r' hold' hprocess hfd
      · exact absurd hprocess (hnew r hold)
    · rcases mem_fork.mp hr' with hold' | ⟨s', hs', hsp', rfl⟩
      · exact absurd hprocess.symm (hnew r' hold')
      · rw [h.functional s hs s' hs' (hsp.trans hsp'.symm) hfd]
  · intro r hr
    rcases mem_fork.mp hr with hold | ⟨s, hs, _, rfl⟩
    · exact h.numbered r hold
    · exact h.numbered s hs
  · exact h.alone
  · intro d hd
    obtain ⟨r, hr, hrd⟩ := h.held d hd
    exact ⟨r, mem_fork.mpr (Or.inl hr), hrd⟩

theorem Sound.keep [DecidableEq ι] (h : Sound k) (kept : Reference π ι → Bool) :
    Sound (k.keep kept) := by
  constructor
  · intro r hr r' hr'
    exact h.functional r (mem_keep.mp hr).1 r' (mem_keep.mp hr').1
  · intro r hr
    exact h.numbered r (mem_keep.mp hr).1
  · intro d hd d' hd'
    exact h.alone d (mem_keep_locks.mp hd).1 d' (mem_keep_locks.mp hd').1
  · intro d hd
    obtain ⟨_, r, hr, hkept, hrd⟩ := mem_keep_locks.mp hd
    exact ⟨r, mem_keep.mpr ⟨hr, hkept⟩, hrd⟩

/-- The lock is granted if and only if no other description has it. -/
theorem flock_eq_some [DecidableEq ι] : (∃ k', k.flock d = some k') ↔
    ∀ d' ∈ k.locks, d'.file = d.file → d' = d := by
  have hcontended : (k.locks.any fun d' => d'.file = d.file && d' ≠ d) = false ↔
      ∀ d' ∈ k.locks, d'.file = d.file → d' = d := by
    simp
  unfold Kernel.flock
  rw [← hcontended]
  cases k.locks.any fun d' => d'.file = d.file && d' ≠ d with
  | true => simp
  | false => split_ifs <;> simp_all

/-- The descriptors stay, and the lock is one more. -/
theorem flock_spec [DecidableEq ι] (h : k.flock d = some k') :
    k'.references = k.references ∧ k'.next = k.next ∧
      ∀ d', d' ∈ k'.locks ↔ d' = d ∨ d' ∈ k.locks := by
  unfold Kernel.flock at h
  split_ifs at h with hcontended hheld
  · obtain rfl := Option.some.inj h
    refine ⟨rfl, rfl, fun d' => ⟨Or.inr, ?_⟩⟩
    rintro (rfl | hd)
    · exact hheld
    · exact hd
  · obtain rfl := Option.some.inj h
    exact ⟨rfl, rfl, fun d' => List.mem_cons⟩

theorem Sound.flock [DecidableEq ι] (h : Sound k) (href : ∃ r ∈ k.references, r.description = d)
    (hlock : k.flock d = some k') : Sound k' := by
  obtain ⟨hreferences, hnext, hlocks⟩ := flock_spec hlock
  have hfree := flock_eq_some.mp ⟨k', hlock⟩
  constructor
  · rw [hreferences]
    exact h.functional
  · rw [hreferences, hnext]
    exact h.numbered
  · intro e he e' he' hfile
    rcases (hlocks e).mp he with rfl | hold
    · rcases (hlocks e').mp he' with rfl | hold'
      · rfl
      · exact (hfree e' hold' hfile.symm).symm
    · rcases (hlocks e').mp he' with rfl | hold'
      · exact hfree e hold hfile
      · exact h.alone e hold e' hold' hfile
  · intro e he
    rw [hreferences]
    rcases (hlocks e).mp he with rfl | hold
    · exact href
    · exact h.held e hold

end

end AikoIsland.Flock
