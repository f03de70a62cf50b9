import Mathlib.Tactic

/-!
# A table and its ledger

A table of rows to which requests add and from which they take. The ledger lists, in
the order of the commits, who added which row and who took it. `Balanced` says that the
two agree: a row is in the table when it was added and not taken, it was added once and
taken at most once, and never before it was added.

Rows have a key that no two additions share. Where the key is minted for the addition
that is a hypothesis on the requests; the rules ask for it at each addition.
-/
namespace AikoIsland.Ledger

variable {π ρ κ : Type}

/-- What request `p` did to a row. -/
inductive Entry (π ρ : Type) where
  | opened (p : π) (row : ρ)
  | closed (p : π) (row : ρ)
  deriving DecidableEq, Repr

/-- The request of an entry. -/
def Entry.by : Entry π ρ → π
  | .opened p _ => p
  | .closed p _ => p

def openedRow : Entry π ρ → Option ρ
  | .opened _ row => some row
  | .closed _ _ => none

def closedRow : Entry π ρ → Option ρ
  | .opened _ _ => none
  | .closed _ row => some row

section
variable [DecidableEq ρ]

/-- The entries of a statement of request `p`. -/
def notes (p : π) (old new : List ρ) : List (Entry π ρ) :=
  (old.filter fun r => r ∉ new).map (.closed p) ++ (new.filter fun r => r ∉ old).map (.opened p)

theorem notes_same (p : π) (rows : List ρ) : notes p rows rows = [] := by
  have hnone : (rows.filter fun r => r ∉ rows) = [] :=
    List.filter_eq_nil_iff.mpr fun r hr => by simpa using hr
  rw [notes, hnone]
  rfl

/-- Taking the rows of a kind. -/
theorem notes_filter (p : π) (rows : List ρ) (drop : ρ → Bool) :
    notes p rows (rows.filter fun r => !drop r) = (rows.filter drop).map (.closed p) := by
  have hnone : ((rows.filter fun r => !drop r).filter fun r => r ∉ rows) = [] := by
    apply List.filter_eq_nil_iff.mpr
    intro r hr
    simpa using (List.mem_filter.mp hr).1
  have hgone : (rows.filter fun r => r ∉ rows.filter fun r => !drop r) = rows.filter drop := by
    apply List.filter_congr
    intro r hr
    simp [List.mem_filter, hr]
  rw [notes, hnone, hgone, List.map_nil, List.append_nil]

/-- Adding one row anywhere. -/
theorem notes_insert (p : π) {pre post : List ρ} {row : ρ} (h : row ∉ pre ++ post) :
    notes p (pre ++ post) (pre ++ row :: post) = [.opened p row] := by
  rw [List.mem_append, not_or] at h
  have hnone : ((pre ++ post).filter fun r => r ∉ pre ++ row :: post) = [] := by
    apply List.filter_eq_nil_iff.mpr
    intro r hr
    rcases List.mem_append.mp hr with hpre | hpost
    · simp [hpre]
    · simp [hpost]
  have hpre : (pre.filter fun r => r ∉ pre ++ post) = [] :=
    List.filter_eq_nil_iff.mpr fun r hr => by simp [hr]
  have hpost : (post.filter fun r => r ∉ pre ++ post) = [] :=
    List.filter_eq_nil_iff.mpr fun r hr => by simp [hr]
  rw [notes, hnone, List.filter_append, hpre, List.filter_cons, hpost]
  simp [h.1, h.2]

/-- Adding one row at the end. -/
theorem notes_append (p : π) {rows : List ρ} {row : ρ} (h : row ∉ rows) :
    notes p rows (rows ++ [row]) = [.opened p row] := by
  have hinsert : row ∉ rows ++ [] → notes p (rows ++ []) (rows ++ [row]) = [.opened p row] :=
    notes_insert p
  rw [List.append_nil] at hinsert
  exact hinsert h

end

/-! ## The balance -/

structure Balanced (key : ρ → κ) (rows : List ρ) (log : List (Entry π ρ)) : Prop where
  keys : (rows.map key).Nodup
  live : ∀ row, row ∈ rows ↔
    (∃ q, .opened q row ∈ log) ∧ ∀ p, .closed p row ∉ log
  openedOnce : ((log.filterMap openedRow).map key).Nodup
  closedOnce : (log.filterMap closedRow).Nodup
  opened : ∀ p row, .closed p row ∈ log → ∃ q, .opened q row ∈ log
  ordered : log.Pairwise fun e e' => ∀ p q row, e = .closed p row → e' ≠ .opened q row

theorem balanced_nil (key : ρ → κ) : Balanced key [] ([] : List (Entry π ρ)) := by
  constructor <;> simp

section
variable {key : ρ → κ} {rows : List ρ} {log : List (Entry π ρ)} {p q : π} {row : ρ}

theorem mem_closedRows : row ∈ log.filterMap closedRow ↔ ∃ p, .closed p row ∈ log := by
  rw [List.mem_filterMap]
  constructor
  · intro h
    obtain ⟨e, he, hrow⟩ := h
    cases e with
    | opened p r => cases hrow
    | closed p r =>
        obtain rfl := Option.some.inj hrow
        exact ⟨p, he⟩
  · intro h
    obtain ⟨p, hp⟩ := h
    exact ⟨_, hp, rfl⟩

theorem mem_openedRows : row ∈ log.filterMap openedRow ↔ ∃ p, .opened p row ∈ log := by
  rw [List.mem_filterMap]
  constructor
  · intro h
    obtain ⟨e, he, hrow⟩ := h
    cases e with
    | closed p r => cases hrow
    | opened p r =>
        obtain rfl := Option.some.inj hrow
        exact ⟨p, he⟩
  · intro h
    obtain ⟨p, hp⟩ := h
    exact ⟨_, hp, rfl⟩

theorem closedRows_map (p : π) (rows : List ρ) :
    (rows.map (Entry.closed p)).filterMap closedRow = rows := by
  rw [List.filterMap_map]
  exact List.filterMap_some

theorem openedRows_closed (p : π) (rows : List ρ) :
    (rows.map (Entry.closed p)).filterMap openedRow = [] := by
  rw [List.filterMap_map]
  exact List.filterMap_eq_nil_iff.mpr fun _ _ => rfl

/-- Two entries that one row is taken by are one entry. -/
theorem eq_of_closed (h : (log.filterMap closedRow).Nodup) (hp : .closed p row ∈ log)
    (hq : .closed q row ∈ log) : p = q := by
  induction log with
  | nil => cases hp
  | cons e log ih =>
      rw [List.filterMap_cons] at h
      rcases List.mem_cons.mp hp with rfl | hp'
      · rcases List.mem_cons.mp hq with heq | hq'
        · cases heq
          rfl
        · exact absurd (mem_closedRows.mpr ⟨q, hq'⟩) (List.nodup_cons.mp h).1
      · rcases List.mem_cons.mp hq with rfl | hq'
        · exact absurd (mem_closedRows.mpr ⟨p, hp'⟩) (List.nodup_cons.mp h).1
        · apply ih _ hp' hq'
          cases e with
          | opened _ _ => exact h
          | closed _ _ => exact (List.nodup_cons.mp h).2

theorem pair_sublist {α : Type} {a b : α} {l : List α} (ha : a ∈ l) (hb : b ∈ l) (hne : a ≠ b) :
    [a, b].Sublist l ∨ [b, a].Sublist l := by
  induction l with
  | nil => cases ha
  | cons x l ih =>
      rcases List.mem_cons.mp ha with rfl | ha'
      · rcases List.mem_cons.mp hb with heq | hb'
        · exact absurd heq.symm hne
        · exact Or.inl (List.cons_sublist_cons.mpr (List.singleton_sublist.mpr hb'))
      · rcases List.mem_cons.mp hb with rfl | hb'
        · exact Or.inr (List.cons_sublist_cons.mpr (List.singleton_sublist.mpr ha'))
        · exact (ih ha' hb').imp (List.Sublist.cons x) (List.Sublist.cons x)

/-- A row is added before it is taken. -/
theorem Balanced.opened_first (h : Balanced key rows log) (hclosed : .closed p row ∈ log) :
    ∃ q, [.opened q row, .closed p row].Sublist log := by
  obtain ⟨q, hq⟩ := h.opened p row hclosed
  refine ⟨q, ?_⟩
  rcases pair_sublist hq hclosed (by simp) with hfirst | hlast
  · exact hfirst
  · have hpair := h.ordered.sublist hlast
    rw [List.pairwise_pair] at hpair
    exact absurd rfl (hpair p q row rfl)

/-- A request takes the rows of a kind. -/
theorem Balanced.close (h : Balanced key rows log) (drop : ρ → Bool) (p : π) :
    Balanced key (rows.filter fun r => !drop r) (log ++ (rows.filter drop).map (.closed p)) := by
  have hnodup : rows.Nodup := h.keys.of_map
  constructor
  case keys => exact h.keys.sublist (List.filter_sublist.map _)
  case live =>
    intro row
    rw [List.mem_filter, h.live row]
    constructor
    · intro hrow
      obtain ⟨⟨⟨q, hq⟩, hopen⟩, hkept⟩ := hrow
      refine ⟨⟨q, List.mem_append_left _ hq⟩, ?_⟩
      intro p' hp'
      rcases List.mem_append.mp hp' with hold | hnew
      · exact hopen p' hold
      · obtain ⟨r, hr, heq⟩ := List.mem_map.mp hnew
        cases heq
        simp [(List.mem_filter.mp hr).2] at hkept
    · intro hrow
      obtain ⟨⟨q, hq⟩, hopen⟩ := hrow
      have hlive : row ∈ rows := by
        rw [h.live row]
        constructor
        · rcases List.mem_append.mp hq with hold | hnew
          · exact ⟨q, hold⟩
          · obtain ⟨r, _, heq⟩ := List.mem_map.mp hnew
            cases heq
        · exact fun p' hp' => hopen p' (List.mem_append_left _ hp')
      refine ⟨(h.live row).mp hlive, ?_⟩
      by_contra hdrop
      have hdropped : row ∈ rows.filter drop := List.mem_filter.mpr ⟨hlive, by simpa using hdrop⟩
      exact hopen p (List.mem_append_right _ (List.mem_map_of_mem hdropped))
  case openedOnce =>
    rw [List.filterMap_append, openedRows_closed, List.append_nil]
    exact h.openedOnce
  case closedOnce =>
    rw [List.filterMap_append, closedRows_map, List.nodup_append]
    refine ⟨h.closedOnce, hnodup.filter _, ?_⟩
    intro r hr r' hr' heq
    obtain ⟨p', hp'⟩ := mem_closedRows.mp hr
    have hlive : r ∈ rows := heq ▸ (List.mem_filter.mp hr').1
    exact ((h.live r).mp hlive).2 p' hp'
  case opened =>
    intro p' row hrow
    rcases List.mem_append.mp hrow with hold | hnew
    · obtain ⟨q, hq⟩ := h.opened p' row hold
      exact ⟨q, List.mem_append_left _ hq⟩
    · obtain ⟨r, hr, heq⟩ := List.mem_map.mp hnew
      cases heq
      obtain ⟨q, hq⟩ := ((h.live row).mp (List.mem_filter.mp hr).1).1
      exact ⟨q, List.mem_append_left _ hq⟩
  case ordered =>
    rw [List.pairwise_append]
    refine ⟨h.ordered, ?_, ?_⟩
    · rw [List.pairwise_map]
      apply List.pairwise_of_forall
      intro a b p' q row _ heq
      cases heq
    · intro e _ e' he' p' q row _ heq
      obtain ⟨r, _, hr⟩ := List.mem_map.mp he'
      rw [← hr] at heq
      cases heq

/-- The order of the rows does not matter. -/
theorem Balanced.perm {rows' : List ρ} (h : Balanced key rows log) (hp : rows.Perm rows') :
    Balanced key rows' log := by
  constructor
  · exact (hp.map key).nodup_iff.mp h.keys
  · intro row
    rw [← hp.mem_iff]
    exact h.live row
  · exact h.openedOnce
  · exact h.closedOnce
  · exact h.opened
  · exact h.ordered

/-- A request adds a row with a new key. -/
theorem Balanced.open (h : Balanced key rows log) (p : π)
    (hnew : ∀ q r, .opened q r ∈ log → key r ≠ key row) :
    Balanced key (rows ++ [row]) (log ++ [.opened p row]) := by
  have hfresh : ∀ q, .opened q row ∉ log := fun q hq => hnew q row hq rfl
  have hunclosed : ∀ p', .closed p' row ∉ log := by
    intro p' hp'
    obtain ⟨q, hq⟩ := h.opened p' row hp'
    exact hfresh q hq
  constructor
  case keys =>
    rw [List.map_append, List.nodup_append]
    refine ⟨h.keys, List.nodup_singleton _, ?_⟩
    intro k hk k' hk'
    obtain ⟨r, hr, rfl⟩ := List.mem_map.mp hk
    obtain ⟨q, hq⟩ := ((h.live r).mp hr).1
    rw [List.map_singleton, List.mem_singleton] at hk'
    rw [hk']
    exact hnew q r hq
  case live =>
    intro r
    rw [List.mem_append, List.mem_singleton, h.live r]
    constructor
    · rintro (⟨⟨q, hq⟩, hopen⟩ | rfl)
      · refine ⟨⟨q, List.mem_append_left _ hq⟩, ?_⟩
        intro p' hp'
        rcases List.mem_append.mp hp' with hold | hlast
        · exact hopen p' hold
        · cases List.mem_singleton.mp hlast
      · refine ⟨⟨p, List.mem_append_right _ (List.mem_singleton_self _)⟩, ?_⟩
        intro p' hp'
        rcases List.mem_append.mp hp' with hold | hlast
        · exact hunclosed p' hold
        · cases List.mem_singleton.mp hlast
    · intro hr
      obtain ⟨⟨q, hq⟩, hopen⟩ := hr
      rcases List.mem_append.mp hq with hold | hlast
      · left
        exact ⟨⟨q, hold⟩, fun p' hp' => hopen p' (List.mem_append_left _ hp')⟩
      · right
        cases List.mem_singleton.mp hlast
        rfl
  case openedOnce =>
    rw [List.filterMap_append, List.map_append, List.nodup_append]
    refine ⟨h.openedOnce, List.nodup_singleton _, ?_⟩
    intro k hk k' hk'
    obtain ⟨r, hr, rfl⟩ := List.mem_map.mp hk
    obtain ⟨q, hq⟩ := mem_openedRows.mp hr
    have hkey : k' = key row := by simpa [openedRow] using hk'
    rw [hkey]
    exact hnew q r hq
  case closedOnce =>
    have hnone : [Entry.opened p row].filterMap closedRow = [] := rfl
    rw [List.filterMap_append, hnone, List.append_nil]
    exact h.closedOnce
  case opened =>
    intro p' r hr
    rcases List.mem_append.mp hr with hold | hlast
    · obtain ⟨q, hq⟩ := h.opened p' r hold
      exact ⟨q, List.mem_append_left _ hq⟩
    · cases List.mem_singleton.mp hlast
  case ordered =>
    rw [List.pairwise_append]
    refine ⟨h.ordered, List.pairwise_singleton _ _, ?_⟩
    intro e he e' he' p' q r hclosed heq
    rw [List.mem_singleton] at he'
    rw [he'] at heq
    cases heq
    exact hunclosed p' (hclosed ▸ he)

end

end AikoIsland.Ledger
