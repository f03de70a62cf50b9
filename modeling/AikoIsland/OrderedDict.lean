import Mathlib.Tactic

/-!
# Dicts that keep the order of insertion

A dict is the list of its items. Assignment to a present key changes the item in
its place, and assignment to a new key appends; `pop` removes. Keys are distinct
where the dict was built by assignments, which is a fact about the list here and
not part of its type.
-/
namespace AikoIsland.OrderedDict

variable {κ α : Type} [DecidableEq κ]

def keys (d : List (κ × α)) : List κ := d.map Prod.fst

/-- `d.get(k)`. -/
def get (d : List (κ × α)) (k : κ) : Option α := d.lookup k

/-- `d[k] = a`. -/
def set (d : List (κ × α)) (k : κ) (a : α) : List (κ × α) :=
  if k ∈ keys d then d.map fun i => if i.1 = k then (k, a) else i
  else d ++ [(k, a)]

/-- `d.pop(k, None)`. -/
def pop (d : List (κ × α)) (k : κ) : List (κ × α) := d.filter fun i => i.1 ≠ k

variable {d : List (κ × α)} {k l : κ} {a b : α} {i : κ × α}

theorem get_of_notMem (h : k ∉ keys d) : get d k = none := by
  rw [get, List.lookup_eq_none_iff]
  intro i hi
  have hne : k ≠ i.1 := by
    rintro rfl
    exact h (List.mem_map_of_mem hi)
  simpa using hne

/-- No required key is missing and there is no other key: the keys are the required ones. -/
theorem missing_extra_nil {required : List κ} {absent other : κ → Bool}
    (habsent : ∀ k, absent k = true ↔ k ∉ keys d) (hother : ∀ k, other k = true ↔ k ∉ required) :
    required.filter absent = [] ∧ ((keys d).filter other).dedup = [] ↔
      ∀ k, k ∈ keys d ↔ k ∈ required := by
  rw [List.dedup_eq_nil, List.filter_eq_nil_iff, List.filter_eq_nil_iff]
  simp only [habsent, hother, not_not]
  constructor
  · intro h k
    exact ⟨h.2 k, h.1 k⟩
  · intro h
    exact ⟨fun k => (h k).mpr, fun k => (h k).mp⟩

theorem get_of_mem_keys (h : k ∈ keys d) : ∃ a, get d k = some a := by
  cases hl : get d k with
  | some a => exact ⟨a, rfl⟩
  | none =>
      obtain ⟨i, hi, rfl⟩ := List.mem_map.mp h
      have := List.lookup_eq_none_iff.mp hl i hi
      simp at this

/-- With distinct keys, an item is what its key looks up. -/
theorem get_of_mem (hd : (keys d).Nodup) (hi : i ∈ d) : get d i.1 = some i.2 := by
  unfold get
  induction d with
  | nil => cases hi
  | cons j d ih =>
      obtain ⟨l, b⟩ := j
      rw [keys, List.map_cons, List.nodup_cons] at hd
      rcases List.mem_cons.mp hi with rfl | hi
      · exact List.lookup_cons_self
      · have hne : (i.1 == l) = false := by
          simp only [beq_eq_false_iff_ne]
          intro he
          apply hd.1
          exact List.mem_map.mpr ⟨i, hi, he⟩
        rw [List.lookup_cons, hne]
        exact ih hd.2 hi

theorem get_set_self : get (set d k a) k = some a := by
  unfold get set
  split_ifs with h
  · induction d with
    | nil => simp [keys] at h
    | cons i d ih =>
        obtain ⟨l, b⟩ := i
        by_cases hi : l = k
        · simp [hi]
        · have hne : (k == l) = false := beq_eq_false_iff_ne.mpr (Ne.symm hi)
          simp only [List.map_cons, if_neg hi, List.lookup_cons, hne]
          apply ih
          simpa [keys, Ne.symm hi] using h
  · have hnone : d.lookup k = none := get_of_notMem h
    rw [List.lookup_append, hnone]
    simp

theorem get_set_of_ne (hl : l ≠ k) : get (set d k a) l = get d l := by
  have hne : (l == k) = false := by simpa using hl
  unfold get set
  split_ifs with h
  · clear h
    induction d with
    | nil => rfl
    | cons i d ih =>
        obtain ⟨m, b⟩ := i
        by_cases hi : m = k
        · subst hi
          simp only [List.map_cons, if_true, List.lookup_cons, hne, ih]
        · simp only [List.map_cons, if_neg hi, List.lookup_cons, ih]
  · rw [List.lookup_append]
    simp [List.lookup_cons, hne]

theorem keys_set : keys (set d k a) = if k ∈ keys d then keys d else keys d ++ [k] := by
  unfold set
  split_ifs with h
  · rw [keys, List.map_map]
    apply List.map_congr_left
    intro i _
    simp only [Function.comp]
    split_ifs with hi
    · exact hi.symm
    · rfl
  · simp [keys]

theorem nodup_set (hd : (keys d).Nodup) : (keys (set d k a)).Nodup := by
  rw [keys_set]
  split_ifs with h
  · exact hd
  · rw [List.nodup_append_comm, List.singleton_append, List.nodup_cons]
    exact ⟨h, hd⟩

theorem mem_set (h : i ∈ set d k a) : i ∈ d ∨ i = (k, a) := by
  unfold set at h
  split_ifs at h
  · obtain ⟨j, hj, rfl⟩ := List.mem_map.mp h
    split_ifs
    · exact Or.inr rfl
    · exact Or.inl hj
  · rcases List.mem_append.mp h with hi | hi
    · exact Or.inl hi
    · exact Or.inr (List.mem_singleton.mp hi)

theorem set_of_notMem (h : k ∉ keys d) : set d k a = d ++ [(k, a)] := by rw [set, if_neg h]

/-- Assigning the old value again undoes an assignment. -/
theorem set_set_get (hd : (keys d).Nodup) (hb : get d k = some b) :
    set (set d k a) k b = d := by
  have hin : k ∈ keys d := by
    by_contra h
    rw [get_of_notMem h] at hb
    cases hb
  have hin' : k ∈ keys (set d k a) := by
    rw [keys_set, if_pos hin]
    exact hin
  rw [set, if_pos hin', set, if_pos hin, List.map_map]
  conv_rhs => rw [← List.map_id d]
  apply List.map_congr_left
  intro i hi
  by_cases hk : i.1 = k
  · have hvalue : i.2 = b := by
      have hlook := get_of_mem hd hi
      rw [hk, hb] at hlook
      exact (Option.some.inj hlook).symm
    simp [hk, ← hvalue, Prod.ext_iff]
  · simp [hk]

/-- Removing a new key undoes its assignment. -/
theorem pop_set (h : k ∉ keys d) : pop (set d k a) k = d := by
  have hkeep : (d.filter fun i => i.1 ≠ k) = d := by
    apply List.filter_eq_self.mpr
    intro i hi
    simp only [ne_eq, decide_not, Bool.not_eq_eq_eq_not, Bool.not_true, decide_eq_false_iff_not]
    rintro rfl
    exact h (List.mem_map_of_mem hi)
  have hdrop : ([(k, a)] : List (κ × α)).filter (fun i => i.1 ≠ k) = [] := by simp
  rw [set_of_notMem h, pop, List.filter_append, hkeep, hdrop, List.append_nil]

theorem nodup_pop (hd : (keys d).Nodup) : (keys (pop d k)).Nodup :=
  hd.sublist (List.filter_sublist.map Prod.fst)

theorem mem_keys_pop : l ∈ keys (pop d k) ↔ l ∈ keys d ∧ l ≠ k := by
  simp only [keys, pop, List.mem_map, List.mem_filter, decide_eq_true_eq]
  constructor
  · rintro ⟨i, ⟨hi, hne⟩, rfl⟩
    exact ⟨⟨i, hi, rfl⟩, hne⟩
  · rintro ⟨⟨i, hi, rfl⟩, hne⟩
    exact ⟨i, ⟨hi, hne⟩, rfl⟩

theorem mem_keys_set : l ∈ keys (set d k a) ↔ l ∈ keys d ∨ l = k := by
  rw [keys_set]
  split_ifs with h
  · constructor
    · exact Or.inl
    · rintro (hl | rfl)
      · exact hl
      · exact h
  · simp

theorem mem_of_get (h : get d k = some a) : (k, a) ∈ d := by
  unfold get at h
  induction d with
  | nil => cases h
  | cons i d ih =>
      obtain ⟨l, b⟩ := i
      rw [List.lookup_cons] at h
      cases hk : k == l with
      | true =>
          rw [hk] at h
          rw [beq_iff_eq.mp hk, Option.some.inj h]
          exact List.mem_cons_self
      | false =>
          rw [hk] at h
          exact List.mem_cons_of_mem _ (ih h)

/-- With distinct keys a dict is one item and the rest. -/
theorem perm_cons_pop (hd : (keys d).Nodup) (h : get d k = some a) :
    d.Perm ((k, a) :: pop d k) := by
  have hone : d.filter (fun i => i.1 = k) = [(k, a)] := by
    have hmem : (k, a) ∈ d.filter fun i => i.1 = k := by simp [mem_of_get h]
    have hnodup : ((d.filter fun i => i.1 = k).map Prod.fst).Nodup :=
      hd.sublist (List.filter_sublist.map Prod.fst)
    have hsame : ∀ i ∈ d.filter (fun i => i.1 = k), i = (k, a) := by
      intro i hi
      have hk : i.1 = k := by simpa using (List.mem_filter.mp hi).2
      have hget := get_of_mem hd (List.mem_of_mem_filter hi)
      rw [hk, h] at hget
      exact Prod.ext hk (Option.some.inj hget).symm
    by_contra hne
    rcases (hnodup.of_map.ne_singleton_iff (k, a)).mp hne with hnil | ⟨i, hi, hother⟩
    · rw [hnil] at hmem
      cases hmem
    · exact hother (hsame i hi)
  have hsplit := (List.filter_append_perm (fun i => decide (i.1 = k)) d).symm
  rw [hone] at hsplit
  simpa [pop] using hsplit

/-- `{key(a): a for a in rows}`. -/
def ofRows (key : α → κ) (rows : List α) : List (κ × α) :=
  rows.foldl (fun d a => set d (key a) a) []

/-- A later row of a key replaces an earlier one. -/
theorem get_ofRows (key : α → κ) (rows : List α) (k : κ) :
    get (ofRows key rows) k = (rows.filter fun a => key a = k).getLast? := by
  induction rows using List.reverseRecOn with
  | nil => rfl
  | append_singleton rows a ih =>
      rw [ofRows, List.foldl_append, List.foldl_cons, List.foldl_nil, List.filter_append]
      by_cases ha : key a = k
      · subst ha
        rw [get_set_self]
        simp
      · have hget := get_set_of_ne (d := ofRows key rows) (a := a) (Ne.symm ha)
        rw [ofRows] at hget ih
        rw [hget, ih]
        simp [ha]

end AikoIsland.OrderedDict
