import AikoIsland.Quorum
import AikoIsland.Transactions

/-!
# The guardians of an account

Enrolment stores the threshold and the approver keys of a user in one commit. It
refuses when it has read a policy before its first write; of two enrolments that pass
this read together the second one waits for the lock and then breaks UNIQUE (user_id),
so that its flush raises. No endpoint rotates or deletes a policy: the roster of an
account stands until the account is deleted, and the deletion takes all of it away in
its commit.

The created_at columns and the labels, which are NULL, are left out. The rows of one
enrolment share their created_at, so that the view of a roster is in the order of ids.
-/
namespace AikoIsland.Guardians
open Tables Gateway Passkeys Signing Recovery Quorum AccountDeletion WriterLock Settling
  Transactions

/-! ## Enrolment -/

/-- `_MAX_KEY_STR`. -/
def maxKeyStr : ℕ := 128

inductive EnrollRefusal where
  | invalidEnrollment (detail : String)
  | recoveryError (detail : String)
  deriving DecidableEq, Repr

structure EnrollResult where
  thresholdK : ℕ
  approverCount : ℕ
  deriving DecidableEq, Repr

def insertPolicy (p : RecoveryPolicy) (db : Db) : Option Db :=
  (insertRow (fun x => x.id = p.id || x.userId = p.userId) db.policies p).map
    fun rows => { db with policies := rows }

def insertApprover (a : RecoveryApprover) (db : Db) : Option Db :=
  (insertRow (fun x => x.id = a.id || (x.userId = a.userId && x.approverPubkey = a.approverPubkey))
    db.approvers a).map fun rows => { db with approvers := rows }

/-- `newUlid i` is the i-th id that the request mints; the policy has the first. -/
def approverRows (newUlid : ℕ → String) (userId : String) (pubkeys : List String) :
    List RecoveryApprover :=
  pubkeys.mapIdx fun i pk => ⟨newUlid (i + 1), userId, pk⟩

/-- What the service raises is what the route catches at once, so it is a result here. -/
def enrollPolicy (userId : String) (approverPubkeys : List String) (k : ℕ) (newUlid : ℕ → String) :
    Body (Except EnrollRefusal EnrollResult) := do
  match validateEnrollment approverPubkeys k with
  | .error detail => return .error (.invalidEnrollment detail)
  | .ok approverPubkeys =>
      match ← select (policyOf userId) with
      | some _ =>
          return .error (.recoveryError ("a recovery policy already exists; rotation must go " ++
            "through the veto flow (not yet implemented) — cannot silently replace guardians"))
      | none =>
          flushOrRaise (insertPolicy ⟨newUlid 0, userId, k⟩) .plain
          (approverRows newUlid userId approverPubkeys).forM fun a =>
            flushOrRaise (insertApprover a) .plain
          commit
          return .ok ⟨k, approverPubkeys.length⟩

/-- `POST /recovery/enroll`; the request model bounds the list and `k` by `maxApprovers`. -/
def recoveryEnroll (token : Option Claims) (approverPubkeys : List String) (k : ℕ)
    (newUlid : ℕ → String) : Body EnrollResult := do
  let user ← getCurrentUser token
  if approverPubkeys.any fun pk => maxKeyStr < pk.length then
    throwExn (.http 422 "approver pubkey too long")
  else
    match ← enrollPolicy user.id approverPubkeys k newUlid with
    | .error (.invalidEnrollment detail) =>
        rollback
        throwExn (.http 422 detail)
    | .error (.recoveryError detail) =>
        rollback
        throwExn (.http 409 detail)
    | .ok result => return result

/-- `get_policy` as the route shows it: the threshold and the keys, by id. -/
def policyView (userId : String) (db : Db) : Option (ℕ × List String) :=
  (policyOf userId db).map fun policy =>
    (policy.thresholdK, ((db.approvers.filter fun a => a.userId = userId).insertionSort
      fun a b => a.id ≤ b.id).map (·.approverPubkey))

def recoveryPolicy (token : Option Claims) : Body (Option (ℕ × List String)) := do
  let user ← getCurrentUser token
  select (policyView user.id)

/-! ## The transaction of an enrolment -/

theorem insertPolicy_eq_some {db db' : Db} {p : RecoveryPolicy} :
    insertPolicy p db = some db' ↔ (∀ x ∈ db.policies, x.id ≠ p.id ∧ x.userId ≠ p.userId) ∧
      db' = { db with policies := db.policies ++ [p] } := by
  rw [insertPolicy, map_insertRow_eq_some]
  simp

theorem insertApprover_eq_some {db db' : Db} {a : RecoveryApprover} :
    insertApprover a db = some db' ↔
      (∀ x ∈ db.approvers, x.id ≠ a.id ∧
        (x.userId = a.userId → x.approverPubkey ≠ a.approverPubkey)) ∧
      db' = { db with approvers := db.approvers ++ [a] } := by
  rw [insertApprover, map_insertRow_eq_some]
  simp

def insertApprovers : List RecoveryApprover → Db → Option Db
  | [], db => some db
  | a :: rest, db => (insertApprover a db).bind (insertApprovers rest)

/-- The flushes of an enrolment. -/
def enrolled (userId : String) (approverPubkeys : List String) (k : ℕ) (newUlid : ℕ → String)
    (db : Db) : Option Db :=
  (insertPolicy ⟨newUlid 0, userId, k⟩ db).bind
    (insertApprovers (approverRows newUlid userId approverPubkeys))

theorem insertApprovers_eq_some {rows : List RecoveryApprover} {db db' : Db}
    (h : insertApprovers rows db = some db') :
    db' = { db with approvers := db.approvers ++ rows } := by
  induction rows generalizing db with
  | nil =>
      rw [List.append_nil]
      exact (Option.some.inj h).symm
  | cons a rest ih =>
      obtain ⟨s, hs, hrest⟩ := Option.bind_eq_some_iff.mp h
      obtain ⟨_, rfl⟩ := insertApprover_eq_some.mp hs
      rw [ih hrest]
      simp

theorem enrolled_eq_some {userId : String} {pks : List String} {k : ℕ} {newUlid : ℕ → String}
    {db db' : Db} (h : enrolled userId pks k newUlid db = some db') :
    (∀ p ∈ db.policies, p.userId ≠ userId) ∧
      db' = { db with
        policies := db.policies ++ [⟨newUlid 0, userId, k⟩]
        approvers := db.approvers ++ approverRows newUlid userId pks } := by
  obtain ⟨s, hs, hrest⟩ := Option.bind_eq_some_iff.mp h
  obtain ⟨hfree, rfl⟩ := insertPolicy_eq_some.mp hs
  exact ⟨fun p hp => (hfree p hp).2, insertApprovers_eq_some hrest⟩

theorem settle_insertApprovers {α : Type} {k : Unit → Body α} {s : Db}
    (rows : List RecoveryApprover) :
    (rows.forM (fun a => flushOrRaise (insertApprover a) .plain) >>= k).settle s =
      match insertApprovers rows s with
      | some s' => (k ()).settle s'
      | none => .rolledBack (throwExn .integrityError) := by
  induction rows generalizing s with
  | nil => rfl
  | cons a rest ih =>
      have hassoc : (a :: rest).forM (fun a => flushOrRaise (insertApprover a) .plain) >>= k =
          flushOrRaise (insertApprover a) .plain >>= fun _ =>
            rest.forM (fun a => flushOrRaise (insertApprover a) .plain) >>= k :=
        Request.bind_assoc _ _ _
      rw [hassoc, insertApprovers]
      cases hs : insertApprover a s with
      | none => rw [settle_flushOrRaise_none hs, Option.bind_none]
      | some s' => rw [settle_flushOrRaise_some hs, ih, Option.bind_some]

/-- The statements of an enrolment. -/
def enrolling {α : Type} (userId : String) (approverPubkeys : List String) (k : ℕ)
    (newUlid : ℕ → String) (a : α) : Body α := do
  flushOrRaise (insertPolicy ⟨newUlid 0, userId, k⟩) .plain
  (approverRows newUlid userId approverPubkeys).forM fun a =>
    flushOrRaise (insertApprover a) .plain
  commit
  return a

theorem settle_enrolling {α : Type} (userId : String) (pks : List String) (k : ℕ)
    (newUlid : ℕ → String) (a : α) (s : Db) :
    (enrolling userId pks k newUlid a).settle s =
      match enrolled userId pks k newUlid s with
      | some s' => .committed .plain s' (.ret a)
      | none => .rolledBack (throwExn .integrityError) := by
  rw [enrolled, enrolling]
  cases hs : insertPolicy ⟨newUlid 0, userId, k⟩ s with
  | none =>
      rw [settle_flushOrRaise_none hs, Option.bind_none]
  | some s' =>
      rw [settle_flushOrRaise_some hs, Option.bind_some, settle_insertApprovers]
      rfl

/-! ## Rosters -/

theorem approverKeys_append (userId : String) (db : Db) (rows : List RecoveryApprover) :
    approverKeys userId { db with approvers := db.approvers ++ rows } =
      approverKeys userId db ++
        (rows.filter fun a => a.userId = userId).map (·.approverPubkey) := by
  simp [approverKeys]

theorem keys_approverRows (newUlid : ℕ → String) (userId other : String) (pks : List String) :
    ((approverRows newUlid userId pks).filter fun a => a.userId = other).map (·.approverPubkey) =
      if userId = other then pks else [] := by
  split_ifs with huser
  · have hall : (approverRows newUlid userId pks).filter (fun a => a.userId = other) =
        approverRows newUlid userId pks := by
      apply List.filter_eq_self.mpr
      intro a ha
      obtain ⟨i, hi, rfl⟩ := List.mem_mapIdx.mp ha
      simpa using huser
    rw [hall]
    apply List.ext_getElem
    · simp [approverRows]
    · intro i _ _
      simp [approverRows]
  · have hnone : (approverRows newUlid userId pks).filter (fun a => a.userId = other) = [] := by
      apply List.filter_eq_nil_iff.mpr
      intro a ha
      obtain ⟨i, hi, rfl⟩ := List.mem_mapIdx.mp ha
      simpa using huser
    rw [hnone, List.map_nil]

/-- Every policy has its roster of distinct keys, and the threshold is within its size. -/
structure Rostered (db : Db) : Prop where
  single : (db.policies.map (·.userId)).Nodup
  owned : ∀ a ∈ db.approvers, ∃ p ∈ db.policies, p.userId = a.userId
  threshold : ∀ p ∈ db.policies, 1 ≤ p.thresholdK ∧
    p.thresholdK ≤ (approverKeys p.userId db).length ∧
    (approverKeys p.userId db).length ≤ maxApprovers
  valid : ∀ userId, Valid (approverKeys userId db)
  distinct : ∀ userId, (approverKeys userId db).Nodup

def Alive (userId : String) (db : Db) : Prop := ∃ u ∈ db.users, u.id = userId

/-- Of the accounts `old`, none appears, and what one that is still there had enrolled stands. -/
structure Frozen (old : String → Prop) (a b : Db) : Prop where
  users : ∀ userId, old userId → Alive userId b → Alive userId a
  rosters : ∀ p ∈ a.policies, old p.userId → Alive p.userId b →
    p ∈ b.policies ∧ approverKeys p.userId b = approverKeys p.userId a

variable {old : String → Prop}

theorem Frozen.refl (a : Db) : Frozen old a a := ⟨fun _ _ h => h, fun _ hp _ _ => ⟨hp, rfl⟩⟩

theorem Frozen.trans {a b c : Db} (h : Frozen old a b) (h' : Frozen old b c) :
    Frozen old a c := by
  constructor
  · exact fun userId hold hc => h.users userId hold (h'.users userId hold hc)
  · intro p hp hold hc
    obtain ⟨hb, hkeys⟩ := h.rosters p hp hold (h'.users p.userId hold hc)
    obtain ⟨hmem, hkeys'⟩ := h'.rosters p hb hold hc
    exact ⟨hmem, hkeys'.trans hkeys⟩

theorem Rostered.policyOf {db : Db} (h : Rostered db) {p : RecoveryPolicy} :
    policyOf p.userId db = some p ↔ p ∈ db.policies := by
  constructor
  · exact List.mem_of_find?_eq_some
  · intro hp
    unfold Recovery.policyOf
    cases hfind : db.policies.find? fun q => q.userId = p.userId with
    | none => simpa using List.find?_eq_none.mp hfind p hp
    | some q =>
        have hq : q.userId = p.userId := by simpa using List.find?_some hfind
        rw [List.inj_on_of_nodup_map h.single (List.mem_of_find?_eq_some hfind) hp hq]

/-- The two tables as they were. -/
structure SameRosters (a b : Db) : Prop where
  policies : b.policies = a.policies
  approvers : b.approvers = a.approvers

theorem SameRosters.refl (a : Db) : SameRosters a a := ⟨rfl, rfl⟩

theorem SameRosters.trans {a b c : Db} (h : SameRosters a b) (h' : SameRosters b c) :
    SameRosters a c :=
  ⟨h'.policies.trans h.policies, h'.approvers.trans h.approvers⟩

theorem SameRosters.keys {a b : Db} (h : SameRosters a b) (userId : String) :
    approverKeys userId b = approverKeys userId a := by
  rw [approverKeys, h.approvers, approverKeys]

theorem SameRosters.frozen {a b : Db} (h : SameRosters a b)
    (husers : ∀ userId, old userId → Alive userId b → Alive userId a) : Frozen old a b := by
  constructor
  · exact husers
  · intro p hp _ _
    exact ⟨by rw [h.policies]; exact hp, h.keys p.userId⟩

/-- Accounts are there by their ids. -/
theorem alive_congr {a b : Db} (h : b.users.map (·.id) = a.users.map (·.id)) {userId : String}
    (hb : Alive userId b) : Alive userId a := by
  obtain ⟨u, hu, hid⟩ := hb
  have hmem : u.id ∈ a.users.map (·.id) := by
    rw [← h]
    exact List.mem_map_of_mem hu
  obtain ⟨u', hu', hid'⟩ := List.mem_map.mp hmem
  exact ⟨u', hu', hid'.trans hid⟩

theorem SameRosters.rostered {a b : Db} (h : SameRosters a b) (ha : Rostered a) : Rostered b := by
  constructor
  · rw [h.policies]
    exact ha.single
  · rw [h.policies, h.approvers]
    exact ha.owned
  · intro p hp
    rw [h.policies] at hp
    rw [h.keys]
    exact ha.threshold p hp
  · intro userId
    rw [h.keys]
    exact ha.valid userId
  · intro userId
    rw [h.keys]
    exact ha.distinct userId

section
variable {a b : Db} {userId : String}

/-- What an accepted payload promises. -/
theorem of_validateEnrollment {pks accepted : List String} {k : ℕ}
    (h : validateEnrollment pks k = .ok accepted) :
    accepted = pks ∧ 1 ≤ k ∧ k ≤ pks.length ∧ pks.length ≤ maxApprovers ∧ Valid pks ∧
      pks.Nodup := by
  unfold validateEnrollment at h
  cases hcheck : checkApprovers pks [] with
  | error e =>
      rw [hcheck] at h
      split_ifs at h
  | ok _ =>
      rw [hcheck] at h
      split_ifs at h with _ hmany hk
      obtain ⟨hvalid, hnodup, _⟩ := checkApprovers_ok hcheck
      exact ⟨(Except.ok.inj h).symm, by omega, by omega, by omega, hvalid, hnodup⟩

/-- A user without a policy has no keys. -/
theorem Rostered.no_keys (h : Rostered a) (hfree : ∀ p ∈ a.policies, p.userId ≠ userId) :
    approverKeys userId a = [] := by
  unfold approverKeys
  rw [List.map_eq_nil_iff, List.filter_eq_nil_iff]
  intro x hx
  obtain ⟨p, hp, hpx⟩ := h.owned x hx
  have hne := hfree p hp
  rw [hpx] at hne
  simpa using hne

theorem keys_enrolled {pks : List String} {k : ℕ} {newUlid : ℕ → String} (h : Rostered a)
    (hb : enrolled userId pks k newUlid a = some b) (other : String) :
    approverKeys other b = if userId = other then pks else approverKeys other a := by
  obtain ⟨hfree, rfl⟩ := enrolled_eq_some hb
  have hkeys : approverKeys other { a with
        policies := a.policies ++ [⟨newUlid 0, userId, k⟩]
        approvers := a.approvers ++ approverRows newUlid userId pks } =
      approverKeys other a ++ if userId = other then pks else [] := by
    rw [← keys_approverRows newUlid]
    exact approverKeys_append other a _
  rw [hkeys]
  split_ifs with huser
  · rw [← huser, h.no_keys hfree, List.nil_append]
  · rw [List.append_nil]

theorem rostered_enrolled {pks : List String} {k : ℕ} {newUlid : ℕ → String} (h : Rostered a)
    (hk : 1 ≤ k ∧ k ≤ pks.length ∧ pks.length ≤ maxApprovers) (hvalid : Valid pks)
    (hnodup : pks.Nodup) (hb : enrolled userId pks k newUlid a = some b) : Rostered b := by
  have hkeys := keys_enrolled h hb
  obtain ⟨hfree, hstore⟩ := enrolled_eq_some hb
  have hpolicies : b.policies = a.policies ++ [⟨newUlid 0, userId, k⟩] := by rw [hstore]
  have happrovers : b.approvers = a.approvers ++ approverRows newUlid userId pks := by rw [hstore]
  constructor
  · rw [hpolicies, List.map_append, List.nodup_append]
    refine ⟨h.single, List.nodup_singleton _, ?_⟩
    intro x hx y hy
    obtain ⟨p, hp, rfl⟩ := List.mem_map.mp hx
    rw [List.map_singleton, List.mem_singleton] at hy
    rw [hy]
    exact hfree p hp
  · intro x hx
    rw [happrovers, List.mem_append] at hx
    rw [hpolicies]
    rcases hx with hold | hnew
    · obtain ⟨p, hp, hpx⟩ := h.owned x hold
      exact ⟨p, List.mem_append_left _ hp, hpx⟩
    · obtain ⟨i, hi, rfl⟩ := List.mem_mapIdx.mp hnew
      exact ⟨_, List.mem_append_right _ (List.mem_singleton_self _), rfl⟩
  · intro p hp
    rw [hpolicies, List.mem_append, List.mem_singleton] at hp
    rw [hkeys]
    rcases hp with hold | rfl
    · rw [if_neg (hfree p hold).symm]
      exact h.threshold p hold
    · rw [if_pos rfl]
      exact hk
  · intro other
    rw [hkeys]
    split_ifs
    · exact hvalid
    · exact h.valid other
  · intro other
    rw [hkeys]
    split_ifs
    · exact hnodup
    · exact h.distinct other

theorem frozen_enrolled {pks : List String} {k : ℕ} {newUlid : ℕ → String} (h : Rostered a)
    (hb : enrolled userId pks k newUlid a = some b) : Frozen old a b := by
  have hkeys := keys_enrolled h hb
  obtain ⟨hfree, hstore⟩ := enrolled_eq_some hb
  constructor
  · intro other _ hother
    rw [hstore] at hother
    exact hother
  · intro p hp _ _
    constructor
    · rw [hstore]
      exact List.mem_append_left _ hp
    · rw [hkeys, if_neg (hfree p hp).symm]

/-! ### Deletion -/

theorem alive_of_departed (h : Departed userId a b) (other : String) :
    Alive other b ↔ Alive other a ∧ other ≠ userId := by
  unfold Alive
  rw [h.users]
  constructor
  · intro hb
    obtain ⟨u, hu, hid⟩ := hb
    obtain ⟨hmem, hne⟩ := List.mem_filter.mp hu
    rw [hid] at hne
    exact ⟨⟨u, hmem, hid⟩, by simpa using hne⟩
  · intro ha
    obtain ⟨⟨u, hu, hid⟩, hne⟩ := ha
    refine ⟨u, List.mem_filter.mpr ⟨hu, ?_⟩, hid⟩
    rw [hid]
    simpa using hne

theorem keys_departed (h : Departed userId a b) {other : String} (hne : other ≠ userId) :
    approverKeys other b = approverKeys other a := by
  unfold approverKeys
  rw [h.approvers, List.filter_filter]
  congr 1
  apply List.filter_congr
  intro x _
  by_cases hx : x.userId = other
  · simp [hx, hne]
  · simp [hx]

theorem rostered_departed (h : Departed userId a b) (ha : Rostered a) : Rostered b := by
  have hgone : approverKeys userId b = [] := by
    unfold approverKeys
    rw [h.approvers, List.filter_filter, List.map_eq_nil_iff, List.filter_eq_nil_iff]
    intro x _
    simp
  constructor
  · rw [h.policies]
    exact ha.single.sublist (List.filter_sublist.map _)
  · intro x hx
    rw [h.approvers, List.mem_filter] at hx
    obtain ⟨p, hp, hpx⟩ := ha.owned x hx.1
    refine ⟨p, ?_, hpx⟩
    rw [h.policies, List.mem_filter, hpx]
    exact ⟨hp, hx.2⟩
  · intro p hp
    rw [h.policies, List.mem_filter] at hp
    have hne : p.userId ≠ userId := by simpa using hp.2
    rw [keys_departed h hne]
    exact ha.threshold p hp.1
  · intro other
    by_cases hne : other = userId
    · rw [hne, hgone]
      exact fun pk hpk => absurd hpk List.not_mem_nil
    · rw [keys_departed h hne]
      exact ha.valid other
  · intro other
    by_cases hne : other = userId
    · rw [hne, hgone]
      exact List.nodup_nil
    · rw [keys_departed h hne]
      exact ha.distinct other

theorem frozen_departed (h : Departed userId a b) : Frozen old a b := by
  constructor
  · exact fun other _ hb => ((alive_of_departed h other).mp hb).1
  · intro p hp _ hb
    have hne : p.userId ≠ userId := ((alive_of_departed h p.userId).mp hb).2
    constructor
    · rw [h.policies, List.mem_filter]
      exact ⟨hp, by simpa using hne⟩
    · exact keys_departed h hne

end

end AikoIsland.Guardians
