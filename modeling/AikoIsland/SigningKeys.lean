import AikoIsland.Passkeys

/-!
# Signing keys: the observed pubkey of an account

Two doors write the roster. A signed send records its key without a cap, at
most two attempts to insert and a bump of `last_seen_at` on a conflict.
`POST /v1/keys` folds the cap into the insert. Both inserts sit in a savepoint.

A bump is an UPDATE by row id that the ORM flushes later in the transaction of
the send, where the lock is held already, or at the commit of the route, where
a row that is gone raises `StaleDataError`.
-/
namespace AikoIsland.SigningKeys
open Tables Gateway Passkeys Signing WriterLock Footprint

def getKey (userId pubkey : String) (db : Db) : Option SigningKey :=
  db.signingKeys.find? fun k => k.userId = userId && k.pubkey = pubkey

def bumpKey (id : String) (now : Time) (db : Db) : Db :=
  { db with signingKeys := db.signingKeys.map fun k =>
      if k.id = id then { k with lastSeenAt := now } else k }

/-- The flush of a changed `last_seen_at`. -/
def flushBump (id : String) (now : Time) : Body Unit := do
  let rowcount ← execute (bumpKey id now)
    (fun db => (db.signingKeys.filter fun k => k.id = id).length) .plain
  if rowcount = 1 then return () else throwExn .staleDataError

structure KeyObservation where
  userId : String
  pubkey : String
  keyVersion : ℕ
  generation : ℕ
  deriving DecidableEq, Repr

def KeyObservation.row (o : KeyObservation) (id : String) (now : Time) : SigningKey where
  id := id
  userId := o.userId
  pubkey := o.pubkey
  keyVersion := o.keyVersion
  firstSeenAt := now
  lastSeenAt := now
  author := .session o.generation

def KeyObservation.label (o : KeyObservation) : Label := .sessionWrite o.userId o.generation

/-- `record_signing_key`, one attempt for each minted row id. -/
def recordSigningKey (o : KeyObservation) (now bumpedAt : Time) : List String → Body Unit
  | [] => throwExn .integrityError
  | id :: ids => do
      if ← flushNested (fun db => db.insertSigningKey (o.row id now)) o.label then
        return ()
      else
        match ← select (getKey o.userId o.pubkey) with
        | some existing => flushBump existing.id bumpedAt
        | none => recordSigningKey o now bumpedAt ids

def keyCount (userId : String) (db : Db) : ℕ :=
  (db.signingKeys.filter fun k => k.userId = userId).length

/-- `INSERT ... SELECT ... WHERE count < max_keys`: no row, and no error, at the cap. -/
def cappedInsert (o : KeyObservation) (id : String) (now : Time) (maxKeys : ℕ) (db : Db) :
    Option Db :=
  if keyCount o.userId db < maxKeys then db.insertSigningKey (o.row id now) else some db

def executeCapped (o : KeyObservation) (id : String) (now : Time) (maxKeys : ℕ) :
    Body (Option ℕ) :=
  .write true o.label (cappedInsert o id now maxKeys)
    (fun db => .ret (some (if keyCount o.userId db < maxKeys then 1 else 0))) fun _ => .ret none

/-- `register_explicit_key` and the commit of its route; `false` is the refusal at the cap. -/
def registerExplicitKey (o : KeyObservation) (id : String) (now bumpedAt : Time)
    (maxKeys : ℕ) : Body Bool := do
  match ← select (getKey o.userId o.pubkey) with
  | some existing =>
      flushBump existing.id bumpedAt
      commit
      return true
  | none =>
      match ← executeCapped o id now maxKeys with
      | none =>
          match ← select (getKey o.userId o.pubkey) with
          | none => throwExn .integrityError
          | some existing =>
              flushBump existing.id bumpedAt
              commit
              return true
      | some 0 =>
          match ← select (getKey o.userId o.pubkey) with
          | some existing =>
              flushBump existing.id bumpedAt
              commit
              return true
          | none => return false
      | some _ =>
          match ← select (getKey o.userId o.pubkey) with
          | some _ =>
              commit
              return true
          | none =>
              commit
              -- the route reads `row.pubkey` of the row that was fetched
              throwExn (.raised "AttributeError")

/-- `_MAX_KEYS_PER_USER`. -/
def maxKeysPerUser : ℕ := 32

/-- `POST /v1/keys` for the user that the gate returned. -/
def registerKey (user : User) (pubkey : String) (keyVersion : ℕ) (rowId : String)
    (now bumpedAt : Time) : Body Unit := do
  match decodeMultikey pubkey with
  | .error e => throwExn (.http 400 ("invalid signing pubkey: " ++ e))
  | .ok _ =>
      if ← registerExplicitKey ⟨user.id, pubkey, keyVersion, user.tokenGeneration⟩ rowId now
          bumpedAt maxKeysPerUser then
        return ()
      else
        throwExn (.http 429
          "signing-key limit reached (32); revoke an unused key before registering another")

def deleteKey (userId pubkey : String) (db : Db) : Db :=
  { db with signingKeys := db.signingKeys.filter fun k => !(k.userId = userId && k.pubkey = pubkey) }

/-- `revoke_key`: whether a row was deleted. -/
def revokeKey (userId pubkey : String) : Body Bool := do
  let rowcount ← execute (deleteKey userId pubkey)
    (fun db => (db.signingKeys.filter fun k => k.userId = userId && k.pubkey = pubkey).length)
    (.keyRevoke userId pubkey)
  commit
  return decide (0 < rowcount)

def purgeUserKeys (userId : String) (db : Db) : Db :=
  { db with signingKeys := db.signingKeys.filter fun k => k.userId ≠ userId }

/-! ## Footprints -/

/-- The writes of an observation: its row, and bumps that change no other column. -/
inductive KeyWrite (o : KeyObservation) : Label → (Db → Option Db) → Prop
  | insert (id : String) (now : Time) :
      KeyWrite o o.label fun db => db.insertSigningKey (o.row id now)
  | capped (id : String) (now : Time) (maxKeys : ℕ) :
      KeyWrite o o.label (cappedInsert o id now maxKeys)
  | bump (id : String) (now : Time) : KeyWrite o .plain fun db => some (bumpKey id now db)

/-- The two stores differ in no table but the signing keys. -/
def OnlyKeys (a b : Db) : Prop := ∃ keys, b = { a with signingKeys := keys }

theorem OnlyKeys.refl (a : Db) : OnlyKeys a a := ⟨a.signingKeys, rfl⟩

theorem OnlyKeys.trans {a b c : Db} (h : OnlyKeys a b) (h' : OnlyKeys b c) : OnlyKeys a c := by
  obtain ⟨_, rfl⟩ := h
  obtain ⟨keys, rfl⟩ := h'
  exact ⟨keys, rfl⟩

theorem onlyKeys_of_insert {a b : Db} {k : SigningKey} (h : a.insertSigningKey k = some b) :
    OnlyKeys a b := by
  obtain ⟨_, rfl⟩ := Db.insertSigningKey_eq_some.mp h
  exact ⟨_, rfl⟩

theorem onlyKeys_of_keyWrite {o : KeyObservation} {t : Label} {f : Db → Option Db} {a b : Db}
    (h : KeyWrite o t f) (hf : f a = some b) : OnlyKeys a b := by
  cases h with
  | insert id now => exact onlyKeys_of_insert hf
  | capped id now maxKeys =>
      unfold cappedInsert at hf
      split_ifs at hf
      · exact onlyKeys_of_insert hf
      · obtain rfl := Option.some.inj hf
        exact OnlyKeys.refl a
  | bump id now =>
      obtain rfl := Option.some.inj hf
      exact ⟨_, rfl⟩

section
variable {A : Label → (Db → Memory → Memory) → Prop} (o : KeyObservation)

theorem uses_flushBump (id : String) (now : Time) : Uses (KeyWrite o) A (flushBump id now) := by
  refine Uses.bind (Uses.exec (.bump id now)) fun n => ?_
  split_ifs <;> exact trivial

theorem uses_recordSigningKey (now bumpedAt : Time) (ids : List String) :
    Uses (KeyWrite o) A (recordSigningKey o now bumpedAt ids) := by
  induction ids with
  | nil => exact trivial
  | cons id ids ih =>
      refine Uses.bind (Uses.attempt (.insert id now)) fun ok => ?_
      cases ok with
      | true => exact trivial
      | false =>
          refine Uses.bind (Uses.query _) fun existing => ?_
          cases existing with
          | some existing => exact uses_flushBump o existing.id bumpedAt
          | none => exact ih

theorem uses_registerExplicitKey (id : String) (now bumpedAt : Time) (maxKeys : ℕ) :
    Uses (KeyWrite o) A (registerExplicitKey o id now bumpedAt maxKeys) := by
  have hbump : ∀ k : SigningKey, Uses (KeyWrite o) A (do
      flushBump k.id bumpedAt
      commit
      return true) := fun k => Uses.bind (uses_flushBump o k.id bumpedAt) fun _ => trivial
  refine Uses.bind (Uses.query _) fun existing => ?_
  cases existing with
  | some existing => exact hbump existing
  | none =>
      refine Uses.bind ⟨.capped id now maxKeys, fun _ => trivial, fun _ => trivial⟩ fun n => ?_
      match n with
      | none =>
          refine Uses.bind (Uses.query _) fun existing => ?_
          cases existing with
          | none => exact trivial
          | some existing => exact hbump existing
      | some 0 =>
          refine Uses.bind (Uses.query _) fun existing => ?_
          cases existing with
          | none => exact trivial
          | some existing => exact hbump existing
      | some (n + 1) =>
          refine Uses.bind (Uses.query _) fun existing => ?_
          cases existing <;> exact trivial

theorem uses_registerKey (user : User) (pubkey : String) (keyVersion : ℕ) (rowId : String)
    (now bumpedAt : Time) :
    Uses (KeyWrite ⟨user.id, pubkey, keyVersion, user.tokenGeneration⟩) A
      (registerKey user pubkey keyVersion rowId now bumpedAt) := by
  unfold registerKey
  cases decodeMultikey pubkey with
  | error e => exact trivial
  | ok _ =>
      refine Uses.bind (uses_registerExplicitKey _ _ _ _ _) fun ok => ?_
      cases ok <;> exact trivial

end

end AikoIsland.SigningKeys
