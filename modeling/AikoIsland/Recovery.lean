import AikoIsland.SigningKeys
import AikoIsland.Memberships

/-!
# Account recovery: start, finish, cancel, finalize

The social-recovery state machine over one `pending_recovery` row per account.
`finish` burns a nonce, recomputes the signed bytes from the verified
attestation, checks a quorum of the registered guardians and opens the pending
row with a deadline that is written once. `finalize` takes the row with one
guarded DELETE, purges the old credentials and keys, installs the staged
credential and raises the token generation, in one commit.

Server times, minted row ids, the drawn nonce and the drawn finalize token are
arguments. The text fields of an approval are what the request model has already
checked to be strings. The veto notification and the status reads are left out.
-/
namespace AikoIsland.Recovery
open Tables Gateway Passkeys SigningKeys Signing WriterLock RelyGuarantee

structure Settings where
  challengeTtl : Time
  vetoWindow : Time
  deriving DecidableEq, Repr

/-! ## The signed bytes and the quorum -/

def recoverDomainTag : String := "aikochat:recover:v1"

def approvalBytes (serverNonce : Bytes) (accountId newCredentialId newPublicKey : String) :
    Bytes :=
  lp (utf8 recoverDomainTag) ++ lp serverNonce ++ lp (utf8 accountId) ++
    lp (utf8 newCredentialId) ++ lp (utf8 newPublicKey)

structure Approval where
  approverPubkey : String
  sig : String
  deriving DecidableEq, Repr

/-- The presented signature decodes and verifies under the presented key. -/
def approvalVerifies (crypto : Crypto) (msg : Bytes) (a : Approval) : Bool :=
  match decodeMultikey a.approverPubkey, b64urlRaw a.sig sigRawLen "approval.sig" with
  | .ok rawPub, .ok sig => crypto.ed25519Verify rawPub sig msg
  | _, _ => false

/-- `_verify_quorum`: `true` when it returns, `false` when it raises `QuorumRejected`. -/
def verifyQuorum (crypto : Crypto) (registered : List String) (msg : Bytes) (thresholdK : ℕ) :
    List Approval → List String → Bool
  | [], _ => false
  | a :: approvals, satisfied =>
      if a.approverPubkey ∈ satisfied then
        verifyQuorum crypto registered msg thresholdK approvals satisfied
      else if a.approverPubkey ∉ registered then
        verifyQuorum crypto registered msg thresholdK approvals satisfied
      else if approvalVerifies crypto msg a then
        if thresholdK ≤ satisfied.length + 1 then true
        else verifyQuorum crypto registered msg thresholdK approvals
          (a.approverPubkey :: satisfied)
      else verifyQuorum crypto registered msg thresholdK approvals satisfied

/-! ## The service -/

def policyOf (userId : String) (db : Db) : Option RecoveryPolicy :=
  db.policies.find? fun p => p.userId = userId

def approverKeys (userId : String) (db : Db) : List String :=
  (db.approvers.filter fun a => a.userId = userId).map (·.approverPubkey)

def userByHandle (handle : String) (db : Db) : Option User :=
  db.users.find? fun u => u.username = handle

/-- Returns the nonce text and the threshold. -/
def startRecovery (settings : Settings) (user : User) (raw : Bytes) (sweptAt now : Time) :
    Body (String × ℕ) := do
  match ← select (policyOf user.id) with
  | none => throwExn (.noRecoveryPolicy "account has no recovery policy")
  | some policy =>
      let state ← storeChallenge raw .recover sweptAt now settings.challengeTtl
      return (state, policy.thresholdK)

def reclaimExpired (userId : String) (now : Time) (db : Db) : Db :=
  { db with pending := db.pending.filter fun r =>
      !(r.userId = userId && decide (r.vetoDeadline ≤ now)) }

structure FinishRequest where
  serverNonce : String
  attestation : String
  approvals : List Approval
  consumedAt : Time
  now : Time
  pendingId : String
  finalizeToken : String
  deriving DecidableEq, Repr

def FinishRequest.pendingRow (req : FinishRequest) (settings : Settings) (crypto : Crypto)
    (user : User) (material : Material) : PendingRecovery where
  id := req.pendingId
  userId := user.id
  stagedCredentialId := material.credentialId
  stagedPublicKey := material.publicKey
  stagedSignCount := material.signCount
  vetoDeadline := req.now + settings.vetoWindow
  finalizeTokenHash := crypto.sha256Hex req.finalizeToken
  createdAt := req.now

/-- Does not commit: the route does, after it has read the outcome. -/
def finishRecovery (settings : Settings) (crypto : Crypto) (user : User) (req : FinishRequest) :
    Body PendingRecovery := do
  match ← select (policyOf user.id) with
  | none => throwExn (.noRecoveryPolicy "account has no recovery policy")
  | some policy =>
      let registered ← select (approverKeys user.id)
      match ← consumeChallenge req.serverNonce .recover req.consumedAt with
      | none => throwExn (.quorumRejected "invalid or expired recovery nonce")
      | some raw =>
          match crypto.verifyRegistration raw req.attestation with
          | .error .invalidJsonStructure => throwExn .invalidJsonStructure
          | .error .invalidRegistrationResponse => throwExn .invalidRegistrationResponse
          | .error (.raised type) => throwExn (.raised type)
          | .ok material =>
              let msg := approvalBytes raw user.id material.credentialId material.publicKey
              if !verifyQuorum crypto registered msg policy.thresholdK req.approvals [] then
                throwExn (.quorumRejected "recovery quorum not satisfied")
              else
                execute (reclaimExpired user.id req.now) (fun _ => ()) .plain
                match ← select fun db => db.pending.find? fun r => r.userId = user.id with
                | some _ =>
                    rollback
                    throwExn (.recoveryAlreadyPending
                      "a recovery is already pending for this account")
                | none =>
                    let row := req.pendingRow settings crypto user material
                    if ← flushNested (fun db => db.insertPending row) .plain then
                      return row
                    else
                      rollback
                      throwExn (.recoveryAlreadyPending
                        "a recovery is already pending for this account")

def cancelRecovery (userId : String) : Body Bool := do
  let rowcount ← execute
    (fun db => { db with pending := db.pending.filter fun r => r.userId ≠ userId })
    (fun db => (db.pending.filter fun r => r.userId = userId).length) .plain
  return decide (0 < rowcount)

def finalizeWhere (recoveryId tokenHash : String) (now : Time) (r : PendingRecovery) : Bool :=
  r.id = recoveryId && r.finalizeTokenHash = tokenHash && decide (r.vetoDeadline ≤ now)

def generationOf (userId : String) (db : Db) : ℕ :=
  ((db.userById userId).map (·.tokenGeneration)).getD 0

/-- `UPDATE users SET token_generation = token_generation + 1`, with the recovery added to the
history; RETURNING gives `generationOf userId db + 1`. -/
def bumpGeneration (userId credentialId : String) (db : Db) : Db :=
  { db with
    users := db.users.map fun u =>
      if u.id = userId then { u with tokenGeneration := u.tokenGeneration + 1 } else u
    rekeys := db.rekeys ++ [⟨userId, generationOf userId db + 1, credentialId⟩] }

theorem userById_bumpGeneration (userId credentialId id : String) (db : Db) :
    (bumpGeneration userId credentialId db).userById id = (db.userById id).map fun u =>
      if u.id = userId then { u with tokenGeneration := u.tokenGeneration + 1 } else u := by
  refine Db.userById_map db (fun u => ?_) id
  split_ifs <;> rfl

theorem generationOf_bumpGeneration {db : Db} {user : User} {id : String}
    (h : db.userById id = some user) (credentialId : String) :
    generationOf id (bumpGeneration id credentialId db) = generationOf id db + 1 := by
  have hid : user.id = id := (Db.mem_of_userById h).2
  simp [generationOf, userById_bumpGeneration, h, hid]

structure Session where
  userId : String
  generation : ℕ
  deriving DecidableEq, Repr

def stagedMaterial (row : PendingRecovery) : Material :=
  ⟨row.stagedCredentialId, row.stagedPublicKey, row.stagedSignCount, none, none⟩

/-- `finalize_recovery` after its guarded DELETE took `row`. -/
def finalizeRow (credentialRowId : String) (row : PendingRecovery) : Body (Option Session) := do
  match ← select fun db => db.userById row.userId with
  | none =>
      commit
      return none
  | some user =>
      execute (purgeUserCredentials row.userId) (fun _ => ()) .plain
      execute (purgeUserKeys row.userId) (fun _ => ()) .plain
      if ← flushNested (fun db => db.insertCredential
          (passkeyCredentialRow credentialRowId row.userId (stagedMaterial row) .recovery))
          .plain then
        let newGen ← execute (bumpGeneration user.id row.stagedCredentialId)
          (fun db => generationOf user.id db + 1) .plain
        commit
        return some ⟨user.id, newGen⟩
      else
        rollback
        return none

def takePending (recoveryId tokenHash : String) (now : Time) (db : Db) : Db :=
  { db with pending := db.pending.filter fun r => !finalizeWhere recoveryId tokenHash now r }

/-- The session on the winning call, `none` when no row matched or the account is gone. -/
def finalizeRecovery (crypto : Crypto) (recoveryId finalizeToken credentialRowId : String)
    (now : Time) : Body (Option Session) := do
  let tokenHash := crypto.sha256Hex finalizeToken
  let row ← execute (takePending recoveryId tokenHash now)
    (fun db => db.pending.find? (finalizeWhere recoveryId tokenHash now)) .plain
  match row with
  | none => return none
  | some row => finalizeRow credentialRowId row

/-- What the transaction of a taken row does to the store, unless the credential is in use. -/
def rekeyed (credentialRowId : String) (row : PendingRecovery) (user : User) (db : Db) :
    Option Db :=
  ((purgeUserKeys row.userId (purgeUserCredentials row.userId db)).insertCredential
    (passkeyCredentialRow credentialRowId row.userId (stagedMaterial row) .recovery)).map
      (bumpGeneration user.id row.stagedCredentialId)

theorem userById_rekeyed {credentialRowId : String} {row : PendingRecovery} {user : User}
    {w s : Db} (h : rekeyed credentialRowId row user w = some s) (id : String) :
    s.userById id = (w.userById id).map fun u =>
      if u.id = user.id then { u with tokenGeneration := u.tokenGeneration + 1 } else u := by
  obtain ⟨a, ha, rfl⟩ := Option.map_eq_some_iff.mp h
  obtain ⟨_, rfl⟩ := Db.insertCredential_eq_some.mp ha
  rw [userById_bumpGeneration]
  rfl

theorem settle_finalizeRow (credentialRowId : String) (row : PendingRecovery) (w : Db) :
    (finalizeRow credentialRowId row).settle w =
      match w.userById row.userId with
      | none => .committed .plain w (.ret none)
      | some user =>
          match rekeyed credentialRowId row user w with
          | none => .rolledBack (.ret none)
          | some s => .committed .plain s (.ret (some ⟨user.id, generationOf user.id s⟩)) := by
  change Request.settle (match w.userById row.userId with | none => _ | some user => _) w = _
  cases huser : w.userById row.userId with
  | none => rfl
  | some user =>
      have hid : user.id = row.userId := (Db.mem_of_userById huser).2
      dsimp only
      unfold rekeyed
      cases hins : (purgeUserKeys row.userId
          (purgeUserCredentials row.userId w)).insertCredential
        (passkeyCredentialRow credentialRowId row.userId (stagedMaterial row) .recovery) with
      | none =>
          simp only [execute, flushNested, Request.settle, Request.exec, Request.attempt, bind,
            Request.bind, hins, Option.map_none]
          rfl
      | some s =>
          have hfound : s.userById user.id = some user := by
            obtain ⟨_, rfl⟩ := Db.insertCredential_eq_some.mp hins
            rw [hid]
            exact huser
          simp only [execute, flushNested, Request.settle, Request.exec, Request.attempt, bind,
            Request.bind, hins, Option.map_some, generationOf_bumpGeneration hfound]
          rfl

section
variable {π : Type} {S : Spec π Db Memory Label} {p : π} {x : Point Db Memory}

/-- A finalize is one guarded transaction: it takes nothing, or it drops the row of an account
that is gone, or it re-keys the account; each time as one step on the store of that moment. -/
theorem safe_finalizeRecovery (crypto : Crypto) (recoveryId finalizeToken credentialRowId : String)
    (now : Time) (hx : x.work = none) (hi : S.inv x.db x.mem)
    {Q : Option Session → Point Db Memory → Prop} {E : Exn → Point Db Memory → Prop}
    (hnone : ∀ y, S.Env p x y → Q none y)
    (hgone : ∀ y row, S.Env p x y →
      y.db.pending.find? (finalizeWhere recoveryId (crypto.sha256Hex finalizeToken) now) =
        some row → y.db.userById row.userId = none →
      S.Allows p y { y with
          db := takePending recoveryId (crypto.sha256Hex finalizeToken) now y.db } ∧
        ∀ z, S.Env p { y with
          db := takePending recoveryId (crypto.sha256Hex finalizeToken) now y.db } z → Q none z)
    (hwin : ∀ y row user s, S.Env p x y →
      y.db.pending.find? (finalizeWhere recoveryId (crypto.sha256Hex finalizeToken) now) =
        some row → y.db.userById row.userId = some user →
      rekeyed credentialRowId row user
        (takePending recoveryId (crypto.sha256Hex finalizeToken) now y.db) = some s →
      S.Allows p y { y with db := s } ∧
        ∀ z, S.Env p { y with db := s } z → Q (some ⟨user.id, generationOf user.id s⟩) z) :
    Safe S p (finalizeRecovery crypto recoveryId finalizeToken credentialRowId now).session Q E
      x := by
  refine Safe.session (Safe.exec fun y hy _ => ?_) hi
  rw [Point.view_of_none (hy.free hx)]
  generalize crypto.sha256Hex finalizeToken = tokenHash at *
  -- the lock is held from here on: the rest settles on the working copy
  have hsame : ∀ {z : Point Db Memory} {w : Db}, S.Env p { y with work := some w } z →
      S.Env p x z.rolledBack ∧ z.rolledBack.db = y.db := fun hz =>
    ⟨hy.unlocked hx hz, hz.held rfl⟩
  cases hrow : y.db.pending.find? (finalizeWhere recoveryId tokenHash now) with
  | none => exact Safe.pure fun z hz v hv => hnone v ((hsame hz).1.trans hv)
  | some row =>
      refine Safe.settle rfl ?_
      rw [settle_finalizeRow]
      cases huser : y.db.userById row.userId with
      | none =>
          have htaken : (takePending recoveryId tokenHash now y.db).userById row.userId = none :=
            huser
          rw [htaken]
          intro z hz _
          obtain ⟨henv, hdb⟩ := hsame hz
          rw [Point.committed_of_view (hz.view_eq rfl), ← hdb]
          obtain ⟨hallow, hQ⟩ := hgone z.rolledBack row henv (by rw [hdb, hrow]) (by rw [hdb, huser])
          exact ⟨⟨hallow.inv, hallow.others⟩, Safe.pure fun v hv u hu =>
            hQ u (hv.rolledBack.trans hu)⟩
      | some user =>
          have htaken : (takePending recoveryId tokenHash now y.db).userById row.userId =
            some user := huser
          rw [htaken]
          dsimp only
          cases hkey : rekeyed credentialRowId row user (takePending recoveryId tokenHash now y.db)
            with
          | none =>
              intro z hz
              have henv : S.Env p x z := (hy.rolledBack_of_free hx).trans hz
              exact Safe.pure fun v hv u hu =>
                hnone u (((henv.trans hv).rolledBack_of_free hx).trans hu)
          | some s =>
              intro z hz _
              obtain ⟨henv, hdb⟩ := hsame hz
              rw [Point.committed_of_view (hz.view_eq rfl)]
              obtain ⟨hallow, hQ⟩ := hwin z.rolledBack row user s henv (by rw [hdb, hrow])
                (by rw [hdb, huser]) (by rw [hdb, hkey])
              exact ⟨⟨hallow.inv, hallow.others⟩, Safe.pure fun v hv u hu =>
                hQ u (hv.rolledBack.trans hu)⟩

end

/-! ## The routes -/

def recoverStart (settings : Settings) (handle : String) (raw : Bytes) (sweptAt now : Time) :
    Body (String × ℕ) := do
  match ← select (userByHandle handle) with
  | none => throwExn (.http 404 "no recovery available")
  | some user =>
      (startRecovery settings user raw sweptAt now).handle fun e =>
        match e with
        | .noRecoveryPolicy _ => throwExn (.http 404 "no recovery available")
        | e => throwExn e

def recoverFinish (settings : Settings) (crypto : Crypto) (handle : String)
    (req : FinishRequest) : Body PendingRecovery := do
  match ← select (userByHandle handle) with
  | none => throwExn (.http 404 "no recovery available")
  | some user =>
      let result ← (finishRecovery settings crypto user req).handle fun e =>
        match e with
        | .noRecoveryPolicy _ => do
            rollback
            throwExn (.http 404 "no recovery available")
        | .invalidRegistrationResponse => do
            rollback
            -- the log line before the 401 reads `user.id`, which the rollback has expired
            throwExn .missingGreenlet
        | .recoveryAlreadyPending _ => throwExn (.http 409 "a recovery is already pending")
        | .quorumRejected _ => do
            rollback
            -- as above
            throwExn .missingGreenlet
        | e => throwExn e
      commit
      return result

def recoverCancel (token : Option Claims) : Body Bool := do
  let user ← getCurrentUser token
  let cancelled ← cancelRecovery user.id
  commit
  return cancelled

def purgePending (userId : String) (db : Db) : Db :=
  { db with pending := db.pending.filter fun r => r.userId ≠ userId }

def purgeApprovers (userId : String) (db : Db) : Db :=
  { db with approvers := db.approvers.filter fun a => a.userId ≠ userId }

def purgePolicies (userId : String) (db : Db) : Db :=
  { db with policies := db.policies.filter fun p => p.userId ≠ userId }

end AikoIsland.Recovery
