import AikoIsland.AppendOnly
import AikoIsland.Guardians
import AikoIsland.Ledger
import AikoIsland.Realtime

/-!
# Pending recoveries and their ledger

All the requests that act on a pending recovery, among any other requests that leave
the rosters and the pending rows alone, sign-ups among them, at the granularity of SQL
statements. A finish reads the roster before it takes the writer lock, so the account
may be gone by then and its roster with it; while the account is there its roster is
the one that was read, since nothing rotates it.

The store carries the ledger of its pending rows: which finish opened a row, and which
request took it. `Chronicle` says that table and ledger agree, that an opened row is the
staged credential of its finish, approved by a quorum of the roster that still stands,
and that whoever took a row was entitled to it.

The ids that the finishes mint are distinct. What is said of the roster of an account
supposes that no sign-up of the run creates its id: an account that was deleted and
signed up again under its old id would be without the guardians it had.
-/
namespace AikoIsland.PendingLedger
open Tables Gateway Passkeys Signing Recovery Accounts AccountDeletion Quorum Guardians Ledger
  WriterLock RelyGuarantee Publishing History Footprint Settling Transactions AppendOnly

/-! ## The requests -/

/-- `recovery_status` as the route shows it. -/
def recoveryStatus (userId : String) (db : Db) : Option (String × Time) :=
  (db.pending.find? fun r => r.userId = userId).map fun r => (r.id, r.vetoDeadline)

/-- `DELETE /me/account`. -/
def deleteAccount (token : Option Claims) : Body Unit := do
  let user ← getCurrentUser token
  (deleteUserAccount user.id).handle fun e =>
    match e with
    | .cannotDeleteSoleAdmin _ => throwExn (.http 409
        ("You are the sole admin of one or more channels. Transfer them to " ++
          "another member or leave them before deleting your account."))
    | e => throwExn e
  disconnectUser user.id
  return ()

/-- The rosters and the pending rows are as they were, and an account is one that was there or
one of those that are minted. -/
structure Untouched (mints : String → Prop) (a b : Db) : Prop where
  rosters : SameRosters a b
  pending : b.pending = a.pending
  users : ∀ userId, Alive userId b → Alive userId a ∨ mints userId

/-- Any other request; a sign-up creates accounts with the ids that it mints. -/
structure Bystander where
  body : Body Unit
  mints : String → Prop
  spares : Uses (fun _ f => ∀ a b, f a = some b → Untouched mints a b) (fun _ _ => True) body

inductive RecoveryRequest where
  | enroll (token : Option Claims) (approverPubkeys : List String) (k : ℕ) (newUlid : ℕ → String)
  | policy (token : Option Claims)
  | start (handle : String) (raw : Bytes) (sweptAt now : Time)
  | finish (handle : String) (req : FinishRequest)
  | status (token : Option Claims)
  | cancel (token : Option Claims)
  | finalize (recoveryId finalizeToken credentialRowId : String) (now : Time)
  | deleteAccount (token : Option Claims)
  | other (bystander : Bystander)

inductive Answer where
  | enrolled (result : EnrollResult)
  | policy (view : Option (ℕ × List String))
  | started (serverNonce : String) (thresholdK : ℕ)
  | pending (row : PendingRecovery)
  | status (view : Option (String × Time))
  | cancelled (deleted : Bool)
  | session (outcome : Session)
  | done
  deriving DecidableEq, Repr

variable {π : Type} (settings : Settings) (crypto : Crypto)

def RecoveryRequest.route : RecoveryRequest → Body Answer
  | .enroll token approverPubkeys k newUlid => do
      let result ← recoveryEnroll token approverPubkeys k newUlid
      return .enrolled result
  | .policy token => do
      let view ← recoveryPolicy token
      return .policy view
  | .start handle raw sweptAt now => do
      let result ← recoverStart settings handle raw sweptAt now
      return .started result.1 result.2
  | .finish handle req => do
      let row ← recoverFinish settings crypto handle req
      return .pending row
  | .status token => do
      let user ← getCurrentUser token
      let view ← select (recoveryStatus user.id)
      return .status view
  | .cancel token => do
      let deleted ← recoverCancel token
      return .cancelled deleted
  | .finalize recoveryId finalizeToken credentialRowId now => do
      let outcome ← Realtime.recoverFinalize crypto recoveryId finalizeToken credentialRowId now
      return .session outcome
  | .deleteAccount token => do
      PendingLedger.deleteAccount token
      return .done
  | .other bystander => do
      bystander.body
      return .done

def RecoveryRequest.body (r : RecoveryRequest) : Body Answer := (r.route settings crypto).session

/-! ## The ledger -/

abbrev Store (π : Type) := Db × List (Entry π PendingRecovery)

def pendingNotes (p : π) (a b : Db) : List (Entry π PendingRecovery) := notes p a.pending b.pending

/-- No request of the run creates the account. -/
def Original (reqs : π → RecoveryRequest) (userId : String) : Prop :=
  ∀ p bystander, reqs p = .other bystander → ¬bystander.mints userId

/-- `row` is what this request stages, and while its account, one of `old`, is there a quorum of
the account's roster has signed the bytes that name the staged credential. -/
def Opens (old : String → Prop) : RecoveryRequest → Db → PendingRecovery → Prop
  | .finish handle req, db, row => ∃ raw user material,
      user.username = handle ∧ base64urlToBytes req.serverNonce = some raw ∧
      crypto.verifyRegistration raw req.attestation = .ok material ∧
      row = req.pendingRow settings crypto user material ∧
      (old user.id → Alive user.id db → ∃ policy ∈ db.policies, policy.userId = user.id ∧
        policy.thresholdK ≤ (counted crypto (approverKeys user.id db)
          (approvalBytes raw user.id material.credentialId material.publicKey)
            req.approvals).card)
  | _, _, _ => False

/-- This request of `p` may take `row`: a finish takes a row of the account for which it opens
its own. -/
def Closes (p : π) (log : List (Entry π PendingRecovery)) :
    RecoveryRequest → PendingRecovery → Prop
  | .finish _ req, row => row.vetoDeadline ≤ req.now ∧
      ∃ row', .opened p row' ∈ log ∧ row'.userId = row.userId
  | .cancel token, row => ∃ claims, token = some claims ∧ claims.userId = row.userId
  | .finalize recoveryId finalizeToken _ now, row =>
      row.id = recoveryId ∧ row.finalizeTokenHash = crypto.sha256Hex finalizeToken ∧
        row.vetoDeadline ≤ now
  | .deleteAccount token, row => ∃ claims, token = some claims ∧ claims.userId = row.userId
  | _, _ => False

variable (reqs : π → RecoveryRequest)

structure Chronicle (s : Store π) : Prop where
  rostered : Rostered s.1
  balanced : Balanced (·.id) s.1.pending s.2
  single : (s.1.pending.map (·.userId)).Nodup
  opening : ∀ p row, .opened p row ∈ s.2 →
    Opens settings crypto (Original reqs) (reqs p) s.1 row
  closing : ∀ p row, .closed p row ∈ s.2 → Closes crypto p s.2 (reqs p) row

/-- What a request does: rosters stand, and it makes its own entries. -/
structure Advances (p : π) (s s' : Store π) : Prop where
  frozen : Frozen (Original reqs) s.1 s'.1
  entries : Appends (fun e => e.by = p) s.2 s'.2

/-- What the others do. -/
structure Others (p : π) (s s' : Store π) : Prop where
  frozen : Frozen (Original reqs) s.1 s'.1
  entries : Appends (fun e => e.by ≠ p) s.2 s'.2

def spec : Spec π (Store π) Memory Label where
  inv s _ := Chronicle settings crypto reqs s
  rely p s _ s' _ := Others reqs p s s'
  meets _ _ := True
  rely_refl _ _ _ := ⟨Frozen.refl _, Appends.refl _ _⟩
  rely_trans h h' := ⟨h.frozen.trans h'.frozen, h.entries.trans h'.entries⟩

section
variable {settings crypto reqs} {p : π} {s s' : Store π} {b : Db} {x y : Point (Store π) Memory}

theorem allows_of_advances (hG : Advances reqs p y.db s') (hc : Chronicle settings crypto reqs s') :
    (spec settings crypto reqs).Allows p y { y with db := s' } := by
  constructor
  · exact hc
  · intro q hq
    constructor
    · exact hG.frozen
    · exact hG.entries.mono fun e he heq => hq (heq.symm.trans he)

/-- An opening stays approved while rosters stand. -/
theorem Opens.frozen {old : String → Prop} {r : RecoveryRequest} {a b : Db} {row : PendingRecovery}
    (h : Opens settings crypto old r a row) (hf : Frozen old a b) :
    Opens settings crypto old r b row := by
  cases r with
  | finish handle req =>
      obtain ⟨raw, user, material, hhandle, hraw, hmaterial, hrow, happroved⟩ := h
      refine ⟨raw, user, material, hhandle, hraw, hmaterial, hrow, ?_⟩
      intro hold halive
      obtain ⟨policy, hpolicy, huser, hcount⟩ := happroved hold (hf.users user.id hold halive)
      obtain ⟨hstands, hkeys⟩ := hf.rosters policy hpolicy (by rw [huser]; exact hold)
        (by rw [huser]; exact halive)
      rw [huser] at hkeys
      rw [← hkeys] at hcount
      exact ⟨policy, hstands, huser, hcount⟩
  | _ => exact h.elim

/-- What entitles a request stays in the ledger. -/
theorem Closes.append {log more : List (Entry π PendingRecovery)} {r : RecoveryRequest}
    {row : PendingRecovery} (h : Closes crypto p log r row) :
    Closes crypto p (log ++ more) r row := by
  cases r with
  | finish handle req =>
      obtain ⟨hdeadline, row', hrow', huser⟩ := h
      exact ⟨hdeadline, row', List.mem_append_left _ hrow', huser⟩
  | _ => exact h

/-- The pending rows as they were. -/
theorem Chronicle.move (h : Chronicle settings crypto reqs s)
    (hf : Frozen (Original reqs) s.1 b)
    (hr : Rostered b) (hp : b.pending = s.1.pending) :
    Chronicle settings crypto reqs (b, s.2) := by
  constructor
  · exact hr
  · rw [hp]
    exact h.balanced
  · rw [hp]
    exact h.single
  · exact fun p row hrow => (h.opening p row hrow).frozen hf
  · exact h.closing

/-- The rows of a kind are taken. -/
theorem Chronicle.take (h : Chronicle settings crypto reqs s) {drop : PendingRecovery → Bool}
    (hf : Frozen (Original reqs) s.1 b) (hr : Rostered b)
    (hp : b.pending = s.1.pending.filter fun r => !drop r)
    (hcloses : ∀ row ∈ s.1.pending, drop row = true → Closes crypto p s.2 (reqs p) row) :
    Chronicle settings crypto reqs
      (b, s.2 ++ (s.1.pending.filter drop).map (Entry.closed p)) := by
  constructor
  · exact hr
  · rw [hp]
    exact h.balanced.close drop p
  · rw [hp]
    exact h.single.sublist (List.filter_sublist.map _)
  · intro q row hrow
    rcases List.mem_append.mp hrow with hold | hnew
    · exact (h.opening q row hold).frozen hf
    · obtain ⟨r, _, heq⟩ := List.mem_map.mp hnew
      cases heq
  · intro q row hrow
    rcases List.mem_append.mp hrow with hold | hnew
    · exact (h.closing q row hold).append
    · obtain ⟨r, hr, heq⟩ := List.mem_map.mp hnew
      cases heq
      obtain ⟨hmem, hdrop⟩ := List.mem_filter.mp hr
      exact (hcloses row hmem hdrop).append

/-- A finish takes the expired rows of the account and opens its own. -/
theorem Chronicle.reopen (h : Chronicle settings crypto reqs s) {drop : PendingRecovery → Bool}
    {row : PendingRecovery} {handle : String} {req : FinishRequest}
    (hreq : reqs p = .finish handle req) (hf : Frozen (Original reqs) s.1 b) (hr : Rostered b)
    (hp : b.pending = (s.1.pending.filter fun r => !drop r) ++ [row])
    (hnew : ∀ q r, .opened q r ∈ s.2 → r.id ≠ row.id)
    (hfree : ∀ r ∈ s.1.pending, r.userId = row.userId → drop r = true)
    (hopens : Opens settings crypto (Original reqs) (reqs p) b row)
    (hcloses : ∀ r ∈ s.1.pending, drop r = true → r.vetoDeadline ≤ req.now ∧
      r.userId = row.userId) :
    Chronicle settings crypto reqs
      (b, s.2 ++ ((s.1.pending.filter drop).map (Entry.closed p) ++ [.opened p row])) := by
  rw [← List.append_assoc]
  have hentries : ∀ q r, .opened q r ∈ s.2 ++ (s.1.pending.filter drop).map (Entry.closed p) →
      .opened q r ∈ s.2 := by
    intro q r hmem
    rcases List.mem_append.mp hmem with hold | hlast
    · exact hold
    · obtain ⟨r', _, heq⟩ := List.mem_map.mp hlast
      cases heq
  constructor
  · exact hr
  · rw [hp]
    exact (h.balanced.close drop p).open p fun q r hmem => hnew q r (hentries q r hmem)
  · rw [hp, List.map_append, List.nodup_append]
    refine ⟨h.single.sublist (List.filter_sublist.map _), List.nodup_singleton _, ?_⟩
    intro u hu v hv
    obtain ⟨r, hmem, rfl⟩ := List.mem_map.mp hu
    obtain ⟨hpending, hkept⟩ := List.mem_filter.mp hmem
    rw [List.map_singleton, List.mem_singleton] at hv
    rw [hv]
    intro hsame
    simp [hfree r hpending hsame] at hkept
  · intro q r hmem
    rcases List.mem_append.mp hmem with hold | hlast
    · exact (h.opening q r (hentries q r hold)).frozen hf
    · cases List.mem_singleton.mp hlast
      exact hopens
  · intro q r hmem
    rcases List.mem_append.mp hmem with hbefore | hlast
    · rcases List.mem_append.mp hbefore with hold | hclosed
      · exact (h.closing q r hold).append.append
      · obtain ⟨r', hr', heq⟩ := List.mem_map.mp hclosed
        cases heq
        obtain ⟨hdeadline, huser⟩ :=
          hcloses r (List.mem_filter.mp hr').1 (List.mem_filter.mp hr').2
        rw [hreq]
        exact ⟨hdeadline, row, List.mem_append_right _ (List.mem_singleton_self _), huser.symm⟩
    · cases List.mem_singleton.mp hlast

theorem advances_closed {rows : List PendingRecovery} (hf : Frozen (Original reqs) s.1 b) :
    Advances reqs p s (b, s.2 ++ rows.map (Entry.closed p)) := by
  constructor
  · exact hf
  · refine ⟨_, rfl, ?_⟩
    intro e he
    obtain ⟨r, _, rfl⟩ := List.mem_map.mp he
    rfl

/-- The request has made no entry. -/
def Unlogged (p : π) (s : Store π) : Prop := ∀ e ∈ s.2, e.by ≠ p

theorem Unlogged.others (h : Unlogged p s) (ho : Others reqs p s s') : Unlogged p s' := by
  intro e he
  rcases ho.entries.cases he with hold | hother
  · exact h e hold
  · exact hother

/-! ## What each request publishes -/

/-- The finalize that took `row` of an account that is there. -/
structure Rekeys (crypto : Crypto) (p : π) (recoveryId finalizeToken credentialRowId : String)
    (now : Time) (row : PendingRecovery) (user : User) (s s' : Store π) : Prop where
  taken : s.1.pending.find? (finalizeWhere recoveryId (crypto.sha256Hex finalizeToken) now) =
    some row
  account : s.1.userById row.userId = some user
  rekeyed : rekeyed credentialRowId row user
    (takePending recoveryId (crypto.sha256Hex finalizeToken) now s.1) = some s'.1
  closed : .closed p row ∈ s'.2

/-- The finalize that took the row of an account that is gone, and did nothing else. -/
structure Drops (crypto : Crypto) (recoveryId finalizeToken : String) (now : Time)
    (s s' : Store π) : Prop where
  store : s'.1 = takePending recoveryId (crypto.sha256Hex finalizeToken) now s.1
  gone : ∀ row ∈ s.1.pending, row ∉ s'.1.pending → ¬Alive row.userId s.1

/-- What a request owes to its answer. -/
def Answered (crypto : Crypto) (p : π) :
    RecoveryRequest → Option (Store π × Store π) → Except Exn Answer → Prop
  | .other _, _, _ => True
  | _, none, .error _ => True
  | .finalize recoveryId finalizeToken _ now, some ab, .error _ =>
      Drops crypto recoveryId finalizeToken now ab.1 ab.2
  | .policy _, none, .ok _ => True
  | .status _, none, .ok _ => True
  | .start _ _ _ _, some ab, .ok _ => Untouched (fun _ => False) ab.1.1 ab.2.1
  | .enroll token approverPubkeys k newUlid, some ab, .ok (.enrolled result) =>
      ∃ claims, token = some claims ∧ result = ⟨k, approverPubkeys.length⟩ ∧
        enrolled claims.userId approverPubkeys k newUlid ab.1.1 = some ab.2.1
  | .finish _ req, some ab, .ok (.pending row) => .opened p row ∈ ab.2.2 ∧
      burnRowcount req.serverNonce .recover req.consumedAt ab.1.1 = 1 ∧
      ab.2.1.challenges = (burnChallenge req.serverNonce .recover req.consumedAt ab.1.1).challenges
  | .cancel token, some ab, .ok (.cancelled deleted) => ∃ claims, token = some claims ∧
      (deleted = true ↔ ∃ row ∈ ab.1.1.pending, row.userId = claims.userId) ∧
      ∀ row ∈ ab.1.1.pending, row.userId = claims.userId → .closed p row ∈ ab.2.2
  | .finalize recoveryId finalizeToken credentialRowId now, some ab, .ok (.session outcome) =>
      ∃ row user, outcome = ⟨user.id, generationOf user.id ab.2.1⟩ ∧
        Rekeys crypto p recoveryId finalizeToken credentialRowId now row user ab.1 ab.2
  | .deleteAccount token, some ab, .ok .done => ∃ claims, token = some claims ∧
      Departed claims.userId ab.1.1 ab.2.1
  | _, _, _ => False

section
variable {past : List (Store π × Store π)}

theorem owed_error {r : RecoveryRequest} (e : Exn) :
    Owed (Answered crypto p r) [] (.error e) := by
  constructor
  · intro _
    cases r <;> trivial
  · exact fun ab hab => absurd hab List.not_mem_nil

/-- One publication, and its answer. -/
theorem owed_single {r : RecoveryRequest} {ab : Store π × Store π} {a : Answer}
    (h : Answered crypto p r (some ab) (.ok a)) : Owed (Answered crypto p r) [ab] (.ok a) := by
  constructor
  · intro hnil
    cases hnil
  · intro ab' hab
    rw [List.mem_singleton.mp hab]
    exact h

theorem pendingNotes_same {a b : Db} (h : b.pending = a.pending) : pendingNotes p a b = [] := by
  rw [pendingNotes, h]
  exact notes_same p a.pending

theorem publishes_body {α : Type} {route : Body α} {f : α → Answer} {r : RecoveryRequest}
    (h : Publishes (spec settings crypto reqs) p (Advances reqs p)
      (fun ab res => Answered crypto p r ab (res.map f)) past (noting (pendingNotes p) route) x) :
    Publishes (spec settings crypto reqs) p (Advances reqs p) (Answered crypto p r) past
      (noting (pendingNotes p) ((route >>= fun a => pure (f a)).session)) x := by
  rw [noting_session]
  apply Publishes.session
  rw [noting_bind]
  exact Publishes.map h

/-! ### Bystanders and reads -/

theorem Untouched.refl (mints : String → Prop) (a : Db) : Untouched mints a a :=
  ⟨SameRosters.refl a, rfl, fun _ => Or.inl⟩

theorem Untouched.trans {mints : String → Prop} {a b c : Db} (h : Untouched mints a b)
    (h' : Untouched mints b c) : Untouched mints a c := by
  constructor
  · exact h.rosters.trans h'.rosters
  · exact h'.pending.trans h.pending
  · intro userId hc
    rcases h'.users userId hc with hb | hminted
    · exact h.users userId hb
    · exact Or.inr hminted

theorem Untouched.frozen {bystander : Bystander} {a b : Db} (hreq : reqs p = .other bystander)
    (h : Untouched bystander.mints a b) : Frozen (Original reqs) a b := by
  apply h.rosters.frozen
  intro userId hold hb
  rcases h.users userId hb with ha | hminted
  · exact ha
  · exact absurd hminted (hold p bystander hreq)

theorem respects_bystander {bystander : Bystander} (hreq : reqs p = .other bystander) :
    Respects (spec settings crypto reqs) p (fun _ _ => True)
      (fun s s' => Untouched bystander.mints s.1 s'.1 ∧ s'.2 = s.2)
      (fun _ f' => ∃ f, (∀ a b, f a = some b → Untouched bystander.mints a b) ∧
        f' = noted (pendingNotes p) f)
      (fun _ _ => True) where
  refl _ := ⟨Untouched.refl _ _, rfl⟩
  trans h h' := ⟨h.1.trans h'.1, h'.2.trans h.2⟩
  stable _ _ := trivial
  write t f' z s hf _ _ _ _ hs := by
    obtain ⟨f, hspares, rfl⟩ := hf
    obtain ⟨hwrite, hlog⟩ := noted_eq_some.mp hs
    have huntouched := hspares _ _ hwrite
    rw [pendingNotes_same huntouched.pending, List.append_nil] at hlog
    exact ⟨huntouched, hlog⟩
  segment t g z _ hz _ _ := ⟨⟨hz, fun _ _ => ⟨Frozen.refl _, Appends.refl _ _⟩⟩, trivial⟩
  commit db mem s hdb _ hs := by
    obtain ⟨huntouched, hlog⟩ := hs
    refine ⟨⟨?_, ?_⟩, trivial⟩
    · have hmoved := hdb.move (huntouched.frozen hreq)
        (huntouched.rosters.rostered hdb.rostered) huntouched.pending
      rwa [← hlog] at hmoved
    · intro q _
      exact ⟨huntouched.frozen hreq, Appends.of_eq hlog⟩

theorem publishes_other (bystander : Bystander) (hreq : reqs p = .other bystander)
    (hx : x.work = none) :
    Publishes (spec settings crypto reqs) p (Advances reqs p) (Answered crypto p (.other bystander))
      [] (noting (pendingNotes p) ((RecoveryRequest.other bystander).body settings crypto)) x := by
  apply publishes_body
  have hview : Untouched bystander.mints x.db.1 x.view.1 ∧ x.view.2 = x.db.2 := by
    rw [Point.view_of_none hx]
    exact ⟨Untouched.refl _ _, rfl⟩
  apply (of_respects (respects_bystander hreq) ((uses_noting bystander.spares).mono
    (fun _ _ hw => hw) fun _ _ _ => trivial) hview).mono
  · intro a b hab
    exact ⟨hab.1.frozen hreq, Appends.of_eq hab.2⟩
  · intro ab res _
    trivial

theorem publishes_policy (token : Option Claims) :
    Publishes (spec settings crypto reqs) p (Advances reqs p) (Answered crypto p (.policy token)) []
      (noting (pendingNotes p) ((RecoveryRequest.policy token).body settings crypto)) x := by
  apply publishes_body
  apply publishes_noted_getCurrentUser
  · exact fun e => owed_error e
  · intro y user _ _ z _
    exact ⟨fun _ => trivial, fun ab hab => absurd hab List.not_mem_nil⟩

theorem publishes_status (token : Option Claims) :
    Publishes (spec settings crypto reqs) p (Advances reqs p) (Answered crypto p (.status token)) []
      (noting (pendingNotes p) ((RecoveryRequest.status token).body settings crypto)) x := by
  rw [RecoveryRequest.body, noting_session]
  apply Publishes.session
  apply publishes_noted_getCurrentUser
  · exact fun e => owed_error e
  · intro y user _ _ z _
    exact ⟨fun _ => trivial, fun ab hab => absurd hab List.not_mem_nil⟩

/-! ### Start -/

theorem settle_storeChallenge (raw : Bytes) (operation : PasskeyOperation)
    (sweptAt now ttl : Time) (s : Db) :
    Lost ((storeChallenge raw operation sweptAt now ttl).settle s) ∨
      ∃ s', s' = { s with challenges := s'.challenges } ∧
        (storeChallenge raw operation sweptAt now ttl).settle s =
          .committed .plain s' (.ret (bytesToBase64url raw)) := by
  have hsettle : (storeChallenge raw operation sweptAt now ttl).settle s =
      (flushOrRaise (fun db => db.insertChallenge
        ⟨bytesToBase64url raw, operation, now + ttl, false⟩) .plain >>= fun _ =>
          commit >>= fun _ => pure (bytesToBase64url raw)).settle (sweepChallenges sweptAt s) := rfl
  rw [hsettle]
  cases hinsert : (sweepChallenges sweptAt s).insertChallenge
      ⟨bytesToBase64url raw, operation, now + ttl, false⟩ with
  | none =>
      left
      rw [settle_flushOrRaise_none hinsert]
      trivial
  | some s' =>
      right
      rw [settle_flushOrRaise_some hinsert]
      obtain ⟨_, rfl⟩ := Db.insertChallenge_eq_some.mp hinsert
      exact ⟨_, rfl, rfl⟩

theorem uses_storeChallenge (raw : Bytes) (operation : PasskeyOperation)
    (sweptAt now ttl : Time) :
    Uses (fun _ f => ∀ s s', f s = some s' → pendingNotes p s s' = []) (fun _ _ => False)
      (storeChallenge raw operation sweptAt now ttl) := by
  apply Uses.bind
  · apply Uses.exec
    intro s s' h
    obtain rfl := Option.some.inj h
    exact pendingNotes_same rfl
  · intro _
    apply Uses.bind
    · apply uses_flushOrRaise
      intro s s' h
      obtain ⟨_, rfl⟩ := Db.insertChallenge_eq_some.mp h
      exact pendingNotes_same rfl
    · exact fun _ => trivial

theorem chronicle_untouched (h : Chronicle settings crypto reqs s)
    (hb : Untouched (fun _ => False) s.1 b) :
    Advances reqs p s (b, s.2) ∧ Chronicle settings crypto reqs (b, s.2) := by
  have hfrozen : Frozen (Original reqs) s.1 b :=
    hb.rosters.frozen fun userId _ halive => (hb.users userId halive).resolve_right id
  constructor
  · exact ⟨hfrozen, Appends.refl _ _⟩
  · exact h.move hfrozen (hb.rosters.rostered h.rostered) hb.pending

theorem yields_start {handle : String} {raw : Bytes} {sweptAt now : Time} {k : ℕ}
    {onError : Exn → Body (String × ℕ)} (hbarren : ∀ e, Barren (onError e))
    (hc : Chronicle settings crypto reqs y.db) :
    Yields (spec settings crypto reqs) p (Advances reqs p)
      (fun ab res => Answered crypto p (.start handle raw sweptAt now) ab
        (res.map fun a => .started a.1 a.2)) [] (pendingNotes p) y
      (y.db.2 ++ trail (pendingNotes p) ((storeChallenge raw .recover sweptAt now
        settings.challengeTtl >>= fun state => pure (state, k)).handle onError) y.db.1)
      (((storeChallenge raw .recover sweptAt now settings.challengeTtl >>= fun state =>
        pure (state, k)).handle onError).settle y.db.1) := by
  have hsilent : trail (pendingNotes p) ((storeChallenge raw .recover sweptAt now
      settings.challengeTtl >>= fun state => pure (state, k)).handle onError) y.db.1 = [] := by
    apply trail_of_silent (pendingNotes p)
      (W := fun _ f => ∀ s s', f s = some s' → pendingNotes p s s' = [])
      (A := fun _ _ => True) fun t f hf => hf
    apply Uses.handle
    · apply Uses.bind
      · exact (uses_storeChallenge raw .recover sweptAt now settings.challengeTtl).mono
          (fun _ _ h => h) fun _ _ _ => trivial
      · exact fun _ => trivial
    · exact fun e => (hbarren e).uses
  rw [hsilent, List.append_nil, settle_handle, settle_bind]
  rcases settle_storeChallenge raw .recover sweptAt now settings.challengeTtl y.db.1 with
    hlost | ⟨s', hs', hsettle⟩
  · exact Yields.of_lost ((hlost.andThen _).handled hbarren) fun e => owed_error e
  · rw [hsettle]
    have huntouched : Untouched (fun _ => False) y.db.1 s' := by
      rw [hs']
      exact ⟨⟨rfl, rfl⟩, rfl, fun _ => Or.inl⟩
    obtain ⟨hG, hc'⟩ := chronicle_untouched (p := p) hc huntouched
    exact ⟨hG, allows_of_advances hG hc', fun _ _ _ => owed_single huntouched⟩

theorem publishes_start (handle : String) (raw : Bytes) (sweptAt now : Time) (hx : x.work = none) :
    Publishes (spec settings crypto reqs) p (Advances reqs p)
      (Answered crypto p (.start handle raw sweptAt now)) []
      (noting (pendingNotes p)
        ((RecoveryRequest.start handle raw sweptAt now).body settings crypto)) x := by
  apply publishes_body
  intro y hy
  beta_reduce
  cases hfound : userByHandle handle y.view.1 with
  | none => exact owed_error _
  | some user =>
      intro z hz
      beta_reduce
      cases hpolicy : policyOf user.id z.view.1 with
      | none => exact owed_error _
      | some policy =>
          have hfree : z.work = none := (hy.trans hz).free hx
          apply publishes_transaction hfree
          · exact ⟨_, _, _, _, rfl⟩
          · intro v hv
            apply yields_start _ hv.inv
            intro e
            cases e <;> trivial

/-! ### Enrolment -/

theorem uses_enrolling {α : Type} (userId : String) (pks : List String) (k : ℕ)
    (newUlid : ℕ → String) (a : α) :
    Uses (fun _ f => ∀ s s', f s = some s' → pendingNotes p s s' = []) (fun _ _ => False)
      (enrolling userId pks k newUlid a) := by
  apply Uses.bind
  · apply uses_flushOrRaise
    intro s s' h
    obtain ⟨_, rfl⟩ := insertPolicy_eq_some.mp h
    exact pendingNotes_same rfl
  · intro _
    apply Uses.bind
    · apply Uses.forM
      intro a _
      apply uses_flushOrRaise
      intro s s' h
      obtain ⟨_, rfl⟩ := insertApprover_eq_some.mp h
      exact pendingNotes_same rfl
    · exact fun _ => trivial

theorem yields_enroll {token : Option Claims} {claims : Claims} {pks : List String} {k : ℕ}
    {newUlid : ℕ → String} {userId : String} (htoken : token = some claims)
    (huser : userId = claims.userId) (hvalid : validateEnrollment pks k = .ok pks)
    {onResult : Except EnrollRefusal EnrollResult → Body EnrollResult}
    (hresult : onResult (.ok ⟨k, pks.length⟩) = .ret ⟨k, pks.length⟩)
    (hc : Chronicle settings crypto reqs y.db) :
    Yields (spec settings crypto reqs) p (Advances reqs p)
      (fun ab res => Answered crypto p (.enroll token pks k newUlid) ab (res.map .enrolled)) []
      (pendingNotes p) y
      (y.db.2 ++ trail (pendingNotes p)
        (enrolling userId pks k newUlid (.ok ⟨k, pks.length⟩) >>= onResult) y.db.1)
      ((enrolling userId pks k newUlid (.ok ⟨k, pks.length⟩) >>= onResult).settle y.db.1) := by
  obtain ⟨_, hk, hle, hmax, hkeys, hnodup⟩ := of_validateEnrollment hvalid
  have htrail := trail_of_silent (pendingNotes p)
    (W := fun _ f => ∀ s s', f s = some s' → pendingNotes p s s' = []) (fun t f hf => hf)
    (uses_enrolling userId pks k newUlid
      (.ok ⟨k, pks.length⟩ : Except EnrollRefusal EnrollResult)) y.db.1
  rw [trail_bind, htrail, settle_bind, settle_enrolling]
  cases henrolled : enrolled userId pks k newUlid y.db.1 with
  | none => exact fun z => owed_error _
  | some s' =>
      have hfrozen : Frozen (Original reqs) y.db.1 s' := frozen_enrolled hc.rostered henrolled
      have hrostered := rostered_enrolled hc.rostered ⟨hk, hle, hmax⟩ hkeys hnodup henrolled
      have hpending : s'.pending = y.db.1.pending := by rw [(enrolled_eq_some henrolled).2]
      have hc' := hc.move hfrozen hrostered hpending
      have hG : Advances reqs p y.db (s', y.db.2) := ⟨hfrozen, Appends.refl _ _⟩
      dsimp only [trailAfter, andThen, Yields]
      rw [List.append_nil, List.append_nil]
      refine ⟨hG, allows_of_advances hG hc', ?_⟩
      intro z _ _
      change Publishes _ _ _ _ _ (noting _ (onResult (.ok ⟨k, pks.length⟩))) z
      rw [hresult]
      apply owed_single
      rw [huser] at henrolled
      exact ⟨claims, htoken, rfl, henrolled⟩

theorem publishes_enroll (token : Option Claims) (pks : List String) (k : ℕ)
    (newUlid : ℕ → String) (hx : x.work = none) :
    Publishes (spec settings crypto reqs) p (Advances reqs p)
      (Answered crypto p (.enroll token pks k newUlid)) []
      (noting (pendingNotes p)
        ((RecoveryRequest.enroll token pks k newUlid).body settings crypto)) x := by
  apply publishes_body
  apply publishes_noted_getCurrentUser
  · exact fun e => owed_error e
  · intro y user hy hgate
    obtain ⟨claims, htoken, hfound, _, _⟩ := gate_eq_ok hgate
    have huser : user.id = claims.userId := (Db.mem_of_userById hfound).2
    split_ifs
    · exact owed_error _
    · unfold enrollPolicy
      cases hvalid : validateEnrollment pks k with
      | error detail => exact fun z _ => owed_error _
      | ok accepted =>
          obtain rfl : accepted = pks := (of_validateEnrollment hvalid).1
          intro z hz
          beta_reduce
          cases hpolicy : policyOf user.id z.view.1 with
          | some policy => exact fun v _ => owed_error _
          | none =>
              apply publishes_transaction ((hy.trans hz).free hx)
              · exact ⟨_, _, _, _, rfl⟩
              · intro v hv
                exact yields_enroll htoken huser hvalid rfl hv.inv

/-! ### Cancel -/

/-- The pending rows of an account, out of the others. -/
theorem purged_eq (userId : String) (rows : List PendingRecovery) :
    (rows.filter fun r => r.userId ≠ userId) =
      rows.filter fun r => !decide (r.userId = userId) := by
  apply List.filter_congr
  intro r _
  simp

theorem pendingNotes_purge (userId : String) {a b : Db}
    (h : b.pending = a.pending.filter fun r => r.userId ≠ userId) :
    pendingNotes p a b = (a.pending.filter fun r => r.userId = userId).map (Entry.closed p) := by
  rw [pendingNotes, h, purged_eq]
  exact notes_filter p a.pending fun r => decide (r.userId = userId)

theorem publishes_cancel (token : Option Claims) (hreq : reqs p = .cancel token)
    (hx : x.work = none) :
    Publishes (spec settings crypto reqs) p (Advances reqs p) (Answered crypto p (.cancel token)) []
      (noting (pendingNotes p) ((RecoveryRequest.cancel token).body settings crypto)) x := by
  apply publishes_body
  apply publishes_noted_getCurrentUser
  · exact fun e => owed_error e
  · intro y user hy hgate
    obtain ⟨claims, htoken, hfound, _, _⟩ := gate_eq_ok hgate
    have huser : user.id = claims.userId := (Db.mem_of_userById hfound).2
    apply publishes_transaction (hy.free hx)
    · exact ⟨_, _, _, _, rfl⟩
    · intro z hz
      have hc : Chronicle settings crypto reqs z.db := hz.inv
      have hsame : SameRosters z.db.1 (purgePending user.id z.db.1) := ⟨rfl, rfl⟩
      have hfrozen : Frozen (Original reqs) z.db.1 (purgePending user.id z.db.1) :=
        hsame.frozen fun _ _ halive => halive
      have hc' := hc.take (p := p) hfrozen (hsame.rostered hc.rostered)
        (purged_eq user.id z.db.1.pending)
        (fun row _ hrow => by
          rw [hreq]
          exact ⟨claims, htoken, huser.symm.trans (of_decide_eq_true hrow).symm⟩)
      have hG : Advances reqs p z.db (purgePending user.id z.db.1, z.db.2 ++
          (z.db.1.pending.filter fun r => r.userId = user.id).map (Entry.closed p)) :=
        advances_closed hfrozen
      change Yields _ _ _ _ _ _ _
        (z.db.2 ++ (pendingNotes p z.db.1 (purgePending user.id z.db.1) ++ [])) _
      rw [List.append_nil, pendingNotes_purge user.id rfl]
      refine ⟨hG, allows_of_advances hG hc', ?_⟩
      intro v _ _
      apply owed_single
      refine ⟨claims, htoken, ?_, ?_⟩
      · rw [decide_eq_true_iff, List.length_pos_iff_exists_mem, ← huser]
        simp only [List.mem_filter, decide_eq_true_eq]
      · intro row hrow hid
        apply List.mem_append_right
        apply List.mem_map_of_mem
        exact List.mem_filter.mpr ⟨hrow, by simpa [huser] using hid⟩

/-! ### Deletion -/

/-- The teardown takes the pending rows of the account, and no other. -/
theorem trail_tearingDown (userId : String) (a : Db) :
    trail (pendingNotes p) (tearingDown userId) a =
      (a.pending.filter fun r => r.userId = userId).map (Entry.closed p) := by
  have hsplit : teardown userId = (teardown userId).take 8 ++
      ((.plain, purgePending userId) :: (teardown userId).drop 9) := rfl
  have hbefore : ∀ t ∈ (teardown userId).take 8, ∀ s, pendingNotes p s (t.2 s) = [] := by
    simp only [teardown, List.take_succ_cons, List.take_zero, List.forall_mem_cons]
    exact ⟨fun s => pendingNotes_same rfl, fun s => pendingNotes_same rfl,
      fun s => pendingNotes_same rfl, fun s => pendingNotes_same rfl,
      fun s => pendingNotes_same rfl, fun s => pendingNotes_same rfl,
      fun s => pendingNotes_same rfl, fun s => pendingNotes_same rfl, List.forall_mem_nil _⟩
  have hafter : ∀ t ∈ (teardown userId).drop 9, ∀ s, pendingNotes p s (t.2 s) = [] := by
    simp only [teardown, List.drop_succ_cons, List.drop_zero, List.forall_mem_cons]
    exact ⟨fun s => pendingNotes_same rfl, fun s => pendingNotes_same rfl,
      fun s => pendingNotes_same rfl, fun s => pendingNotes_same rfl,
      fun s => pendingNotes_same rfl, fun s => pendingNotes_same rfl,
      fun s => pendingNotes_same rfl, fun s => pendingNotes_same rfl,
      fun s => pendingNotes_same rfl, List.forall_mem_nil _⟩
  change trail (pendingNotes p) ((teardown userId).forM fun t =>
    (Request.exec t.1 t.2 fun _ => () : Body Unit)) a = _
  rw [hsplit, trail_forM_append, trail_forM_of_silent hbefore, List.nil_append, trail_forM_cons,
    trail_forM_of_silent hafter, List.append_nil]
  exact pendingNotes_purge userId rfl

/-- What the deletion of an account owes. -/
def Departs (userId : String) : Option (Store π × Store π) → Except Exn Unit → Prop
  | none, .error _ => True
  | some ab, .ok _ => Departed userId ab.1.1 ab.2.1
  | _, _ => False

theorem allows_acted (g : Store π → Memory → Memory)
    (hy : (spec settings crypto reqs).inv y.db y.mem) :
    (spec settings crypto reqs).Allows p y (y.acted g) :=
  ⟨hy, fun _ _ => ⟨Frozen.refl _, Appends.refl _ _⟩⟩

theorem publishes_departure {token : Option Claims} {claims : Claims} {userId : String}
    (htoken : token = some claims) (huser : userId = claims.userId)
    (hreq : reqs p = .deleteAccount token) (hx : x.work = none) :
    Publishes (spec settings crypto reqs) p (Advances reqs p) (Departs userId) []
      (noting (pendingNotes p) (deleteUserAccount userId)) x := by
  apply publishes_deleteUserAccount fun a =>
    (a.pending.filter fun r => r.userId = userId).map (Entry.closed p)
  · exact fun a rows => pendingNotes_same rfl
  · exact fun a rows => trail_tearingDown userId { a with memberships := rows }
  · exact hx
  · exact fun e => ⟨fun _ => trivial, fun ab hab => absurd hab List.not_mem_nil⟩
  · intro y b hy hdeparted
    have hc : Chronicle settings crypto reqs y.db := hy.inv
    have hfrozen : Frozen (Original reqs) y.db.1 b := frozen_departed hdeparted
    have hpending : b.pending = y.db.1.pending.filter fun r => !decide (r.userId = userId) := by
      rw [hdeparted.pending, purged_eq]
    have hc' := hc.take (p := p) hfrozen (rostered_departed hdeparted hc.rostered) hpending
      (fun row _ hrow => by
        rw [hreq]
        exact ⟨claims, htoken, huser.symm.trans (of_decide_eq_true hrow).symm⟩)
    have hG : Advances reqs p y.db (b, y.db.2 ++
        (y.db.1.pending.filter fun r => r.userId = userId).map (Entry.closed p)) :=
      advances_closed hfrozen
    refine ⟨hG, allows_of_advances hG hc', nofun, ?_⟩
    intro ab hab
    rw [List.mem_singleton.mp hab]
    exact hdeparted

theorem publishes_deleteAccount (token : Option Claims) (hreq : reqs p = .deleteAccount token)
    (hx : x.work = none) :
    Publishes (spec settings crypto reqs) p (Advances reqs p)
      (Answered crypto p (.deleteAccount token)) [] (noting (pendingNotes p)
        ((RecoveryRequest.deleteAccount token).body settings crypto)) x := by
  apply publishes_body
  apply publishes_noted_getCurrentUser
  · exact fun e => owed_error e
  · intro y user hy hgate
    obtain ⟨claims, htoken, hfound, _, _⟩ := gate_eq_ok hgate
    have huser : user.id = claims.userId := (Db.mem_of_userById hfound).2
    have hdeparture : Publishes (spec settings crypto reqs) p (Advances reqs p) (Departs user.id) []
        (noting (pendingNotes p) (deleteUserAccount user.id)) y :=
      publishes_departure htoken huser hreq (hy.free hx)
    -- an exception means that nothing was published
    have hraised : ∀ (past : List (Store π × Store π)) e,
        Owed (Departs user.id) past (.error e) → past = [] := by
      intro past e h
      cases past with
      | nil => rfl
      | cons ab past => exact (h.2 ab List.mem_cons_self).elim
    rw [noting_bind, noting_handle]
    apply publishes_bind (M := Departs user.id)
    · apply publishes_handle hdeparture
      · exact fun _ _ h => h
      · intro past e z h
        obtain rfl := hraised past e h
        cases e <;> exact h
    · intro past e h
      obtain rfl := hraised past e h
      exact owed_error e
    · intro past _ z h
      apply publishes_noted_disconnectUser fun y g hy => allows_acted g hy
      constructor
      · exact fun hnil => (h.1 hnil).elim
      · intro ab hab
        refine ⟨claims, htoken, ?_⟩
        rw [← huser]
        exact h.2 ab hab

/-! ### Finalize -/

theorem not_alive {userId : String} {db : Db} (h : db.userById userId = none) :
    ¬Alive userId db := by
  intro halive
  obtain ⟨u, hu, hid⟩ := halive
  simpa [hid] using List.find?_eq_none.mp h u hu

/-- The guarded DELETE takes one row. -/
theorem drops_of_gone {recoveryId finalizeToken : String} {now : Time} {s : Store π}
    {row : PendingRecovery} {log : List (Entry π PendingRecovery)}
    (hkeys : (s.1.pending.map (·.id)).Nodup)
    (hrow : s.1.pending.find? (finalizeWhere recoveryId (crypto.sha256Hex finalizeToken) now) =
      some row) (huser : s.1.userById row.userId = none) :
    Drops crypto recoveryId finalizeToken now s
      (takePending recoveryId (crypto.sha256Hex finalizeToken) now s.1, log) := by
  constructor
  · rfl
  · intro row' hmem htaken
    have hwhere : finalizeWhere recoveryId (crypto.sha256Hex finalizeToken) now row' = true := by
      by_contra hne
      exact htaken (List.mem_filter.mpr ⟨hmem, by simpa using hne⟩)
    have hid : ∀ {r}, finalizeWhere recoveryId (crypto.sha256Hex finalizeToken) now r = true →
        r.id = recoveryId := by
      intro r hr
      simp only [finalizeWhere, Bool.and_eq_true, decide_eq_true_eq] at hr
      exact hr.1.1
    have hsame : row' = row := List.inj_on_of_nodup_map hkeys hmem (List.mem_of_find?_eq_some hrow)
      ((hid hwhere).trans (hid (List.find?_some hrow)).symm)
    rw [hsame]
    exact not_alive huser

/-- What `finalize_recovery` owes. -/
def Finalizes (crypto : Crypto) (p : π) (recoveryId finalizeToken credentialRowId : String)
    (now : Time) : Option (Store π × Store π) → Except Exn (Option Session) → Prop
  | none, .ok none => True
  | some ab, .ok none => Drops crypto recoveryId finalizeToken now ab.1 ab.2
  | some ab, .ok (some outcome) => ∃ row user, outcome = ⟨user.id, generationOf user.id ab.2.1⟩ ∧
      Rekeys crypto p recoveryId finalizeToken credentialRowId now row user ab.1 ab.2
  | _, _ => False

theorem uses_finalizeRow (credentialRowId : String) (row : PendingRecovery) :
    Uses (fun _ f => ∀ s s', f s = some s' → pendingNotes p s s' = []) (fun _ _ => False)
      (finalizeRow credentialRowId row) := by
  apply Uses.bind (Uses.query _)
  intro found
  cases found with
  | none => trivial
  | some user =>
      apply Uses.bind
      · apply Uses.exec
        intro s s' h
        obtain rfl := Option.some.inj h
        exact pendingNotes_same rfl
      intro _
      apply Uses.bind
      · apply Uses.exec
        intro s s' h
        obtain rfl := Option.some.inj h
        exact pendingNotes_same rfl
      intro _
      apply Uses.bind
      · apply Uses.attempt
        intro s s' h
        obtain ⟨_, rfl⟩ := Db.insertCredential_eq_some.mp h
        exact pendingNotes_same rfl
      intro ok
      cases ok with
      | false => trivial
      | true =>
          apply Uses.bind
          · apply Uses.exec
            intro s s' h
            obtain rfl := Option.some.inj h
            exact pendingNotes_same rfl
          · exact fun _ => trivial

theorem pending_rekeyed {credentialRowId : String} {row : PendingRecovery} {user : User} {w s : Db}
    (h : rekeyed credentialRowId row user w = some s) :
    SameRosters w s ∧ s.pending = w.pending ∧ s.users.map (·.id) = w.users.map (·.id) := by
  obtain ⟨a, ha, rfl⟩ := Option.map_eq_some_iff.mp h
  obtain ⟨_, rfl⟩ := Db.insertCredential_eq_some.mp ha
  refine ⟨⟨rfl, rfl⟩, rfl, ?_⟩
  simp only [bumpGeneration, List.map_map]
  apply List.map_congr_left
  intro u _
  simp only [Function.comp_apply]
  split_ifs <;> rfl

theorem settle_finalizeRecovery_none {recoveryId finalizeToken credentialRowId : String}
    {now : Time} {w : Db}
    (h : w.pending.find? (finalizeWhere recoveryId (crypto.sha256Hex finalizeToken) now) = none) :
    (finalizeRecovery crypto recoveryId finalizeToken credentialRowId now).settle w =
      .returned none (takePending recoveryId (crypto.sha256Hex finalizeToken) now w) := by
  unfold finalizeRecovery execute
  rw [settle_exec, h]
  rfl

theorem settle_finalizeRecovery_some {recoveryId finalizeToken credentialRowId : String}
    {now : Time} {w : Db} {row : PendingRecovery}
    (h : w.pending.find? (finalizeWhere recoveryId (crypto.sha256Hex finalizeToken) now) =
      some row) :
    (finalizeRecovery crypto recoveryId finalizeToken credentialRowId now).settle w =
      (finalizeRow credentialRowId row).settle
        (takePending recoveryId (crypto.sha256Hex finalizeToken) now w) := by
  unfold finalizeRecovery execute
  rw [settle_exec, h]

/-- The guarded DELETE makes all the entries. -/
theorem trail_finalizeRecovery (recoveryId finalizeToken credentialRowId : String) (now : Time)
    (w : Db) : trail (pendingNotes p)
      (finalizeRecovery crypto recoveryId finalizeToken credentialRowId now) w =
        (w.pending.filter (finalizeWhere recoveryId (crypto.sha256Hex finalizeToken) now)).map
          (Entry.closed p) := by
  have htaken : pendingNotes p w (takePending recoveryId (crypto.sha256Hex finalizeToken) now w) =
      (w.pending.filter (finalizeWhere recoveryId (crypto.sha256Hex finalizeToken) now)).map
        (Entry.closed p) := notes_filter p w.pending _
  unfold finalizeRecovery execute
  rw [trail_exec, htaken]
  cases w.pending.find? (finalizeWhere recoveryId (crypto.sha256Hex finalizeToken) now) with
  | none => exact List.append_nil _
  | some row =>
      have hsilent := trail_of_silent (pendingNotes p) (fun t f hf => hf)
        (uses_finalizeRow (p := p) credentialRowId row)
        (takePending recoveryId (crypto.sha256Hex finalizeToken) now w)
      exact (congrArg _ hsilent).trans (List.append_nil _)

theorem publishes_finalizeRecovery (recoveryId finalizeToken credentialRowId : String)
    (now : Time) (hreq : reqs p = .finalize recoveryId finalizeToken credentialRowId now)
    (hx : x.work = none) :
    Publishes (spec settings crypto reqs) p (Advances reqs p)
      (Finalizes crypto p recoveryId finalizeToken credentialRowId now) []
      (noting (pendingNotes p)
        (finalizeRecovery crypto recoveryId finalizeToken credentialRowId now)) x := by
  apply publishes_transaction hx
  · exact ⟨_, _, _, _, rfl⟩
  · intro y hy
    have hc : Chronicle settings crypto reqs y.db := hy.inv
    have hnone : Owed (Finalizes crypto p recoveryId finalizeToken credentialRowId now) []
        (.ok none) := ⟨fun _ => trivial, fun ab hab => absurd hab List.not_mem_nil⟩
    have hcloses : ∀ row ∈ y.db.1.pending,
        finalizeWhere recoveryId (crypto.sha256Hex finalizeToken) now row = true →
          Closes crypto p y.db.2 (reqs p) row := by
      intro row _ hwhere
      rw [hreq]
      simpa [finalizeWhere, Closes, and_assoc] using hwhere
    rw [trail_finalizeRecovery]
    cases hrow : y.db.1.pending.find?
        (finalizeWhere recoveryId (crypto.sha256Hex finalizeToken) now) with
    | none =>
        rw [settle_finalizeRecovery_none hrow]
        exact hnone
    | some row =>
        have hmem := List.mem_of_find?_eq_some hrow
        have hwhere := List.find?_some hrow
        rw [settle_finalizeRecovery_some hrow, settle_finalizeRow]
        -- the account is looked up in a store with the accounts of the committed one
        have haccount : (takePending recoveryId (crypto.sha256Hex finalizeToken) now
            y.db.1).userById row.userId = y.db.1.userById row.userId := rfl
        rw [haccount]
        cases huser : y.db.1.userById row.userId with
        | none =>
            have hsame : SameRosters y.db.1
                (takePending recoveryId (crypto.sha256Hex finalizeToken) now y.db.1) :=
              ⟨rfl, rfl⟩
            have hfrozen : Frozen (Original reqs) y.db.1
                (takePending recoveryId (crypto.sha256Hex finalizeToken) now y.db.1) :=
              hsame.frozen fun _ _ halive => halive
            have hc' := hc.take (p := p) hfrozen (hsame.rostered hc.rostered) rfl hcloses
            have hG : Advances reqs p y.db (takePending recoveryId
                (crypto.sha256Hex finalizeToken) now y.db.1,
                y.db.2 ++ (y.db.1.pending.filter (finalizeWhere recoveryId
                  (crypto.sha256Hex finalizeToken) now)).map (Entry.closed p)) :=
              advances_closed hfrozen
            refine ⟨hG, allows_of_advances hG hc', ?_⟩
            intro z _ _
            refine ⟨nofun, ?_⟩
            intro ab hab
            rw [List.mem_singleton.mp hab]
            exact drops_of_gone hc.balanced.keys hrow huser
        | some user =>
            dsimp only
            cases hkey : rekeyed credentialRowId row user
                (takePending recoveryId (crypto.sha256Hex finalizeToken) now y.db.1) with
            | none => exact fun z => hnone
            | some s =>
                obtain ⟨hsame, hpending, husers⟩ := pending_rekeyed hkey
                have hsame' : SameRosters y.db.1 s := ⟨hsame.policies, hsame.approvers⟩
                have hfrozen : Frozen (Original reqs) y.db.1 s :=
                  hsame'.frozen fun _ _ halive => alive_congr husers halive
                have hc' := hc.take (p := p) hfrozen (hsame'.rostered hc.rostered) hpending hcloses
                have hG : Advances reqs p y.db (s, y.db.2 ++ (y.db.1.pending.filter (finalizeWhere
                    recoveryId (crypto.sha256Hex finalizeToken) now)).map (Entry.closed p)) :=
                  advances_closed hfrozen
                refine ⟨hG, allows_of_advances hG hc', ?_⟩
                intro z _ _
                refine ⟨nofun, ?_⟩
                intro ab hab
                rw [List.mem_singleton.mp hab]
                refine ⟨row, user, rfl, hrow, huser, hkey, ?_⟩
                apply List.mem_append_right
                exact List.mem_map_of_mem (List.mem_filter.mpr ⟨hmem, hwhere⟩)

theorem publishes_finalize (recoveryId finalizeToken credentialRowId : String) (now : Time)
    (hreq : reqs p = .finalize recoveryId finalizeToken credentialRowId now)
    (hx : x.work = none) :
    Publishes (spec settings crypto reqs) p (Advances reqs p)
      (Answered crypto p (.finalize recoveryId finalizeToken credentialRowId now)) []
      (noting (pendingNotes p) ((RecoveryRequest.finalize recoveryId finalizeToken credentialRowId
        now).body settings crypto)) x := by
  apply publishes_body
  unfold Realtime.recoverFinalize
  rw [noting_bind, noting_session]
  apply publishes_bind
  · exact (publishes_finalizeRecovery recoveryId finalizeToken credentialRowId now hreq hx).session
  · intro past e h
    obtain ⟨ab, hab⟩ := h.elim
    cases ab <;> exact hab.elim
  · intro past outcome z h
    cases outcome with
    | none =>
        constructor
        · exact fun _ => trivial
        · exact fun ab hab => h.2 ab hab
    | some outcome =>
        apply publishes_noted_disconnectUser fun y g hy => allows_acted g hy
        constructor
        · exact fun hnil => (h.1 hnil).elim
        · exact fun ab hab => h.2 ab hab

/-! ### Finish -/

/-- `finish_recovery` from its burn on, with the roster that it has read. -/
def finishBurning (settings : Settings) (crypto : Crypto) (user : User) (req : FinishRequest)
    (policy : RecoveryPolicy) (registered : List String) : Body PendingRecovery := do
  match ← consumeChallenge req.serverNonce .recover req.consumedAt with
  | none => throwExn (.quorumRejected "invalid or expired recovery nonce")
  | some raw =>
      match crypto.verifyRegistration raw req.attestation with
      | .error .invalidJsonStructure => throwExn .invalidJsonStructure
      | .error .invalidRegistrationResponse => throwExn .invalidRegistrationResponse
      | .error (.raised type) => throwExn (.raised type)
      | .ok material =>
          let msg := approvalBytes raw user.id material.credentialId material.publicKey
          if !verifyQuorum crypto registered msg policy.thresholdK req.approvals [] then
            throwExn (.quorumRejected "recovery quorum not satisfied")
          else
            execute (reclaimExpired user.id req.now) (fun _ => ()) .plain
            match ← select fun db => db.pending.find? fun r => r.userId = user.id with
            | some _ =>
                rollback
                throwExn (.recoveryAlreadyPending
                  "a recovery is already pending for this account")
            | none =>
                let row := req.pendingRow settings crypto user material
                if ← flushNested (fun db => db.insertPending row) .plain then
                  return row
                else
                  rollback
                  throwExn (.recoveryAlreadyPending
                    "a recovery is already pending for this account")

theorem settle_consumeChallenge_none {state : String} {operation : PasskeyOperation} {now : Time}
    {s : Db} (h : burnRowcount state operation now s ≠ 1) :
    (consumeChallenge state operation now).settle s =
      .returned none (burnChallenge state operation now s) := by
  unfold consumeChallenge execute
  rw [settle_exec, if_pos h]
  rfl

theorem settle_consumeChallenge_some {state : String} {operation : PasskeyOperation} {now : Time}
    {s : Db} (h : burnRowcount state operation now s = 1) :
    (consumeChallenge state operation now).settle s = (base64urlToBytes state).elim
      (.raised (.valueError "binascii.Error") (burnChallenge state operation now s))
      fun raw => .returned (some raw) (burnChallenge state operation now s) := by
  unfold consumeChallenge execute
  rw [settle_exec, if_neg (not_not_intro h)]
  cases base64urlToBytes state <;> rfl

theorem trail_consumeChallenge (state : String) (operation : PasskeyOperation) (now : Time)
    (s : Db) : trail (pendingNotes p) (consumeChallenge state operation now) s = [] := by
  have hsilent : pendingNotes p s (burnChallenge state operation now s) = [] :=
    pendingNotes_same rfl
  unfold consumeChallenge execute
  rw [trail_exec, hsilent]
  split_ifs
  · rfl
  · cases base64urlToBytes state <;> rfl

/-- The rows that a finish reclaims. -/
def expired (userId : String) (now : Time) (r : PendingRecovery) : Bool :=
  r.userId = userId && decide (r.vetoDeadline ≤ now)

/-- The store that a finish commits. -/
def reopened (settings : Settings) (crypto : Crypto) (user : User) (req : FinishRequest)
    (material : Material) (db : Db) : Db :=
  { burnChallenge req.serverNonce .recover req.consumedAt db with
    pending := (db.pending.filter fun r => !expired user.id req.now r) ++
      [req.pendingRow settings crypto user material] }

/-- Everything that a finish has checked when it settles. -/
structure Accepts (settings : Settings) (crypto : Crypto) (user : User) (req : FinishRequest)
    (policy : RecoveryPolicy) (registered : List String) (raw : Bytes) (material : Material)
    (db : Db) : Prop where
  nonce : base64urlToBytes req.serverNonce = some raw
  burned : burnRowcount req.serverNonce .recover req.consumedAt db = 1
  attested : crypto.verifyRegistration raw req.attestation = .ok material
  quorum : verifyQuorum crypto registered
    (approvalBytes raw user.id material.credentialId material.publicKey) policy.thresholdK
      req.approvals [] = true
  vacant : ∀ r ∈ db.pending, r.userId = user.id → expired user.id req.now r = true

variable (settings crypto) in
theorem settle_finishBurning (user : User) (req : FinishRequest) (policy : RecoveryPolicy)
    (registered : List String) (w : Db) :
    Lost ((finishBurning settings crypto user req policy registered).settle w) ∨
      ∃ raw material, Accepts settings crypto user req policy registered raw material w ∧
        (finishBurning settings crypto user req policy registered).settle w =
          .returned (req.pendingRow settings crypto user material)
            (reopened settings crypto user req material w) ∧
        trail (pendingNotes p) (finishBurning settings crypto user req policy registered) w =
          (w.pending.filter (expired user.id req.now)).map (Entry.closed p) ++
            [.opened p (req.pendingRow settings crypto user material)] := by
  unfold finishBurning
  by_cases hburn : burnRowcount req.serverNonce .recover req.consumedAt w = 1
  · rw [settle_bind, trail_bind, settle_consumeChallenge_some hburn]
    cases hraw : base64urlToBytes req.serverNonce with
    | none =>
        left
        trivial
    | some raw =>
        dsimp only [Option.elim, andThen, trailAfter]
        cases hmaterial : crypto.verifyRegistration raw req.attestation with
        | error e =>
            left
            cases e <;> trivial
        | ok material =>
            dsimp only
            cases hquorum : verifyQuorum crypto registered
                (approvalBytes raw user.id material.credentialId material.publicKey)
                policy.thresholdK req.approvals [] with
            | false =>
                left
                trivial
            | true =>
                have hreclaim : pendingNotes p (burnChallenge req.serverNonce .recover
                    req.consumedAt w) (reclaimExpired user.id req.now (burnChallenge
                      req.serverNonce .recover req.consumedAt w)) =
                    (w.pending.filter (expired user.id req.now)).map (Entry.closed p) :=
                  notes_filter p w.pending (expired user.id req.now)
                rw [if_neg (by decide), execute, settle_exec, trail_exec, hreclaim]
                cases hlive : (reclaimExpired user.id req.now (burnChallenge req.serverNonce
                    .recover req.consumedAt w)).pending.find? fun r => r.userId = user.id with
                | some r =>
                    left
                    rw [select, settle_query, hlive]
                    trivial
                | none =>
                    have hvacant : ∀ r ∈ w.pending, r.userId = user.id →
                        expired user.id req.now r = true := by
                      intro r hr huser
                      by_contra hne
                      have hkeep : (!expired user.id req.now r) = true := by simpa using hne
                      have hkept := List.find?_eq_none.mp hlive r
                        (List.mem_filter.mpr ⟨hr, hkeep⟩)
                      simp [huser] at hkept
                    rw [select, settle_query, hlive]
                    dsimp only
                    cases hinsert : (reclaimExpired user.id req.now (burnChallenge req.serverNonce
                        .recover req.consumedAt w)).insertPending
                          (req.pendingRow settings crypto user material) with
                    | none =>
                        left
                        rw [flushNested, settle_attempt_none hinsert]
                        trivial
                    | some s' =>
                        right
                        obtain ⟨hclash, rfl⟩ := Db.insertPending_eq_some.mp hinsert
                        refine ⟨raw, material, ⟨hraw, hburn, hmaterial, hquorum, hvacant⟩, ?_, ?_⟩
                        · rw [flushNested, settle_attempt_some hinsert]
                          rfl
                        · have hnew : req.pendingRow settings crypto user material ∉
                              (reclaimExpired user.id req.now (burnChallenge req.serverNonce
                                .recover req.consumedAt w)).pending :=
                            fun hmem => (hclash _ hmem).1 rfl
                          have hopened := notes_append p hnew
                          rw [trail_consumeChallenge, List.nil_append, trail_query, hlive]
                          dsimp only
                          rw [flushNested, trail_attempt_some hinsert]
                          exact congrArg _ ((List.append_nil _).trans hopened)
  · left
    rw [settle_bind, settle_consumeChallenge_none hburn]
    trivial

/-- The quorum was checked against the roster that stands, if the account is still there. -/
theorem opens_of_accepts {handle : String} {user : User} {req : FinishRequest}
    {policy : RecoveryPolicy} {registered : List String} {raw : Bytes} {material : Material}
    {db : Db} (hhandle : user.username = handle)
    (h : Accepts settings crypto user req policy registered raw material db) {b : Db}
    {old : String → Prop} (hrostered : Rostered b)
    (hstands : old user.id → Alive user.id b → policy ∈ b.policies ∧ policy.userId = user.id ∧
      approverKeys user.id b = registered) :
    Opens settings crypto old (.finish handle req) b
      (req.pendingRow settings crypto user material) := by
  refine ⟨raw, user, material, hhandle, h.nonce, h.attested, rfl, ?_⟩
  intro hold halive
  obtain ⟨hpolicy, huser, hkeys⟩ := hstands hold halive
  refine ⟨policy, hpolicy, huser, ?_⟩
  have hk := (hrostered.threshold policy hpolicy).1
  have hshort : ([] : List String).length < policy.thresholdK := by
    rw [List.length_nil]
    omega
  have hquorum := (verifyQuorum_iff crypto registered _ List.nodup_nil hshort).mp h.quorum
  rw [List.toFinset_nil, Finset.empty_union] at hquorum
  rw [hkeys]
  exact hquorum

/-- The ids that finishes mint are distinct. -/
def Minted (reqs : π → RecoveryRequest) : Prop :=
  ∀ p q handle req handle' req', reqs p = .finish handle req → reqs q = .finish handle' req' →
    req.pendingId = req'.pendingId → p = q

theorem finish_of_opens {old : String → Prop} {r : RecoveryRequest} {db : Db}
    {row : PendingRecovery} (h : Opens settings crypto old r db row) :
    ∃ handle req, r = .finish handle req ∧ row.id = req.pendingId := by
  cases r with
  | finish handle req =>
      obtain ⟨_, _, _, _, _, _, hrow, _⟩ := h
      exact ⟨handle, req, rfl, by rw [hrow]; rfl⟩
  | _ => exact h.elim

/-- The id that a finish mints is new to the ledger. -/
theorem new_of_unlogged {handle : String} {req : FinishRequest} (hids : Minted reqs)
    (hreq : reqs p = .finish handle req) (hunlogged : Unlogged p s)
    (hc : Chronicle settings crypto reqs s) {q : π} {row : PendingRecovery}
    (hrow : .opened q row ∈ s.2) : row.id ≠ req.pendingId := by
  intro hsame
  obtain ⟨handle', req', hreq', hid⟩ := finish_of_opens (hc.opening q row hrow)
  obtain rfl := hids p q handle req handle' req' hreq hreq' (hsame.symm.trans hid)
  exact hunlogged _ hrow rfl

theorem yields_finish {handle : String} {user : User} {req : FinishRequest}
    {policy : RecoveryPolicy} {registered : List String} (hids : Minted reqs)
    (hreq : reqs p = .finish handle req) (hhandle : user.username = handle)
    (hunlogged : Unlogged p y.db) (hc : Chronicle settings crypto reqs y.db)
    (hstands : Original reqs user.id → Alive user.id y.db.1 → policy ∈ y.db.1.policies ∧
      policy.userId = user.id ∧ approverKeys user.id y.db.1 = registered)
    {onError : Exn → Body PendingRecovery} (hbarren : ∀ e, Barren (onError e)) :
    Yields (spec settings crypto reqs) p (Advances reqs p)
      (fun ab res => Answered crypto p (.finish handle req) ab (res.map .pending)) []
      (pendingNotes p) y
      (y.db.2 ++ trail (pendingNotes p)
        ((finishBurning settings crypto user req policy registered).handle onError >>=
          fun row => commit >>= fun _ => pure row) y.db.1)
      (((finishBurning settings crypto user req policy registered).handle onError >>=
          fun row => commit >>= fun _ => pure row).settle y.db.1) := by
  rw [settle_bind, settle_handle]
  rcases settle_finishBurning settings crypto (p := p) user req policy registered y.db.1 with
    hlost | ⟨raw, material, haccepts, hsettle, htrail⟩
  · exact Yields.of_lost ((hlost.handled hbarren).andThen _) fun e => owed_error e
  · rw [trail_bind, trail_handle_returned hsettle, htrail, settle_handle, hsettle]
    have hsame : SameRosters y.db.1 (reopened settings crypto user req material y.db.1) :=
      ⟨rfl, rfl⟩
    have hfrozen : Frozen (Original reqs) y.db.1 (reopened settings crypto user req material
        y.db.1) := hsame.frozen fun _ _ halive => halive
    have hrostered := hsame.rostered hc.rostered
    have hopens := opens_of_accepts hhandle haccepts (b := reopened settings crypto user req
      material y.db.1) hrostered hstands
    have hc' := hc.reopen (p := p) hreq hfrozen hrostered rfl
      (fun q r hr => new_of_unlogged hids hreq hunlogged hc hr) haccepts.vacant
      (by rw [hreq]; exact hopens)
      (fun r _ hr => by
        simp only [expired, Bool.and_eq_true, decide_eq_true_eq] at hr
        exact ⟨hr.2, hr.1⟩)
    have hG : Advances reqs p y.db (reopened settings crypto user req material y.db.1,
        y.db.2 ++ ((y.db.1.pending.filter (expired user.id req.now)).map (Entry.closed p) ++
          [.opened p (req.pendingRow settings crypto user material)])) := by
      constructor
      · exact hfrozen
      · refine ⟨_, rfl, ?_⟩
        intro e he
        rcases List.mem_append.mp he with hclosed | hopened
        · obtain ⟨r, _, rfl⟩ := List.mem_map.mp hclosed
          rfl
        · rw [List.mem_singleton.mp hopened]
          rfl
    change Yields _ _ _ _ _ _ _ (y.db.2 ++ ((_ ++ _) ++ [])) (.committed .plain _ (.ret _))
    rw [List.append_nil]
    refine ⟨hG, allows_of_advances hG hc', ?_⟩
    intro z _ _
    apply owed_single
    refine ⟨?_, haccepts.burned, rfl⟩
    apply List.mem_append_right
    exact List.mem_append_right _ (List.mem_singleton_self _)

/-- What a finish has read of the roster stands while the account is there. -/
theorem roster_stands {old : String → Prop} {user : User} {policy : RecoveryPolicy} {a b c : Db}
    (hab : Frozen old a b) (hbc : Frozen old b c) (hpolicy : policyOf user.id a = some policy)
    (hold : old user.id) (halive : Alive user.id c) :
    policy ∈ c.policies ∧ policy.userId = user.id ∧
      approverKeys user.id c = approverKeys user.id b := by
  have hmem : policy ∈ a.policies := List.mem_of_find?_eq_some hpolicy
  have huser : policy.userId = user.id := by simpa using List.find?_some hpolicy
  have hold' : old policy.userId := by rw [huser]; exact hold
  have halive' : Alive policy.userId c := by rw [huser]; exact halive
  obtain ⟨hb, _⟩ := hab.rosters policy hmem hold' (hbc.users _ hold' halive')
  obtain ⟨hc, hkeys⟩ := hbc.rosters policy hb hold' halive'
  rw [huser] at hkeys
  exact ⟨hc, huser, hkeys⟩

theorem publishes_finish (handle : String) (req : FinishRequest) (hids : Minted reqs)
    (hreq : reqs p = .finish handle req) (hunlogged : Unlogged p x.db) (hx : x.work = none) :
    Publishes (spec settings crypto reqs) p (Advances reqs p)
      (Answered crypto p (.finish handle req)) [] (noting (pendingNotes p)
        ((RecoveryRequest.finish handle req).body settings crypto)) x := by
  apply publishes_body
  intro y hy
  beta_reduce
  cases hfound : userByHandle handle y.view.1 with
  | none => exact owed_error _
  | some user =>
      have hhandle : user.username = handle := by simpa using List.find?_some hfound
      intro z hz
      beta_reduce
      rw [Point.view_of_none ((hy.trans hz).free hx)]
      cases hpolicy : policyOf user.id z.db.1 with
      | none => exact fun _ _ => owed_error _
      | some policy =>
          intro v hv
          beta_reduce
          have hfree : v.work = none := ((hy.trans hz).trans hv).free hx
          rw [Point.view_of_none hfree]
          apply publishes_transaction hfree
          · exact ⟨_, _, _, _, rfl⟩
          · intro u hu
            have hseen : Others reqs p x.db u.db := (((hy.trans hz).trans hv).trans hu).rely
            apply yields_finish hids hreq hhandle (hunlogged.others hseen) hu.inv
            · exact roster_stands hv.rely.frozen hu.rely.frozen hpolicy
            · intro e
              cases e <;> trivial

end

end

end AikoIsland.PendingLedger
