import AikoIsland.Ceremonies
import AikoIsland.PendingLedger

/-!
# The veto window of an account recovery

Runs of the requests on pending recoveries, any number of each, in any interleaving of
their statements.

A finalize that answered with a session took the row that a finish had opened at least
the veto window earlier, by the clocks of the two requests, and the roster that stands
where it committed has its quorum for the installed credential. What was vetoed is never
finalized. A roster stands as enrolled for as long as its account does. A call that was
refused has published nothing. Accounts may be created meanwhile; `register/finish` is one of
the other requests.
-/
namespace AikoIsland.VetoWindow
open Tables Gateway Passkeys Signing SigningKeys Recovery AccountDeletion Quorum Guardians Ledger
  PendingLedger Ceremonies Auth WriterLock RelyGuarantee Publishing History Settling AppendOnly
  Footprint

variable {π : Type} [DecidableEq π] (settings : Settings) (crypto : Crypto)
  (reqs : π → RecoveryRequest)

/-! ## Runs -/

section
variable (db : Db) (mem : Memory)

/-- Any requests, none started, with an empty ledger. -/
def startOf : Cfg π (Store π) Memory Label Exn Answer :=
  Cfg.init (db, []) mem fun p => noting (pendingNotes p) ((reqs p).body settings crypto)

variable {settings crypto reqs db mem} {p : π} {x : Point (Store π) Memory}
  {c c' : Cfg π (Store π) Memory Label Exn Answer}

omit [DecidableEq π] in
theorem publishes_request (hids : Minted reqs) (hunlogged : Unlogged p x.db)
    (hx : x.work = none) :
    Publishes (spec settings crypto reqs) p (Advances reqs p) (Answered crypto p (reqs p)) []
      (noting (pendingNotes p) ((reqs p).body settings crypto)) x := by
  cases hreq : reqs p with
  | enroll token pks k newUlid => exact publishes_enroll token pks k newUlid hx
  | policy token => exact publishes_policy token
  | start handle raw sweptAt now => exact publishes_start handle raw sweptAt now hx
  | finish handle req => exact publishes_finish handle req hids hreq hunlogged hx
  | status token => exact publishes_status token
  | cancel token => exact publishes_cancel token hreq hx
  | finalize recoveryId finalizeToken credentialRowId now =>
      exact publishes_finalize recoveryId finalizeToken credentialRowId now hreq hx
  | deleteAccount token => exact publishes_deleteAccount token hreq hx
  | other bystander => exact publishes_other bystander hreq hx

variable (settings crypto mem) in
theorem guarded_start (hids : Minted reqs) (hrostered : Rostered db) (hempty : db.pending = []) :
    Guarded (spec settings crypto reqs) (fun p => Advances reqs p)
      (fun p => Answered crypto p (reqs p)) (fun _ => [])
      (startOf settings crypto reqs db mem) := by
  constructor
  · constructor
    · exact hrostered
    · change Balanced _ db.pending []
      rw [hempty]
      exact balanced_nil _
    · change (db.pending.map _).Nodup
      rw [hempty]
      exact List.nodup_nil
    · exact fun p row h => absurd h List.not_mem_nil
    · exact fun p row h => absurd h List.not_mem_nil
  · intro p
    exact publishes_request hids (fun e he => absurd he List.not_mem_nil) rfl

theorem advances_of_reach {past : π → List (Store π × Store π)}
    (hg : Guarded (spec settings crypto reqs) (fun p => Advances reqs p)
      (fun p => Answered crypto p (reqs p)) past c)
    (hr : Cfg.Reach (fun _ _ => True) c c') :
    Frozen (Original reqs) c.db.1 c'.db.1 ∧ Appends (fun _ => True) c.db.2 c'.db.2 := by
  induction hr with
  | start => exact ⟨Frozen.refl _, Appends.refl _ _⟩
  | step hr _ hs ih =>
      obtain ⟨_, hg', _, _⟩ := hg.reach hr
      rcases hg'.change (fun _ _ => trivial) hs with hsame | hadvances
      · rw [hsame]
        exact ih
      · constructor
        · exact ih.1.trans hadvances.frozen
        · exact ih.2.trans (hadvances.entries.mono fun _ _ => trivial)

/-! ## Sign-ups -/

theorem untouched_insertAccount {material : Material} {draws : List Draw} {d : Draw}
    (hd : d ∈ draws) {a b : Db} (h : insertAccount material d a = some b) :
    Untouched (fun userId => ∃ d ∈ draws, d.userId = userId) a b := by
  obtain ⟨s, hs, hcredential⟩ := Option.bind_eq_some_iff.mp h
  obtain ⟨_, rfl⟩ := Db.insertCredential_eq_some.mp hcredential
  obtain ⟨rows, hrows, rfl⟩ := Option.map_eq_some_iff.mp hs
  obtain ⟨_, rfl⟩ := insertRow_eq_some.mp hrows
  refine ⟨⟨rfl, rfl⟩, rfl, ?_⟩
  intro userId halive
  obtain ⟨u, hu, hid⟩ := halive
  rcases List.mem_append.mp hu with hold | hnew
  · exact Or.inl ⟨u, hold, hid⟩
  · rw [List.mem_singleton.mp hnew] at hid
    exact Or.inr ⟨d, hd, hid⟩

theorem uses_attemptAccount (material : Material) {draws ds : List Draw} (hds : ds ⊆ draws) :
    Uses (fun _ f => ∀ a b, f a = some b →
      Untouched (fun userId => ∃ d ∈ draws, d.userId = userId) a b) (fun _ _ => True)
      (attemptAccount material ds) := by
  induction ds with
  | nil => trivial
  | cons d ds ih =>
      obtain ⟨hd, hrest⟩ := List.cons_subset.mp hds
      refine ⟨fun a b h => untouched_insertAccount hd h, fun _ => trivial, fun db => ?_⟩
      beta_reduce
      split_ifs
      · exact fun _ => trivial
      · exact ih hrest

theorem uses_passkeyRegisterFinish (registrationOpen : Bool) (crypto : Crypto)
    (state credential : String) (draws : List Draw) (now : Time) :
    Uses (fun _ f => ∀ a b, f a = some b →
      Untouched (fun userId => ∃ d ∈ draws, d.userId = userId) a b) (fun _ _ => True)
      (passkeyRegisterFinish registrationOpen crypto state credential draws now) := by
  unfold passkeyRegisterFinish
  split_ifs
  · trivial
  · apply Uses.bind
    · apply uses_consumeChallenge
      rintro a b ⟨⟩
      exact ⟨⟨rfl, rfl⟩, rfl, fun _ => Or.inl⟩
    · intro raw
      cases raw with
      | none => trivial
      | some raw =>
          dsimp only
          split
          · trivial
          · trivial
          · trivial
          · next material _ =>
              apply Uses.bind
              · apply Uses.handle
                · apply Uses.bind (Uses.query _)
                  intro found
                  cases found with
                  | some owner => trivial
                  | none => exact uses_attemptAccount material (List.Subset.refl draws)
                · intro e
                  cases e <;> trivial
              · exact fun _ => trivial

/-- `register/finish` creates an account with one of the ids that it draws. -/
def signUp (crypto : Crypto) (registrationOpen : Bool) (state credential : String)
    (draws : List Draw) (now : Time) : Bystander where
  body := do
    let _ ← passkeyRegisterFinish registrationOpen crypto state credential draws now
    return ()
  mints userId := ∃ d ∈ draws, d.userId = userId
  spares := by
    apply Uses.bind _ fun _ => Uses.pure ()
    exact uses_passkeyRegisterFinish registrationOpen crypto state credential draws now

/-! ## One recovery -/

def oneSettings : Settings := ⟨100, 10⟩

def oneDb : Db where
  users := [{ id := "U", username := "u", aikoUsername := "u" }]
  challenges := [{ state := "Ag", operation := .register, expiresAt := 9, consumed := false }]

def oneGuardian : String := "z6MkeTG3bFFSLYVU7VqhgZxqr6YzpaGrQtFMh1uvqGy1vDnP"

def oneFinish : FinishRequest where
  serverNonce := "AQ"
  attestation := "new"
  approvals := [⟨oneGuardian, String.ofList (List.replicate 86 'A')⟩]
  consumedAt := 5
  now := 5
  pendingId := "R"
  finalizeToken := "t"

/-- An account with one guardian, its recovery, and a sign-up meanwhile. -/
def oneReqs : ℕ → RecoveryRequest
  | 0 => .enroll (some ⟨"U", 0⟩) [oneGuardian] 1 fun i => if i = 0 then "P" else "G"
  | 1 => .start "u" [1] 0 0
  | 2 => .finish "u" oneFinish
  | 3 => .finalize "R" "t" "C" 20
  | 4 => .other (signUp firstByteCrypto true "Ag" "v" [⟨"v", "V", "C2"⟩] 5)
  | _ => .policy none

def oneRecovery : List ℕ :=
  List.replicate 6 0 ++ List.replicate 6 1 ++ List.replicate 9 2 ++ List.replicate 5 4 ++
    List.replicate 10 3

theorem minted_one : Minted oneReqs := by
  have hfinish : ∀ p handle req, oneReqs p = .finish handle req → p = 2 := by
    intro p handle req h
    rcases p with _ | _ | _ | _ | _ | p
    all_goals first | rfl | cases h
  intro p q handle req handle' req' hp hq _
  rw [hfinish p handle req hp, hfinish q handle' req' hq]

theorem original_one : Original oneReqs "U" := by
  intro p bystander h
  rcases p with _ | _ | _ | _ | _ | p
  all_goals cases h
  rintro ⟨d, hd, hid⟩
  rw [List.mem_singleton.mp hd] at hid
  revert hid
  decide

theorem rostered_one : Rostered oneDb := by
  constructor
  · exact List.nodup_nil
  · exact fun a ha => absurd ha List.not_mem_nil
  · exact fun p hp => absurd hp List.not_mem_nil
  · exact fun userId pk hpk => absurd hpk List.not_mem_nil
  · exact fun userId => List.nodup_nil

/-! ## What a finalize has behind it -/

/-- The recovery that a finalize completes: what the finish `req` for this account had staged,
when, and, if the account is one of `old`, who has approved it. -/
structure Authorized (settings : Settings) (crypto : Crypto) (old : String → Prop)
    (recoveryId finalizeToken : String) (now : Time) (userId : String) (req : FinishRequest)
    (raw : Bytes) (material : Material) (db : Db) : Prop where
  id : req.pendingId = recoveryId
  token : crypto.sha256Hex req.finalizeToken = crypto.sha256Hex finalizeToken
  window : req.now + settings.vetoWindow ≤ now
  nonce : base64urlToBytes req.serverNonce = some raw
  attested : crypto.verifyRegistration raw req.attestation = .ok material
  quorum : old userId → ∃ policy ∈ db.policies, policy.userId = userId ∧ 1 ≤ policy.thresholdK ∧
    policy.thresholdK ≤ (counted crypto (approverKeys userId db)
      (approvalBytes raw userId material.credentialId material.publicKey) req.approvals).card

/-- The account after the re-key. -/
structure Replaced (outcome : Session) (material : Material) (a b : Db) : Prop where
  credential : ∃ id, (b.credentials.filter fun c => c.userId = outcome.userId) =
    [{ id := id, credentialId := material.credentialId, userId := outcome.userId,
       publicKey := material.publicKey, signCount := material.signCount, author := .recovery }]
  keys : ∀ k ∈ b.signingKeys, k.userId ≠ outcome.userId
  generation : outcome.generation = generationOf outcome.userId a + 1
  current : generationOf outcome.userId b = outcome.generation
  settled : ∀ r ∈ b.pending, r.userId ≠ outcome.userId

section
variable {recoveryId finalizeToken credentialRowId : String} {now : Time} {row : PendingRecovery}
  {user : User} {s s' : Store π}

omit [DecidableEq π] in
theorem replaced_of_rekeys (hc : Chronicle settings crypto reqs s)
    (h : Rekeys crypto p recoveryId finalizeToken credentialRowId now row user s s')
    {req : FinishRequest} {owner : User} {material : Material}
    (hstaged : row = req.pendingRow settings crypto owner material) :
    Replaced ⟨user.id, generationOf user.id s'.1⟩ material s.1 s'.1 := by
  have hid : user.id = row.userId := (Db.mem_of_userById h.account).2
  obtain ⟨a, ha, hstore⟩ := Option.map_eq_some_iff.mp h.rekeyed
  obtain ⟨_, rfl⟩ := Db.insertCredential_eq_some.mp ha
  have hcredentials : s'.1.credentials =
      (s.1.credentials.filter fun c => c.userId ≠ row.userId) ++
        [passkeyCredentialRow credentialRowId row.userId (stagedMaterial row) .recovery] := by
    rw [← hstore]
    rfl
  have hkeys : s'.1.signingKeys = s.1.signingKeys.filter fun k => k.userId ≠ row.userId := by
    rw [← hstore]
    rfl
  have hpending : s'.1.pending = s.1.pending.filter fun r =>
      !finalizeWhere recoveryId (crypto.sha256Hex finalizeToken) now r := by
    rw [← hstore]
    rfl
  have hgeneration : generationOf user.id s'.1 = generationOf user.id s.1 + 1 := by
    rw [← hstore]
    apply generationOf_bumpGeneration
    rw [hid]
    exact h.account
  constructor
  · refine ⟨credentialRowId, ?_⟩
    have hnone : ((s.1.credentials.filter fun c => c.userId ≠ row.userId).filter
        fun c => c.userId = row.userId) = [] := by
      rw [List.filter_filter, List.filter_eq_nil_iff]
      intro c _
      simp
    rw [hcredentials, List.filter_append, hid, hnone, hstaged]
    simp [passkeyCredentialRow, stagedMaterial, FinishRequest.pendingRow]
  · intro k hk
    rw [hkeys, List.mem_filter] at hk
    rw [hid]
    simpa using hk.2
  · exact hgeneration
  · rfl
  · intro r hr hsame
    rw [hpending, List.mem_filter] at hr
    have hrow := List.mem_of_find?_eq_some h.taken
    have hwhere := List.find?_some h.taken
    have heq : r = row := List.inj_on_of_nodup_map hc.single hr.1 hrow (hsame.trans hid)
    rw [heq, hwhere] at hr
    cases hr.2

omit [DecidableEq π] in
theorem authorized_of_rekeys (hc : Chronicle settings crypto reqs s)
    (h : Rekeys crypto p recoveryId finalizeToken credentialRowId now row user s s') :
    ∃ q handle req raw owner material, reqs q = .finish handle req ∧ owner.username = handle ∧
      row = req.pendingRow settings crypto owner material ∧ .opened q row ∈ s.2 ∧
      Authorized settings crypto (Original reqs) recoveryId finalizeToken now user.id req raw
        material s.1 := by
  have hid : user.id = row.userId := (Db.mem_of_userById h.account).2
  have halive : Alive user.id s.1 := ⟨user, (Db.mem_of_userById h.account).1, rfl⟩
  have hrow := List.mem_of_find?_eq_some h.taken
  have hwhere := List.find?_some h.taken
  simp only [finalizeWhere, Bool.and_eq_true, decide_eq_true_eq] at hwhere
  obtain ⟨⟨hrecovery, htoken⟩, hwindow⟩ := hwhere
  obtain ⟨⟨q, hq⟩, _⟩ := (hc.balanced.live row).mp hrow
  have hopens := hc.opening q row hq
  obtain ⟨handle, req, hreq, _⟩ := finish_of_opens hopens
  rw [hreq] at hopens
  obtain ⟨raw, owner, material, hhandle, hraw, hmaterial, hstaged, happroved⟩ := hopens
  have howner : owner.id = user.id := by
    rw [hid, hstaged]
    rfl
  rw [howner] at happroved
  refine ⟨q, handle, req, raw, owner, material, hreq, hhandle, hstaged, hq, ?_⟩
  rw [hstaged] at hrecovery htoken hwindow
  constructor
  · exact hrecovery
  · exact htoken
  · exact hwindow
  · exact hraw
  · exact hmaterial
  · intro hold
    obtain ⟨policy, hpolicy, huser, hcount⟩ := happroved hold halive
    exact ⟨policy, hpolicy, huser, (hc.rostered.threshold policy hpolicy).1, hcount⟩

end

/-- The publication behind the answer of a finalize. -/
theorem rekeys_of_session (hids : Minted reqs) (hrostered : Rostered db)
    (hempty : db.pending = [])
    (hr : Cfg.Reach (fun _ _ => True) (startOf settings crypto reqs db mem) c)
    {recoveryId finalizeToken credentialRowId : String} {now : Time} {outcome : Session}
    (hreq : reqs p = .finalize recoveryId finalizeToken credentialRowId now)
    (hret : c.procs p = .ret (.session outcome)) :
    ∃ c₁ c₂ row user, Cfg.Reach (fun _ _ => True) (startOf settings crypto reqs db mem) c₁ ∧
      c₁.step p = some c₂ ∧ Cfg.Reach (fun _ _ => True) c₂ c ∧
      Chronicle settings crypto reqs c₁.db ∧ outcome = ⟨user.id, generationOf user.id c₂.db.1⟩ ∧
      Rekeys crypto p recoveryId finalizeToken credentialRowId now row user c₁.db c₂.db := by
  have hstart := guarded_start settings crypto mem hids hrostered hempty
  obtain ⟨past, hg, _, hpast⟩ := hstart.reach hr
  have howed := hg.result (r := .ok (.session outcome)) hret
  rw [hreq] at howed
  cases hp : past p with
  | nil => exact (howed.1 hp).elim
  | cons ab rest =>
      have hab : ab ∈ past p := by
        rw [hp]
        exact List.mem_cons_self
      obtain ⟨row, user, houtcome, hrekeys⟩ := howed.2 ab hab
      rcases hpast p ab hab with hnone | ⟨c₁, c₂, h₁, hs, h₂, rfl⟩
      · cases hnone
      · obtain ⟨_, hg₁, _, _⟩ := hstart.reach h₁
        exact ⟨c₁, c₂, row, user, h₁, hs, h₂, hg₁.inv, houtcome, hrekeys⟩

/-- A finalize that answered with a session took the row that a finish for the account had opened
and committed at least the veto window earlier; the guardians that still stand had approved it, if
no sign-up of the run creates the account; and with its commit the account has the approved
credential and nothing else. -/
theorem finalize_is_authorized (hids : Minted reqs) (hrostered : Rostered db)
    (hempty : db.pending = [])
    (hr : Cfg.Reach (fun _ _ => True) (startOf settings crypto reqs db mem) c)
    {recoveryId finalizeToken credentialRowId : String} {now : Time} {outcome : Session}
    (hreq : reqs p = .finalize recoveryId finalizeToken credentialRowId now)
    (hret : c.procs p = .ret (.session outcome)) :
    ∃ c₁ c₂, Cfg.Reach (fun _ _ => True) (startOf settings crypto reqs db mem) c₁ ∧
      c₁.step p = some c₂ ∧ Cfg.Reach (fun _ _ => True) c₂ c ∧
      ∃ q handle req raw owner material row, reqs q = .finish handle req ∧
        owner.username = handle ∧ owner.id = outcome.userId ∧
        row = req.pendingRow settings crypto owner material ∧
        .opened q row ∈ c₁.db.2 ∧ .closed p row ∈ c₂.db.2 ∧
        Authorized settings crypto (Original reqs) recoveryId finalizeToken now outcome.userId req
          raw material c₁.db.1 ∧
        Replaced outcome material c₁.db.1 c₂.db.1 := by
  obtain ⟨c₁, c₂, row, user, h₁, hs, h₂, hc, houtcome, hrekeys⟩ :=
    rekeys_of_session hids hrostered hempty hr hreq hret
  obtain ⟨q, handle, req, raw, owner, material, hfinish, hhandle, hstaged, hopened, hauthorized⟩ :=
    authorized_of_rekeys hc hrekeys
  have howner : owner.id = user.id := by
    rw [(Db.mem_of_userById hrekeys.account).2, hstaged]
    rfl
  refine ⟨c₁, c₂, h₁, hs, h₂, q, handle, req, raw, owner, material, row, hfinish, hhandle, ?_,
    hstaged, hopened, hrekeys.closed, ?_⟩
  · rw [houtcome]
    exact howner
  · rw [houtcome]
    exact ⟨hauthorized, replaced_of_rekeys hc hrekeys hstaged⟩

theorem finalize_is_authorized_once :
    ∃ c, Cfg.play oneRecovery (startOf oneSettings firstByteCrypto oneReqs oneDb {}) = some c ∧
      c.db.1.users.map (·.id) = ["U", "V"] ∧
      ∃ c₁ c₂ : Cfg ℕ (Store ℕ) Memory Label Exn Answer, c₁.step 3 = some c₂ ∧
        Cfg.Reach (fun _ _ => True) c₂ c ∧
        ∃ q handle req raw owner material row, oneReqs q = .finish handle req ∧
          owner.username = handle ∧ owner.id = "U" ∧
          row = req.pendingRow oneSettings firstByteCrypto owner material ∧
          .opened q row ∈ c₁.db.2 ∧ .closed 3 row ∈ c₂.db.2 ∧
          Authorized oneSettings firstByteCrypto (Original oneReqs) "R" "t" 20 "U" req raw material
            c₁.db.1 ∧
          Original oneReqs "U" ∧ Replaced ⟨"U", 1⟩ material c₁.db.1 c₂.db.1 := by
  have hrun : (Cfg.play oneRecovery (startOf oneSettings firstByteCrypto oneReqs oneDb {})).map
      (fun c => ((c.procs 3).returned, c.db.1.users.map (·.id))) =
        some (some (.session ⟨"U", 1⟩), ["U", "V"]) := by
    decide +kernel
  obtain ⟨c, hc, hpair⟩ := Option.map_eq_some_iff.mp hrun
  obtain ⟨hret, husers⟩ := Prod.mk.inj hpair
  obtain ⟨c₁, c₂, _, hs, h₂, q, handle, req, raw, owner, material, row, hfinish, hhandle, hid,
      hrow, hopened, hclosed, hauthorized, hreplaced⟩ :=
    finalize_is_authorized minted_one rostered_one rfl (Cfg.reach_of_play Cfg.Reach.start hc) rfl
      (Request.returned_eq_some.mp hret)
  exact ⟨c, hc, husers, c₁, c₂, hs, h₂, q, handle, req, raw, owner, material, row, hfinish, hhandle,
    hid, hrow, hopened, hclosed, hauthorized, original_one, hreplaced⟩

/-! ## One fate for each row -/

/-- In every run: the pending rows are those that were opened and not taken, one for each account
and under distinct ids; a row was opened once, by a finish that has a quorum behind it; it was
taken once at most, by a request that was entitled to it for its account, after it was opened; and
the row of an answered finalize was taken by that finalize and by nobody else. -/
theorem each_row_has_one_fate (hids : Minted reqs) (hrostered : Rostered db)
    (hempty : db.pending = [])
    (hr : Cfg.Reach (fun _ _ => True) (startOf settings crypto reqs db mem) c) :
    (∀ row, row ∈ c.db.1.pending ↔ (∃ q, .opened q row ∈ c.db.2) ∧ ∀ p, .closed p row ∉ c.db.2) ∧
      (c.db.1.pending.map (·.userId)).Nodup ∧
      ((c.db.2.filterMap openedRow).map (·.id)).Nodup ∧ (c.db.2.filterMap closedRow).Nodup ∧
      (∀ q row, .opened q row ∈ c.db.2 →
        Opens settings crypto (Original reqs) (reqs q) c.db.1 row) ∧
      (∀ p row, .closed p row ∈ c.db.2 → Closes crypto p c.db.2 (reqs p) row ∧
        ∃ q, [.opened q row, .closed p row].Sublist c.db.2) ∧
      ∀ p recoveryId finalizeToken credentialRowId now outcome,
        reqs p = .finalize recoveryId finalizeToken credentialRowId now →
        c.procs p = .ret (.session outcome) →
          ∃ row, row.id = recoveryId ∧ row.userId = outcome.userId ∧
            ∀ q, .closed q row ∈ c.db.2 ↔ q = p := by
  have hstart := guarded_start settings crypto mem hids hrostered hempty
  obtain ⟨past, hg, _, _⟩ := hstart.reach hr
  have hc : Chronicle settings crypto reqs c.db := hg.inv
  refine ⟨hc.balanced.live, hc.single, hc.balanced.openedOnce, hc.balanced.closedOnce, hc.opening,
    ?_, ?_⟩
  · intro p row hclosed
    exact ⟨hc.closing p row hclosed, hc.balanced.opened_first hclosed⟩
  · intro p recoveryId finalizeToken credentialRowId now outcome hreq hret
    obtain ⟨c₁, c₂, row, user, h₁, hs, h₂, _, houtcome, hrekeys⟩ :=
      rekeys_of_session hids hrostered hempty hr hreq hret
    obtain ⟨_, hg₂, _, _⟩ := hstart.reach (h₁.step (fun _ _ => trivial) hs)
    have hclosed : .closed p row ∈ c.db.2 := (advances_of_reach hg₂ h₂).2.mem hrekeys.closed
    have hwhere := List.find?_some hrekeys.taken
    simp only [finalizeWhere, Bool.and_eq_true, decide_eq_true_eq] at hwhere
    refine ⟨row, hwhere.1.1, ?_, ?_⟩
    · rw [houtcome]
      exact (Db.mem_of_userById hrekeys.account).2.symm
    · intro q
      constructor
      · exact fun hq => eq_of_closed hc.balanced.closedOnce hq hclosed
      · intro hq
        rw [hq]
        exact hclosed

theorem row_has_one_fate :
    ∃ c, Cfg.play oneRecovery (startOf oneSettings firstByteCrypto oneReqs oneDb {}) = some c ∧
      c.db.2.length = 2 ∧ ∃ row, row.id = "R" ∧ row.userId = "U" ∧
        ∀ q, .closed q row ∈ c.db.2 ↔ q = 3 := by
  have hrun : (Cfg.play oneRecovery (startOf oneSettings firstByteCrypto oneReqs oneDb {})).map
      (fun c => ((c.procs 3).returned, c.db.2.length)) =
        some (some (.session ⟨"U", 1⟩), 2) := by
    decide +kernel
  obtain ⟨c, hc, hret⟩ := Option.map_eq_some_iff.mp hrun
  rw [Prod.mk.injEq] at hret
  obtain ⟨_, _, _, _, _, _, hfinalized⟩ := each_row_has_one_fate minted_one rostered_one rfl
    (Cfg.reach_of_play Cfg.Reach.start hc)
  exact ⟨c, hc, hret.2, hfinalized 3 "R" "t" "C" 20 _ rfl (Request.returned_eq_some.mp hret.1)⟩

/-! ## Rosters -/

/-- What an enrolment that returned has stored stands in every later state in which the account is
still there, if no sign-up of the run creates it: the policy route shows the threshold and the keys
that were sent. -/
theorem roster_is_permanent (hids : Minted reqs) (hrostered : Rostered db)
    (hempty : db.pending = [])
    (hr : Cfg.Reach (fun _ _ => True) (startOf settings crypto reqs db mem) c)
    {token : Option Claims} {pks : List String} {k : ℕ} {newUlid : ℕ → String}
    {result : EnrollResult} (hreq : reqs p = .enroll token pks k newUlid)
    (hret : c.procs p = .ret (.enrolled result))
    (hr' : Cfg.Reach (fun _ _ => True) c c') :
    ∃ claims, token = some claims ∧ (Original reqs claims.userId → Alive claims.userId c'.db.1 →
      ∃ keys, policyView claims.userId c'.db.1 = some (k, keys) ∧ keys.Perm pks) := by
  have hstart := guarded_start settings crypto mem hids hrostered hempty
  obtain ⟨past, hg, _, hpast⟩ := hstart.reach hr
  have howed := hg.result (r := .ok (.enrolled result)) hret
  rw [hreq] at howed
  cases hp : past p with
  | nil => exact (howed.1 hp).elim
  | cons ab rest =>
      have hab : ab ∈ past p := by
        rw [hp]
        exact List.mem_cons_self
      obtain ⟨claims, htoken, _, henrolled⟩ := howed.2 ab hab
      refine ⟨claims, htoken, ?_⟩
      intro hold halive
      rcases hpast p ab hab with hnone | ⟨c₁, c₂, h₁, hs, h₂, rfl⟩
      · cases hnone
      · obtain ⟨_, hg₁, _, _⟩ := hstart.reach h₁
        obtain ⟨_, hg₂, _, _⟩ := hstart.reach (h₁.step (fun _ _ => trivial) hs)
        obtain ⟨_, hg', _, _⟩ := hstart.reach (hr.trans hr')
        have hc₁ : Chronicle settings crypto reqs c₁.db := hg₁.inv
        have hc' : Chronicle settings crypto reqs c'.db := hg'.inv
        have hkeys := keys_enrolled hc₁.rostered henrolled claims.userId
        rw [if_pos rfl] at hkeys
        have hpolicy : (⟨newUlid 0, claims.userId, k⟩ : RecoveryPolicy) ∈ c₂.db.1.policies := by
          rw [(enrolled_eq_some henrolled).2]
          exact List.mem_append_right _ (List.mem_singleton_self _)
        obtain ⟨hstands, hsame⟩ :=
          (advances_of_reach hg₂ (h₂.trans hr')).1.rosters _ hpolicy hold halive
        have hfound : policyOf claims.userId c'.db.1 = some ⟨newUlid 0, claims.userId, k⟩ :=
          hc'.rostered.policyOf.mpr hstands
        refine ⟨((c'.db.1.approvers.filter fun a => a.userId = claims.userId).insertionSort
          fun a b => a.id ≤ b.id).map (·.approverPubkey), ?_, ?_⟩
        · rw [policyView, hfound]
          rfl
        · rw [← hkeys, ← hsame]
          exact (List.perm_insertionSort _ _).map _

theorem one_roster_stands :
    ∃ c, Cfg.play (List.replicate 6 0)
        (startOf oneSettings firstByteCrypto oneReqs oneDb {}) = some c ∧
      ∀ c', Cfg.Reach (fun _ _ => True) c c' → Alive "U" c'.db.1 →
        ∃ keys, policyView "U" c'.db.1 = some (1, keys) ∧ keys.Perm [oneGuardian] := by
  have hrun : (Cfg.play (List.replicate 6 0)
      (startOf oneSettings firstByteCrypto oneReqs oneDb {})).map
        (fun c => (c.procs 0).returned) = some (some (.enrolled ⟨1, 1⟩)) := by
    decide +kernel
  obtain ⟨c, hc, hret⟩ := Option.map_eq_some_iff.mp hrun
  refine ⟨c, hc, ?_⟩
  intro c' hr'
  obtain ⟨claims, htoken, hstands⟩ := roster_is_permanent minted_one rostered_one rfl
    (Cfg.reach_of_play Cfg.Reach.start hc) rfl (Request.returned_eq_some.mp hret) hr'
  cases htoken
  exact hstands original_one

/-! ## Refusals -/

/-- A recovery call that has raised, a finalize apart, has changed nothing with any of its
statements, whatever ran in between; and a finalize that has raised has changed something only by
taking a ripe row whose account was gone. -/
theorem refusals_change_nothing (hids : Minted reqs) (hrostered : Rostered db)
    (hempty : db.pending = []) {c₁ c₂ : Cfg π (Store π) Memory Label Exn Answer}
    (h₁ : Cfg.Reach (fun _ _ => True) (startOf settings crypto reqs db mem) c₁)
    (hs : c₁.step p = some c₂) (h₂ : Cfg.Reach (fun _ _ => True) c₂ c) {e : Exn}
    (hraised : c.procs p = .raise e) (hother : ∀ bystander, reqs p ≠ .other bystander) :
    c₂.db = c₁.db ∨ ∃ recoveryId finalizeToken credentialRowId now,
      reqs p = .finalize recoveryId finalizeToken credentialRowId now ∧
        Drops crypto recoveryId finalizeToken now c₁.db c₂.db := by
  have hstart := guarded_start settings crypto mem hids hrostered hempty
  obtain ⟨past₁, hg₁, _, _⟩ := hstart.reach h₁
  obtain ⟨past₂, hg₂, _, hself⟩ := hg₁.step (fun _ _ => trivial) hs
  obtain ⟨past, hg, hkept, _⟩ := hg₂.reach h₂
  rcases hself with ⟨_, hsame⟩ | ⟨hmore, _⟩
  · exact Or.inl hsame
  · have hmem : (c₁.db, c₂.db) ∈ past p := by
      apply hkept
      rw [hmore]
      exact List.mem_cons_self
    have howed := (hg.result (r := .error e) hraised).2 _ hmem
    cases hreq : reqs p with
    | finalize recoveryId finalizeToken credentialRowId now =>
        right
        rw [hreq] at howed
        exact ⟨recoveryId, finalizeToken, credentialRowId, now, rfl, howed⟩
    | other bystander => exact absurd hreq (hother bystander)
    | _ =>
        rw [hreq] at howed
        exact howed.elim

/-- Too early: nothing has been opened yet. -/
theorem early_finalize_changes_nothing :
    ∃ c₂, (startOf oneSettings firstByteCrypto oneReqs oneDb {}).step 3 = some c₂ ∧
      (c₂.db = (oneDb, []) ∨ ∃ recoveryId finalizeToken credentialRowId now,
        oneReqs 3 = .finalize recoveryId finalizeToken credentialRowId now ∧
          Drops firstByteCrypto recoveryId finalizeToken now (oneDb, []) c₂.db) := by
  have hrun : ((startOf oneSettings firstByteCrypto oneReqs oneDb {}).step 3).bind
      (fun c₂ => (Cfg.play [3, 3] c₂).map fun c => raised (c.procs 3)) =
        some (some (.http 409 "recovery not finalizable")) := by
    decide +kernel
  obtain ⟨c₂, hs, hplay⟩ := Option.bind_eq_some_iff.mp hrun
  obtain ⟨c, hc, hraised⟩ := Option.map_eq_some_iff.mp hplay
  have hother : ∀ bystander, oneReqs 3 ≠ .other bystander := by
    intro bystander h
    cases h
  exact ⟨c₂, hs, refusals_change_nothing minted_one rostered_one rfl Cfg.Reach.start hs
    (Cfg.reach_of_play Cfg.Reach.start hc) (raised_eq_some.mp hraised) hother⟩

end

end AikoIsland.VetoWindow
