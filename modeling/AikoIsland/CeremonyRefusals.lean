import AikoIsland.Ceremonies
import AikoIsland.Grouping
import AikoIsland.Serial

/-!
# Refused passkey ceremonies

A finish request run alone, with the challenge that it presents valid. It answers
when it succeeds, or raises a 4xx and leaves the store as it was, so the
challenge is unconsumed and nothing was added.

`add/finish` always answers, and `register/finish` unless every handle drawn for
the account is taken, which is a 503. Where a sign-in finds its credential, it
answers unless the check against the stored key raises what the service does not
fold, or the account of the credential is gone. `recover/finish` answers when the
attestation verifies under a quorum of guardians: of the two refusals that
`verify_registration` may raise it catches one, and after the rollback it reads
the id of the expired account row, so neither becomes the 4xx that is meant.
-/
namespace AikoIsland.CeremonyRefusals
open Tables Gateway Passkeys Auth Ceremonies Recovery WriterLock

/-- The request succeeded, or answered a 4xx and left everything as it was. -/
def Answers (x : Point Db Memory) (r : Except Exn Unit × Point Db Memory) : Prop :=
  r.1 = .ok () ∨ (∃ status detail, r.1 = .error (.http status detail) ∧ 400 ≤ status ∧
    status < 500) ∧ r.2 = x

/-- PRIMARY KEYs of the tables that a finish reads by key. -/
structure Keyed (db : Db) : Prop where
  challenges : (db.challenges.map (·.state)).Nodup
  credentials : (db.credentials.map (·.id)).Nodup

/-- The presented challenge was issued with these bytes, and is not consumed or expired. -/
structure Presents (f : Finish) (raw : Signing.Bytes) (db : Db) : Prop where
  issued : f.challenge.1 = Signing.bytesToBase64url raw
  valid : ∃ c ∈ db.challenges,
    consumeWhere f.challenge.1 f.challenge.2.1 f.challenge.2.2 c = true

/-- The account and the credential of a draw collide with no row. -/
def Free (material : Material) (db : Db) (d : Draw) : Prop :=
  (∀ u ∈ db.users, u.id ≠ (accountRow d).id ∧ u.username ≠ (accountRow d).username ∧
    u.aikoUsername ≠ (accountRow d).aikoUsername) ∧
    ∀ c ∈ db.credentials, c.id ≠ d.rowId ∧ c.credentialId ≠ material.credentialId

/-- The check against the stored key answers, and a success has its account. -/
def CheckAnswers (s : Server) (raw : Signing.Bytes) (db : Db) (assertion : Assertion)
    (cred : PasskeyCredential) : Prop :=
  match verifyAuthentication s.webauthn raw assertion cred.publicKey cred.signCount with
  | .ok _ => (db.userById cred.userId).isSome = true
  | .error .invalidAuthenticationResponse => True
  | .error (.raised _) => False

/-- The attestation verifies, and the approvals over it are a quorum. -/
def QuorumHolds (s : Server) (raw : Signing.Bytes) (db : Db) (req : FinishRequest) (user : User)
    (policy : RecoveryPolicy) : Prop :=
  ∃ material, verifyRegistration s.webauthn raw req.attestation = .ok material ∧
    verifyQuorum s.registration (approverKeys user.id db)
      (approvalBytes raw user.id material.credentialId material.publicKey)
      policy.thresholdK req.approvals [] = true

/-- The condition under which a finish answers. -/
def Answerable (s : Server) (raw : Signing.Bytes) (db : Db) : Finish → Prop
  | .register _ credential draws _ => s.registrationOpen = true → ∀ material,
      verifyRegistration s.webauthn raw credential = .ok material →
      getCredential material.credentialId db = none → ∃ d ∈ draws, Free material db d
  | .add _ _ _ _ _ => True
  | .authenticate req => ∀ assertion cred,
      parseAssertion s.webauthn req.credential = some assertion →
      getCredential assertion.credentialId db = some cred → CheckAnswers s raw db assertion cred
  | .recover handle req => ∀ user policy, userByHandle handle db = some user →
      policyOf user.id db = some policy → QuorumHolds s raw db req user policy

section
variable {db : Db} {mem : Memory} {x y : Point Db Memory}

/-- A valid challenge is claimed, and its bytes come back. -/
theorem run_consumeChallenge {state : String} {operation : PasskeyOperation} {now : Time}
    {raw : Signing.Bytes} (hkeys : (x.view.challenges.map (·.state)).Nodup)
    (hissued : state = Signing.bytesToBase64url raw)
    (hvalid : ∃ c ∈ x.view.challenges, consumeWhere state operation now c = true) :
    (consumeChallenge state operation now).run x =
      (.ok (some raw), { x with work := some (burnChallenge state operation now x.view) }) := by
  obtain ⟨c, hc, hwhere⟩ := hvalid
  have hstate : ∀ c' : PasskeyChallenge, consumeWhere state operation now c' = true →
      c'.state = state := by
    intro c' h
    simp only [consumeWhere, Bool.and_eq_true, decide_eq_true_eq] at h
    exact h.1.1.1
  have hrowcount : burnRowcount state operation now x.view = 1 := by
    apply OrderedDict.length_filter_one hkeys hc hwhere
    intro c' _ h
    rw [hstate c' h, hstate c hwhere]
  rw [consumeChallenge, Request.run_bind, execute, Request.run_exec]
  dsimp only
  rw [hrowcount, if_neg (by decide), hissued, Signing.base64urlToBytes_bytesToBase64url]
  rfl

/-- Before its session closes a handler has a result, or a 4xx and nothing committed. -/
def Settles {α : Type} (x : Point Db Memory) (r : Except Exn α × Point Db Memory) : Prop :=
  (∃ a, r.1 = .ok a) ∨ ∃ status detail, r.1 = .error (.http status detail) ∧ 400 ≤ status ∧
    status < 500 ∧ r.2.db = x.db ∧ r.2.mem = x.mem

theorem answers_iff_settles {r : Body Unit} (hx : x.work = none) :
    Answers x (r.session.run x) ↔ Settles x (r.run x) := by
  have hsame : (r.run x).2.rolledBack = x ↔
      (r.run x).2.db = x.db ∧ (r.run x).2.mem = x.mem := by
    obtain ⟨db, mem, work⟩ := x
    cases hx
    simp [Point.rolledBack]
  rw [Request.run_session, Answers, hsame, Settles]
  constructor
  · intro h
    cases h with
    | inl hok => exact Or.inl ⟨(), hok⟩
    | inr hrefused =>
        obtain ⟨⟨status, detail, hhttp, hlow, hhigh⟩, hdb, hmem⟩ := hrefused
        exact Or.inr ⟨status, detail, hhttp, hlow, hhigh, hdb, hmem⟩
  · intro h
    cases h with
    | inl hok => exact Or.inl hok.choose_spec
    | inr hrefused =>
        obtain ⟨status, detail, hhttp, hlow, hhigh, hdb, hmem⟩ := hrefused
        exact Or.inr ⟨⟨status, detail, hhttp, hlow, hhigh⟩, hdb, hmem⟩

/-- The route drops what the handler returns. -/
theorem settles_forget {α : Type} {r : Body α} :
    Settles x ((r >>= fun _ => Pure.pure ()).run x) ↔ Settles x (r.run x) := by
  rw [Request.run_bind]
  unfold Settles
  cases r.run x with
  | mk result y => cases result <;> simp [Pure.pure, Request.run]

theorem settles_ok {α : Type} {a : α} : Settles x (.ok a, y) := Or.inl ⟨a, rfl⟩

theorem settles_http {α : Type} {status : ℕ} {detail : String} (hlow : 400 ≤ status)
    (hhigh : status < 500) (hdb : y.db = x.db) (hmem : y.mem = x.mem) :
    Settles x ((.error (.http status detail), y) : Except Exn α × Point Db Memory) :=
  Or.inr ⟨status, detail, rfl, hlow, hhigh, hdb, hmem⟩

theorem not_settles {α : Type} {e : Exn}
    (he : ∀ status detail, e = .http status detail → 500 ≤ status) :
    ¬Settles x ((.error e, y) : Except Exn α × Point Db Memory) := by
  intro h
  cases h with
  | inl hok =>
      obtain ⟨a, ha⟩ := hok
      cases ha
  | inr hrefused =>
      obtain ⟨status, detail, hhttp, _, hhigh, _⟩ := hrefused
      have hlow := he status detail (Except.error.inj hhttp)
      omega

end

/-! ## register/finish and add/finish -/

section
variable {x y : Point Db Memory} {s : Server} {raw : Signing.Bytes}

/-- An attempt is applied if its rows are free. -/
theorem insertAccount_iff {db : Db} {d : Draw} {material : Material} :
    (∃ db', insertAccount material d db = some db') ↔ Free material db d := by
  unfold insertAccount insertUser
  constructor
  · intro h
    obtain ⟨db', hdb'⟩ := h
    obtain ⟨db₁, huser, hcredential⟩ := Option.bind_eq_some_iff.mp hdb'
    obtain ⟨hfree, rfl⟩ := Tables.map_insertRow_eq_some.mp huser
    obtain ⟨hnew, _⟩ := Db.insertCredential_eq_some.mp hcredential
    constructor
    · intro u hu
      simpa [and_assoc] using hfree u hu
    · exact hnew
  · intro h
    have huser : (insertRow (fun x => x.id = (accountRow d).id ||
        x.username = (accountRow d).username || x.aikoUsername = (accountRow d).aikoUsername)
        db.users (accountRow d)).map (fun rows => { db with users := rows }) =
        some { db with users := db.users ++ [accountRow d] } := by
      rw [Tables.map_insertRow_eq_some]
      refine ⟨?_, rfl⟩
      intro u hu
      simpa [and_assoc] using h.1 u hu
    rw [huser, Option.bind_some]
    exact ⟨_, Db.insertCredential_eq_some.mpr ⟨h.2, rfl⟩⟩

theorem getCredential_eq_none {db : Db} {credentialId : String} :
    getCredential credentialId db = none ↔
      ∀ c ∈ db.credentials, c.credentialId ≠ credentialId := by
  simp [getCredential]

/-- Where the credential is new, an attempt that is refused moves to the next draw. -/
theorem run_attemptAccount_cons {material : Material} {d : Draw} {draws : List Draw}
    (hnew : ∀ c ∈ x.view.credentials, c.credentialId ≠ material.credentialId) :
    (attemptAccount material (d :: draws)).run x =
      match insertAccount material d x.view with
      | some db' => (.ok (accountRow d), x.wrote true db')
      | none => (attemptAccount material draws).run x.refused := by
  rw [attemptAccount, Request.run]
  cases hins : insertAccount material d x.view with
  | some db' => rfl
  | none =>
      have hconflict : isCredentialIdConflict material d x.view = false := by
        have hany : (x.view.credentials.any fun c => c.credentialId = material.credentialId) =
            false := by
          rw [List.any_eq_false]
          intro c hc
          simpa using hnew c hc
        rw [isCredentialIdConflict, hany, Bool.and_false]
      dsimp only
      rw [if_neg (by rw [hconflict]; decide)]

/-- Attempts succeed on a free draw, and are exhausted without one. -/
theorem run_attemptAccount {material : Material} {draws : List Draw}
    (hnew : ∀ c ∈ x.view.credentials, c.credentialId ≠ material.credentialId) :
    ((∃ d ∈ draws, Free material x.view d) ∧
        ∃ u y, (attemptAccount material draws).run x = (.ok u, y)) ∨
      (¬∃ d ∈ draws, Free material x.view d) ∧
        ∃ y, (attemptAccount material draws).run x = (.error .handleAllocationExhausted, y) := by
  induction draws generalizing x with
  | nil =>
      right
      constructor
      · simp
      · exact ⟨x, rfl⟩
  | cons d draws ih =>
      rw [run_attemptAccount_cons hnew]
      cases hins : insertAccount material d x.view with
      | some db' =>
          left
          exact ⟨⟨d, List.mem_cons_self, insertAccount_iff.mp ⟨db', hins⟩⟩, _, _, rfl⟩
      | none =>
          have htaken : ¬Free material x.view d := by
            rw [← insertAccount_iff, hins]
            simp
          have hrest := ih (x := x.refused) hnew
          simpa [htaken] using hrest

/-- The point after the challenge was claimed. -/
def burned (f : Finish) (x : Point Db Memory) : Point Db Memory :=
  { x with work := some (burnChallenge f.challenge.1 f.challenge.2.1 f.challenge.2.2 x.view) }

theorem run_consume {f : Finish} (hx : x.work = none) (hkeyed : Keyed x.db)
    (hpresents : Presents f raw x.db) :
    (consumeChallenge f.challenge.1 f.challenge.2.1 f.challenge.2.2).run x =
      (.ok (some raw), burned f x) := by
  rw [← Point.view_of_none hx] at hkeyed hpresents
  exact run_consumeChallenge hkeyed.challenges hpresents.issued hpresents.valid

/-- Registering a new account settles exactly under its condition. -/
theorem settles_register_iff {state credential : String} {draws : List Draw} {now : Time}
    (hx : x.work = none) (hw : AcceptsObjects s.webauthn) (hkeyed : Keyed x.db)
    (hpresents : Presents (.register state credential draws now) raw x.db) :
    Settles x ((passkeyRegisterFinish s.registrationOpen s.registration state credential draws
      now).run x) ↔ Answerable s raw x.db (.register state credential draws now) := by
  have hconsume := run_consume hx hkeyed hpresents
  dsimp only [Finish.challenge] at hconsume
  have hview : x.view = x.db := Point.view_of_none hx
  have hfind : ∀ id, getCredential id (burned (.register state credential draws now) x).view =
      getCredential id x.db := by
    intro id
    rw [← hview]
    rfl
  have hfree : ∀ material d, Free material (burned (.register state credential draws now) x).view d ↔
      Free material x.db d := by
    intro material d
    rw [← hview]
    exact Iff.rfl
  unfold passkeyRegisterFinish Answerable
  by_cases hclosed : (!s.registrationOpen) = true
  · rw [if_pos hclosed]
    constructor
    · intro _ hopen
      simp [hopen] at hclosed
    · intro _
      exact settles_http (by norm_num) (by norm_num) rfl rfl
  · rw [if_neg hclosed, Request.run_bind, hconsume]
    dsimp only
    have hopen : s.registrationOpen = true := by simpa using hclosed
    have hcrypto : s.registration.verifyRegistration raw credential =
        verifyRegistration s.webauthn raw credential := rfl
    rw [hcrypto]
    cases hverified : verifyRegistration s.webauthn raw credential with
    | error e =>
        constructor
        · intro _ _ material hmaterial
          cases hmaterial
        · intro _
          cases e with
          | invalidJsonStructure => exact settles_http (by norm_num) (by norm_num) rfl rfl
          | invalidRegistrationResponse => exact settles_http (by norm_num) (by norm_num) rfl rfl
          | raised type =>
              exact absurd hverified (verifyRegistration_ne_raised hw raw credential type)
    | ok material =>
        dsimp only
        rw [Request.run_bind, Request.run_handle, createPasskeyAccount, Request.run_bind, select,
          Request.run_query]
        dsimp only
        rw [credentialOwner, hfind]
        cases howner : getCredential material.credentialId x.db with
        | some owner =>
            constructor
            · intro _ _ material' hmaterial hnone
              cases hmaterial
              rw [howner] at hnone
              cases hnone
            · intro _
              exact settles_http (by norm_num) (by norm_num) rfl rfl
        | none =>
            have hnew := getCredential_eq_none.mp ((hfind material.credentialId).trans howner)
            rw [Option.map_none]
            dsimp only
            cases run_attemptAccount hnew with
            | inl happlied =>
                obtain ⟨⟨d, hd, hdraw⟩, u, y, hattempt⟩ := happlied
                rw [hattempt]
                constructor
                · intro _ _ material' hmaterial _
                  cases hmaterial
                  exact ⟨d, hd, (hfree material d).mp hdraw⟩
                · intro _
                  exact settles_ok
            | inr hexhausted =>
                obtain ⟨hnone, y, hattempt⟩ := hexhausted
                rw [hattempt]
                constructor
                · intro h
                  exact absurd h (not_settles fun status detail he => by cases he; norm_num)
                · intro h
                  obtain ⟨d, hd, hdraw⟩ := h hopen material rfl howner
                  exact absurd ⟨d, hd, (hfree material d).mpr hdraw⟩ hnone

/-- The session gate refuses with a 4xx. -/
theorem run_getCurrentUser {token : Option Claims} :
    (∃ user, (getCurrentUser token).run x = (.ok user, x)) ∨
      ∃ status detail, (getCurrentUser token).run x = (.error (.http status detail), x) ∧
        400 ≤ status ∧ status < 500 := by
  rw [getCurrentUser, Request.run_handle, resolveSessionUser, Request.run_bind, select,
    Request.run_query]
  dsimp only
  cases hgate : gate token x.view with
  | ok user => exact Or.inl ⟨user, rfl⟩
  | error e =>
      have herror : e = .invalidSession ∨ e = .sessionBanned := by
        unfold gate at hgate
        split at hgate
        · exact Or.inl (Except.error.inj hgate).symm
        · split at hgate
          · exact Or.inl (Except.error.inj hgate).symm
          · split_ifs at hgate
            · exact Or.inl (Except.error.inj hgate).symm
            · exact Or.inr (Except.error.inj hgate).symm
      right
      cases herror with
      | inl h =>
          subst h
          exact ⟨401, _, rfl, by norm_num, by norm_num⟩
      | inr h =>
          subst h
          exact ⟨403, _, rfl, by norm_num, by norm_num⟩

/-- Adding a passkey to an account settles. -/
theorem settles_add {token : Option Claims} {state credential rowId : String} {now : Time}
    (hx : x.work = none) (hw : AcceptsObjects s.webauthn) (hkeyed : Keyed x.db)
    (hpresents : Presents (.add token state credential rowId now) raw x.db) :
    Settles x ((Finish.add token state credential rowId now).body s |>.run x) := by
  have hconsume := run_consume hx hkeyed hpresents
  dsimp only [Finish.challenge] at hconsume
  unfold Finish.body
  dsimp only
  rw [Request.run_bind]
  cases run_getCurrentUser with
  | inr hrefused =>
      obtain ⟨status, detail, hrun, hlow, hhigh⟩ := hrefused
      rw [hrun]
      exact settles_http hlow hhigh rfl rfl
  | inl hpassed =>
      obtain ⟨user, hrun⟩ := hpassed
      rw [hrun]
      dsimp only
      rw [passkeyAddFinish, Request.run_bind, hconsume]
      dsimp only
      have hcrypto : s.registration.verifyRegistration raw credential =
          verifyRegistration s.webauthn raw credential := rfl
      rw [hcrypto]
      cases hverified : verifyRegistration s.webauthn raw credential with
      | error e =>
          cases e with
          | invalidJsonStructure => exact settles_http (by norm_num) (by norm_num) rfl rfl
          | invalidRegistrationResponse => exact settles_http (by norm_num) (by norm_num) rfl rfl
          | raised type =>
              exact absurd hverified (verifyRegistration_ne_raised hw raw credential type)
      | ok material =>
          dsimp only
          rw [Request.run_handle, linkPasskeyCredential, Request.run_bind, flushOrRaise, flushOr,
            Request.run_bind, flush]
          cases hlink : (burned (.add token state credential rowId now) x).view.insertCredential
              (passkeyCredentialRow rowId user.id material (.session user.tokenGeneration)) with
          | some db' =>
              rw [Request.run_attempt_some hlink]
              exact settles_ok
          | none =>
              rw [Request.run_attempt_none hlink]
              exact settles_http (by norm_num) (by norm_num) rfl rfl

/-! ## authenticate/finish -/

section
variable {req : AssertionReq}

theorem run_flushSignCount {id : String} {newCount : ℕ}
    (hrow : (x.view.credentials.filter fun c => c.id = id).length = 1) :
    (flushSignCount id newCount).run x =
      (.ok (), { x with work := some (bumpSignCount id newCount x.view) }) := by
  rw [flushSignCount, Request.run_bind, execute, Request.run_exec]
  dsimp only
  rw [hrow, if_pos rfl]
  rfl

/-- After a verified assertion a sign-in settles if the account is there. -/
theorem settles_passkeyOutcome_iff {cred : PasskeyCredential} {newCount : ℕ} {user : Option User}
    (hdb : y.db = x.db) (hmem : y.mem = x.mem)
    (hrow : (y.view.credentials.filter fun c => c.id = cred.id).length = 1) :
    Settles x ((passkeyOutcome cred newCount user).run y) ↔ user.isSome = true := by
  cases user with
  | none =>
      constructor
      · intro h
        exact absurd h (not_settles (by simp))
      · intro h
        cases h
  | some user =>
      constructor
      · intro _
        rfl
      · intro _
        rw [passkeyOutcome, Request.run_bind, mint, Request.run_bind, denyIfBanned]
        by_cases hbanned : isBanned user = true
        · rw [if_pos hbanned]
          exact settles_http (by norm_num) (by norm_num) hdb hmem
        · rw [if_neg hbanned]
          change Settles x ((flushSignCount cred.id newCount >>= fun _ =>
            commit >>= fun _ => Pure.pure _).run y)
          rw [Request.run_bind, run_flushSignCount hrow]
          exact settles_ok

variable (s raw req) in
/-- After the credential was found, the check against its key decides. -/
theorem settles_found_iff {assertion : Assertion} {cred : PasskeyCredential}
    (hx : x.work = none) (hkeyed : Keyed x.db)
    (hcred : getCredential assertion.credentialId x.db = some cred) :
    Settles x (((match s.authentication.verifyAuthentication raw assertion cred.publicKey
        cred.signCount with
      | .error .invalidAuthenticationResponse => do
          rollback
          throwExn (.http 401 "passkey authentication verification failed")
      | .error (.raised type) => throwExn (.raised type)
      | .ok newCount => return (cred, newCount) : Body (PasskeyCredential × ℕ)) >>=
        fun found => (select fun db => db.userById found.1.userId) >>= fun user =>
          passkeyOutcome found.1 found.2 user).run (burned (.authenticate req) x)) ↔
      CheckAnswers s raw x.db assertion cred := by
  have hview : x.view = x.db := Point.view_of_none hx
  have hcredentials : (burned (.authenticate req) x).view.credentials = x.db.credentials := by
    rw [← hview]
    rfl
  have husers : (burned (.authenticate req) x).view.users = x.db.users := by
    rw [← hview]
    rfl
  have hverify : s.authentication.verifyAuthentication raw assertion cred.publicKey
      cred.signCount =
      verifyAuthentication s.webauthn raw assertion cred.publicKey cred.signCount := rfl
  unfold CheckAnswers
  rw [hverify]
  cases verifyAuthentication s.webauthn raw assertion cred.publicKey cred.signCount with
  | error e =>
      cases e with
      | invalidAuthenticationResponse =>
          constructor
          · intro _
            trivial
          · intro _
            exact settles_http (by norm_num) (by norm_num) rfl rfl
      | raised type =>
          constructor
          · intro h
            exact not_settles (by simp) h
          · intro h
            exact absurd h id
  | ok newCount =>
      have hrow : ((burned (.authenticate req) x).view.credentials.filter
          fun c => c.id = cred.id).length = 1 := by
        rw [hcredentials]
        apply OrderedDict.length_filter_one hkeyed.credentials (List.mem_of_find?_eq_some hcred)
        · simp
        · simp
      have huser : (burned (.authenticate req) x).view.userById cred.userId =
          x.db.userById cred.userId := by
        rw [Db.userById, Db.userById, husers]
      rw [← huser]
      exact settles_passkeyOutcome_iff rfl rfl hrow

/-- A sign-in settles exactly under its condition. -/
theorem settles_authenticate_iff (hx : x.work = none) (hkeyed : Keyed x.db)
    (hpresents : Presents (.authenticate req) raw x.db) :
    Settles x ((passkeyAuthenticateFinish s.authentication req).run x) ↔
      Answerable s raw x.db (.authenticate req) := by
  have hconsume := run_consume hx hkeyed hpresents
  dsimp only [Finish.challenge] at hconsume
  have hfind : ∀ id, getCredential id (burned (.authenticate req) x).view =
      getCredential id x.db := by
    intro id
    rw [← Point.view_of_none hx]
    rfl
  have hparse : s.authentication.parseAssertion req.credential =
      parseAssertion s.webauthn req.credential := rfl
  unfold Answerable
  dsimp only
  rw [passkeyAuthenticateFinish, Request.run_bind, verifiedCredential, Request.run_bind, hconsume]
  dsimp only
  rw [hparse]
  cases hassertion : parseAssertion s.webauthn req.credential with
  | none =>
      constructor
      · intro _ assertion cred hsome
        cases hsome
      · intro _
        exact settles_http (by norm_num) (by norm_num) rfl rfl
  | some assertion =>
      dsimp only
      rw [Request.run_bind, select, Request.run_query]
      dsimp only
      rw [hfind]
      cases hcred : getCredential assertion.credentialId x.db with
      | none =>
          constructor
          · intro _ assertion' cred hsome hfound
            cases hsome
            rw [hcred] at hfound
            cases hfound
          · intro _
            exact settles_http (by norm_num) (by norm_num) rfl rfl
      | some cred =>
          have hfound := settles_found_iff s raw req hx hkeyed hcred
          rw [Request.run_bind] at hfound
          constructor
          · intro h assertion' cred' hsome hfound'
            cases hsome
            cases hcred.symm.trans hfound'
            exact hfound.mp h
          · intro h
            exact hfound.mpr (h assertion cred rfl hcred)

end

/-! ## recover/finish -/

section
variable {req : FinishRequest}

/-- Once the account has a policy, the quorum over the attestation decides. -/
theorem settles_underPolicy_iff {handle : String} {user : User} {policy : RecoveryPolicy}
    (hx : x.work = none) (hkeyed : Keyed x.db) (hpresents : Presents (.recover handle req) raw x.db)
    (huser : userByHandle handle x.db = some user) (hpolicy : policyOf user.id x.db = some policy) :
    Settles x ((recoverFinish s.recovery s.registration handle req).run x) ↔
      QuorumHolds s raw x.db req user policy := by
  have hconsume := run_consume hx hkeyed hpresents
  dsimp only [Finish.challenge] at hconsume
  have hview : x.view = x.db := Point.view_of_none hx
  have hcrypto : s.registration.verifyRegistration raw req.attestation =
      verifyRegistration s.webauthn raw req.attestation := rfl
  rw [recoverFinish, Request.run_bind, select, Request.run_query]
  dsimp only
  rw [hview, huser]
  dsimp only
  rw [Request.run_bind, Request.run_handle, finishRecovery, Request.run_bind, select,
    Request.run_query]
  dsimp only
  rw [hview, hpolicy]
  dsimp only
  rw [Request.run_bind, select, Request.run_query]
  dsimp only
  rw [hview, Request.run_bind, hconsume]
  dsimp only
  rw [hcrypto]
  unfold QuorumHolds
  cases hverified : verifyRegistration s.webauthn raw req.attestation with
  | error e =>
      constructor
      · intro h
        cases e with
        | invalidJsonStructure => exact absurd h (not_settles (by simp))
        | invalidRegistrationResponse => exact absurd h (not_settles (by simp))
        | raised type => exact absurd h (not_settles (by simp))
      · intro h
        obtain ⟨material, hmaterial, _⟩ := h
        cases hmaterial
  | ok material =>
      dsimp only
      cases hholds : verifyQuorum s.registration (approverKeys user.id x.db)
          (approvalBytes raw user.id material.credentialId material.publicKey)
          policy.thresholdK req.approvals [] with
      | false =>
          constructor
          · intro h
            exact absurd h (not_settles (by simp))
          · intro h
            obtain ⟨material', hmaterial, hheld⟩ := h
            cases hmaterial
            rw [hholds] at hheld
            cases hheld
      | true =>
          constructor
          · intro _
            exact ⟨material, rfl, hholds⟩
          · intro _
            rw [if_neg (by simp), Request.run_bind, execute, Request.run_exec]
            dsimp only
            rw [Request.run_bind, select, Request.run_query]
            dsimp only
            generalize List.find? _ _ = found
            cases found with
            | some _ => exact settles_http (by norm_num) (by norm_num) rfl rfl
            | none =>
                dsimp only
                rw [Request.run_bind, flushNested]
                -- a refused flush is a pending recovery too
                cases hinsert : (reclaimExpired user.id req.now
                    (burned (.recover handle req) x).view).insertPending
                    (req.pendingRow s.recovery s.registration user material) with
                | some db' =>
                    rw [Request.run_attempt_some hinsert]
                    exact settles_ok
                | none =>
                    rw [Request.run_attempt_none hinsert]
                    exact settles_http (by norm_num) (by norm_num) rfl rfl

/-- Finishing a recovery settles exactly under its condition. -/
theorem settles_recover_iff {handle : String} (hx : x.work = none) (hkeyed : Keyed x.db)
    (hpresents : Presents (.recover handle req) raw x.db) :
    Settles x ((recoverFinish s.recovery s.registration handle req).run x) ↔
      Answerable s raw x.db (.recover handle req) := by
  have hview : x.view = x.db := Point.view_of_none hx
  unfold Answerable
  cases huser : userByHandle handle x.db with
  | none =>
      constructor
      · intro _ user policy hsome
        rw [huser] at hsome
        cases hsome
      · intro _
        rw [recoverFinish, Request.run_bind, select, Request.run_query]
        dsimp only
        rw [hview, huser]
        exact settles_http (by norm_num) (by norm_num) rfl rfl
  | some user =>
      cases hpolicy : policyOf user.id x.db with
      | none =>
          constructor
          · intro _ user' policy hsome hfound
            cases huser.symm.trans hsome
            rw [hpolicy] at hfound
            cases hfound
          · intro _
            rw [recoverFinish, Request.run_bind, select, Request.run_query]
            dsimp only
            rw [hview, huser]
            dsimp only
            rw [Request.run_bind, Request.run_handle, finishRecovery, Request.run_bind, select,
              Request.run_query]
            dsimp only
            rw [hview, hpolicy]
            exact settles_http (by norm_num) (by norm_num) rfl rfl
      | some policy =>
          have hquorum := settles_underPolicy_iff (s := s) hx hkeyed hpresents huser hpolicy
          constructor
          · intro h user' policy' hsome hfound
            cases huser.symm.trans hsome
            cases hpolicy.symm.trans hfound
            exact hquorum.mp h
          · intro h
            exact hquorum.mpr (h user policy huser hpolicy)

end

/-- A finish with a valid challenge succeeds, or refuses with a 4xx and changes nothing, exactly
under its condition. -/
theorem answers_iff {f : Finish} {db : Db} (hw : AcceptsObjects s.webauthn) (hkeyed : Keyed db)
    (hpresents : Presents f raw db) (mem : Memory) :
    Answers ⟨db, mem, none⟩ ((f.body s).session.run ⟨db, mem, none⟩) ↔ Answerable s raw db f := by
  have hx : (Point.mk db mem none : Point Db Memory).work = none := rfl
  rw [answers_iff_settles hx]
  cases f with
  | register state credential draws now =>
      exact settles_forget.trans (settles_register_iff hx hw hkeyed hpresents)
  | add token state credential rowId now =>
      constructor
      · intro _
        trivial
      · intro _
        exact settles_add hx hw hkeyed hpresents
  | authenticate req =>
      exact settles_forget.trans (settles_authenticate_iff hx hkeyed hpresents)
  | recover handle req =>
      exact settles_forget.trans (settles_recover_iff hx hkeyed hpresents)

end

/-! ## The empty object -/

/-- A library that finds no id in the empty object. -/
def strictLibrary : WebAuthn where
  verifyRegistrationResponse _ _ := .error .invalidJsonStructure
  decodeCredentialPublicKey _ := .error (.other "InvalidPublicKeyStructure")
  verifySignature _ := .error .invalidSignature
  parseAuthenticationCredential _ := .error .invalidJsonStructure
  verifyAuthenticationResponse _ _ _ _ := .error .invalidAuthenticationResponse
  dumps _ := "[]"

theorem acceptsObjects_strictLibrary : AcceptsObjects strictLibrary := by
  intro _ _ _ h
  cases h

def strictServer : Server where
  webauthn := strictLibrary
  crypto := ⟨fun _ _ => .error .invalidJsonStructure, fun _ _ _ => false, id⟩
  auth := ⟨fun _ _ => false, fun _ => none, fun _ _ _ _ => .error .invalidAuthenticationResponse, id⟩
  recovery := ⟨300, 172800⟩
  registrationOpen := true

def issuedRaw : Signing.Bytes := [1, 2, 3]

def issuedDb (operation : PasskeyOperation) : Db where
  users := [{ id := "u1", username := "bob", aikoUsername := "bob" }]
  policies := [⟨"p1", "u1", 1⟩]
  challenges := [⟨Signing.bytesToBase64url issuedRaw, operation, 10, false⟩]

theorem keyed_issuedDb (operation : PasskeyOperation) : Keyed (issuedDb operation) :=
  ⟨by simp [issuedDb], by simp [issuedDb]⟩

def emptyRegistration : Finish :=
  .register (Signing.bytesToBase64url issuedRaw) "\x7b\x7d" [⟨"carol", "u2", "c1"⟩] 5

theorem an_empty_registration_answers :
    Answers ⟨issuedDb .register, {}, none⟩
      ((emptyRegistration.body strictServer).session.run ⟨issuedDb .register, {}, none⟩) := by
  have hpresents : Presents emptyRegistration issuedRaw (issuedDb .register) := by
    constructor
    · rfl
    · refine ⟨_, List.mem_singleton_self _, ?_⟩
      simp [consumeWhere, emptyRegistration, Finish.challenge]
  apply (answers_iff acceptsObjects_strictLibrary (keyed_issuedDb .register) hpresents {}).mpr
  intro _ material hmaterial
  cases hmaterial

def emptyRecovery : FinishRequest where
  serverNonce := Signing.bytesToBase64url issuedRaw
  attestation := "\x7b\x7d"
  approvals := []
  consumedAt := 5
  now := 5
  pendingId := "r1"
  finalizeToken := "t"

/-- An attestation that is the empty object ends `recover/finish` in an exception. -/
theorem an_empty_attestation_raises : ¬∀ (s : Server) (raw : Signing.Bytes) (f : Finish) (db : Db)
    (mem : Memory), AcceptsObjects s.webauthn → Keyed db → Presents f raw db →
      Answers ⟨db, mem, none⟩ ((f.body s).session.run ⟨db, mem, none⟩) := by
  intro h
  have hpresents : Presents (.recover "bob" emptyRecovery) issuedRaw (issuedDb .recover) := by
    constructor
    · rfl
    · refine ⟨_, List.mem_singleton_self _, ?_⟩
      simp [consumeWhere, emptyRecovery, Finish.challenge]
  have hanswers := h strictServer issuedRaw (.recover "bob" emptyRecovery) (issuedDb .recover) {}
    acceptsObjects_strictLibrary (keyed_issuedDb .recover) hpresents
  have hsettles := (answers_iff_settles rfl).mp hanswers
  have hcondition := (settles_recover_iff rfl (keyed_issuedDb .recover) hpresents).mp
    (settles_forget.mp hsettles)
  obtain ⟨material, hmaterial, _⟩ := hcondition _ _ rfl rfl
  cases hmaterial

end AikoIsland.CeremonyRefusals
