import AikoIsland.Auth
import AikoIsland.SoloRun

/-!
# Fresh sessions and suspended accounts

A token-minting request among any number of other requests of any kind,
interleaved statement by statement. At one SELECT it resolves its user; if the
row found there is suspended, no token comes out of the request, on every route
but one. Recovery finalize checks only that the account exists: whatever its
arguments are, some run of it mints a session for a suspended account.

No token comes out of a request without that SELECT.
-/
namespace AikoIsland.SuspendedSessions
open Tables Gateway WriterLock Footprint Passkeys Recovery Auth

section
variable (settings : AuthSettings) (lib : AuthLib) (crypto : Crypto)

/-- The part of the finalize route after its first session. -/
def afterFinalize (r : Body (Option Session)) : Body Outcome := do
  let s ← (do
    match ← r.session with
    | none => throwExn (.http 409 "recovery not finalizable")
    | some s =>
        disconnectUser s.userId
        return s : Body Session)
  return rekeyOutcome s

/-- A request at the statement that resolves its user: what is left of it, and the row that the
statement finds in a store. -/
inductive Resolves : MintRequest → Body Outcome → (Db → Option User) → Prop
  | login (username password : String) :
      Resolves (.login username password) (Auth.login lib username password).session
        (authenticate lib username password)
  | social (req : SocialReq) (now : Time) (identity : VerifiedIdentity) (userId : String) :
      Resolves (.social req now)
        (do
          let user ← select fun db => db.userById userId
          let outcome ← identityOutcome identity user
          commit
          return outcome : Body Outcome).session
        (fun db => db.userById userId)
  | oauthCallback (req : CallbackReq) (identity : VerifiedIdentity)
      (appChallenge : Option String) (userId : String) :
      Resolves (.oauthCallback req)
        (do
          let user ← select fun db => db.userById userId
          let outcome ← identityOutcome identity user
          handOff settings req identity appChallenge outcome : Body Outcome).session
        (fun db => db.userById userId)
  | oauthExchange (req : ExchangeReq) (userId : String) :
      Resolves (.oauthExchange req)
        (do
          let user ← select fun db => db.userById userId
          exchangeOutcome user : Body Outcome).session
        (fun db => db.userById userId)
  | passkeyAuthenticateFinish (req : AssertionReq) (cred : PasskeyCredential) (newCount : ℕ) :
      Resolves (.passkeyAuthenticateFinish req)
        (do
          let user ← select fun db => db.userById cred.userId
          passkeyOutcome cred newCount user : Body Outcome).session
        (fun db => db.userById cred.userId)
  | refresh (token : Option Claims) :
      Resolves (.refresh token) (Auth.refresh token).session
        (fun db => token.bind fun claims => db.userById claims.userId)
  | recoverFinalize (recoveryId finalizeToken credentialRowId : String) (now : Time)
      (row : PendingRecovery) :
      Resolves (.recoverFinalize recoveryId finalizeToken credentialRowId now)
        (afterFinalize (finalizeRow credentialRowId row))
        (fun db => db.userById row.userId)

/-- Request `p`, one among any requests, resolves in `c₁` a suspended user with its step to `c₂`. -/
structure ResolvesSuspended {ι : Type} [DecidableEq ι] (request : MintRequest)
    (c₀ c₁ c₂ : Cfg ι Db Memory Label Exn Outcome) (p : ι) : Prop where
  starts : c₀.procs p = request.body settings lib crypto
  reached : Cfg.Reach (fun _ _ => True) c₀ c₁
  steps : c₁.step p = some c₂
  suspended : ∃ rest find user, Resolves settings lib request rest find ∧ c₁.procs p = rest ∧
    find (c₁.point p).view = some user ∧ user.bannedAt.isSome

/-- In every run, a suspended user in the state that the request reads means no token. -/
def DeniesSuspended (request : MintRequest) : Prop :=
  ∀ (ι : Type) [DecidableEq ι] (db : Db) (mem : Memory) (procs : ι → Body Outcome)
    (c₁ c₂ c : Cfg ι Db Memory Label Exn Outcome) (p : ι),
    ResolvesSuspended settings lib crypto request (Cfg.init db mem procs) c₁ c₂ p →
      Cfg.Reach (fun _ _ => True) c₂ c → ∀ o, c.procs p = .ret o → o.tokens = none

/-- In every run, a token of the request is for the user that it resolved before. -/
def MintsForResolved (request : MintRequest) : Prop :=
  ∀ (ι : Type) [DecidableEq ι] (c₀ c : Cfg ι Db Memory Label Exn Outcome) (p : ι),
    c₀.procs p = request.body settings lib crypto → Cfg.Reach (fun _ _ => True) c₀ c →
      ∀ o t, c.procs p = .ret o → o.tokens = some t →
        ∃ c₁ c₂ rest find user, Cfg.Reach (fun _ _ => True) c₀ c₁ ∧ c₁.step p = some c₂ ∧
          Cfg.Reach (fun _ _ => True) c₂ c ∧ Resolves settings lib request rest find ∧
          c₁.procs p = rest ∧ find (c₁.point p).view = some user ∧ t.access.userId = user.id

def isRecovery : MintRequest → Bool
  | .recoverFinalize _ _ _ _ => true
  | _ => false

/-! ## Every token was looked up -/

/-- What a request that resolved a user may answer: `L` relates the request at its resolving
statement and the store that the statement saw to each of the answers. -/
structure Answers (request : MintRequest) (L : Body Outcome → Db → Outcome → Prop) : Prop where
  minted : ∀ {rest find db user}, Resolves settings lib request rest find → find db = some user →
    L rest db (.session (tokens user) (some (userView user)))
  refreshed : ∀ {rest find db user}, Resolves settings lib request rest find →
    find db = some user → L rest db (.session ⟨⟨user.id, user.tokenGeneration⟩, none⟩ none)
  rekeyed : ∀ {rest find db user s}, Resolves settings lib request rest find →
    find db = some user → isRecovery request = true → s.userId = user.id →
    L rest db (rekeyOutcome s)

/-- The user that was looked up is the user of the tokens. -/
def LookedUp (request : MintRequest) (rest : Body Outcome) (db : Db) (o : Outcome) : Prop :=
  ∃ find user, Resolves settings lib request rest find ∧ find db = some user ∧
    ∀ t, o.tokens = some t → t.access.userId = user.id

variable {settings lib crypto} {request : MintRequest} {L : Body Outcome → Db → Outcome → Prop}

theorem answers_lookedUp (request : MintRequest) :
    Answers settings lib request (LookedUp settings lib request) where
  minted hres huser := ⟨_, _, hres, huser, fun t ht => by cases ht; rfl⟩
  refreshed hres huser := ⟨_, _, hres, huser, fun t ht => by cases ht; rfl⟩
  rekeyed hres huser _ hs := ⟨_, _, hres, huser, fun t ht => by cases ht; exact hs⟩

/-- Past the ban gate the outcome is for the user that was found. -/
theorem through_mint {done : Outcome → Prop} {user : User} {k : Outcome → Body Outcome}
    (h : Through L done (k (.session (tokens user) (some (userView user)))).session) :
    Through L done (mint user >>= k).session := by
  unfold mint denyIfBanned
  split_ifs
  · trivial
  · exact h

/-- The SELECT that resolves the user: nobody is found, or the rest is for who was found. -/
theorem through_lookup {done : Outcome → Prop} {find : Db → Option User}
    {k : Option User → Body Outcome} (hnone : Through L done (k none).session)
    (hsome : ∀ db user, find db = some user → Through L
      (fun o => L (select find >>= k).session db o) (k (some user)).session) :
    Through L done (select find >>= k).session := by
  intro db
  change Through L _ (k (find db)).session
  cases huser : find db with
  | none => exact hnone.mono fun o => Or.inl
  | some user => exact (hsome db user huser).mono fun o => Or.inr

theorem through_login {username password : String}
    (h : Answers settings lib (.login username password) L) :
    Through L (fun o => o.tokens = none) (Auth.login lib username password).session := by
  refine through_lookup trivial fun db user huser => ?_
  exact Through.session_bind fun _ => h.minted (.login username password) huser

/-- The identity row first, then its user, then what the route does with the outcome. -/
theorem through_resolveIdentity {done : Outcome → Prop} {identity : VerifiedIdentity}
    {k : Outcome → Body Outcome} (hnew : ∀ p, Through L done (k (.provisioning p)).session)
    (hknown : ∀ userId db user, db.userById userId = some user → Through L
      (fun o => done o ∨ L (do
          let user ← select fun db => db.userById userId
          let outcome ← identityOutcome identity user
          k outcome : Body Outcome).session db o)
      (k (.session (tokens user) (some (userView user)))).session) :
    Through L done (resolveIdentity identity >>= k).session := by
  intro db
  change Through L _ (Request.session (Request.bind (Request.bind (Request.bind
    (.ret (identityRow identity.provider identity.sub db)) _) (identityOutcome identity)) k))
  refine Through.mono ?_ fun o => Or.inl
  cases identityRow identity.provider identity.sub db with
  | none => exact hnew _
  | some row =>
      intro db'
      change Through L _ (identityOutcome identity (db'.userById row.userId) >>= k).session
      cases huser : db'.userById row.userId with
      | none => exact (hnew _).mono fun o => Or.inl
      | some user => exact through_mint (hknown row.userId db' user huser)

theorem through_social {req : SocialReq} {now : Time}
    (h : Answers settings lib (.social req now) L) :
    Through L (fun o => o.tokens = none) (Auth.social settings req now).session := by
  refine Through.session_bind fun identity => ?_
  refine through_resolveIdentity (fun p => rfl) fun userId db user huser => ?_
  exact Or.inr (h.minted (.social req now identity userId) huser)

theorem through_handOff {done : Outcome → Prop} {req : CallbackReq} {identity : VerifiedIdentity}
    {appChallenge : Option String} {outcome : Outcome}
    (h : done (.redirect (.ok req.handoffCode))) :
    Through L done (handOff settings req identity appChallenge outcome).session :=
  Through.session_bind fun _ => h

/-- The callback hands no token out. -/
theorem through_oauthCallback (req : CallbackReq) :
    Through L (fun o => o.tokens = none) (Auth.oauthCallback settings req).session := by
  unfold oauthCallback
  split_ifs
  · trivial
  · trivial
  · rfl
  · rfl
  · refine Through.session_bind fun st => ?_
    cases st with
    | none => rfl
    | some st =>
        dsimp only
        split_ifs
        · rfl
        · rfl
        · cases req.exchanged with
          | error e => rfl
          | ok identity =>
              exact through_resolveIdentity (fun p => through_handOff rfl)
                fun userId db user huser => through_handOff (Or.inl rfl)

theorem through_oauthExchange {req : ExchangeReq}
    (h : Answers settings lib (.oauthExchange req) L) :
    Through L (fun o => o.tokens = none) (Auth.oauthExchange settings lib req).session := by
  refine Through.session_bind fun redeemed => ?_
  cases redeemed with
  | provisioning p => rfl
  | authenticated userId =>
      refine through_lookup (k := exchangeOutcome) trivial fun db user huser => ?_
      exact Through.session_bind fun _ => h.minted (.oauthExchange req userId) huser

theorem through_passkeyAuthenticateFinish {req : AssertionReq}
    (h : Answers settings lib (.passkeyAuthenticateFinish req) L) :
    Through L (fun o => o.tokens = none) (Auth.passkeyAuthenticateFinish lib req).session := by
  refine Through.session_bind fun verified => ?_
  refine through_lookup (k := passkeyOutcome verified.1 verified.2) trivial
    fun db user huser => ?_
  refine through_mint (Through.session_bind fun _ => ?_)
  exact h.minted (.passkeyAuthenticateFinish req verified.1 verified.2) huser

theorem through_refresh {token : Option Claims} (h : Answers settings lib (.refresh token) L) :
    Through L (fun o => o.tokens = none) (Auth.refresh token).session := by
  intro db
  change Through _ _ (Request.session (Request.bind (Request.handle (Request.bind
    (.ret (gate token db)) _) _) _))
  cases hgate : gate token db with
  | error e => cases e <;> trivial
  | ok user =>
      obtain ⟨claims, rfl, huser, _, _⟩ := gate_eq_ok hgate
      exact Or.inr (h.refreshed (.refresh (some claims)) huser)

/-- What a re-key returns is a session of the user it found. -/
theorem through_afterFinalize {done : Outcome → Prop} {r : Body (Option Session)}
    {Q : Session → Prop} (h : Returns (fun o => ∀ s, o = some s → Q s) r)
    (hdone : ∀ s, Q s → done (rekeyOutcome s)) : Through L done (afterFinalize r) := by
  refine Returns.bind (Q := Q) (Returns.bind (Returns.session h) fun o ho => ?_) fun s hs => ?_
  · cases o with
    | none => trivial
    | some s => exact Through.bind fun _ => ho s rfl
  · exact hdone s hs

theorem through_recoverFinalize {recoveryId finalizeToken credentialRowId : String} {now : Time}
    (h : Answers settings lib (.recoverFinalize recoveryId finalizeToken credentialRowId now) L) :
    Through L (fun o => o.tokens = none)
      (afterFinalize (finalizeRecovery crypto recoveryId finalizeToken credentialRowId now)) := by
  have hrow : ∀ row : PendingRecovery, Through L
      (fun o => o.tokens = none) (afterFinalize (finalizeRow credentialRowId row)) := by
    intro row db
    change Through _ _ (afterFinalize (Request.bind (.ret (db.userById row.userId)) _))
    cases huser : db.userById row.userId with
    | none => trivial
    | some user =>
        change Through _ _ (afterFinalize (execute _ _ _ >>= _))
        refine through_afterFinalize (Q := fun s => s.userId = user.id) ?_ fun s hs => ?_
        · refine Through.bind fun _ => Through.bind fun _ => Through.bind fun ok => ?_
          cases ok with
          | true =>
              refine Through.bind fun _ => ?_
              intro s hs
              obtain rfl := Option.some.inj hs
              rfl
          | false =>
              intro s hs
              cases hs
        · exact Or.inr (h.rekeyed
            (.recoverFinalize recoveryId finalizeToken credentialRowId now row) huser rfl hs)
  constructor <;>
  · intro db
    change Through _ _ (afterFinalize (Request.bind (.ret (db.pending.find? _)) _))
    cases db.pending.find? _ with
    | none => trivial
    | some row => exact hrow row

theorem through_body (h : Answers settings lib request L) :
    Through L (fun o => o.tokens = none) (request.body settings lib crypto) := by
  cases request with
  | login username password => exact through_login h
  | social req now => exact through_social h
  | oauthCallback req => exact through_oauthCallback req
  | oauthExchange req => exact through_oauthExchange h
  | passkeyAuthenticateFinish req => exact through_passkeyAuthenticateFinish h
  | refresh token => exact through_refresh h
  | recoverFinalize recoveryId finalizeToken credentialRowId now =>
      exact through_recoverFinalize h

theorem mintsForResolved (request : MintRequest) :
    MintsForResolved settings lib crypto request := by
  intro ι _ c₀ c p hstart hr o t ho ht
  have hbody : Through (LookedUp settings lib request) (fun o => o.tokens = none)
      (c₀.procs p) := by
    rw [hstart]
    exact through_body (answers_lookedUp request)
  have hlater := hbody.reach hr
  rw [ho] at hlater
  rcases hlater with hnone | ⟨c₁, c₂, h₁, hstep, h₂, find, user, hres, huser, hid⟩
  · rw [hnone] at ht
    cases ht
  · exact ⟨c₁, c₂, _, find, user, h₁, hstep, h₂, hres, rfl, huser, hid t ht⟩

/-! ## The ban gate -/

theorem returns_mint_of_banned {Q : Outcome → Prop} {user : User} (h : user.bannedAt.isSome)
    (k : Outcome → Body Outcome) : Returns Q (mint user >>= k).session := by
  simp only [mint, denyIfBanned, isBanned, h, if_true]
  trivial

/-- The next statement of a request that is about to resolve a suspended user leaves a rest that
returns no token, unless it is a recovery. -/
theorem returns_of_suspended {request : MintRequest} {rest : Body Outcome}
    {find : Db → Option User} {x : Point Db Memory} {user : User}
    (h : Resolves settings lib request rest find) (hkind : isRecovery request = false)
    (huser : find x.view = some user) (hban : user.bannedAt.isSome) :
    Returns (fun o => o.tokens = none) (rest.advance x).1 := by
  have hset : isBanned user = true := hban
  cases h with
  | login username password =>
      change Returns _ (Request.session (Request.bind (.ret (authenticate lib username password
        x.view)) _))
      rw [huser]
      change Returns _ (Request.session (mint user))
      simp only [mint, denyIfBanned, hset, if_true]
      trivial
  | social req now identity userId =>
      change Returns _ (Request.session (Request.bind (identityOutcome identity
        (x.view.userById userId)) _))
      dsimp only at huser
      rw [huser]
      exact returns_mint_of_banned hban _
  | oauthCallback req identity appChallenge userId =>
      change Returns _ (Request.session (Request.bind (identityOutcome identity
        (x.view.userById userId)) _))
      dsimp only at huser
      rw [huser]
      exact returns_mint_of_banned hban _
  | oauthExchange req userId =>
      change Returns _ (Request.session (exchangeOutcome (x.view.userById userId)))
      dsimp only at huser
      rw [huser]
      simp only [exchangeOutcome, mint, denyIfBanned, hset, if_true]
      trivial
  | passkeyAuthenticateFinish req cred newCount =>
      change Returns _ (Request.session (passkeyOutcome cred newCount
        (x.view.userById cred.userId)))
      dsimp only at huser
      rw [huser]
      exact returns_mint_of_banned hban _
  | refresh token =>
      change Returns _ (Request.session (Request.bind (Request.handle (Request.bind
        (.ret (gate token x.view)) _) _) _))
      cases hgate : gate token x.view with
      | error e => cases e <;> trivial
      | ok found =>
          obtain ⟨claims, rfl, hfound, _, hfree⟩ := gate_eq_ok hgate
          obtain rfl : found = user := Option.some.inj (hfound.symm.trans huser)
          rw [hfree] at hban
          cases hban
  | recoverFinalize => cases hkind

theorem deniesSuspended (request : MintRequest) (hkind : isRecovery request = false) :
    DeniesSuspended settings lib crypto request := by
  intro ι _ db mem procs c₁ c₂ c p h hr o ho
  obtain ⟨_, _, hstep, rest, find, user, hres, hproc, huser, hban⟩ := h
  obtain ⟨_, _, hput⟩ := Cfg.step_cases hstep
  have hnext : c₂.procs p = (rest.advance (c₁.point p)).1 := by
    rw [hput, Cfg.put_procs_self, hproc]
  have hreturns : Returns (fun o => o.tokens = none) (c₂.procs p) := by
    rw [hnext]
    exact returns_of_suspended hres hkind huser hban
  exact hreturns.reach hr ho

/-! ## Recovery -/

def suspendedUser : User :=
  { id := "01SUSPENDED", username := "mallory", aikoUsername := "mallory", bannedAt := some 7 }

/-- A pending recovery of the suspended user that these arguments finalize at any time. -/
def ripeRow (crypto : Crypto) (recoveryId finalizeToken : String) : PendingRecovery where
  id := recoveryId
  userId := "01SUSPENDED"
  stagedCredentialId := "staged"
  stagedPublicKey := "key"
  vetoDeadline := 0
  finalizeTokenHash := crypto.sha256Hex finalizeToken

def ripeStore (crypto : Crypto) (recoveryId finalizeToken : String) : Db :=
  { users := [suspendedUser], pending := [ripeRow crypto recoveryId finalizeToken] }

theorem finalizeWhere_ripeRow (crypto : Crypto) (recoveryId finalizeToken : String) (now : Time) :
    finalizeWhere recoveryId (crypto.sha256Hex finalizeToken) now
      (ripeRow crypto recoveryId finalizeToken) = true := by
  simp [finalizeWhere, ripeRow]

/-- The guarded DELETE takes the ripe row; what follows looks up its user. -/
theorem advance_recoverFinalize (settings : AuthSettings) (lib : AuthLib) (crypto : Crypto)
    (recoveryId finalizeToken credentialRowId : String) (now : Time) :
    Request.advance (MintRequest.body settings lib crypto
        (.recoverFinalize recoveryId finalizeToken credentialRowId now))
      ⟨ripeStore crypto recoveryId finalizeToken, {}, none⟩ =
      (afterFinalize (finalizeRow credentialRowId (ripeRow crypto recoveryId finalizeToken)),
        ⟨ripeStore crypto recoveryId finalizeToken, {}, some { users := [suspendedUser] }⟩) := by
  have hwhere := finalizeWhere_ripeRow crypto recoveryId finalizeToken now
  have hfind : (ripeStore crypto recoveryId finalizeToken).pending.find?
      (finalizeWhere recoveryId (crypto.sha256Hex finalizeToken) now) =
        some (ripeRow crypto recoveryId finalizeToken) := by
    simp [ripeStore, hwhere]
  have htaken : takePending recoveryId (crypto.sha256Hex finalizeToken) now
      (ripeStore crypto recoveryId finalizeToken) = { users := [suspendedUser] } := by
    simp [takePending, ripeStore, hwhere]
  change (afterFinalize (Request.bind (.ret ((ripeStore crypto recoveryId finalizeToken).pending.find?
      (finalizeWhere recoveryId (crypto.sha256Hex finalizeToken) now))) _),
    Point.mk _ _ (some (takePending recoveryId
      (crypto.sha256Hex finalizeToken) now (ripeStore crypto recoveryId finalizeToken)))) = _
  rw [hfind, htaken]
  rfl

/-- Whatever the arguments are, some run of the recovery mints a session for a suspended user. -/
theorem not_deniesSuspended (request : MintRequest) (hkind : isRecovery request = true) :
    ¬DeniesSuspended settings lib crypto request := by
  cases request with
  | recoverFinalize recoveryId finalizeToken credentialRowId now =>
      intro hdenies
      let c₀ : Cfg Unit Db Memory Label Exn Outcome :=
        Cfg.init (ripeStore crypto recoveryId finalizeToken) {} fun _ =>
          MintRequest.body settings lib crypto
            (.recoverFinalize recoveryId finalizeToken credentialRowId now)
      let c₁ := c₀.put () (afterFinalize (finalizeRow credentialRowId
          (ripeRow crypto recoveryId finalizeToken)))
        ⟨ripeStore crypto recoveryId finalizeToken, {}, some { users := [suspendedUser] }⟩
      let c₂ := c₁.put () ((c₁.procs ()).advance (c₁.point ())).1
        ((c₁.procs ()).advance (c₁.point ())).2
      have hfirst : c₀.step () = some c₁ := by
        have hadvance : (c₀.procs ()).advance (c₀.point ()) =
            (afterFinalize (finalizeRow credentialRowId (ripeRow crypto recoveryId finalizeToken)),
              ⟨ripeStore crypto recoveryId finalizeToken, {},
                some { users := [suspendedUser] }⟩) :=
          advance_recoverFinalize settings lib crypto recoveryId finalizeToken credentialRowId now
        rw [Cfg.step_of_unlocked rfl rfl, hadvance]
      have hlookup : c₁.step () = some c₂ := Cfg.step_of_unlocked rfl rfl
      obtain ⟨c, hr, hret, _⟩ := Cfg.reach_run (c := c₂) (p := ()) rfl
      have hresolves : ResolvesSuspended settings lib crypto
          (.recoverFinalize recoveryId finalizeToken credentialRowId now) c₀ c₁ c₂ () := by
        constructor
        · rfl
        · exact Cfg.Reach.start.step (fun _ _ => trivial) hfirst
        · exact hlookup
        · exact ⟨_, _, suspendedUser, .recoverFinalize recoveryId finalizeToken credentialRowId now
            (ripeRow crypto recoveryId finalizeToken), rfl, rfl, rfl⟩
      have hresult : c.procs () = .ret (rekeyOutcome ⟨"01SUSPENDED", 1⟩) := by
        rw [hret]
        rfl
      have hnone := hdenies Unit _ _ _ c₁ c₂ c () hresolves hr _ hresult
      cases hnone
  | login => cases hkind
  | social => cases hkind
  | oauthCallback => cases hkind
  | oauthExchange => cases hkind
  | passkeyAuthenticateFinish => cases hkind
  | refresh => cases hkind

end

/-! ## The result -/

/-- The routes that never mint for a suspended account are those other than recovery finalize;
on each route a token is for the user that the request resolved. -/
theorem suspended_gets_no_session (settings : AuthSettings) (lib : AuthLib) (crypto : Crypto)
    (request : MintRequest) :
    (DeniesSuspended settings lib crypto request ↔ isRecovery request = false) ∧
      MintsForResolved settings lib crypto request := by
  constructor
  · constructor
    · intro hdenies
      by_contra hkind
      exact not_deniesSuspended request (by simpa using hkind) hdenies
    · exact deniesSuspended request
  · exact mintsForResolved request

/-- Libraries that accept everything: passwords compare as text, digests are the identity. -/
def plainLib : AuthLib where
  verifyPassword plain hash := plain = hash
  parseAssertion credential := some ⟨credential, credential⟩
  verifyAuthentication _ _ _ count := .ok (count + 1)
  appChallengeFor := id

def plainCrypto : Crypto where
  verifyRegistration _ credential := .ok { credentialId := credential, publicKey := credential }
  ed25519Verify _ _ _ := true
  sha256Hex := id

/-- The suspended account's pending recovery `01RECOVERY` is finalized at time 5. -/
theorem recovery_mints_for_suspended :
    ¬∀ request, DeniesSuspended {} plainLib plainCrypto request := fun h =>
  not_deniesSuspended (.recoverFinalize "01RECOVERY" "token" "01CREDENTIAL" 5) rfl (h _)

end AikoIsland.SuspendedSessions
