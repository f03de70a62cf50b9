import AikoIsland.Auth
import AikoIsland.Observing
import AikoIsland.Resumption
import AikoIsland.Settling

/-!
# Single-use tokens

Social nonces, OAuth states, handoff codes and passkey challenges are four
tables of one shape: a key, an expiry, a flag, and for a challenge the ceremony.
An issue inserts a fresh row, two of the issues first sweep what has expired, and
a redemption is one conditional UPDATE. What a request does after it redeemed a
token is any program: it may commit, roll back, raise, redeem or issue again.

The log of the store lists the issues and redemptions of the committed
transactions. Between two redemptions of one token there is an issue of it, every
redemption is by a request that redeems this token for its ceremony at an instant
before its expiry, and a request that does not commit a redemption leaves the
token as it was, or had swept it after its expiry. Clocks are arbitrary: every
instant is a parameter of the request that read it.

The log is tied to the answers. A request may call a redemption anywhere, below any
binds, handlers and sessions. What the call answers is success if and only if its own
UPDATE redeemed a token that it can read: a replay is never told that it won.
-/
namespace AikoIsland.SingleUse
open Tables Gateway Passkeys Signing Auth WriterLock RelyGuarantee Footprint Publishing History
  Observing Settling Resumption

inductive TokenKind where
  | nonce
  | state
  | handoff
  | challenge
  deriving DecidableEq, Repr

structure Token where
  kind : TokenKind
  key : String
  operation : Option PasskeyOperation
  expiresAt : Time
  consumed : Bool
  deriving DecidableEq, Repr

/-- The primary keys are the same. -/
def Token.same (t u : Token) : Bool := t.kind = u.kind && t.key = u.key

def Token.burnt (t : Token) : Token := { t with consumed := true }

def nonceToken (r : SocialNonce) : Token := ⟨.nonce, r.nonce, none, r.expiresAt, r.consumed⟩

def stateToken (r : OAuthState) : Token := ⟨.state, r.nonce, none, r.expiresAt, r.consumed⟩

def handoffToken (r : OAuthHandoff) : Token := ⟨.handoff, r.code, none, r.expiresAt, r.consumed⟩

def challengeToken (r : PasskeyChallenge) : Token :=
  ⟨.challenge, r.state, some r.operation, r.expiresAt, r.consumed⟩

@[simp] theorem nonceToken_kind (r : SocialNonce) : (nonceToken r).kind = .nonce := rfl
@[simp] theorem stateToken_kind (r : OAuthState) : (stateToken r).kind = .state := rfl
@[simp] theorem handoffToken_kind (r : OAuthHandoff) : (handoffToken r).kind = .handoff := rfl
@[simp] theorem challengeToken_kind (r : PasskeyChallenge) :
    (challengeToken r).kind = .challenge := rfl

def tokens (db : Db) : List Token :=
  db.socialNonces.map nonceToken ++ db.oauthStates.map stateToken ++
    db.handoffs.map handoffToken ++ db.challenges.map challengeToken

/-- The WHERE clause of the four redemptions. -/
def redeemable (kind : TokenKind) (key : String) (operation : Option PasskeyOperation)
    (now : Time) (t : Token) : Bool :=
  t.kind = kind && t.key = key && !t.consumed && decide (now < t.expiresAt) &&
    t.operation = operation

def redeemed (kind : TokenKind) (key : String) (operation : Option PasskeyOperation)
    (now : Time) (t : Token) : Token :=
  if redeemable kind key operation now t then t.burnt else t

def kept (kind : TokenKind) (now : Time) (t : Token) : Bool :=
  !(t.kind = kind && decide (t.expiresAt ≤ now))

inductive TokenOp where
  | issue (t : Token)
  | redeem (kind : TokenKind) (key : String) (operation : Option PasskeyOperation) (now : Time)
  | sweep (kind : TokenKind) (now : Time)
  deriving DecidableEq, Repr

/-- What the operation does to all tokens. -/
def TokenOp.Applies (old new : List Token) : TokenOp → Prop
  | issue t => t.consumed = false ∧ (∀ x ∈ old, x.same t = false) ∧ new.Perm (t :: old)
  | redeem kind key operation now => new = old.map (redeemed kind key operation now)
  | sweep kind now => new = old.filter (kept kind now)

/-- One of these operations, or a statement that leaves the four tables alone. -/
def TokenWrite (ops : TokenOp → Prop) (_ : Label) (f : Db → Option Db) : Prop :=
  ∀ db db', f db = some db' → tokens db' = tokens db ∨
    ∃ op, ops op ∧ op.Applies (tokens db) (tokens db')

/-! ## The statements of the four stores -/

section
variable {α : Type} {tok : α → Token} {rows : List α} {kind : TokenKind} {key : String}
  {operation : Option PasskeyOperation} {now : Time}

theorem redeemed_other (h : ∀ r, (tok r).kind ≠ kind) :
    (rows.map tok).map (redeemed kind key operation now) = rows.map tok := by
  rw [List.map_map]
  apply List.map_congr_left
  intro r _
  simp [redeemed, redeemable, h r]

theorem kept_other (h : ∀ r, (tok r).kind ≠ kind) :
    (rows.map tok).filter (kept kind now) = rows.map tok := by
  apply List.filter_eq_self.mpr
  intro t ht
  obtain ⟨r, _, rfl⟩ := List.mem_map.mp ht
  simp [kept, h r]

theorem redeemed_table {w : α → Bool} {burn : α → α}
    (hw : ∀ r, w r = redeemable kind key operation now (tok r))
    (hburn : ∀ r, tok (burn r) = (tok r).burnt) :
    (rows.map fun r => if w r then burn r else r).map tok =
      (rows.map tok).map (redeemed kind key operation now) := by
  rw [List.map_map, List.map_map]
  apply List.map_congr_left
  intro r _
  simp only [Function.comp, redeemed, ← hw r]
  split_ifs
  · exact hburn r
  · rfl

theorem kept_table {w : α → Bool} (hw : ∀ r, w r = kept kind now (tok r)) :
    (rows.filter w).map tok = (rows.map tok).filter (kept kind now) := by
  rw [List.filter_map]
  congr 1
  apply List.filter_congr
  intro r _
  exact hw r

end

section
variable {db db' : Db} {now : Time}

/-- Table by table. -/
theorem tokens_map {f : Token → Token}
    (hn : db'.socialNonces.map nonceToken = (db.socialNonces.map nonceToken).map f)
    (hs : db'.oauthStates.map stateToken = (db.oauthStates.map stateToken).map f)
    (hh : db'.handoffs.map handoffToken = (db.handoffs.map handoffToken).map f)
    (hc : db'.challenges.map challengeToken = (db.challenges.map challengeToken).map f) :
    tokens db' = (tokens db).map f := by
  simp only [tokens, List.map_append, hn, hs, hh, hc]

theorem tokens_filter {f : Token → Bool}
    (hn : db'.socialNonces.map nonceToken = (db.socialNonces.map nonceToken).filter f)
    (hs : db'.oauthStates.map stateToken = (db.oauthStates.map stateToken).filter f)
    (hh : db'.handoffs.map handoffToken = (db.handoffs.map handoffToken).filter f)
    (hc : db'.challenges.map challengeToken = (db.challenges.map challengeToken).filter f) :
    tokens db' = (tokens db).filter f := by
  simp only [tokens, List.filter_append, hn, hs, hh, hc]

theorem tokens_burnNonce (nonce : String) :
    tokens (burnNonce nonce now db) = (tokens db).map (redeemed .nonce nonce none now) := by
  have htable : (db.socialNonces.map fun n =>
      if nonceWhere nonce now n then { n with consumed := true } else n).map nonceToken =
        (db.socialNonces.map nonceToken).map (redeemed .nonce nonce none now) := by
    apply redeemed_table
    · intro r
      simp [nonceWhere, redeemable, nonceToken]
      rfl
    · intro r
      rfl
  apply tokens_map
  · exact htable
  · exact (redeemed_other (by simp)).symm
  · exact (redeemed_other (by simp)).symm
  · exact (redeemed_other (by simp)).symm

theorem tokens_burnState (nonce : String) :
    tokens (burnState nonce now db) = (tokens db).map (redeemed .state nonce none now) := by
  have htable : (db.oauthStates.map fun s =>
      if stateWhere nonce now s then { s with consumed := true } else s).map stateToken =
        (db.oauthStates.map stateToken).map (redeemed .state nonce none now) := by
    apply redeemed_table
    · intro r
      simp [stateWhere, redeemable, stateToken]
      rfl
    · intro r
      rfl
  apply tokens_map
  · exact (redeemed_other (by simp)).symm
  · exact htable
  · exact (redeemed_other (by simp)).symm
  · exact (redeemed_other (by simp)).symm

theorem tokens_burnHandoff (code : String) :
    tokens (burnHandoff code now db) = (tokens db).map (redeemed .handoff code none now) := by
  have htable : (db.handoffs.map fun h =>
      if handoffWhere code now h then { h with consumed := true } else h).map handoffToken =
        (db.handoffs.map handoffToken).map (redeemed .handoff code none now) := by
    apply redeemed_table
    · intro r
      simp [handoffWhere, redeemable, handoffToken]
      rfl
    · intro r
      rfl
  apply tokens_map
  · exact (redeemed_other (by simp)).symm
  · exact (redeemed_other (by simp)).symm
  · exact htable
  · exact (redeemed_other (by simp)).symm

theorem tokens_burnChallenge (state : String) (operation : PasskeyOperation) :
    tokens (burnChallenge state operation now db) =
      (tokens db).map (redeemed .challenge state (some operation) now) := by
  have htable : (db.challenges.map fun c =>
      if consumeWhere state operation now c then { c with consumed := true } else c).map
        challengeToken =
      (db.challenges.map challengeToken).map (redeemed .challenge state (some operation) now) := by
    apply redeemed_table
    · intro r
      simp [consumeWhere, redeemable, challengeToken]
      rfl
    · intro r
      rfl
  apply tokens_map
  · exact (redeemed_other (by simp)).symm
  · exact (redeemed_other (by simp)).symm
  · exact (redeemed_other (by simp)).symm
  · exact htable

theorem tokens_sweepNonces :
    tokens (sweepNonces now db) = (tokens db).filter (kept .nonce now) := by
  have htable : (db.socialNonces.filter fun n => decide (now < n.expiresAt)).map nonceToken =
      (db.socialNonces.map nonceToken).filter (kept .nonce now) := by
    apply kept_table
    intro r
    by_cases h : now < r.expiresAt
    · simp [kept, nonceToken, h, Nat.not_le.mpr h]
    · simp [kept, nonceToken, h, Nat.not_lt.mp h]
  apply tokens_filter
  · exact htable
  · exact (kept_other (by simp)).symm
  · exact (kept_other (by simp)).symm
  · exact (kept_other (by simp)).symm

theorem tokens_sweepChallenges :
    tokens (sweepChallenges now db) = (tokens db).filter (kept .challenge now) := by
  have htable : (db.challenges.filter fun c => decide (now < c.expiresAt)).map challengeToken =
      (db.challenges.map challengeToken).filter (kept .challenge now) := by
    apply kept_table
    intro r
    by_cases h : now < r.expiresAt
    · simp [kept, challengeToken, h, Nat.not_le.mpr h]
    · simp [kept, challengeToken, h, Nat.not_lt.mp h]
  apply tokens_filter
  · exact (kept_other (by simp)).symm
  · exact (kept_other (by simp)).symm
  · exact (kept_other (by simp)).symm
  · exact htable

/-- A new key of one table is new among all tokens. -/
theorem same_eq_false_of_tokens {t : Token}
    (hn : t.kind = .nonce → ∀ r ∈ db.socialNonces, r.nonce ≠ t.key)
    (hs : t.kind = .state → ∀ r ∈ db.oauthStates, r.nonce ≠ t.key)
    (hh : t.kind = .handoff → ∀ r ∈ db.handoffs, r.code ≠ t.key)
    (hc : t.kind = .challenge → ∀ r ∈ db.challenges, r.state ≠ t.key) :
    ∀ x ∈ tokens db, x.same t = false := by
  intro x hx
  simp only [tokens, List.mem_append, List.mem_map] at hx
  simp only [Token.same, Bool.and_eq_false_iff, decide_eq_false_iff_not]
  by_cases hk : x.kind = t.kind
  · right
    rcases hx with ((⟨r, hr, rfl⟩ | ⟨r, hr, rfl⟩) | ⟨r, hr, rfl⟩) | ⟨r, hr, rfl⟩
    · exact hn hk.symm r hr
    · exact hs hk.symm r hr
    · exact hh hk.symm r hr
    · exact hc hk.symm r hr
  · exact Or.inl hk

theorem perm_inserted {t : Token} {new old : List Token} (xs ys : List Token)
    (hnew : new = xs ++ t :: ys) (hold : old = xs ++ ys) : new.Perm (t :: old) := by
  subst hnew hold
  exact List.perm_middle

variable {ops : TokenOp → Prop} {t : Label}

theorem tokenWrite_burnNonce {nonce : String} (h : ops (.redeem .nonce nonce none now)) :
    TokenWrite ops t fun db => some (burnNonce nonce now db) := by
  rintro db db' ⟨⟩
  exact Or.inr ⟨_, h, tokens_burnNonce nonce⟩

theorem tokenWrite_burnState {nonce : String} (h : ops (.redeem .state nonce none now)) :
    TokenWrite ops t fun db => some (burnState nonce now db) := by
  rintro db db' ⟨⟩
  exact Or.inr ⟨_, h, tokens_burnState nonce⟩

theorem tokenWrite_burnHandoff {code : String} (h : ops (.redeem .handoff code none now)) :
    TokenWrite ops t fun db => some (burnHandoff code now db) := by
  rintro db db' ⟨⟩
  exact Or.inr ⟨_, h, tokens_burnHandoff code⟩

theorem tokenWrite_burnChallenge {state : String} {operation : PasskeyOperation}
    (h : ops (.redeem .challenge state (some operation) now)) :
    TokenWrite ops t fun db => some (burnChallenge state operation now db) := by
  rintro db db' ⟨⟩
  exact Or.inr ⟨_, h, tokens_burnChallenge state operation⟩

theorem tokenWrite_sweepNonces (h : ops (.sweep .nonce now)) :
    TokenWrite ops t fun db => some (sweepNonces now db) := by
  rintro db db' ⟨⟩
  exact Or.inr ⟨_, h, tokens_sweepNonces⟩

theorem tokenWrite_sweepChallenges (h : ops (.sweep .challenge now)) :
    TokenWrite ops t fun db => some (sweepChallenges now db) := by
  rintro db db' ⟨⟩
  exact Or.inr ⟨_, h, tokens_sweepChallenges⟩

theorem tokenWrite_insertNonce {r : SocialNonce} (hr : r.consumed = false)
    (h : ops (.issue (nonceToken r))) : TokenWrite ops t fun db => db.insertSocialNonce r := by
  intro db db' hins
  obtain ⟨hnew, rfl⟩ := Db.insertSocialNonce_eq_some.mp hins
  refine Or.inr ⟨_, h, hr, same_eq_false_of_tokens (fun _ => hnew) nofun nofun nofun, ?_⟩
  apply perm_inserted (db.socialNonces.map nonceToken) (db.oauthStates.map stateToken ++
    db.handoffs.map handoffToken ++ db.challenges.map challengeToken)
  all_goals simp [tokens]

theorem tokenWrite_insertState {r : OAuthState} (hr : r.consumed = false)
    (h : ops (.issue (stateToken r))) : TokenWrite ops t fun db => db.insertOAuthState r := by
  intro db db' hins
  obtain ⟨hnew, rfl⟩ := Db.insertOAuthState_eq_some.mp hins
  refine Or.inr ⟨_, h, hr, same_eq_false_of_tokens nofun (fun _ => hnew) nofun nofun, ?_⟩
  apply perm_inserted (db.socialNonces.map nonceToken ++ db.oauthStates.map stateToken)
    (db.handoffs.map handoffToken ++ db.challenges.map challengeToken)
  all_goals simp [tokens]

theorem tokenWrite_insertHandoff {r : OAuthHandoff} (hr : r.consumed = false)
    (h : ops (.issue (handoffToken r))) : TokenWrite ops t fun db => db.insertHandoff r := by
  intro db db' hins
  obtain ⟨hnew, rfl⟩ := Db.insertHandoff_eq_some.mp hins
  refine Or.inr ⟨_, h, hr, same_eq_false_of_tokens nofun nofun (fun _ => hnew) nofun, ?_⟩
  apply perm_inserted (db.socialNonces.map nonceToken ++ db.oauthStates.map stateToken ++
    db.handoffs.map handoffToken) (db.challenges.map challengeToken)
  all_goals simp [tokens]

theorem tokenWrite_insertChallenge {r : PasskeyChallenge} (hr : r.consumed = false)
    (h : ops (.issue (challengeToken r))) : TokenWrite ops t fun db => db.insertChallenge r := by
  intro db db' hins
  obtain ⟨hnew, rfl⟩ := Db.insertChallenge_eq_some.mp hins
  refine Or.inr ⟨_, h, hr, same_eq_false_of_tokens nofun nofun nofun (fun _ => hnew), ?_⟩
  apply perm_inserted (db.socialNonces.map nonceToken ++ db.oauthStates.map stateToken ++
    db.handoffs.map handoffToken ++ db.challenges.map challengeToken) []
  all_goals simp [tokens]

end

/-! ## Requests -/

/-- A request with the token operations its statements may be. -/
structure TokenRequest (α : Type) where
  ops : TokenOp → Prop
  body : Body α
  uses : Uses (TokenWrite ops) (fun _ _ => True) body

theorem TokenWrite.mono {ops ops' : TokenOp → Prop} {t : Label} {f : Db → Option Db}
    (h : TokenWrite ops t f) (hops : ∀ op, ops op → ops' op) : TokenWrite ops' t f := by
  intro db db' hf
  rcases h db db' hf with hsame | ⟨op, hop, happ⟩
  · exact Or.inl hsame
  · exact Or.inr ⟨op, hops op hop, happ⟩

theorem tokenWrite_spares {ops : TokenOp → Prop} {t : Label} {f : Db → Option Db}
    (h : ∀ db db', f db = some db' → tokens db' = tokens db) : TokenWrite ops t f :=
  fun db db' hf => Or.inl (h db db' hf)

namespace TokenRequest

variable {α β : Type}

def pure (a : α) : TokenRequest α := ⟨fun _ => False, Pure.pure a, trivial⟩

def bind (r : TokenRequest α) (f : α → TokenRequest β) : TokenRequest β where
  ops op := r.ops op ∨ ∃ a, (f a).ops op
  body := r.body >>= fun a => (f a).body
  uses := Uses.bind (r.uses.mono (fun _ _ h => h.mono fun _ => Or.inl) fun _ _ => id) fun a =>
    (f a).uses.mono (fun _ _ h => h.mono fun _ ho => Or.inr ⟨a, ho⟩) fun _ _ => id

def session (r : TokenRequest α) : TokenRequest α := ⟨r.ops, r.body.session, r.uses.session⟩

/-- Any program whose statements leave the four tables alone. -/
def sparing (r : Body α)
    (h : Uses (fun _ f => ∀ db db', f db = some db' → tokens db' = tokens db) (fun _ _ => True) r) :
    TokenRequest α :=
  ⟨fun _ => False, r, h.mono (fun _ _ => tokenWrite_spares) fun _ _ => id⟩

def issueNonce (nonce : String) (sweptAt now ttl : Time) : TokenRequest String where
  ops op := op = .sweep .nonce sweptAt ∨ op = .issue (nonceToken ⟨nonce, now + ttl, false⟩)
  body := Auth.issueNonce nonce sweptAt now ttl
  uses := Uses.bind (Uses.exec (tokenWrite_sweepNonces (Or.inl rfl))) fun _ =>
    Uses.bind (uses_flushOrRaise (tokenWrite_insertNonce rfl (Or.inr rfl))) fun _ =>
      Uses.bind (Uses.commitNow _) fun _ => Uses.pure _

def createState (nonce provider : String) (codeVerifier appChallenge : Option String)
    (now ttl : Time) : TokenRequest String where
  ops op := op = .issue (stateToken ⟨nonce, provider, codeVerifier, appChallenge, now + ttl, false⟩)
  body := Auth.createState nonce provider codeVerifier appChallenge now ttl
  uses := Uses.bind (uses_flushOrRaise (tokenWrite_insertState rfl rfl)) fun _ =>
    Uses.bind (Uses.commitNow _) fun _ => Uses.pure _

def createHandoff (payload : HandoffPayload) (code : String) (now ttl : Time) :
    TokenRequest Unit where
  ops op := op = .issue (handoffToken ⟨code, some payload, now + ttl, false⟩)
  body := Auth.createHandoff payload code now ttl
  uses := uses_createHandoff (tokenWrite_insertHandoff rfl rfl)

def storeChallenge (raw : Bytes) (operation : PasskeyOperation) (sweptAt now ttl : Time) :
    TokenRequest String where
  ops op := op = .sweep .challenge sweptAt ∨
    op = .issue (challengeToken ⟨bytesToBase64url raw, operation, now + ttl, false⟩)
  body := Passkeys.storeChallenge raw operation sweptAt now ttl
  uses := Uses.bind (Uses.exec (tokenWrite_sweepChallenges (Or.inl rfl))) fun _ =>
    Uses.bind (uses_flushOrRaise (tokenWrite_insertChallenge rfl (Or.inr rfl))) fun _ =>
      Uses.bind (Uses.commitNow _) fun _ => Uses.pure _

def consumeNonce (nonce : String) (now : Time) : TokenRequest Bool where
  ops op := op = .redeem .nonce nonce none now
  body := Auth.consumeNonce nonce now
  uses := uses_consumeNonce (tokenWrite_burnNonce rfl)

def consumeState (nonce : String) (now : Time) : TokenRequest (Option OAuthState) where
  ops op := op = .redeem .state nonce none now
  body := Auth.consumeState nonce now
  uses := uses_consumeState (tokenWrite_burnState rfl)

def consumeHandoff (code : String) (now : Time) : TokenRequest (Option HandoffPayload) where
  ops op := op = .redeem .handoff code none now
  body := Auth.consumeHandoff code now
  uses := uses_consumeHandoff (tokenWrite_burnHandoff rfl)

def consumeChallenge (state : String) (operation : PasskeyOperation) (now : Time) :
    TokenRequest (Option Bytes) where
  ops op := op = .redeem .challenge state (some operation) now
  body := Passkeys.consumeChallenge state operation now
  uses := uses_consumeChallenge (tokenWrite_burnChallenge rfl)

end TokenRequest

/-! ## The routes -/

namespace TokenRequest

/-- The nonce is redeemed where one is required. -/
def social (settings : AuthSettings) (req : SocialReq) (now : Time) : TokenRequest Outcome where
  ops op := op = .redeem .nonce (req.nonce.getD "") none now
  body := (Auth.social settings req now).session
  uses := uses_social (tokenWrite_burnNonce rfl)

def oauthCallback (settings : AuthSettings) (req : CallbackReq) : TokenRequest Outcome where
  ops op := op = .redeem .state (req.state.getD "") none req.consumedAt ∨
    ∃ payload, op = .issue (handoffToken
      ⟨req.handoffCode, some payload, req.createdAt + settings.handoffTtl, false⟩)
  body := (Auth.oauthCallback settings req).session
  uses := uses_oauthCallback (tokenWrite_burnState (Or.inl rfl)) fun payload =>
    tokenWrite_insertHandoff rfl (Or.inr ⟨payload, rfl⟩)

def oauthExchange (settings : AuthSettings) (lib : AuthLib) (req : ExchangeReq) :
    TokenRequest Outcome where
  ops op := op = .redeem .handoff req.code none req.consumedAt
  body := (Auth.oauthExchange settings lib req).session
  uses := uses_oauthExchange (tokenWrite_burnHandoff rfl)

def passkeyAuthenticateFinish (lib : AuthLib) (req : AssertionReq) : TokenRequest Outcome where
  ops op := op = .redeem .challenge req.state (some .authenticate) req.now
  body := (Auth.passkeyAuthenticateFinish lib req).session
  uses := by
    apply uses_passkeyAuthenticateFinish
    · exact tokenWrite_burnChallenge rfl
    · intro id newCount
      apply tokenWrite_spares
      rintro db db' ⟨⟩
      rfl

end TokenRequest

/-! ## The log of a token -/

inductive TokenEvent where
  | issued (t : Token)
  | redeemed (t : Token)
  deriving DecidableEq, Repr

/-- What a statement did, read off the tables before and after it. -/
def tokenNotes (old new : Db) : List TokenEvent :=
  ((tokens new).filter fun t => (tokens old).all fun x => !x.same t).map .issued ++
    ((tokens old).filter fun t => !t.consumed && (tokens new).contains t.burnt).map .redeemed

/-- The token may be redeemed after these events: it was issued since the last redemption. -/
def liveAfter (t : Token) : Bool → List TokenEvent → Bool
  | live, [] => live
  | live, .issued u :: es => liveAfter t (live || u.same t) es
  | live, .redeemed u :: es => liveAfter t (live && !u.same t) es

/-- Every redemption of the token finds it live. -/
def Fair (t : Token) : Bool → List TokenEvent → Prop
  | _, [] => True
  | live, .issued u :: es => Fair t (live || u.same t) es
  | live, .redeemed u :: es => (u.same t = true → live = true) ∧ Fair t (live && !u.same t) es

section
variable {t u v : Token} {live : Bool} {es es' : List TokenEvent}

theorem same_iff : t.same u = true ↔ t.kind = u.kind ∧ t.key = u.key := by
  simp [Token.same]

@[simp] theorem same_self : t.same t = true := by simp [Token.same]

@[simp] theorem same_burnt : t.burnt.same u = t.same u := rfl

@[simp] theorem same_redeemed {kind : TokenKind} {key : String}
    {operation : Option PasskeyOperation} {now : Time} :
    (redeemed kind key operation now t).same u = t.same u := by
  unfold SingleUse.redeemed
  split_ifs <;> rfl

theorem same_comm : t.same u = u.same t := by
  simp only [Token.same, eq_comm]

theorem liveAfter_append :
    liveAfter t live (es ++ es') = liveAfter t (liveAfter t live es) es' := by
  induction es generalizing live with
  | nil => rfl
  | cons e es ih => cases e <;> exact ih

theorem fair_append :
    Fair t live (es ++ es') ↔ Fair t live es ∧ Fair t (liveAfter t live es) es' := by
  induction es generalizing live with
  | nil => simp [Fair, liveAfter]
  | cons e es ih =>
      cases e with
      | issued u => exact ih
      | redeemed u =>
          simp only [List.cons_append, Fair, liveAfter, ih, and_assoc]

theorem liveAfter_congr (h : t.same u = true) : liveAfter t live es = liveAfter u live es := by
  have hsame : ∀ v : Token, v.same t = v.same u := by
    intro v
    obtain ⟨hk, hkey⟩ := same_iff.mp h
    rw [Token.same, Token.same, hk, hkey]
  induction es generalizing live with
  | nil => rfl
  | cons e es ih =>
      cases e with
      | issued v => simp only [liveAfter, hsame v, ih]
      | redeemed v => simp only [liveAfter, hsame v, ih]

/-- A token that is not live stays so until it is issued. -/
theorem liveAfter_of_notIssued (h : ∀ v, .issued v ∈ es → v.same t = false) :
    liveAfter t false es = false := by
  induction es with
  | nil => rfl
  | cons e es ih =>
      have hrest := ih fun v hv => h v (List.mem_cons_of_mem e hv)
      cases e with
      | issued u =>
          have hu : u.same t = false := h u List.mem_cons_self
          simpa [liveAfter, hu] using hrest
      | redeemed u => simpa [liveAfter] using hrest

/-- Between two redemptions of a token there is an issue of it. -/
theorem Fair.issued_between {pre mid post : List TokenEvent}
    (h : Fair u live (pre ++ .redeemed t :: mid ++ .redeemed u :: post))
    (hsame : t.same u = true) : ∃ v, .issued v ∈ mid ∧ v.same u = true := by
  by_contra hnone
  have hmid : liveAfter u false mid = false := by
    apply liveAfter_of_notIssued
    intro v hv
    by_contra hv'
    exact hnone ⟨v, hv, by simpa using hv'⟩
  rw [List.append_assoc, fair_append, List.cons_append] at h
  have hrest := h.2.2
  rw [hsame, Bool.not_true, Bool.and_false, fair_append] at hrest
  have hlive := hrest.2.1 (by simp)
  rw [hmid] at hlive
  cases hlive

end

/-! ## What the statements note -/

/-- Primary keys. -/
def Distinct (ts : List Token) : Prop := ts.Pairwise fun a b => a.same b = false

section
variable {old new : Db} {t u : Token}

theorem Distinct.eq {ts : List Token} (h : Distinct ts) (ht : t ∈ ts) (hu : u ∈ ts)
    (hsame : t.same u = true) : t = u := by
  by_contra hne
  have hsym : Std.Symm fun a b : Token => a.same b = false :=
    ⟨fun a b hab => by rw [same_comm]; exact hab⟩
  have hfalse := List.Pairwise.forall h ht hu hne
  rw [hsame] at hfalse
  cases hfalse

theorem Distinct.not_burnt {ts : List Token} (h : Distinct ts) (ht : t ∈ ts)
    (hc : t.consumed = false) : t.burnt ∉ ts := by
  intro hb
  have heq := h.eq hb ht (by simp)
  rw [← heq] at hc
  cases hc

theorem Distinct.perm {ts ts' : List Token} (h : Distinct ts) (hp : ts'.Perm ts) :
    Distinct ts' :=
  (hp.pairwise_iff fun hab => by rwa [same_comm]).mpr h

theorem Distinct.redeem {ts : List Token} (h : Distinct ts) (kind : TokenKind) (key : String)
    (operation : Option PasskeyOperation) (now : Time) :
    Distinct (ts.map (redeemed kind key operation now)) := by
  rw [Distinct, List.pairwise_map]
  apply h.imp
  intro a b hab
  rw [same_redeemed, same_comm, same_redeemed, same_comm]
  exact hab

/-- Nothing new and nothing burnt leaves no note. -/
theorem notes_of_subset (hd : Distinct (tokens old)) (hsub : tokens new ⊆ tokens old) :
    tokenNotes old new = [] := by
  simp only [tokenNotes, List.append_eq_nil_iff, List.map_eq_nil_iff, List.filter_eq_nil_iff]
  constructor
  · intro t ht hall
    have hself := List.all_eq_true.mp hall t (hsub ht)
    simp at hself
  · intro t ht hboth
    simp only [Bool.and_eq_true, Bool.not_eq_true', List.contains_iff_mem] at hboth
    exact hd.not_burnt ht hboth.1 (hsub hboth.2)

theorem notes_of_issue (hd : Distinct (tokens old)) (hc : t.consumed = false)
    (hnew : ∀ x ∈ tokens old, x.same t = false) (hp : (tokens new).Perm (t :: tokens old)) :
    tokenNotes old new = [.issued t] := by
  have hissued : (tokens new).filter (fun t => (tokens old).all fun x => !x.same t) = [t] := by
    apply List.perm_singleton.mp
    have hfilter := hp.filter fun t => (tokens old).all fun x => !x.same t
    have hold : (tokens old).filter (fun t => (tokens old).all fun x => !x.same t) = [] := by
      rw [List.filter_eq_nil_iff]
      intro x hx hall
      have hself := List.all_eq_true.mp hall x hx
      simp at hself
    have hhead : ((tokens old).all fun x => !x.same t) = true := by
      rw [List.all_eq_true]
      intro x hx
      simp [hnew x hx]
    rwa [List.filter_cons, if_pos hhead, hold] at hfilter
  have hredeemed : (tokens old).filter
      (fun t => !t.consumed && (tokens new).contains t.burnt) = [] := by
    rw [List.filter_eq_nil_iff]
    intro x hx hboth
    simp only [Bool.and_eq_true, Bool.not_eq_true', List.contains_iff_mem] at hboth
    rcases List.mem_cons.mp (hp.subset hboth.2) with hxt | hold
    · rw [← hxt] at hc
      cases hc
    · exact hd.not_burnt hx hboth.1 hold
  rw [tokenNotes, hissued, hredeemed]
  rfl

/-- A redemption notes the tokens that its condition picks. -/
theorem notes_of_redeem {kind : TokenKind} {key : String} {operation : Option PasskeyOperation}
    {now : Time} (hd : Distinct (tokens old))
    (hnew : tokens new = (tokens old).map (redeemed kind key operation now)) :
    tokenNotes old new =
      ((tokens old).filter (redeemable kind key operation now)).map .redeemed := by
  have hissued : (tokens new).filter (fun t => (tokens old).all fun x => !x.same t) = [] := by
    rw [List.filter_eq_nil_iff]
    intro t ht hall
    rw [hnew] at ht
    obtain ⟨x, hx, rfl⟩ := List.mem_map.mp ht
    have hself := List.all_eq_true.mp hall x hx
    rw [same_comm, same_redeemed] at hself
    simp at hself
  have hredeemed : (tokens old).filter (fun t => !t.consumed && (tokens new).contains t.burnt) =
      (tokens old).filter (redeemable kind key operation now) := by
    apply List.filter_congr
    intro t ht
    rw [Bool.eq_iff_iff, Bool.and_eq_true, Bool.not_eq_true', List.contains_iff_mem, hnew]
    constructor
    · rintro ⟨hc, hb⟩
      obtain ⟨x, hx, hxb⟩ := List.mem_map.mp hb
      have hsame : x.same t = true := by
        have hburnt : t.burnt.same t = true := by simp
        rw [← hxb, same_redeemed] at hburnt
        exact hburnt
      obtain rfl := hd.eq hx ht hsame
      unfold SingleUse.redeemed at hxb
      split_ifs at hxb with hr
      · exact hr
      · rw [hxb] at hc
        cases hc
    · intro hr
      constructor
      · simp only [redeemable, Bool.and_eq_true, Bool.not_eq_true'] at hr
        exact hr.1.1.2
      · exact List.mem_map.mpr ⟨t, ht, by simp [SingleUse.redeemed, hr]⟩
  rw [tokenNotes, hissued, hredeemed]
  rfl

/-- A primary key picks at most one row. -/
theorem redeemable_at_most_one (kind : TokenKind) (key : String)
    (operation : Option PasskeyOperation) (now : Time) (hd : Distinct (tokens old)) :
    (tokens old).filter (redeemable kind key operation now) = [] ∨
      ∃ t ∈ tokens old, redeemable kind key operation now t = true ∧
        (tokens old).filter (redeemable kind key operation now) = [t] := by
  have hpair := hd.filter (redeemable kind key operation now)
  cases hf : (tokens old).filter (redeemable kind key operation now) with
  | nil => exact Or.inl rfl
  | cons t rest =>
      right
      have ht := List.mem_filter.mp (hf ▸ List.mem_cons_self : t ∈ _)
      refine ⟨t, ht.1, ht.2, ?_⟩
      cases rest with
      | nil => rfl
      | cons u rest =>
          have hu := List.mem_filter.mp
            (hf ▸ List.mem_cons_of_mem _ List.mem_cons_self : u ∈ _)
          rw [hf] at hpair
          have hne := List.rel_of_pairwise_cons hpair List.mem_cons_self
          have hkey : ∀ x : Token, redeemable kind key operation now x = true →
              x.kind = kind ∧ x.key = key := by
            intro x hx
            simp only [redeemable, Bool.and_eq_true, decide_eq_true_eq] at hx
            exact hx.1.1.1
          have hsame : t.same u = true := by
            rw [same_iff, (hkey t ht.2).1, (hkey t ht.2).2, (hkey u hu.2).1, (hkey u hu.2).2]
            exact ⟨rfl, rfl⟩
          rw [hsame] at hne
          cases hne

end

theorem redeemable_other {α : Type} {tok : α → Token} {rows : List α} {kind : TokenKind}
    {key : String} {operation : Option PasskeyOperation} {now : Time}
    (h : ∀ r, (tok r).kind ≠ kind) :
    (rows.map tok).filter (redeemable kind key operation now) = [] := by
  rw [List.filter_eq_nil_iff]
  intro t ht
  obtain ⟨r, _, rfl⟩ := List.mem_map.mp ht
  simp [redeemable, h r]

theorem redeemable_table {α : Type} {tok : α → Token} {rows : List α} {kind : TokenKind}
    {key : String} {operation : Option PasskeyOperation} {now : Time} {w : α → Bool}
    (hw : ∀ r, w r = redeemable kind key operation now (tok r)) :
    (rows.map tok).filter (redeemable kind key operation now) = (rows.filter w).map tok := by
  rw [List.filter_map]
  congr 1
  apply List.filter_congr
  intro r _
  exact (hw r).symm

/-- The rowcount that a redemption looks at is the number of redemptions it logs. -/
theorem notes_burnNonce (nonce : String) {db : Db} {now : Time} (hd : Distinct (tokens db)) :
    (tokenNotes db (burnNonce nonce now db)).length =
      (db.socialNonces.filter (nonceWhere nonce now)).length := by
  have ha : (db.socialNonces.map nonceToken).filter (redeemable .nonce nonce none now) =
      (db.socialNonces.filter (nonceWhere nonce now)).map nonceToken := by
    apply redeemable_table
    intro r
    simp [nonceWhere, redeemable, nonceToken]
    rfl
  have hb : (db.oauthStates.map stateToken).filter (redeemable .nonce nonce none now) = [] :=
    redeemable_other (by simp)
  have hc : (db.handoffs.map handoffToken).filter (redeemable .nonce nonce none now) = [] :=
    redeemable_other (by simp)
  have hd' : (db.challenges.map challengeToken).filter (redeemable .nonce nonce none now) = [] :=
    redeemable_other (by simp)
  rw [notes_of_redeem hd (tokens_burnNonce nonce), List.length_map, tokens, List.filter_append,
    List.filter_append, List.filter_append, ha, hb, hc, hd']
  simp

theorem notes_burnState (nonce : String) {db : Db} {now : Time} (hd : Distinct (tokens db)) :
    (tokenNotes db (burnState nonce now db)).length =
      (db.oauthStates.filter (stateWhere nonce now)).length := by
  have ha : (db.socialNonces.map nonceToken).filter (redeemable .state nonce none now) = [] :=
    redeemable_other (by simp)
  have hb : (db.oauthStates.map stateToken).filter (redeemable .state nonce none now) =
      (db.oauthStates.filter (stateWhere nonce now)).map stateToken := by
    apply redeemable_table
    intro r
    simp [stateWhere, redeemable, stateToken]
    rfl
  have hc : (db.handoffs.map handoffToken).filter (redeemable .state nonce none now) = [] :=
    redeemable_other (by simp)
  have hd' : (db.challenges.map challengeToken).filter (redeemable .state nonce none now) = [] :=
    redeemable_other (by simp)
  rw [notes_of_redeem hd (tokens_burnState nonce), List.length_map, tokens, List.filter_append,
    List.filter_append, List.filter_append, ha, hb, hc, hd']
  simp

theorem notes_burnHandoff (code : String) {db : Db} {now : Time} (hd : Distinct (tokens db)) :
    (tokenNotes db (burnHandoff code now db)).length =
      (db.handoffs.filter (handoffWhere code now)).length := by
  have ha : (db.socialNonces.map nonceToken).filter (redeemable .handoff code none now) = [] :=
    redeemable_other (by simp)
  have hb : (db.oauthStates.map stateToken).filter (redeemable .handoff code none now) = [] :=
    redeemable_other (by simp)
  have hc : (db.handoffs.map handoffToken).filter (redeemable .handoff code none now) =
      (db.handoffs.filter (handoffWhere code now)).map handoffToken := by
    apply redeemable_table
    intro r
    simp [handoffWhere, redeemable, handoffToken]
    rfl
  have hd' : (db.challenges.map challengeToken).filter (redeemable .handoff code none now) = [] :=
    redeemable_other (by simp)
  rw [notes_of_redeem hd (tokens_burnHandoff code), List.length_map, tokens, List.filter_append,
    List.filter_append, List.filter_append, ha, hb, hc, hd']
  simp

theorem notes_burnChallenge (state : String) (operation : PasskeyOperation) {db : Db} {now : Time}
    (hd : Distinct (tokens db)) :
    (tokenNotes db (burnChallenge state operation now db)).length =
      burnRowcount state operation now db := by
  have ha : (db.socialNonces.map nonceToken).filter
      (redeemable .challenge state (some operation) now) = [] := redeemable_other (by simp)
  have hb : (db.oauthStates.map stateToken).filter
      (redeemable .challenge state (some operation) now) = [] := redeemable_other (by simp)
  have hc : (db.handoffs.map handoffToken).filter
      (redeemable .challenge state (some operation) now) = [] := redeemable_other (by simp)
  have hd' : (db.challenges.map challengeToken).filter
      (redeemable .challenge state (some operation) now) =
        (db.challenges.filter (consumeWhere state operation now)).map challengeToken := by
    apply redeemable_table
    intro r
    simp [consumeWhere, redeemable, challengeToken]
    rfl
  rw [notes_of_redeem hd (tokens_burnChallenge state operation), List.length_map, tokens,
    List.filter_append, List.filter_append, List.filter_append, ha, hb, hc, hd']
  simp [burnRowcount]

/-! ## What a redemption answers -/

/-- A call of one of the four redemptions, by the type of its answer. -/
inductive Redemption : Type → Type where
  | nonce (nonce : String) (now : Time) : Redemption Bool
  | state (nonce : String) (now : Time) : Redemption (Option OAuthState)
  | handoff (code : String) (now : Time) : Redemption (Option HandoffPayload)
  | challenge (state : String) (operation : PasskeyOperation) (now : Time) :
      Redemption (Option Bytes)

namespace Redemption

variable {α : Type}

def body : Redemption α → Body α
  | .nonce key now => consumeNonce key now
  | .state key now => consumeState key now
  | .handoff key now => consumeHandoff key now
  | .challenge key operation now => consumeChallenge key operation now

/-- The tokens that the UPDATE of the call redeems. -/
def picks : Redemption α → Token → Bool
  | .nonce key now => redeemable .nonce key none now
  | .state key now => redeemable .state key none now
  | .handoff key now => redeemable .handoff key none now
  | .challenge key operation now => redeemable .challenge key (some operation) now

def entries (call : Redemption α) (db : Db) : List TokenEvent :=
  ((tokens db).filter call.picks).map .redeemed

def succeeded : Redemption α → α → Bool
  | .nonce _ _, won => won
  | .state _ _, row => row.isSome
  | .handoff _ _, payload => payload.isSome
  | .challenge _ _ _, raw => raw.isSome

/-- The call commits before it answers. -/
def eager : Redemption α → Bool
  | .nonce _ _ => false
  | .state _ _ => true
  | .handoff _ _ => true
  | .challenge _ _ _ => false

/-- What the call reads out of a redeemed token can be read: the payload of a handoff is an
object, the key of a challenge is base64url. -/
def readable : Redemption α → Db → Bool
  | .nonce _ _, _ => true
  | .state _ _, _ => true
  | .handoff key _, db => (db.handoffs.find? fun h => h.code = key).any fun h => h.payload.isSome
  | .challenge key _ _, _ => (base64urlToBytes key).isSome

def update : Redemption α → Db → Db
  | .nonce key now => burnNonce key now
  | .state key now => burnState key now
  | .handoff key now => burnHandoff key now
  | .challenge key operation now => burnChallenge key operation now

def rowcount : Redemption α → Db → ℕ
  | .nonce key now, db => (db.socialNonces.filter (nonceWhere key now)).length
  | .state key now, db => (db.oauthStates.filter (stateWhere key now)).length
  | .handoff key now, db => (db.handoffs.filter (handoffWhere key now)).length
  | .challenge key operation now, db => burnRowcount key operation now db

/-- The UPDATE notes its entries; their number is its rowcount, at most one. -/
theorem notes_update (call : Redemption α) {db : Db} (hd : Distinct (tokens db)) :
    tokenNotes db (call.update db) = call.entries db ∧
      (call.entries db).length = call.rowcount db ∧ (call.entries db).length ≤ 1 := by
  have hone : ∀ kind key operation now,
      (((tokens db).filter (redeemable kind key operation now)).map
        TokenEvent.redeemed).length ≤ 1 := by
    intro kind key operation now
    rcases redeemable_at_most_one kind key operation now hd with hnone | ⟨t, _, _, hpicked⟩
    · simp [hnone]
    · simp [hpicked]
  have hcount : ∀ {n : ℕ}, tokenNotes db (call.update db) = call.entries db →
      (tokenNotes db (call.update db)).length = n → (call.entries db).length = n := by
    rintro _ heq rfl
    rw [heq]
  cases call with
  | nonce key now =>
      have hnotes : tokenNotes db ((Redemption.nonce key now).update db) = _ :=
        notes_of_redeem hd (tokens_burnNonce key)
      exact ⟨hnotes, hcount hnotes (notes_burnNonce key hd), hone _ _ _ _⟩
  | state key now =>
      have hnotes : tokenNotes db ((Redemption.state key now).update db) = _ :=
        notes_of_redeem hd (tokens_burnState key)
      exact ⟨hnotes, hcount hnotes (notes_burnState key hd), hone _ _ _ _⟩
  | handoff key now =>
      have hnotes : tokenNotes db ((Redemption.handoff key now).update db) = _ :=
        notes_of_redeem hd (tokens_burnHandoff key)
      exact ⟨hnotes, hcount hnotes (notes_burnHandoff key hd), hone _ _ _ _⟩
  | challenge key operation now =>
      have hnotes : tokenNotes db ((Redemption.challenge key operation now).update db) = _ :=
        notes_of_redeem hd (tokens_burnChallenge key operation)
      exact ⟨hnotes, hcount hnotes (notes_burnChallenge key operation hd), hone _ _ _ _⟩

/-- How the statements after the UPDATE end, on a store that they only read. -/
def Ends (call : Redemption α) (won : Prop) (s : Db) : Settled Db Memory Label Exn α → Prop
  | .returned a s' => s' = s ∧ call.eager = false ∧
      (call.succeeded a = true ↔ won ∧ call.readable s = true)
  | .raised _ s' => s' = s ∧ call.eager = false ∧ won ∧ call.readable s = false
  | .committed _ s' (.ret a) => s' = s ∧ (call.succeeded a = true ↔ won ∧ call.readable s = true)
  | _ => False

theorem isSome_burnt_state {key : String} {now : Time} {db : Db}
    (h : (db.oauthStates.filter (stateWhere key now)).length = 1) :
    ((burnState key now db).oauthStates.find? fun s => s.nonce = key).isSome = true := by
  obtain ⟨row, hrow⟩ := List.length_eq_one_iff.mp h
  have hmem : row ∈ db.oauthStates.filter (stateWhere key now) := by simp [hrow]
  obtain ⟨hin, hwhere⟩ := List.mem_filter.mp hmem
  have hkey : row.nonce = key := by
    simp only [stateWhere, Bool.and_eq_true, decide_eq_true_eq] at hwhere
    exact hwhere.1.1
  rw [List.find?_isSome]
  refine ⟨_, List.mem_map_of_mem hin, ?_⟩
  rw [if_pos hwhere]
  simpa using hkey

/-- One UPDATE, then statements that leave no note. -/
theorem body_cases (call : Redemption α) : ∃ next : Db → Body α,
    call.body = .write false .plain (fun db => some (call.update db)) next next ∧
      ∀ db, trail tokenNotes (next db) (call.update db) = [] ∧
        call.Ends (call.rowcount db = 1) (call.update db) ((next db).settle (call.update db)) := by
  cases call with
  | nonce key now =>
      refine ⟨_, rfl, fun db => ⟨rfl, rfl, rfl, ?_⟩⟩
      simp [succeeded, readable, rowcount]
  | state key now =>
      refine ⟨_, rfl, fun db => ?_⟩
      by_cases h : (db.oauthStates.filter (stateWhere key now)).length = 1
      · dsimp only [Request.bind]
        rw [if_neg (not_not.mpr h)]
        refine ⟨rfl, rfl, ?_⟩
        simp only [succeeded, readable, rowcount, h, update]
        simpa using isSome_burnt_state h
      · dsimp only [Request.bind]
        rw [if_pos h]
        refine ⟨rfl, rfl, ?_⟩
        simp [succeeded, rowcount, h]
  | handoff key now =>
      refine ⟨_, rfl, fun db => ?_⟩
      by_cases h : (db.handoffs.filter (handoffWhere key now)).length = 1
      · dsimp only [Request.bind]
        rw [if_neg (not_not.mpr h)]
        refine ⟨rfl, rfl, ?_⟩
        simp only [succeeded, readable, rowcount, h, update, true_and]
        cases (burnHandoff key now db).handoffs.find? fun h => h.code = key <;> simp
      · dsimp only [Request.bind]
        rw [if_pos h]
        refine ⟨rfl, rfl, ?_⟩
        simp [succeeded, rowcount, h]
  | challenge key operation now =>
      refine ⟨_, rfl, fun db => ?_⟩
      by_cases h : burnRowcount key operation now db = 1
      · dsimp only [Request.bind]
        rw [if_neg (not_not.mpr h)]
        cases hraw : base64urlToBytes key with
        | some raw =>
            refine ⟨rfl, rfl, rfl, ?_⟩
            simp [succeeded, readable, rowcount, h, hraw]
        | none =>
            refine ⟨rfl, rfl, rfl, h, ?_⟩
            simp [readable, hraw]
      · dsimp only [Request.bind]
        rw [if_pos h]
        refine ⟨rfl, rfl, rfl, ?_⟩
        simp [succeeded, rowcount, h]

/-- The request starts with the call, whatever it does with the answer or an exception. -/
def Starts {β : Type} (call : Redemption β) (r : Body α) : Prop :=
  ∃ k h, r = resume call.body k h

theorem starts_bind {β : Type} (call : Redemption β) (f : β → Body α) :
    call.Starts (call.body >>= f) :=
  ⟨f, .raise, bind_eq_resume call.body f⟩

theorem Starts.bind {β γ : Type} {call : Redemption β} {r : Body α} (h : call.Starts r)
    (f : α → Body γ) : call.Starts (r >>= f) := by
  obtain ⟨k, handler, rfl⟩ := h
  exact ⟨_, _, resume_bind f⟩

theorem Starts.session {β : Type} {call : Redemption β} {r : Body α} (h : call.Starts r) :
    call.Starts r.session := by
  obtain ⟨k, handler, rfl⟩ := h
  exact ⟨_, _, resume_session⟩

theorem starts_social {settings : AuthSettings} {req : SocialReq} {now : Time}
    {identity : VerifiedIdentity} (hon : settings.socialSigninEnabled = true)
    (hrequired : settings.socialNonceRequired = true) (hnonce : req.nonce.getD "" ≠ "")
    (hverified : req.verified = .ok identity) :
    (nonce (req.nonce.getD "") now).Starts (TokenRequest.social settings req now).body := by
  have hidentity : (nonce (req.nonce.getD "") now).Starts (socialIdentity settings req now) := by
    simp only [socialIdentity, hon, hrequired, hnonce, hverified]
    exact starts_bind (nonce (req.nonce.getD "") now) _
  exact (hidentity.bind _).session

theorem starts_oauthCallback {settings : AuthSettings} {req : CallbackReq}
    (hon : settings.socialSigninEnabled = true) (hconfigured : req.configured = true)
    (herror : req.error.getD "" = "") (hcode : req.code.getD "" ≠ "")
    (hstate : req.state.getD "" ≠ "") :
    (state (req.state.getD "") req.consumedAt).Starts
      (TokenRequest.oauthCallback settings req).body := by
  apply Starts.session
  simp only [Auth.oauthCallback, hon, hconfigured, herror, hcode, hstate]
  exact starts_bind (state (req.state.getD "") req.consumedAt) _

theorem starts_oauthExchange {settings : AuthSettings} {lib : AuthLib} {req : ExchangeReq}
    (hon : settings.socialSigninEnabled = true) :
    (handoff req.code req.consumedAt).Starts
      (TokenRequest.oauthExchange settings lib req).body := by
  have hredeem : (handoff req.code req.consumedAt).Starts (redeemHandoff settings lib req) := by
    simp only [redeemHandoff, hon]
    exact starts_bind (handoff req.code req.consumedAt) _
  exact (hredeem.bind _).session

theorem starts_passkeyAuthenticateFinish (lib : AuthLib) (req : AssertionReq) :
    (challenge req.state .authenticate req.now).Starts
      (TokenRequest.passkeyAuthenticateFinish lib req).body := by
  have hverified : (challenge req.state .authenticate req.now).Starts
      (verifiedCredential lib req) := starts_bind (challenge req.state .authenticate req.now) _
  exact (hverified.bind _).session

end Redemption

/-! ## The invariant of the committed store -/

/-- One of the operations redeems this token, for its ceremony and before its expiry. -/
def Redeems (ops : TokenOp → Prop) (t : Token) : Prop :=
  ∃ now, ops (.redeem t.kind t.key t.operation now) ∧ now < t.expiresAt

def Sweeps (ops : TokenOp → Prop) (t : Token) : Prop :=
  ∃ now, ops (.sweep t.kind now) ∧ t.expiresAt ≤ now

/-- A token that may still be redeemed was not redeemed since its last issue. -/
structure TokenInv (ops : TokenOp → Prop) (s : Db × List TokenEvent) : Prop where
  distinct : Distinct (tokens s.1)
  fair : ∀ t, Fair t true s.2
  live : ∀ t ∈ tokens s.1, t.consumed = false → liveAfter t true s.2 = true
  entitled : ∀ t, .redeemed t ∈ s.2 → Redeems ops t

/-- What the operations of one request do to the store and its log. -/
structure Evolves (ops : TokenOp → Prop) (s s' : Db × List TokenEvent) (es : List TokenEvent) :
    Prop where
  log : s'.2 = s.2 ++ es
  entitled : ∀ t, .redeemed t ∈ es → Redeems ops t
  kept : ∀ t ∈ tokens s.1, t ∈ tokens s'.1 ∨ .redeemed t ∈ es ∨ Sweeps ops t

section
variable {ops any : TokenOp → Prop} {s s' s'' : Db × List TokenEvent} {es es' : List TokenEvent}
  {t : Token}

theorem Evolves.refl : Evolves ops s s [] := by
  constructor
  · simp
  · intro t ht
    cases ht
  · intro t ht
    exact Or.inl ht

theorem Evolves.trans (h : Evolves ops s s' es) (h' : Evolves ops s' s'' es') :
    Evolves ops s s'' (es ++ es') := by
  constructor
  · rw [h'.log, h.log, List.append_assoc]
  · intro t ht
    rcases List.mem_append.mp ht with ht | ht
    · exact h.entitled t ht
    · exact h'.entitled t ht
  · intro t ht
    rcases h.kept t ht with hin | hred | hswept
    · rcases h'.kept t hin with hin' | hred | hswept
      · exact Or.inl hin'
      · exact Or.inr (Or.inl (List.mem_append_right es hred))
      · exact Or.inr (Or.inr hswept)
    · exact Or.inr (Or.inl (List.mem_append_left es' hred))
    · exact Or.inr (Or.inr hswept)

/-- A redemption for which the condition held. -/
theorem redeems_of_redeemable {kind : TokenKind} {key : String}
    {operation : Option PasskeyOperation} {now : Time} (hop : ops (.redeem kind key operation now))
    (h : redeemable kind key operation now t = true) : t.consumed = false ∧ Redeems ops t := by
  simp only [redeemable, Bool.and_eq_true, decide_eq_true_eq, Bool.not_eq_true'] at h
  obtain ⟨⟨⟨⟨rfl, rfl⟩, hc⟩, hlt⟩, rfl⟩ := h
  exact ⟨hc, now, hop, hlt⟩

/-- Only rows that were there remain, and nothing is noted. -/
theorem TokenInv.of_subset (h : TokenInv any s) (hd : Distinct (tokens s'.1))
    (hsub : tokens s'.1 ⊆ tokens s.1) (hlog : s'.2 = s.2 ++ tokenNotes s.1 s'.1) :
    TokenInv any s' ∧ s'.2 = s.2 ++ [] := by
  rw [notes_of_subset h.distinct hsub] at hlog
  refine ⟨⟨hd, ?_, ?_, ?_⟩, hlog⟩
  · rw [hlog, List.append_nil]
    exact h.fair
  · intro t ht hc
    rw [hlog, List.append_nil]
    exact h.live t (hsub ht) hc
  · rw [hlog, List.append_nil]
    exact h.entitled

theorem TokenInv.issue (h : TokenInv any s) (hc : t.consumed = false)
    (hnew : ∀ x ∈ tokens s.1, x.same t = false) (hp : (tokens s'.1).Perm (t :: tokens s.1))
    (hlog : s'.2 = s.2 ++ tokenNotes s.1 s'.1) :
    TokenInv any s' ∧ s'.2 = s.2 ++ [.issued t] := by
  rw [notes_of_issue h.distinct hc hnew hp] at hlog
  refine ⟨⟨?_, ?_, ?_, ?_⟩, hlog⟩
  · apply Distinct.perm _ hp
    rw [Distinct, List.pairwise_cons]
    refine ⟨fun x hx => ?_, h.distinct⟩
    rw [same_comm]
    exact hnew x hx
  · intro u
    rw [hlog, fair_append]
    exact ⟨h.fair u, trivial⟩
  · intro u hu huc
    rw [hlog, liveAfter_append]
    rcases List.mem_cons.mp (hp.subset hu) with rfl | hold
    · simp [liveAfter]
    · simp [liveAfter, h.live u hold huc]
  · intro u hu
    rw [hlog, List.mem_append] at hu
    rcases hu with hu | hu
    · exact h.entitled u hu
    · simp at hu

theorem TokenInv.redeem {kind : TokenKind} {key : String} {operation : Option PasskeyOperation}
    {now : Time} (h : TokenInv any s) (hop : any (.redeem kind key operation now))
    (hnew : tokens s'.1 = (tokens s.1).map (redeemed kind key operation now))
    (hlog : s'.2 = s.2 ++ tokenNotes s.1 s'.1) :
    TokenInv any s' ∧
      s'.2 = s.2 ++ ((tokens s.1).filter (redeemable kind key operation now)).map .redeemed := by
  rw [notes_of_redeem h.distinct hnew] at hlog
  have hd : Distinct (tokens s'.1) := by
    rw [hnew]
    exact h.distinct.redeem kind key operation now
  -- the row that is left unconsumed was not picked
  have hleft : ∀ u ∈ tokens s'.1, u.consumed = false →
      u ∈ tokens s.1 ∧ redeemable kind key operation now u = false := by
    intro u hu huc
    rw [hnew] at hu
    obtain ⟨x, hx, rfl⟩ := List.mem_map.mp hu
    unfold SingleUse.redeemed at huc ⊢
    split_ifs at huc ⊢ with hr
    · cases huc
    · exact ⟨hx, by simpa using hr⟩
  refine ⟨?_, hlog⟩
  rcases redeemable_at_most_one kind key operation now h.distinct with hnone | ⟨t, ht, hr, hone⟩
  · rw [hnone, List.map_nil, List.append_nil] at hlog
    constructor
    · exact hd
    · rw [hlog]
      exact h.fair
    · intro u hu huc
      rw [hlog]
      exact h.live u (hleft u hu huc).1 huc
    · rw [hlog]
      exact h.entitled
  · rw [hone, List.map_singleton] at hlog
    obtain ⟨htc, htr⟩ := redeems_of_redeemable hop hr
    constructor
    · exact hd
    · intro u
      rw [hlog, fair_append]
      refine ⟨h.fair u, fun hsame => ?_, trivial⟩
      rw [← liveAfter_congr hsame]
      exact h.live t ht htc
    · intro u hu huc
      obtain ⟨hold, hpick⟩ := hleft u hu huc
      have hne : t.same u = false := by
        by_contra hsame
        obtain rfl := h.distinct.eq ht hold (by simpa using hsame)
        rw [hr] at hpick
        cases hpick
      rw [hlog, liveAfter_append]
      simp [liveAfter, h.live u hold huc, hne]
    · intro u hu
      rw [hlog, List.mem_append] at hu
      rcases hu with hu | hu
      · exact h.entitled u hu
      · obtain rfl := TokenEvent.redeemed.inj (List.mem_singleton.mp hu)
        exact htr

/-- The spec of one statement. -/
theorem TokenInv.write {f : Db → Option Db} {l : Label} (h : TokenInv any s)
    (hf : TokenWrite ops l f) (hany : ∀ op, ops op → any op)
    (hs : noted tokenNotes f s = some s') : TokenInv any s' ∧ ∃ es, Evolves ops s s' es := by
  obtain ⟨hstore, hlog⟩ := noted_eq_some.mp hs
  rcases hf _ _ hstore with hsame | ⟨op, hop, happ⟩
  · obtain ⟨hinv, hlog'⟩ := h.of_subset (hsame ▸ h.distinct) (by rw [hsame]; exact fun _ => id) hlog
    refine ⟨hinv, [], hlog', nofun, fun t ht => Or.inl ?_⟩
    rwa [hsame]
  · cases op with
    | issue t =>
        obtain ⟨hc, hnew, hp⟩ := happ
        obtain ⟨hinv, hlog'⟩ := h.issue hc hnew hp hlog
        refine ⟨hinv, _, hlog', by simp, fun u hu => Or.inl ?_⟩
        exact hp.symm.subset (List.mem_cons_of_mem t hu)
    | redeem kind key operation now =>
        obtain ⟨hinv, hlog'⟩ := h.redeem (hany _ hop) happ hlog
        refine ⟨hinv, _, hlog', fun t ht => ?_, fun t ht => ?_⟩
        · obtain ⟨u, hu, heq⟩ := List.mem_map.mp ht
          obtain rfl := TokenEvent.redeemed.inj heq
          exact (redeems_of_redeemable hop (List.mem_filter.mp hu).2).2
        · by_cases hr : redeemable kind key operation now t = true
          · exact Or.inr (Or.inl (List.mem_map_of_mem (List.mem_filter.mpr ⟨ht, hr⟩)))
          · left
            rw [happ]
            exact List.mem_map.mpr ⟨t, ht, by simp [SingleUse.redeemed, hr]⟩
    | sweep kind now =>
        have hsub : tokens s'.1 ⊆ tokens s.1 := by
          rw [happ]
          exact List.filter_sublist.subset
        have hd : Distinct (tokens s'.1) := by
          rw [happ]
          exact h.distinct.filter _
        obtain ⟨hinv, hlog'⟩ := h.of_subset hd hsub hlog
        refine ⟨hinv, [], hlog', nofun, fun t ht => ?_⟩
        by_cases hk : kept kind now t = true
        · left
          rw [happ]
          exact List.mem_filter.mpr ⟨ht, hk⟩
        · right
          right
          simp only [kept, Bool.not_eq_true', Bool.not_eq_false, Bool.and_eq_true,
            decide_eq_true_eq] at hk
          exact ⟨now, by rwa [hk.1], hk.2⟩

end

/-! ## Runs -/

section
variable {π α : Type} [DecidableEq π] {reqs : π → TokenRequest α} {db : Db} {mem : Memory}

/-- All requests of a run. -/
def anyOf (reqs : π → TokenRequest α) (op : TokenOp) : Prop := ∃ p, (reqs p).ops op

/-- The requests over the store with the log of its tokens, none started. -/
def startOf (reqs : π → TokenRequest α) (db : Db) (mem : Memory) :
    Cfg π (Db × List TokenEvent) Memory Label Exn α :=
  Cfg.init (db, []) mem fun p => noting tokenNotes (reqs p).body

def tokenSpec (reqs : π → TokenRequest α) : Spec π (Db × List TokenEvent) Memory Label where
  inv s _ := TokenInv (anyOf reqs) s
  rely _ _ _ _ _ := True
  meets _ _ := True
  rely_refl _ _ _ := trivial
  rely_trans _ _ := trivial

/-- From a store with the invariant, a store with the invariant that has evolved. -/
def Turns (any ops : TokenOp → Prop) (s s' : Db × List TokenEvent) : Prop :=
  TokenInv any s → TokenInv any s' ∧ ∃ es, Evolves ops s s' es

omit [DecidableEq π] in
theorem respects_tokens (p : π) :
    Respects (tokenSpec reqs) p (fun _ _ => True) (Turns (anyOf reqs) (reqs p).ops)
      (fun t f' => ∃ f, TokenWrite (reqs p).ops t f ∧ f' = noted tokenNotes f)
      (fun _ g' => ∃ g : Db → Memory → Memory, True ∧ g' = fun s m => g s.1 m) where
  refl _ hinv := ⟨hinv, [], Evolves.refl⟩
  trans := by
    intro a b c hab hbc hinv
    obtain ⟨hb, es, hes⟩ := hab hinv
    obtain ⟨hc, es', hes'⟩ := hbc hb
    exact ⟨hc, es ++ es', hes.trans hes'⟩
  stable _ _ := trivial
  write := by
    rintro t _ z s ⟨f, hf, rfl⟩ _ _ _ _ hs hinv
    exact hinv.write hf (fun op hop => ⟨p, hop⟩) hs
  segment t g z _ hi _ _ := ⟨⟨hi, fun _ _ => trivial⟩, trivial⟩
  commit db' mem' s hi _ hR := ⟨⟨(hR hi).1, fun _ _ => trivial⟩, trivial⟩

omit [DecidableEq π] in
theorem tokenInv_start {any : TokenOp → Prop} (hdb : Distinct (tokens db)) :
    TokenInv any (db, []) := by
  constructor
  · exact hdb
  · exact fun t => trivial
  · exact fun t _ _ => rfl
  · nofun

theorem guarded_start (hdb : Distinct (tokens db)) :
    Guarded (tokenSpec reqs) (fun p => Turns (anyOf reqs) (reqs p).ops) (fun _ _ _ => True)
      (fun _ => []) (startOf reqs db mem) := by
  constructor
  · exact tokenInv_start hdb
  · intro p
    apply of_respects (respects_tokens p) (uses_noting (reqs p).uses)
    exact (respects_tokens p).refl _

/-- A working copy is as the committed store. -/
theorem tokenInv_view (hdb : Distinct (tokens db))
    {c : Cfg π (Db × List TokenEvent) Memory Label Exn α}
    (hr : Cfg.Reach (fun _ _ => True) (startOf reqs db mem) c) (p : π) :
    TokenInv (anyOf reqs) (c.point p).view := by
  obtain ⟨_, hguard, _, _⟩ := (guarded_start hdb).reach hr
  have hview := (reach_view (R := Turns (anyOf reqs) (reqs p).ops) (respects_tokens p).refl
    (respects_tokens p).trans ?_ hr (uses_noting (reqs p).uses) ((respects_tokens p).refl _)).2
  · exact (hview hguard.inv).1
  · rintro t _ s s' ⟨f, hf, rfl⟩ hs hinv
    exact hinv.write hf (fun op hop => ⟨p, hop⟩) hs

/-- How the request of `p` went on from `c`, where the UPDATE of its call had redeemed the tokens
of `es`: it is still in the transaction of the call, or it was answered, or the call raised. -/
inductive GoesOn {β : Type} (call : Redemption β)
    (k : β → Request (Db × List TokenEvent) Memory Label Exn α)
    (h : Exn → Request (Db × List TokenEvent) Memory Label Exn α) (p : π) (es : List TokenEvent)
    (c c' : Cfg π (Db × List TokenEvent) Memory Label Exn α) : Prop where
  | pending (r : Request (Db × List TokenEvent) Memory Label Exn β) (s : Db × List TokenEvent) :
      inside r = true → c'.procs p = resume r k h → c'.work p = some s → GoesOn call k h p es c c'
  | answered (a : β) (c₁ : Cfg π (Db × List TokenEvent) Memory Label Exn α) :
      Cfg.Reach (fun _ _ => True) c c₁ → Cfg.Reach (fun _ _ => True) c₁ c' →
      c₁.procs p = k a → (c₁.point p).view = (c.point p).view →
      (call.eager = true → c₁.work p = none) →
      (call.succeeded a = true ↔ es ≠ [] ∧ call.readable (c.point p).view.1 = true) →
      GoesOn call k h p es c c'
  | raised (e : Exn) (c₁ : Cfg π (Db × List TokenEvent) Memory Label Exn α) :
      Cfg.Reach (fun _ _ => True) c c₁ → Cfg.Reach (fun _ _ => True) c₁ c' →
      c₁.procs p = h e → (c₁.point p).view = (c.point p).view → es ≠ [] →
      call.readable (c.point p).view.1 = false → GoesOn call k h p es c c'

/-- A call that `p` was about to make at `c` has not taken its UPDATE, or the UPDATE redeemed at
most one token, the one that its condition picks, and the call goes on by that. -/
def Accounted {β : Type} (call : Redemption β)
    (k : β → Request (Db × List TokenEvent) Memory Label Exn α)
    (h : Exn → Request (Db × List TokenEvent) Memory Label Exn α) (p : π)
    (c c' : Cfg π (Db × List TokenEvent) Memory Label Exn α) : Prop :=
  c'.procs p = c.procs p ∨ ∃ c₁ c₂, Cfg.Reach (fun _ _ => True) c c₁ ∧
    c₁.procs p = c.procs p ∧ c₁.step p = some c₂ ∧ Cfg.Reach (fun _ _ => True) c₂ c' ∧
      (call.entries (c₁.point p).view.1).length ≤ 1 ∧
      (c₂.point p).view = (call.update (c₁.point p).view.1,
        (c₁.point p).view.2 ++ call.entries (c₁.point p).view.1) ∧
      GoesOn call k h p (call.entries (c₁.point p).view.1) c₂ c'

/-- Where the call has settled it has ended, and nothing was written after the UPDATE. -/
theorem goesOn_of_stands {β : Type} {call : Redemption β}
    {k : β → Request (Db × List TokenEvent) Memory Label Exn α}
    {h : Exn → Request (Db × List TokenEvent) Memory Label Exn α} {p : π}
    {c c₁ c' : Cfg π (Db × List TokenEvent) Memory Label Exn α} {es : List TokenEvent}
    {o : Settled Db Memory Label Exn β} (h₁ : Cfg.Reach (fun _ _ => True) c c₁)
    (h₂ : Cfg.Reach (fun _ _ => True) c₁ c')
    (hends : call.Ends (es ≠ []) (c.point p).view.1 o)
    (hstands : Stands k h p c₁ (notedOutcome tokenNotes (c.point p).view.2 o)) :
    GoesOn call k h p es c c' := by
  cases o with
  | returned a s =>
      obtain ⟨rfl, heager, hanswer⟩ := hends
      obtain ⟨hpc, hws⟩ := hstands
      refine .answered a c₁ h₁ h₂ hpc (Point.view_of_some hws) ?_ hanswer
      rw [heager]
      intro hfalse
      cases hfalse
  | raised e s =>
      obtain ⟨rfl, _, hes, hunread⟩ := hends
      obtain ⟨hpc, hws⟩ := hstands
      exact .raised e c₁ h₁ h₂ hpc (Point.view_of_some hws) hes hunread
  | committed l s r =>
      cases r with
      | ret a =>
          obtain ⟨rfl, hanswer⟩ := hends
          obtain ⟨hpc, hpoint⟩ := hstands
          have hws : c₁.work p = none := congrArg Point.work hpoint
          refine .answered a c₁ h₁ h₂ hpc ?_ (fun _ => hws) hanswer
          rw [hpoint]
          rfl
      | _ => exact hends.elim
  | rolledBack r => exact hends.elim
  | acting l g q s => exact hends.elim

/-- The run lemma of a call. -/
theorem accounted {β : Type} {call : Redemption β}
    {k : β → Request (Db × List TokenEvent) Memory Label Exn α}
    {h : Exn → Request (Db × List TokenEvent) Memory Label Exn α} {p : π}
    {c c' : Cfg π (Db × List TokenEvent) Memory Label Exn α} (hdb : Distinct (tokens db))
    (hr : Cfg.Reach (fun _ _ => True) (startOf reqs db mem) c)
    (hp : c.procs p = resume (noting tokenNotes call.body) k h)
    (hr' : Cfg.Reach (fun _ _ => True) c c') : Accounted call k h p c c' := by
  rcases first_step hr' p with ⟨hsame, _⟩ | ⟨c₁, c₂, h₁, hproc, _, hstep, h₂⟩
  · exact Or.inl hsame
  right
  have hd : Distinct (tokens (c₁.point p).view.1) := (tokenInv_view hdb (hr.trans h₁) p).distinct
  obtain ⟨hnotes, hcount, hone⟩ := call.notes_update hd
  obtain ⟨next, hbody, hnext⟩ := call.body_cases
  obtain ⟨htrail, hends⟩ := hnext (c₁.point p).view.1
  obtain ⟨_, hproc₂, hpoint₂⟩ := step_self hstep
  rw [hproc, hp, hbody] at hproc₂ hpoint₂
  simp only [noting, resume, Request.advance, noted, Option.map_some, hnotes,
    Point.wrote_plain] at hproc₂ hpoint₂
  have hwork : c₂.work p = some (call.update (c₁.point p).view.1,
      (c₁.point p).view.2 ++ call.entries (c₁.point p).view.1) := by
    change (c₂.point p).work = _
    rw [hpoint₂]
  have hview : (c₂.point p).view = (call.update (c₁.point p).view.1,
      (c₁.point p).view.2 ++ call.entries (c₁.point p).view.1) := Point.view_of_some hwork
  refine ⟨c₁, c₂, h₁, hproc, hstep, h₂, hone, hview, ?_⟩
  have hwon : call.rowcount (c₁.point p).view.1 = 1 ↔ call.entries (c₁.point p).view.1 ≠ [] := by
    rw [← hcount, ← List.length_pos_iff]
    omega
  rw [hwon] at hends
  rcases settles h₂ hproc₂ hwork with ⟨r, s, hin, hpc, hws, _⟩ | ⟨c₃, h₃, h₄, hstands⟩
  · exact .pending r s hin hpc hws
  · rw [settle_noting, htrail, List.append_nil] at hstands
    apply goesOn_of_stands h₃ h₄
    · rw [hview]
      exact hends
    · rw [hview]
      exact hstands

/-- Any requests on the four stores, in any interleaving: a token is redeemed at most once for
each time it was issued, by a request for it, in its ceremony and before it expires; a
step takes away no token but those it redeems in a committed transaction and those it swept
after their expiry; and wherever a request calls a redemption, the call answers success if and
only if its own UPDATE redeemed a token, which it can read. -/
theorem single_use (hdb : Distinct (tokens db))
    {c : Cfg π (Db × List TokenEvent) Memory Label Exn α}
    (hr : Cfg.Reach (fun _ _ => True) (startOf reqs db mem) c) :
    (∀ pre t mid u post, c.db.2 = pre ++ .redeemed t :: mid ++ .redeemed u :: post →
        t.same u = true → ∃ v, .issued v ∈ mid ∧ v.same u = true) ∧
      (∀ t, .redeemed t ∈ c.db.2 → ∃ p, Redeems (reqs p).ops t) ∧
      (∀ p c', c.step p = some c' → c'.db = c.db ∨ ∃ es, Evolves (reqs p).ops c.db c'.db es) ∧
      (∀ p k c', c.procs p = .rollback k → c.step p = some c' → c'.db = c.db) ∧
      ∀ {β : Type} (p : π) (call : Redemption β) k h c',
        c.procs p = resume (noting tokenNotes call.body) k h →
        Cfg.Reach (fun _ _ => True) c c' → Accounted call k h p c c' := by
  obtain ⟨past, hguard, _, _⟩ := (guarded_start hdb).reach hr
  have hinv : TokenInv (anyOf reqs) c.db := hguard.inv
  constructor
  · intro pre t mid u post hlog hsame
    have hfair := hinv.fair u
    rw [hlog] at hfair
    exact hfair.issued_between hsame
  constructor
  · intro t ht
    obtain ⟨now, ⟨p, hop⟩, hlt⟩ := hinv.entitled t ht
    exact ⟨p, now, hop, hlt⟩
  constructor
  · intro p c' hs
    rcases hguard.change (fun _ _ => trivial) hs with hsame | hturns
    · exact Or.inl hsame
    · exact Or.inr (hturns hinv).2
  constructor
  · intro p k c' hk hs
    obtain ⟨_, _, rfl⟩ := Cfg.step_cases hs
    rw [hk]
    rfl
  · intro β p call k h c' hp hr'
    exact accounted hdb hr hp hr'

end

/-! ## One nonce, two sign-ins -/

def nonceSettings : AuthSettings := { socialNonceRequired := true }

def signIn : SocialReq := ⟨some "n", .ok { provider := "google", sub := "s" }⟩

/-- A nonce is issued, then two requests present it. -/
def nonceCalls (p : ℕ) : TokenRequest Outcome :=
  if p = 0 then
    ((TokenRequest.issueNonce "n" 0 1 10).bind fun _ =>
      TokenRequest.pure (.redirect (.ok "n"))).session
  else TokenRequest.social nonceSettings signIn 5

/-- The second sign-in waits at its UPDATE until the first one has committed. -/
theorem single_use_nonce :
    ∃ c, Cfg.play [0, 0, 0, 0, 1, 1, 1, 1, 2, 2, 2] (startOf nonceCalls {} {}) = some c ∧
      c.db.2 = [.issued (nonceToken ⟨"n", 11, false⟩), .redeemed (nonceToken ⟨"n", 11, false⟩)] ∧
      (∀ p c', c.step p = some c' →
        c'.db = c.db ∨ ∃ es, Evolves (nonceCalls p).ops c.db c'.db es) ∧
      ∃ k h, Accounted (.nonce "n" 5) k h 2 (startOf nonceCalls {} {}) c := by
  have hrun : (Cfg.play [0, 0, 0, 0, 1, 1, 1, 1, 2, 2, 2] (startOf nonceCalls {} {})).map
      (fun c => c.db.2) =
        some [.issued (nonceToken ⟨"n", 11, false⟩), .redeemed (nonceToken ⟨"n", 11, false⟩)] := by
    decide +kernel
  obtain ⟨c, hc, hlog⟩ := Option.map_eq_some_iff.mp hrun
  have hempty : Distinct (tokens {}) := List.Pairwise.nil
  have hreach := Cfg.reach_of_play Cfg.Reach.start hc
  obtain ⟨k, h, hstarts⟩ : (Redemption.nonce "n" 5).Starts (nonceCalls 2).body :=
    Redemption.starts_social rfl rfl (by decide) rfl
  have hproc : (startOf nonceCalls {} {}).procs 2 =
      resume (noting tokenNotes (Redemption.nonce "n" 5).body) (fun a => noting tokenNotes (k a))
        fun e => noting tokenNotes (h e) := by
    rw [← noting_resume, ← hstarts]
    rfl
  exact ⟨c, hc, hlog, (single_use hempty hreach).2.2.1, _, _,
    (single_use hempty Cfg.Reach.start).2.2.2.2 2 (Redemption.nonce "n" 5) _ _ c hproc hreach⟩

end AikoIsland.SingleUse
