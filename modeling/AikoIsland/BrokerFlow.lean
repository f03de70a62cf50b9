import AikoIsland.AppendOnly
import AikoIsland.Auth
import AikoIsland.Ledger
import AikoIsland.Transactions
import Mathlib.Data.List.DropRight

/-!
# The broker flow and its tickets

Sign-in through a provider takes three requests: `start` mints a state for the app's
challenge, the callback of the provider claims the state and mints a handoff, and the
exchange claims the handoff for a session. They run among any other requests that leave
the states and the handoffs alone, at the granularity of SQL statements.

A state or a handoff is a ticket: open until it is claimed. The store carries the ledger
of the tickets and the identity rows that were ever added. `Chronicle` says that tables
and ledger agree, and that each handoff was minted by the callback that claimed its
state, for the identity that the provider vouched for.

The query string of the authorize URL and the token exchange with the provider are not
part of the model.
-/
namespace AikoIsland.BrokerFlow
open Tables Gateway Auth Ledger WriterLock RelyGuarantee Publishing History Footprint Settling
  Transactions AppendOnly

/-! ## Start -/

structure BrokerProvider where
  slug : String
  authorizeUrl : String
  scopes : List String
  supportsPkce : Bool
  clientId : String
  deriving DecidableEq, Repr

structure BrokerSettings extends AuthSettings where
  oauthStateTtl : Time := 600000000
  gatewayBaseUrl : String

/-- Exactly 43 characters of the URL-safe alphabet. -/
def isValidAppChallenge (challenge : String) : Bool :=
  challenge.length = 43 && challenge.toList.all fun c => c.isAlphanum || c = '_' || c = '-'

/-- `app_challenge` as given; the random texts are drawn for the request. -/
structure StartReq where
  provider : Option BrokerProvider
  appChallenge : Option String
  codeVerifier : String
  nonce : String
  now : Time
  deriving DecidableEq, Repr

def callbackRedirectUri (settings : BrokerSettings) (slug : String) : String :=
  String.ofList (settings.gatewayBaseUrl.toList.rdropWhile fun c => c = '/') ++
    "/v1/auth/oauth/" ++ slug ++ "/callback"

structure AuthorizeUrl where
  url : String
  params : List (String × String)
  deriving DecidableEq, Repr

def buildAuthorizeUrl (settings : BrokerSettings) (provider : BrokerProvider) (state : String)
    (codeChallenge : Option String) : AuthorizeUrl where
  url := provider.authorizeUrl
  params :=
    [("client_id", provider.clientId),
      ("redirect_uri", callbackRedirectUri settings provider.slug),
      ("scope", " ".intercalate provider.scopes), ("state", state), ("response_type", "code")] ++
    match codeChallenge with
    | some challenge =>
        if provider.supportsPkce then
          [("code_challenge", challenge), ("code_challenge_method", "S256")]
        else []
    | none => []

/-- What a provider that supports PKCE has to be told later. -/
def StartReq.verifier (req : StartReq) (provider : BrokerProvider) : Option String :=
  if provider.supportsPkce then some req.codeVerifier else none

/-- `oauth_start`. -/
def oauthStart (settings : BrokerSettings) (lib : AuthLib) (req : StartReq) :
    Body AuthorizeUrl := do
  if !settings.socialSigninEnabled then
    throwExn (.http 403 "social sign-in is disabled")
  else
    match req.provider with
    | none => throwExn (.http 404 "unknown provider")
    | some provider =>
        if req.appChallenge.getD "" = "" || !isValidAppChallenge (req.appChallenge.getD "") then
          throwExn (.http 400 "missing or malformed app_challenge")
        else do
          let nonce ← createState req.nonce provider.slug (req.verifier provider)
            req.appChallenge req.now settings.oauthStateTtl
          return buildAuthorizeUrl settings provider nonce
            ((req.verifier provider).map lib.appChallengeFor)

/-! ## The requests -/

/-- The states and the handoffs are as they were. -/
structure Untouched (a b : Db) : Prop where
  states : b.oauthStates = a.oauthStates
  handoffs : b.handoffs = a.handoffs

/-- Any other request. -/
structure Bystander where
  body : Body Unit
  spares : Uses (fun _ f => ∀ a b, f a = some b → Untouched a b) (fun _ _ => True) body

inductive BrokerRequest where
  | start (req : StartReq)
  | callback (req : CallbackReq)
  | exchange (req : ExchangeReq)
  | other (bystander : Bystander)

inductive Answer where
  | redirect (url : AuthorizeUrl)
  | outcome (outcome : Outcome)
  | done

variable {π : Type} (settings : BrokerSettings) (lib : AuthLib)

def BrokerRequest.route : BrokerRequest → Body Answer
  | .start req => do
      let url ← oauthStart settings lib req
      return .redirect url
  | .callback req => do
      let outcome ← oauthCallback settings.toAuthSettings req
      return .outcome outcome
  | .exchange req => do
      let outcome ← oauthExchange settings.toAuthSettings lib req
      return .outcome outcome
  | .other bystander => do
      bystander.body
      return .done

def BrokerRequest.body (r : BrokerRequest) : Body Answer := (r.route settings lib).session

/-! ## Tickets -/

inductive Ticket where
  | state (row : OAuthState)
  | handoff (row : OAuthHandoff)
  deriving DecidableEq, Repr

inductive TicketKey where
  | nonce (nonce : String)
  | code (code : String)
  deriving DecidableEq, Repr

def Ticket.key : Ticket → TicketKey
  | .state row => .nonce row.nonce
  | .handoff row => .code row.code

/-- The rows that nobody has claimed. -/
def tickets (db : Db) : List Ticket :=
  (db.oauthStates.filter fun s => !s.consumed).map .state ++
    (db.handoffs.filter fun h => !h.consumed).map .handoff

def HasKey (db : Db) : TicketKey → Prop
  | .nonce nonce => ∃ s ∈ db.oauthStates, s.nonce = nonce
  | .code code => ∃ h ∈ db.handoffs, h.code = code

/-- What the history lists: the deeds on tickets, and the identity rows that were added. -/
inductive Event (π : Type) where
  | deed (entry : Entry π Ticket)
  | linked (row : SocialIdentity)
  deriving DecidableEq, Repr

def Event.deed? : Event π → Option (Entry π Ticket)
  | .deed entry => some entry
  | .linked _ => none

def deeds (log : List (Event π)) : List (Entry π Ticket) := log.filterMap Event.deed?

def newLinks (a b : Db) : List SocialIdentity := b.identities.filter fun i => i ∉ a.identities

def brokerNotes (p : π) (a b : Db) : List (Event π) :=
  (notes p (tickets a) (tickets b)).map .deed ++ (newLinks a b).map .linked

abbrev Store (π : Type) := Db × List (Event π)

/-! ## The chronicle -/

/-- The row that a start mints. -/
def StartReq.row (settings : BrokerSettings) (req : StartReq) (provider : BrokerProvider) :
    OAuthState where
  nonce := req.nonce
  provider := provider.slug
  codeVerifier := req.verifier provider
  appChallenge := req.appChallenge
  expiresAt := req.now + settings.oauthStateTtl

variable (initial : List SocialIdentity)

/-- A row that was there at the start, or was added since, links the identity to the account. -/
def Linked (log : List (Event π)) (identity : VerifiedIdentity) (userId : String) : Prop :=
  ∃ i, (i ∈ initial ∨ .linked i ∈ log) ∧ i.provider = identity.provider ∧
    i.providerSub = identity.sub ∧ i.userId = userId

def accountPayload (userId : String) (appChallenge : Option String) : HandoffPayload where
  kind := some "authenticated"
  userId := some userId
  appChallenge := appChallenge

def identityPayload (identity : VerifiedIdentity) (appChallenge : Option String) :
    HandoffPayload where
  kind := some "provisioning"
  provider := some identity.provider
  providerSub := some identity.sub
  suggestedName := identity.suggestedName
  email := identity.email
  appChallenge := appChallenge

/-- The payload stands for this identity: for the account that it is linked to, or for itself. -/
def StandsFor (log : List (Event π)) (identity : VerifiedIdentity) (appChallenge : Option String)
    (payload : HandoffPayload) : Prop :=
  (∃ userId, Linked initial log identity userId ∧ payload = accountPayload userId appChallenge) ∨
    payload = identityPayload identity appChallenge

/-- The callback `req` of `p` claimed the state `row`, and then minted the handoff of `payload`. -/
structure Relays (p : π) (req : CallbackReq) (row : OAuthState) (handoff : OAuthHandoff)
    (identity : VerifiedIdentity) (payload : HandoffPayload) (log : List (Event π)) : Prop where
  claimed : [Entry.closed p (.state row), .opened p (.handoff handoff)].Sublist (deeds log)
  provider : row.provider = req.slug
  challenged : row.appChallenge.getD "" ≠ ""
  exchanged : req.exchanged = .ok identity
  minted : handoff = ⟨req.handoffCode, some payload, req.createdAt + settings.handoffTtl, false⟩
  stands : StandsFor initial log identity row.appChallenge payload

/-- What minted a ticket. -/
def Issues (r : BrokerRequest) (p : π) (log : List (Event π)) : Ticket → Prop
  | .state row => ∃ req provider, r = .start req ∧ req.provider = some provider ∧
      isValidAppChallenge (req.appChallenge.getD "") = true ∧ row = req.row settings provider
  | .handoff row => ∃ req state identity payload, r = .callback req ∧
      Relays settings initial p req state row identity payload log

/-- What may claim a ticket. -/
def Claims : BrokerRequest → Ticket → Prop
  | .callback req, .state row => req.state.getD "" = row.nonce ∧ req.consumedAt < row.expiresAt
  | .exchange req, .handoff row => req.code = row.code ∧ req.consumedAt < row.expiresAt
  | _, _ => False

variable (reqs : π → BrokerRequest)

structure Chronicle (s : Store π) : Prop where
  balanced : Balanced Ticket.key (tickets s.1) (deeds s.2)
  nonces : (s.1.oauthStates.map (·.nonce)).Nodup
  codes : (s.1.handoffs.map (·.code)).Nodup
  kept : ∀ p t, .opened p t ∈ deeds s.2 → HasKey s.1 t.key
  issued : ∀ p t, .opened p t ∈ deeds s.2 → Issues settings initial (reqs p) p s.2 t
  claimed : ∀ p t, .closed p t ∈ deeds s.2 → Claims (reqs p) t
  links : ∀ i ∈ s.1.identities, i ∈ initial ∨ .linked i ∈ s.2

/-- The history grows. -/
def Advances (s s' : Store π) : Prop := Appends (fun _ => True) s.2 s'.2

def spec : Spec π (Store π) Memory Label where
  inv s _ := Chronicle settings initial reqs s
  rely _ s _ s' _ := Advances s s'
  meets _ _ := True
  rely_refl _ _ _ := Appends.refl _ _
  rely_trans h h' := h.trans h'

/-! ## How tables and ledger move together -/

section
variable {settings initial reqs} {p q : π} {s s' : Store π} {b : Db} {t : Ticket}
  {log more : List (Event π)}

@[simp] theorem deeds_append : deeds (log ++ more) = deeds log ++ deeds more :=
  List.filterMap_append

theorem deeds_deed (entries : List (Entry π Ticket)) : deeds (entries.map .deed) = entries := by
  rw [deeds, List.filterMap_map]
  exact List.filterMap_some

theorem deeds_linked (rows : List SocialIdentity) :
    deeds (rows.map (.linked : SocialIdentity → Event π)) = [] := by
  rw [deeds, List.filterMap_map]
  exact List.filterMap_eq_nil_iff.mpr fun _ _ => rfl

@[simp] theorem deeds_brokerNotes (a b : Db) :
    deeds (brokerNotes p a b) = notes p (tickets a) (tickets b) := by
  rw [brokerNotes, deeds_append, deeds_deed, deeds_linked, List.append_nil]

theorem deeds_sublist (h : Advances s s') : (deeds s.2).Sublist (deeds s'.2) := by
  obtain ⟨more, hmore, _⟩ := h
  rw [hmore, deeds_append]
  exact List.sublist_append_left _ _

theorem StandsFor.advance {identity : VerifiedIdentity} {appChallenge : Option String}
    {payload : HandoffPayload} (h : StandsFor initial s.2 identity appChallenge payload)
    (ha : Advances s s') : StandsFor initial s'.2 identity appChallenge payload := by
  rcases h with ⟨userId, ⟨i, hi, hlink⟩, hpayload⟩ | hpayload
  · exact Or.inl ⟨userId, ⟨i, hi.imp id ha.mem, hlink⟩, hpayload⟩
  · exact Or.inr hpayload

theorem Issues.advance {r : BrokerRequest} (h : Issues settings initial r p s.2 t)
    (ha : Advances s s') : Issues settings initial r p s'.2 t := by
  cases t with
  | state row => exact h
  | handoff row =>
      obtain ⟨req, state, identity, payload, hreq, hrelays⟩ := h
      refine ⟨req, state, identity, payload, hreq, ?_⟩
      constructor
      · exact hrelays.claimed.trans (deeds_sublist ha)
      · exact hrelays.provider
      · exact hrelays.challenged
      · exact hrelays.exchanged
      · exact hrelays.minted
      · exact hrelays.stands.advance ha

theorem advances_noted (b : Db) : Advances s (b, s.2 ++ brokerNotes p s.1 b) :=
  ⟨_, rfl, fun _ _ => trivial⟩

/-- The step lemma: what the new deeds have to show. -/
theorem Chronicle.advance (h : Chronicle settings initial reqs s)
    (hbalanced : Balanced Ticket.key (tickets b) (deeds s.2 ++ notes p (tickets s.1) (tickets b)))
    (hnonces : (b.oauthStates.map (·.nonce)).Nodup) (hcodes : (b.handoffs.map (·.code)).Nodup)
    (hkeys : ∀ k, HasKey s.1 k → HasKey b k)
    (hopened : ∀ q t, .opened q t ∈ notes p (tickets s.1) (tickets b) → HasKey b t.key ∧
      Issues settings initial (reqs q) q (s.2 ++ brokerNotes p s.1 b) t)
    (hclosed : ∀ q t, .closed q t ∈ notes p (tickets s.1) (tickets b) → Claims (reqs q) t) :
    Chronicle settings initial reqs (b, s.2 ++ brokerNotes p s.1 b) := by
  constructor
  · rw [deeds_append, deeds_brokerNotes]
    exact hbalanced
  · exact hnonces
  · exact hcodes
  · intro q t ht
    rw [deeds_append, deeds_brokerNotes] at ht
    rcases List.mem_append.mp ht with hold | hnew
    · exact hkeys _ (h.kept q t hold)
    · exact (hopened q t hnew).1
  · intro q t ht
    rw [deeds_append, deeds_brokerNotes] at ht
    rcases List.mem_append.mp ht with hold | hnew
    · exact (h.issued q t hold).advance (advances_noted b)
    · exact (hopened q t hnew).2
  · intro q t ht
    rw [deeds_append, deeds_brokerNotes] at ht
    rcases List.mem_append.mp ht with hold | hnew
    · exact h.claimed q t hold
    · exact hclosed q t hnew
  · intro i hi
    by_cases hbefore : i ∈ s.1.identities
    · exact (h.links i hbefore).imp id fun hold => List.mem_append_left _ hold
    · right
      apply List.mem_append_right
      apply List.mem_append_right
      apply List.mem_map_of_mem
      exact List.mem_filter.mpr ⟨hi, by simpa using hbefore⟩

/-- Identity rows come and go; the history lists those that came. -/
structure Drifts (s s' : Store π) : Prop where
  tables : Untouched s.1 s'.1
  links : ∃ rows : List SocialIdentity, s'.2 = s.2 ++ rows.map .linked ∧
    ∀ i ∈ s'.1.identities, i ∈ s.1.identities ∨ i ∈ rows

theorem Drifts.refl (s : Store π) : Drifts s s :=
  ⟨⟨rfl, rfl⟩, [], by simp, fun _ hi => Or.inl hi⟩

theorem Drifts.trans {s'' : Store π} (h : Drifts s s') (h' : Drifts s' s'') : Drifts s s'' := by
  obtain ⟨⟨hstates, hhandoffs⟩, rows, hlog, hrows⟩ := h
  obtain ⟨⟨hstates', hhandoffs'⟩, rows', hlog', hrows'⟩ := h'
  refine ⟨⟨hstates'.trans hstates, hhandoffs'.trans hhandoffs⟩, rows ++ rows', ?_, ?_⟩
  · rw [hlog', hlog, List.map_append, List.append_assoc]
  · intro i hi
    rcases hrows' i hi with hmid | hnew
    · exact (hrows i hmid).imp id fun hrow => List.mem_append_left _ hrow
    · exact Or.inr (List.mem_append_right _ hnew)

theorem Drifts.advances (h : Drifts s s') : Advances s s' := by
  obtain ⟨_, rows, hlog, _⟩ := h
  exact ⟨_, hlog, fun _ _ => trivial⟩

/-- A statement that leaves both tables alone. -/
theorem drifts_noted (hb : Untouched s.1 b) : Drifts s (b, s.2 ++ brokerNotes p s.1 b) := by
  have hsame : tickets b = tickets s.1 := by
    rw [tickets, tickets, hb.states, hb.handoffs]
  refine ⟨hb, newLinks s.1 b, ?_, ?_⟩
  · rw [brokerNotes, hsame, notes_same]
    rfl
  · intro i hi
    by_cases hbefore : i ∈ s.1.identities
    · exact Or.inl hbefore
    · exact Or.inr (List.mem_filter.mpr ⟨hi, by simpa using hbefore⟩)

theorem Chronicle.drift (h : Chronicle settings initial reqs s) (hd : Drifts s s') :
    Chronicle settings initial reqs s' := by
  have hadvances := hd.advances
  obtain ⟨⟨hstates, hhandoffs⟩, rows, hlog, hrows⟩ := hd
  have hdeeds : deeds s'.2 = deeds s.2 := by
    rw [hlog, deeds_append, deeds_linked, List.append_nil]
  have hsame : tickets s'.1 = tickets s.1 := by
    rw [tickets, tickets, hstates, hhandoffs]
  constructor
  · rw [hsame, hdeeds]
    exact h.balanced
  · rw [hstates]
    exact h.nonces
  · rw [hhandoffs]
    exact h.codes
  · intro q t ht
    rw [hdeeds] at ht
    have hkey := h.kept q t ht
    cases t with
    | state row =>
        obtain ⟨r, hr, hnonce⟩ := hkey
        exact ⟨r, by rwa [hstates], hnonce⟩
    | handoff row =>
        obtain ⟨r, hr, hcode⟩ := hkey
        exact ⟨r, by rwa [hhandoffs], hcode⟩
  · intro q t ht
    rw [hdeeds] at ht
    exact (h.issued q t ht).advance hadvances
  · intro q t ht
    rw [hdeeds] at ht
    exact h.claimed q t ht
  · intro i hi
    rcases hrows i hi with hbefore | hnew
    · exact (h.links i hbefore).imp id hadvances.mem
    · right
      rw [hlog]
      exact List.mem_append_right _ (List.mem_map_of_mem hnew)

/-- The tickets of a kind are claimed, and no row goes. -/
theorem Chronicle.claim (h : Chronicle settings initial reqs s) {drop : Ticket → Bool}
    (htickets : tickets b = (tickets s.1).filter fun t => !drop t)
    (hnonces : b.oauthStates.map (·.nonce) = s.1.oauthStates.map (·.nonce))
    (hcodes : b.handoffs.map (·.code) = s.1.handoffs.map (·.code))
    (hclaims : ∀ t ∈ tickets s.1, drop t = true → Claims (reqs p) t) :
    Chronicle settings initial reqs (b, s.2 ++ brokerNotes p s.1 b) := by
  have hnotes : notes p (tickets s.1) (tickets b) =
      ((tickets s.1).filter drop).map (Entry.closed p) := by
    rw [htickets]
    exact notes_filter p _ drop
  apply h.advance
  · rw [hnotes, htickets]
    exact h.balanced.close drop p
  · rw [hnonces]
    exact h.nonces
  · rw [hcodes]
    exact h.codes
  · intro k hk
    cases k with
    | nonce nonce =>
        obtain ⟨row, hrow, rfl⟩ := hk
        have hmem := List.mem_map_of_mem (f := fun s : OAuthState => s.nonce) hrow
        rw [← hnonces] at hmem
        exact List.mem_map.mp hmem
    | code code =>
        obtain ⟨row, hrow, rfl⟩ := hk
        have hmem := List.mem_map_of_mem (f := fun h : OAuthHandoff => h.code) hrow
        rw [← hcodes] at hmem
        exact List.mem_map.mp hmem
  · rw [hnotes]
    intro q t ht
    obtain ⟨_, _, heq⟩ := List.mem_map.mp ht
    cases heq
  · rw [hnotes]
    intro q t ht
    obtain ⟨t', ht', heq⟩ := List.mem_map.mp ht
    cases heq
    obtain ⟨hmem, hdrop⟩ := List.mem_filter.mp ht'
    exact hclaims t hmem hdrop

/-- A ticket with a new key is minted. -/
theorem Chronicle.mint (h : Chronicle settings initial reqs s) (p : π) (t : Ticket)
    (pre post : List Ticket) (b : Db) (hbefore : tickets s.1 = pre ++ post)
    (hafter : tickets b = pre ++ t :: post)
    (hnonces : (b.oauthStates.map (·.nonce)).Nodup) (hcodes : (b.handoffs.map (·.code)).Nodup)
    (hkeys : ∀ k, HasKey b k ↔ HasKey s.1 k ∨ k = t.key) (hnew : ¬HasKey s.1 t.key)
    (hissues : deeds (s.2 ++ brokerNotes p s.1 b) = deeds s.2 ++ [.opened p t] →
      Issues settings initial (reqs p) p (s.2 ++ brokerNotes p s.1 b) t) :
    Chronicle settings initial reqs (b, s.2 ++ brokerNotes p s.1 b) := by
  have hfresh : ∀ q t', .opened q t' ∈ deeds s.2 → t'.key ≠ t.key := by
    intro q t' ht' hsame
    apply hnew
    rw [← hsame]
    exact h.kept q t' ht'
  have hnotmem : t ∉ pre ++ post := by
    intro hmem
    rw [← hbefore] at hmem
    obtain ⟨⟨q, hq⟩, _⟩ := (h.balanced.live t).mp hmem
    exact hfresh q t hq rfl
  have hnotes : notes p (tickets s.1) (tickets b) = [.opened p t] := by
    rw [hbefore, hafter]
    exact notes_insert p hnotmem
  apply h.advance _ hnonces hcodes
  · exact fun k hk => (hkeys k).mpr (Or.inl hk)
  · rw [hnotes]
    intro q t' ht'
    cases List.mem_singleton.mp ht'
    refine ⟨(hkeys _).mpr (Or.inr rfl), hissues ?_⟩
    rw [deeds_append, deeds_brokerNotes, hnotes]
  · rw [hnotes]
    intro q t' ht'
    cases List.mem_singleton.mp ht'
  · rw [hnotes, hafter]
    have hopen := h.balanced.open p hfresh
    apply hopen.perm
    rw [hbefore, List.append_assoc]
    exact List.Perm.append_left pre (List.perm_append_singleton t post)

/-! ### Claiming -/

def claimsState (nonce : String) (now : Time) : Ticket → Bool
  | .state row => stateWhere nonce now row
  | .handoff _ => false

def claimsHandoff (code : String) (now : Time) : Ticket → Bool
  | .state _ => false
  | .handoff row => handoffWhere code now row

/-- Marking the matching rows leaves the others unmarked. -/
theorem unspent_map {α : Type} (spent w : α → Bool) (spend : α → α) (rows : List α)
    (hspend : ∀ r, spent (spend r) = true) :
    (rows.map fun r => if w r then spend r else r).filter (fun r => !spent r) =
      (rows.filter fun r => !spent r).filter fun r => !w r := by
  induction rows with
  | nil => rfl
  | cons r rows ih =>
      rw [List.map_cons, List.filter_cons, List.filter_cons, ih]
      by_cases hw : w r = true
      · cases hspent : spent r <;> simp [hw, hspend]
      · cases hspent : spent r <;> simp [hw, hspent]

theorem tickets_burnState (nonce : String) (now : Time) (db : Db) :
    tickets (burnState nonce now db) = (tickets db).filter fun t => !claimsState nonce now t := by
  have hstates := unspent_map (fun s : OAuthState => s.consumed) (stateWhere nonce now)
    (fun s => { s with consumed := true }) db.oauthStates fun _ => rfl
  have hhandoffs : ((db.handoffs.filter fun h => !h.consumed).map Ticket.handoff).filter
      (fun t => !claimsState nonce now t) =
        (db.handoffs.filter fun h => !h.consumed).map Ticket.handoff := by
    rw [List.filter_eq_self]
    intro t ht
    obtain ⟨_, _, rfl⟩ := List.mem_map.mp ht
    rfl
  rw [tickets, tickets, List.filter_append, hhandoffs, List.filter_map]
  exact congrArg (fun rows => rows.map Ticket.state ++ _) hstates

theorem tickets_burnHandoff (code : String) (now : Time) (db : Db) :
    tickets (burnHandoff code now db) =
      (tickets db).filter fun t => !claimsHandoff code now t := by
  have hhandoffs := unspent_map (fun h : OAuthHandoff => h.consumed) (handoffWhere code now)
    (fun h => { h with consumed := true }) db.handoffs fun _ => rfl
  have hstates : ((db.oauthStates.filter fun s => !s.consumed).map Ticket.state).filter
      (fun t => !claimsHandoff code now t) =
        (db.oauthStates.filter fun s => !s.consumed).map Ticket.state := by
    rw [List.filter_eq_self]
    intro t ht
    obtain ⟨_, _, rfl⟩ := List.mem_map.mp ht
    rfl
  rw [tickets, tickets, List.filter_append, hstates, List.filter_map]
  exact congrArg (fun rows => _ ++ rows.map Ticket.handoff) hhandoffs

/-- Marking rows keeps their keys. -/
theorem map_key_burn {α κ : Type} (w : α → Bool) (spend : α → α) (key : α → κ)
    (hkey : ∀ r, key (spend r) = key r) (rows : List α) :
    (rows.map fun r => if w r then spend r else r).map key = rows.map key := by
  rw [List.map_map]
  apply List.map_congr_left
  intro r _
  simp only [Function.comp]
  split_ifs
  · exact hkey r
  · rfl

/-- Of rows with distinct keys, the marked one is what a lookup finds afterwards. -/
theorem find_burn {α κ : Type} [DecidableEq κ] {w : α → Bool} (spend : α → α) (key : α → κ)
    {k : κ} {rows : List α} (hd : (rows.map key).Nodup) (hkey : ∀ r, key (spend r) = key r)
    (hw : ∀ r, w r = true → key r = k) (hone : (rows.filter w).length = 1) :
    ∃ r ∈ rows, w r = true ∧
      (rows.map fun r => if w r then spend r else r).find? (fun r => key r = k) =
        some (spend r) := by
  obtain ⟨r, hfilter⟩ := List.length_eq_one_iff.mp hone
  obtain ⟨hmem, hr⟩ := List.mem_filter.mp (hfilter ▸ List.mem_singleton_self r)
  refine ⟨r, hmem, hr, ?_⟩
  have hmarked : spend r ∈ rows.map fun r => if w r then spend r else r := by
    refine List.mem_map.mpr ⟨r, hmem, ?_⟩
    rw [if_pos hr]
  have hnodup : ((rows.map fun r => if w r then spend r else r).map key).Nodup := by
    rw [map_key_burn w spend key hkey]
    exact hd
  cases hfind : (rows.map fun r => if w r then spend r else r).find? (fun r => key r = k) with
  | none =>
      have hno := List.find?_eq_none.mp hfind _ hmarked
      simp [hkey, hw r hr] at hno
  | some r' =>
      have hr' := List.mem_of_find?_eq_some hfind
      have hk : key r' = k := by simpa using List.find?_some hfind
      have hsame : key r' = key (spend r) := by rw [hk, hkey, hw r hr]
      rw [List.inj_on_of_nodup_map hnodup hr' hmarked hsame]

theorem mem_tickets_state {db : Db} {row : OAuthState} :
    .state row ∈ tickets db ↔ row ∈ db.oauthStates ∧ row.consumed = false := by
  simp [tickets]

theorem mem_tickets_handoff {db : Db} {row : OAuthHandoff} :
    .handoff row ∈ tickets db ↔ row ∈ db.handoffs ∧ row.consumed = false := by
  simp [tickets]

/-- A callback claims a state: what it reads of the row is the row that it has claimed. -/
theorem chronicle_burnState (h : Chronicle settings initial reqs s) {req : CallbackReq}
    (hreq : reqs p = .callback req) :
    let b := burnState (req.state.getD "") req.consumedAt s.1
    Chronicle settings initial reqs (b, s.2 ++ brokerNotes p s.1 b) ∧
      ((s.1.oauthStates.filter (stateWhere (req.state.getD "") req.consumedAt)).length = 1 →
        ∃ row, .closed p (.state row) ∈ deeds (s.2 ++ brokerNotes p s.1 b) ∧
          b.oauthStates.find? (fun st => st.nonce = req.state.getD "") =
            some { row with consumed := true }) := by
  intro b
  have htickets := tickets_burnState (req.state.getD "") req.consumedAt s.1
  have hwhere : ∀ row, stateWhere (req.state.getD "") req.consumedAt row = true →
      row.nonce = req.state.getD "" ∧ row.consumed = false ∧ req.consumedAt < row.expiresAt := by
    intro row hrow
    simp only [stateWhere, Bool.and_eq_true, decide_eq_true_eq, Bool.not_eq_true'] at hrow
    exact ⟨hrow.1.1, hrow.1.2, hrow.2⟩
  constructor
  · apply h.claim htickets
    · exact map_key_burn (stateWhere (req.state.getD "") req.consumedAt)
        (fun st => { st with consumed := true }) (·.nonce) (fun _ => rfl) s.1.oauthStates
    · rfl
    · intro t _ hdrop
      cases t with
      | handoff row => cases hdrop
      | state row =>
          obtain ⟨hnonce, _, hexpires⟩ := hwhere row hdrop
          rw [hreq]
          exact ⟨hnonce.symm, hexpires⟩
  · intro hone
    obtain ⟨row, hmem, hrow, hfind⟩ := find_burn (fun st => { st with consumed := true })
      (fun st : OAuthState => st.nonce) h.nonces (fun _ => rfl)
      (fun r hr => (hwhere r hr).1) hone
    refine ⟨row, ?_, hfind⟩
    rw [deeds_append, deeds_brokerNotes]
    change _ ∈ deeds s.2 ++ notes p (tickets s.1) (tickets (burnState _ _ s.1))
    rw [htickets, notes_filter]
    apply List.mem_append_right
    apply List.mem_map_of_mem
    exact List.mem_filter.mpr ⟨mem_tickets_state.mpr ⟨hmem, (hwhere row hrow).2.1⟩, hrow⟩

/-- An exchange claims a handoff. -/
theorem chronicle_burnHandoff (h : Chronicle settings initial reqs s) {req : ExchangeReq}
    (hreq : reqs p = .exchange req) :
    let b := burnHandoff req.code req.consumedAt s.1
    Chronicle settings initial reqs (b, s.2 ++ brokerNotes p s.1 b) ∧
      ((s.1.handoffs.filter (handoffWhere req.code req.consumedAt)).length = 1 →
        ∃ row, .closed p (.handoff row) ∈ deeds (s.2 ++ brokerNotes p s.1 b) ∧
          b.handoffs.find? (fun h => h.code = req.code) = some { row with consumed := true }) := by
  intro b
  have htickets := tickets_burnHandoff req.code req.consumedAt s.1
  have hwhere : ∀ row, handoffWhere req.code req.consumedAt row = true →
      row.code = req.code ∧ row.consumed = false ∧ req.consumedAt < row.expiresAt := by
    intro row hrow
    simp only [handoffWhere, Bool.and_eq_true, decide_eq_true_eq, Bool.not_eq_true'] at hrow
    exact ⟨hrow.1.1, hrow.1.2, hrow.2⟩
  constructor
  · apply h.claim htickets
    · rfl
    · exact map_key_burn (handoffWhere req.code req.consumedAt)
        (fun h => { h with consumed := true }) (·.code) (fun _ => rfl) s.1.handoffs
    · intro t _ hdrop
      cases t with
      | state row => cases hdrop
      | handoff row =>
          obtain ⟨hcode, _, hexpires⟩ := hwhere row hdrop
          rw [hreq]
          exact ⟨hcode.symm, hexpires⟩
  · intro hone
    obtain ⟨row, hmem, hrow, hfind⟩ := find_burn (fun h => { h with consumed := true })
      (fun h : OAuthHandoff => h.code) h.codes (fun _ => rfl)
      (fun r hr => (hwhere r hr).1) hone
    refine ⟨row, ?_, hfind⟩
    rw [deeds_append, deeds_brokerNotes]
    change _ ∈ deeds s.2 ++ notes p (tickets s.1) (tickets (burnHandoff _ _ s.1))
    rw [htickets, notes_filter]
    apply List.mem_append_right
    apply List.mem_map_of_mem
    exact List.mem_filter.mpr ⟨mem_tickets_handoff.mpr ⟨hmem, (hwhere row hrow).2.1⟩, hrow⟩

/-! ### Minting -/

theorem chronicle_insertState (h : Chronicle settings initial reqs s) {row : OAuthState}
    (hinsert : s.1.insertOAuthState row = some b) (hunspent : row.consumed = false)
    (hissues : deeds (s.2 ++ brokerNotes p s.1 b) = deeds s.2 ++ [.opened p (.state row)] →
      Issues settings initial (reqs p) p (s.2 ++ brokerNotes p s.1 b) (.state row)) :
    Chronicle settings initial reqs (b, s.2 ++ brokerNotes p s.1 b) := by
  obtain ⟨hnew, rfl⟩ := Db.insertOAuthState_eq_some.mp hinsert
  have hmint := h.mint p (.state row)
    ((s.1.oauthStates.filter fun st => !st.consumed).map .state)
    ((s.1.handoffs.filter fun h => !h.consumed).map .handoff)
    { s.1 with oauthStates := s.1.oauthStates ++ [row] } rfl
  refine hmint ?_ ?_ h.codes ?_ ?_ hissues
  · simp [tickets, List.filter_append, hunspent]
  · rw [List.map_append, List.nodup_append]
    refine ⟨h.nonces, List.nodup_singleton _, ?_⟩
    intro n hn n' hn'
    obtain ⟨r, hr, rfl⟩ := List.mem_map.mp hn
    rw [List.map_singleton, List.mem_singleton] at hn'
    rw [hn']
    exact hnew r hr
  · intro k
    cases k with
    | nonce nonce => simp [HasKey, Ticket.key, or_and_right, exists_or, eq_comm]
    | code code => simp [HasKey, Ticket.key]
  · intro hkey
    obtain ⟨r, hr, hnonce⟩ := hkey
    exact hnew r hr hnonce

theorem chronicle_insertHandoff (h : Chronicle settings initial reqs s) {row : OAuthHandoff}
    (hinsert : s.1.insertHandoff row = some b) (hunspent : row.consumed = false)
    (hissues : deeds (s.2 ++ brokerNotes p s.1 b) = deeds s.2 ++ [.opened p (.handoff row)] →
      Issues settings initial (reqs p) p (s.2 ++ brokerNotes p s.1 b) (.handoff row)) :
    Chronicle settings initial reqs (b, s.2 ++ brokerNotes p s.1 b) := by
  obtain ⟨hnew, rfl⟩ := Db.insertHandoff_eq_some.mp hinsert
  have hmint := h.mint p (.handoff row)
    ((s.1.oauthStates.filter fun st => !st.consumed).map .state ++
      (s.1.handoffs.filter fun h => !h.consumed).map .handoff) []
    { s.1 with handoffs := s.1.handoffs ++ [row] } (by rw [List.append_nil]; rfl)
  refine hmint ?_ h.nonces ?_ ?_ ?_ hissues
  · simp [tickets, List.filter_append, hunspent]
  · rw [List.map_append, List.nodup_append]
    refine ⟨h.codes, List.nodup_singleton _, ?_⟩
    intro n hn n' hn'
    obtain ⟨r, hr, rfl⟩ := List.mem_map.mp hn
    rw [List.map_singleton, List.mem_singleton] at hn'
    rw [hn']
    exact hnew r hr
  · intro k
    cases k with
    | nonce nonce => simp [HasKey, Ticket.key]
    | code code => simp [HasKey, Ticket.key, or_and_right, exists_or, eq_comm]
  · intro hkey
    obtain ⟨r, hr, hcode⟩ := hkey
    exact hnew r hr hcode

end

/-! ## What each request publishes -/

/-- The outcome that a redeemed handoff calls for. -/
def Matches : Redeemed → Outcome → Prop
  | .authenticated userId, outcome => ∃ user, user.id = userId ∧ Passkeys.isBanned user = false ∧
      outcome = .session (tokens user) (some (userView user))
  | .provisioning p, outcome => outcome = .provisioning p

/-- What a request owes to its answer: an exchange that answers has claimed the handoff. -/
def Answered (lib : AuthLib) (p : π) :
    BrokerRequest → Option (Store π × Store π) → Except Exn Answer → Prop
  | .exchange req, some ab, .ok (.outcome outcome) => ∃ handoff payload redeemed,
      .closed p (.handoff handoff) ∈ deeds ab.2.2 ∧ handoff.payload = some payload ∧
        checkPayload lib req.appVerifier payload = some redeemed ∧ Matches redeemed outcome
  | .exchange _, _, .ok _ => False
  | _, _, _ => True

section
variable {settings lib initial reqs} {p : π} {s s' : Store π} {b : Db}
  {x y : Point (Store π) Memory} {past : List (Store π × Store π)}

theorem allows_of_chronicle (ha : Advances y.db s') (hc : Chronicle settings initial reqs s') :
    (spec settings initial reqs).Allows p y { y with db := s' } := by
  constructor
  · exact hc
  · exact fun q _ => ha

theorem owed_error {r : BrokerRequest} (e : Exn) : Owed (Answered lib p r) past (.error e) := by
  constructor
  · intro _
    cases r <;> trivial
  · intro ab _
    cases r <;> trivial

theorem publishes_body {α : Type} {route : Body α} {f : α → Answer} {r : BrokerRequest}
    (h : Publishes (spec settings initial reqs) p Advances
      (fun ab res => Answered lib p r ab (res.map f)) past (noting (brokerNotes p) route) x) :
    Publishes (spec settings initial reqs) p Advances (Answered lib p r) past
      (noting (brokerNotes p) ((route >>= fun a => pure (f a)).session)) x := by
  rw [noting_session]
  apply Publishes.session
  rw [noting_bind]
  exact Publishes.map h

/-! ### Bystanders -/

theorem respects_bystander : Respects (spec settings initial reqs) p (fun _ _ => True) Drifts
    (fun _ f' => ∃ f, (∀ a b, f a = some b → Untouched a b) ∧ f' = noted (brokerNotes p) f)
    (fun _ _ => True) where
  refl := Drifts.refl
  trans := Drifts.trans
  stable _ _ := trivial
  write t f' z s hf _ _ _ _ hs := by
    obtain ⟨f, hspares, rfl⟩ := hf
    obtain ⟨hwrite, hlog⟩ := noted_eq_some.mp hs
    have hs : s = (s.1, z.view.2 ++ brokerNotes p z.view.1 s.1) := Prod.ext rfl hlog
    rw [hs]
    exact drifts_noted (hspares _ _ hwrite)
  segment t g z _ hz _ _ := ⟨⟨hz, fun _ _ => Appends.refl _ _⟩, trivial⟩
  commit db mem s hdb _ hs := ⟨⟨hdb.drift hs, fun _ _ => hs.advances⟩, trivial⟩

theorem publishes_other (bystander : Bystander) (hx : x.work = none) :
    Publishes (spec settings initial reqs) p Advances (Answered lib p (.other bystander)) past
      (noting (brokerNotes p) ((BrokerRequest.other bystander).body settings lib)) x := by
  apply publishes_body
  have hview : Drifts x.db x.view := by
    rw [Point.view_of_none hx]
    exact Drifts.refl _
  apply (of_respects respects_bystander ((uses_noting bystander.spares).mono (fun _ _ hw => hw)
    fun _ _ _ => trivial) hview).mono
  · exact fun a b hab => hab.advances
  · intro ab res _
    cases ab <;> trivial

/-! ### Start -/

/-- A row is flushed and committed, or the flush is refused. -/
theorem publishes_inserting {α : Type} {N : Option (Store π × Store π) → Except Exn α → Prop}
    {f : Db → Option Db} {a : α} (hx : x.work = none)
    (hchronicle : ∀ y b, (spec settings initial reqs).Env p x y → f y.db.1 = some b →
      Chronicle settings initial reqs (b, y.db.2 ++ brokerNotes p y.db.1 b))
    (hraise : ∀ e, Owed N past (.error e)) (hok : ∀ ab, Owed N (ab :: past) (.ok a)) :
    Publishes (spec settings initial reqs) p Advances N past
      (noting (brokerNotes p)
        (flushOrRaise f .plain >>= fun _ => commit >>= fun _ => pure a)) x := by
  apply publishes_transaction hx
  · exact ⟨_, _, _, _, rfl⟩
  · intro y hy
    cases hinsert : f y.db.1 with
    | none =>
        rw [settle_flushOrRaise_none hinsert]
        apply Yields.of_lost _ hraise
        trivial
    | some b =>
        have hassoc : flushOrRaise f .plain >>= (fun _ => commit >>= fun _ => (pure a : Body α)) =
            Request.attempt false .plain f >>= _ := Request.bind_assoc _ _ _
        have htrail : trail (brokerNotes p) (flushOrRaise f .plain >>= fun _ =>
            commit >>= fun _ => (pure a : Body α)) y.db.1 = brokerNotes p y.db.1 b := by
          rw [hassoc, trail_attempt_some hinsert]
          exact List.append_nil _
        rw [settle_flushOrRaise_some hinsert, htrail]
        have hc := hchronicle y b hy hinsert
        have ha : Advances y.db (b, y.db.2 ++ brokerNotes p y.db.1 b) := advances_noted b
        exact ⟨ha, allows_of_chronicle ha hc, fun z _ _ => hok _⟩

theorem publishes_start (req : StartReq) (hreq : reqs p = .start req) (hx : x.work = none) :
    Publishes (spec settings initial reqs) p Advances (Answered lib p (.start req)) past
      (noting (brokerNotes p) ((BrokerRequest.start req).body settings lib)) x := by
  have hraise : ∀ past e, Owed (fun ab res => Answered lib p (.start req) ab
      (Except.map Answer.redirect res)) past (.error e) :=
    fun _ _ => ⟨fun _ => trivial, fun _ _ => trivial⟩
  apply publishes_body
  unfold oauthStart
  by_cases hsocial : (!settings.socialSigninEnabled) = true
  · rw [if_pos hsocial]
    exact hraise past _
  rw [if_neg hsocial]
  cases hprovider : req.provider with
  | none => exact hraise past _
  | some provider =>
      dsimp only
      by_cases hmalformed :
          (req.appChallenge.getD "" = "" || !isValidAppChallenge (req.appChallenge.getD "")) = true
      · rw [if_pos hmalformed]
        exact hraise past _
      · rw [if_neg hmalformed]
        simp only [Bool.or_eq_true, decide_eq_true_eq, Bool.not_eq_true', not_or,
          Bool.not_eq_false] at hmalformed
        have hassoc : (createState req.nonce provider.slug (req.verifier provider)
            req.appChallenge req.now settings.oauthStateTtl >>= fun nonce =>
              (pure (buildAuthorizeUrl settings provider nonce
                ((req.verifier provider).map lib.appChallengeFor)) : Body AuthorizeUrl)) =
            (flushOrRaise (fun db => db.insertOAuthState (req.row settings provider)) .plain >>=
              fun _ => commit >>= fun _ => pure (buildAuthorizeUrl settings provider req.nonce
                ((req.verifier provider).map lib.appChallengeFor))) := Request.bind_assoc _ _ _
        rw [hassoc]
        apply publishes_inserting hx
        · intro y b hy hinsert
          apply chronicle_insertState hy.inv hinsert rfl
          intro _
          rw [hreq]
          exact ⟨req, provider, rfl, hprovider, hmalformed.2, rfl⟩
        · exact hraise past
        · exact fun ab => ⟨fun _ => trivial, fun _ _ => trivial⟩

/-! ### Callback -/

theorem mint_eq (user : User) : mint user = if Passkeys.isBanned user then
    throwExn accountSuspended else pure (.session (tokens user) (some (userView user))) := by
  unfold mint denyIfBanned
  split_ifs <;> rfl

/-- A claim is one UPDATE, whose row count decides whether the row is read, and one commit. -/
theorem settle_claim {α β ℓ : Type} (note : Db → Db → List ℓ) (burn : Db → Db)
    (rowcount : Db → ℕ) (q : Db → Option β) (k : Option β → Body α) (a : Db) :
    let claim : Body (Option β) := do
      let n ← execute burn rowcount .plain
      if n ≠ 1 then
        commit
        return none
      else
        let row ← select q
        commit
        return row
    ∃ row, (claim >>= k).settle a = .committed .plain (burn a) (k row) ∧
      trail note (claim >>= k) a = note a (burn a) ∧
      ∀ b, row = some b → rowcount a = 1 ∧ q (burn a) = some b := by
  intro claim
  have hassoc : claim >>= k = Request.exec .plain burn rowcount >>= _ := Request.bind_assoc _ _ _
  rw [hassoc, settle_exec, trail_exec]
  by_cases hone : rowcount a ≠ 1
  · refine ⟨none, ?_, ?_, fun b hb => by cases hb⟩
    · rw [if_pos hone]
      rfl
    · rw [if_pos hone]
      exact List.append_nil _
  · refine ⟨q (burn a), ?_, ?_, fun b hb => ⟨not_not.mp hone, hb⟩⟩
    · rw [if_neg hone]
      rfl
    · rw [if_neg hone]
      exact List.append_nil _

theorem settle_consumeState {α ℓ : Type} (note : Db → Db → List ℓ) (nonce : String) (now : Time)
    (k : Option OAuthState → Body α) (a : Db) : ∃ row,
      (consumeState nonce now >>= k).settle a =
        .committed .plain (burnState nonce now a) (k row) ∧
      trail note (consumeState nonce now >>= k) a = note a (burnState nonce now a) ∧
      ∀ st, row = some st → (a.oauthStates.filter (stateWhere nonce now)).length = 1 ∧
        (burnState nonce now a).oauthStates.find? (fun st => st.nonce = nonce) = some st :=
  settle_claim note (burnState nonce now) _ _ k a

theorem publishes_consumeState {α : Type}
    {N : Option (Store π × Store π) → Except Exn α → Prop} {k : Option OAuthState → Body α}
    {req : CallbackReq} (hreq : reqs p = .callback req) (hx : x.work = none)
    (h : ∀ ab row z, z.work = none → (∀ st, row = some st → ∃ unspent,
      .closed p (.state unspent) ∈ deeds z.db.2 ∧ st = { unspent with consumed := true }) →
        Publishes (spec settings initial reqs) p Advances N (ab :: past)
          (noting (brokerNotes p) (k row)) z) :
    Publishes (spec settings initial reqs) p Advances N past
      (noting (brokerNotes p) (consumeState (req.state.getD "") req.consumedAt >>= k)) x := by
  apply publishes_transaction hx
  · exact ⟨_, _, _, _, rfl⟩
  · intro y hy
    obtain ⟨row, hsettle, htrail, hrow⟩ :=
      settle_consumeState (brokerNotes p) (req.state.getD "") req.consumedAt k y.db.1
    obtain ⟨hc, hclaimed⟩ := chronicle_burnState hy.inv hreq
    rw [hsettle, htrail]
    have ha : Advances y.db (burnState (req.state.getD "") req.consumedAt y.db.1, y.db.2 ++
        brokerNotes p y.db.1 (burnState (req.state.getD "") req.consumedAt y.db.1)) :=
      advances_noted _
    refine ⟨ha, allows_of_chronicle ha hc, ?_⟩
    intro z hz hfree
    apply h _ row z hfree
    intro st hst
    obtain ⟨hone, hfind⟩ := hrow st hst
    obtain ⟨unspent, hclosed, hfound⟩ := hclaimed hone
    rw [hz]
    exact ⟨unspent, hclosed, Option.some.inj (hfind.symm.trans hfound)⟩

section
variable {req : CallbackReq} {unspent : OAuthState} {identity : VerifiedIdentity}

theorem publishes_handOff {outcome : Outcome} (hreq : reqs p = .callback req)
    (hclosed : .closed p (.state unspent) ∈ deeds x.db.2) (hprovider : unspent.provider = req.slug)
    (hchallenged : unspent.appChallenge.getD "" ≠ "") (hexchanged : req.exchanged = .ok identity)
    (hstands : StandsFor initial x.db.2 identity unspent.appChallenge
      (handoffPayload identity unspent.appChallenge outcome)) (hx : x.work = none) :
    Publishes (spec settings initial reqs) p Advances
      (fun ab res => Answered lib p (.callback req) ab (Except.map Answer.outcome res)) past
      (noting (brokerNotes p)
        (handOff settings.toAuthSettings req identity unspent.appChallenge outcome)) x := by
  have hassoc : handOff settings.toAuthSettings req identity unspent.appChallenge outcome =
      flushOrRaise (fun db => db.insertHandoff ⟨req.handoffCode,
        some (handoffPayload identity unspent.appChallenge outcome),
        req.createdAt + settings.handoffTtl, false⟩) .plain >>=
          fun _ => commit >>= fun _ => pure (.redirect (.ok req.handoffCode)) :=
    Request.bind_assoc _ _ _
  rw [hassoc]
  apply publishes_inserting hx
  · intro y b hy hinsert
    have ha : Advances x.db y.db := hy.rely
    apply chronicle_insertHandoff hy.inv hinsert rfl
    intro hdeeds
    rw [hreq]
    refine ⟨req, unspent, identity, handoffPayload identity unspent.appChallenge outcome, rfl, ?_⟩
    constructor
    · rw [hdeeds]
      have hbefore : .closed p (.state unspent) ∈ deeds y.db.2 :=
        (deeds_sublist ha).subset hclosed
      exact (List.singleton_sublist.mpr hbefore).append (List.Sublist.refl _)
    · exact hprovider
    · exact hchallenged
    · exact hexchanged
    · rfl
    · exact (hstands.advance ha).advance (advances_noted b)
  · exact fun e => ⟨fun _ => trivial, fun _ _ => trivial⟩
  · exact fun ab => ⟨fun _ => trivial, fun _ _ => trivial⟩

/-- The identity is looked up, and its account or the identity itself is put into a handoff. -/
theorem publishes_relay (hreq : reqs p = .callback req)
    (hclosed : .closed p (.state unspent) ∈ deeds x.db.2) (hprovider : unspent.provider = req.slug)
    (hchallenged : unspent.appChallenge.getD "" ≠ "") (hexchanged : req.exchanged = .ok identity)
    (hx : x.work = none) :
    Publishes (spec settings initial reqs) p Advances
      (fun ab res => Answered lib p (.callback req) ab (Except.map Answer.outcome res)) past
      (noting (brokerNotes p) (resolveIdentity identity >>= fun outcome =>
        handOff settings.toAuthSettings req identity unspent.appChallenge outcome)) x := by
  intro y hy
  have hay : Advances x.db y.db := hy.rely
  have hclosed' := (deeds_sublist hay).subset hclosed
  beta_reduce
  rw [Point.view_of_none (hy.free hx)]
  cases hfound : identityRow identity.provider identity.sub y.db.1 with
  | none =>
      exact publishes_handOff hreq hclosed' hprovider hchallenged hexchanged
        (Or.inr rfl) (hy.free hx)
  | some i =>
      have hi : i ∈ y.db.1.identities := List.mem_of_find?_eq_some hfound
      have hkey : i.provider = identity.provider ∧ i.providerSub = identity.sub := by
        simpa using List.find?_some hfound
      have hc : Chronicle settings initial reqs y.db := hy.inv
      intro z hz
      have haz : Advances y.db z.db := hz.rely
      have hclosed'' := (deeds_sublist haz).subset hclosed'
      beta_reduce
      cases huser : z.view.1.userById i.userId with
      | none =>
          exact publishes_handOff hreq hclosed'' hprovider hchallenged hexchanged
            (Or.inr rfl) (hz.free (hy.free hx))
      | some user =>
          change Publishes _ _ _ _ _ (noting _ (mint user >>= fun outcome =>
            handOff settings.toAuthSettings req identity unspent.appChallenge outcome)) z
          rw [mint_eq]
          by_cases hbanned : Passkeys.isBanned user = true
          · rw [if_pos hbanned]
            exact ⟨fun _ => trivial, fun _ _ => trivial⟩
          · rw [if_neg hbanned]
            apply publishes_handOff hreq hclosed'' hprovider hchallenged hexchanged _
              (hz.free (hy.free hx))
            left
            refine ⟨i.userId, ?_, ?_⟩
            · refine ⟨i, ?_, hkey.1, hkey.2, rfl⟩
              exact (hc.links i hi).imp id haz.mem
            · rw [← (Db.mem_of_userById huser).2]
              rfl

theorem publishes_callback (hreq : reqs p = .callback req) (hx : x.work = none) :
    Publishes (spec settings initial reqs) p Advances (Answered lib p (.callback req)) past
      (noting (brokerNotes p) ((BrokerRequest.callback req).body settings lib)) x := by
  have hok : ∀ past outcome, Owed (fun ab res => Answered lib p (.callback req) ab
      (Except.map Answer.outcome res)) past (.ok outcome) :=
    fun _ _ => ⟨fun _ => trivial, fun _ _ => trivial⟩
  have hraise : ∀ past e, Owed (fun ab res => Answered lib p (.callback req) ab
      (Except.map Answer.outcome res)) past (.error e) :=
    fun _ _ => ⟨fun _ => trivial, fun _ _ => trivial⟩
  apply publishes_body
  unfold oauthCallback
  by_cases hsocial : (!settings.socialSigninEnabled) = true
  · rw [if_pos hsocial]
    exact hraise past _
  rw [if_neg hsocial]
  by_cases hconfigured : (!req.configured) = true
  · rw [if_pos hconfigured]
    exact hraise past _
  rw [if_neg hconfigured]
  by_cases herror : req.error.getD "" ≠ ""
  · rw [if_pos herror]
    exact hok past _
  rw [if_neg herror]
  by_cases hmissing : (req.code.getD "" = "" || req.state.getD "" = "") = true
  · rw [if_pos hmissing]
    exact hok past _
  rw [if_neg hmissing]
  apply publishes_consumeState hreq hx
  intro ab row z hfree hrow
  cases row with
  | none => exact hok _ _
  | some st =>
      obtain ⟨unspent, hclosed, rfl⟩ := hrow st rfl
      dsimp only
      by_cases hprovider : unspent.provider ≠ req.slug
      · rw [if_pos hprovider]
        exact hok _ _
      rw [if_neg hprovider]
      by_cases hunbound : unspent.appChallenge.getD "" = ""
      · rw [if_pos hunbound]
        exact hok _ _
      rw [if_neg hunbound]
      cases hexchanged : req.exchanged with
      | error e => exact hok _ _
      | ok identity =>
          exact publishes_relay hreq hclosed (not_not.mp hprovider) hunbound hexchanged hfree

end

/-! ### Exchange -/

/-- What follows the claim of a handoff. -/
def redeemed (lib : AuthLib) (req : ExchangeReq) : Option HandoffPayload → Body Outcome
  | none => throwExn invalidHandoff
  | some payload =>
      match checkPayload lib req.appVerifier payload with
      | none => throwExn invalidHandoff
      | some (.authenticated userId) => do
          let user ← select fun db => db.userById userId
          exchangeOutcome user
      | some (.provisioning p) => return .provisioning p

theorem oauthExchange_eq {settings : AuthSettings} (lib : AuthLib) (req : ExchangeReq)
    (h : ¬(!settings.socialSigninEnabled) = true) :
    oauthExchange settings lib req =
      consumeHandoff req.code req.consumedAt >>= redeemed lib req := by
  unfold oauthExchange redeemHandoff
  rw [if_neg h]
  refine (Request.bind_assoc _ _ _).trans ?_
  apply congrArg (Request.bind _)
  funext row
  cases row with
  | none => rfl
  | some payload =>
      dsimp only [redeemed]
      cases checkPayload lib req.appVerifier payload with
      | none => rfl
      | some redeemed => cases redeemed <;> rfl

theorem settle_consumeHandoff {α ℓ : Type} (note : Db → Db → List ℓ) (code : String) (now : Time)
    (k : Option HandoffPayload → Body α) (a : Db) : ∃ found,
      (consumeHandoff code now >>= k).settle a =
        .committed .plain (burnHandoff code now a) (k found) ∧
      trail note (consumeHandoff code now >>= k) a = note a (burnHandoff code now a) ∧
      ∀ payload, found = some payload →
        (a.handoffs.filter (handoffWhere code now)).length = 1 ∧
          ((burnHandoff code now a).handoffs.find? fun h => h.code = code).bind (·.payload) =
            some payload :=
  settle_claim note (burnHandoff code now)
    (fun db => (db.handoffs.filter (handoffWhere code now)).length)
    (fun db => (db.handoffs.find? fun h : OAuthHandoff => h.code = code).bind (·.payload)) k a

/-- The claimed handoff answers for what its payload calls for. -/
theorem publishes_redeemed {req : ExchangeReq} {ab : Store π × Store π} {handoff : OAuthHandoff}
    {payload : HandoffPayload} (hclosed : .closed p (.handoff handoff) ∈ deeds ab.2.2)
    (hpayload : handoff.payload = some payload) :
    Publishes (spec settings initial reqs) p Advances
      (fun ab res => Answered lib p (.exchange req) ab (Except.map Answer.outcome res)) [ab]
      (noting (brokerNotes p) (redeemed lib req (some payload))) x := by
  have hraise : ∀ e, Owed (fun ab res => Answered lib p (.exchange req) ab
      (Except.map Answer.outcome res)) [ab] (.error e) :=
    fun _ => ⟨fun _ => trivial, fun _ _ => trivial⟩
  have hanswers : ∀ {token outcome}, checkPayload lib req.appVerifier payload = some token →
      Matches token outcome → Owed (fun ab res => Answered lib p (.exchange req) ab
        (Except.map Answer.outcome res)) [ab] (.ok outcome) := by
    intro token outcome hcheck hmatches
    constructor
    · exact fun hnil => by cases hnil
    · intro ab' hab'
      rw [List.mem_singleton.mp hab']
      exact ⟨handoff, payload, token, hclosed, hpayload, hcheck, hmatches⟩
  dsimp only [redeemed]
  cases hcheck : checkPayload lib req.appVerifier payload with
  | none => exact hraise _
  | some token =>
      cases token with
      | provisioning p => exact hanswers hcheck rfl
      | authenticated userId =>
          intro y _
          beta_reduce
          cases huser : y.view.1.userById userId with
          | none => exact hraise _
          | some user =>
              have hid : user.id = userId := (Db.mem_of_userById huser).2
              change Publishes _ _ _ _ _ (noting _ (mint user)) y
              rw [mint_eq]
              by_cases hbanned : Passkeys.isBanned user = true
              · rw [if_pos hbanned]
                exact hraise _
              · rw [if_neg hbanned]
                exact hanswers hcheck ⟨user, hid, by simpa using hbanned, rfl⟩

theorem publishes_exchange (req : ExchangeReq) (hreq : reqs p = .exchange req)
    (hx : x.work = none) :
    Publishes (spec settings initial reqs) p Advances (Answered lib p (.exchange req)) []
      (noting (brokerNotes p) ((BrokerRequest.exchange req).body settings lib)) x := by
  have hraise : ∀ past e, Owed (fun ab res => Answered lib p (.exchange req) ab
      (Except.map Answer.outcome res)) past (.error e) :=
    fun _ _ => ⟨fun _ => trivial, fun _ _ => trivial⟩
  apply publishes_body
  by_cases hsocial : (!settings.socialSigninEnabled) = true
  · unfold oauthExchange redeemHandoff
    rw [if_pos hsocial]
    exact hraise [] _
  rw [oauthExchange_eq lib req hsocial]
  apply publishes_transaction hx
  · exact ⟨_, _, _, _, rfl⟩
  · intro y hy
    obtain ⟨found, hsettle, htrail, hfound⟩ :=
      settle_consumeHandoff (brokerNotes p) req.code req.consumedAt (redeemed lib req) y.db.1
    obtain ⟨hc, hclaimed⟩ := chronicle_burnHandoff hy.inv hreq
    rw [hsettle, htrail]
    have ha : Advances y.db (burnHandoff req.code req.consumedAt y.db.1, y.db.2 ++
        brokerNotes p y.db.1 (burnHandoff req.code req.consumedAt y.db.1)) := advances_noted _
    refine ⟨ha, allows_of_chronicle ha hc, ?_⟩
    intro z _ _
    cases found with
    | none => exact hraise _ _
    | some payload =>
        obtain ⟨hone, hpayload⟩ := hfound payload rfl
        obtain ⟨handoff, hclosed, hfind⟩ := hclaimed hone
        rw [hfind] at hpayload
        exact publishes_redeemed hclosed hpayload

end

end AikoIsland.BrokerFlow
