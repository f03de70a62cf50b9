import AikoIsland.BrokerFlow

/-!
# Sign-ins through the broker

Runs of the broker's requests, any number of each, among others that leave its tables
alone, in any interleaving of their statements.

An exchange that answered ends a sign-in: it redeems the handoff that a callback minted for
the identity that the provider vouched for, and that callback had claimed the state of a
start. The verifier of the exchange opens the challenge of that start, so a handoff that was
caught on its way is of no use to anyone else. A session is that of the row which the last
SELECT of the exchange found, unbanned there. A start leads to one answer at most.
-/
namespace AikoIsland.BrokerSignIns
open Tables Gateway Auth Ledger BrokerFlow WriterLock RelyGuarantee Publishing History AppendOnly

variable {π : Type} [DecidableEq π] (settings : BrokerSettings) (lib : AuthLib)
  (reqs : π → BrokerRequest)

/-! ## Runs -/

section
variable (db : Db) (mem : Memory)

/-- Any requests, none started, with an empty history. -/
def startOf : Cfg π (Store π) Memory Label Exn Answer :=
  Cfg.init (db, []) mem fun p => noting (brokerNotes p) ((reqs p).body settings lib)

/-- No ticket is open, and the unique keys hold. -/
structure Fresh : Prop where
  unissued : tickets db = []
  nonces : (db.oauthStates.map (·.nonce)).Nodup
  codes : (db.handoffs.map (·.code)).Nodup

variable {settings lib reqs db mem} {p q r : π} {x : Point (Store π) Memory}
  {c c' : Cfg π (Store π) Memory Label Exn Answer} {log : List (Event π)}

omit [DecidableEq π] in
theorem publishes_request {initial : List SocialIdentity} (hx : x.work = none) :
    Publishes (spec settings initial reqs) p Advances (Answered lib p (reqs p)) []
      (noting (brokerNotes p) ((reqs p).body settings lib)) x := by
  cases hreq : reqs p with
  | start req => exact publishes_start req hreq hx
  | callback req => exact publishes_callback hreq hx
  | exchange req => exact publishes_exchange req hreq hx
  | other bystander => exact publishes_other bystander hx

variable (settings lib reqs mem) in
theorem guarded_start (hfresh : Fresh db) :
    Guarded (spec settings db.identities reqs) (fun _ => Advances)
      (fun p => Answered lib p (reqs p)) (fun _ => []) (startOf settings lib reqs db mem) := by
  constructor
  · constructor
    · change Balanced _ (tickets db) []
      rw [hfresh.unissued]
      exact balanced_nil _
    · exact hfresh.nonces
    · exact hfresh.codes
    · exact fun p t h => absurd h List.not_mem_nil
    · exact fun p t h => absurd h List.not_mem_nil
    · exact fun p t h => absurd h List.not_mem_nil
    · exact fun i hi => Or.inl hi
  · exact fun p => publishes_request rfl

theorem advances_of_reach {past : π → List (Store π × Store π)} {initial : List SocialIdentity}
    (hg : Guarded (spec settings initial reqs) (fun _ => Advances)
      (fun p => Answered lib p (reqs p)) past c)
    (hr : Cfg.Reach (fun _ _ => True) c c') : Advances c.db c'.db := by
  induction hr with
  | start => exact Appends.refl _ _
  | step hr _ hs ih =>
      obtain ⟨_, hg', _, _⟩ := hg.reach hr
      rcases hg'.change (fun _ _ => trivial) hs with hsame | hadvances
      · rw [hsame]
        exact ih
      · exact ih.trans hadvances

theorem chronicle_of_reach (hfresh : Fresh db)
    (hr : Cfg.Reach (fun _ _ => True) (startOf settings lib reqs db mem) c) :
    Chronicle settings db.identities reqs c.db := by
  obtain ⟨_, hg, _, _⟩ := (guarded_start settings lib reqs mem hfresh).reach hr
  exact hg.inv

/-- The handoff behind the answer of an exchange. -/
theorem claimed_of_outcome (hfresh : Fresh db)
    (hr : Cfg.Reach (fun _ _ => True) (startOf settings lib reqs db mem) c)
    {exchange : ExchangeReq} {outcome : Outcome} (hreq : reqs p = .exchange exchange)
    (hret : c.procs p = .ret (.outcome outcome)) :
    ∃ handoff payload token, .closed p (.handoff handoff) ∈ deeds c.db.2 ∧
      handoff.payload = some payload ∧
      checkPayload lib exchange.appVerifier payload = some token ∧ Matches token outcome := by
  have hstart := guarded_start settings lib reqs mem hfresh
  obtain ⟨past, hg, _, hpast⟩ := hstart.reach hr
  have howed := hg.result (r := .ok (.outcome outcome)) hret
  rw [hreq] at howed
  cases hp : past p with
  | nil => exact (howed.1 hp).elim
  | cons ab rest =>
      have hab : ab ∈ past p := by
        rw [hp]
        exact List.mem_cons_self
      obtain ⟨handoff, payload, token, hclosed, hpayload, hcheck, hmatches⟩ := howed.2 ab hab
      rcases hpast p ab hab with hnone | ⟨c₁, c₂, h₁, hs, h₂, rfl⟩
      · cases hnone
      · obtain ⟨_, hg₂, _, _⟩ := hstart.reach (h₁.step (fun _ _ => trivial) hs)
        exact ⟨handoff, payload, token, (deeds_sublist (advances_of_reach hg₂ h₂)).subset hclosed,
          hpayload, hcheck, hmatches⟩

/-! ## The account of a session -/

/-- The last statement of `r` before its answer: a SELECT on the store `s` that finds this user,
who is not banned there. -/
def FindsUser (user : User) (r : Request (Store π) Memory Label Exn Answer) (s : Store π)
    (answer : Answer) : Prop :=
  s.1.userById user.id = some user ∧ Passkeys.isBanned user = false ∧
    answer = .outcome (.session (tokens user) (some (userView user))) ∧
    ∃ k, r = .select k ∧ k s = .rollback (.ret answer)

/-- The rest of an exchange whose handoff names an account. -/
def answerFor (found : Option User) : Body Answer :=
  (exchangeOutcome found >>= fun outcome => pure (.outcome outcome)).session

theorem answerFor_of_banned {user : User} (h : Passkeys.isBanned user = true) :
    answerFor (some user) = .rollback (.raise accountSuspended) := by
  change ((mint user >>= fun outcome => pure (Answer.outcome outcome)).session : Body Answer) = _
  rw [mint_eq, if_pos h]
  rfl

theorem answerFor_of_unbanned {user : User} (h : Passkeys.isBanned user = false) :
    answerFor (some user) =
      .rollback (.ret (.outcome (.session (tokens user) (some (userView user))))) := by
  change ((mint user >>= fun outcome => pure (Answer.outcome outcome)).session : Body Answer) = _
  rw [mint_eq, if_neg (by simp [h])]
  rfl

omit [DecidableEq π] in
theorem through_answerFor (userId : String) (note : Db → Db → List (Event π))
    {done : Answer → Prop} :
    Footprint.Through (fun r s answer => ∃ user, FindsUser user r s answer) done
      (noting note (.select fun db => answerFor (db.userById userId))) := by
  intro s
  dsimp only
  cases hfound : s.1.userById userId with
  | none => trivial
  | some user =>
      have hid : user.id = userId := (Db.mem_of_userById hfound).2
      cases hbanned : Passkeys.isBanned user with
      | true =>
          rw [answerFor_of_banned hbanned]
          trivial
      | false =>
          rw [answerFor_of_unbanned hbanned]
          refine Or.inr ⟨user, ?_, hbanned, rfl, _, rfl, ?_⟩
          · rw [hid]
            exact hfound
          · rw [hfound, answerFor_of_unbanned hbanned]
            rfl

omit [DecidableEq π] in
/-- An exchange answers with an identity for a sign-up, or it found the user of its session. -/
theorem through_exchange (req : ExchangeReq) (note : Db → Db → List (Event π)) :
    Footprint.Through (fun r s answer => ∃ user, FindsUser user r s answer)
      (fun answer => ∃ p, answer = .outcome (.provisioning p))
      (noting note ((BrokerRequest.exchange req).body settings lib)) := by
  change Footprint.Through _ _ (noting note ((oauthExchange settings.toAuthSettings lib req >>=
    fun outcome => pure (Answer.outcome outcome)).session))
  by_cases hsocial : (!settings.socialSigninEnabled) = true
  · unfold oauthExchange redeemHandoff
    rw [if_pos hsocial]
    trivial
  rw [oauthExchange_eq lib req hsocial]
  have hassoc : (consumeHandoff req.code req.consumedAt >>= redeemed lib req) >>=
      (fun outcome => pure (Answer.outcome outcome)) =
        consumeHandoff req.code req.consumedAt >>= fun found =>
          redeemed lib req found >>= fun outcome => pure (Answer.outcome outcome) :=
    Request.bind_assoc _ _ _
  rw [hassoc, noting_session, noting_bind]
  apply Footprint.Through.session_bind
  intro found
  rw [← noting_session]
  cases found with
  | none => trivial
  | some payload =>
      dsimp only [redeemed]
      cases checkPayload lib req.appVerifier payload with
      | none => trivial
      | some token =>
          cases token with
          | provisioning p => exact ⟨p, rfl⟩
          | authenticated userId => exact through_answerFor userId note

/-! ## What a sign-in is -/

/-- The exchange of `p` redeems what the callback of `q` minted for the state of the start of `r`:
the one verifier, provider, nonce and code run through all three, each in its time. -/
structure SignsIn (settings : BrokerSettings) (lib : AuthLib) (reqs : π → BrokerRequest)
    (p q r : π) (exchange : ExchangeReq) (callback : CallbackReq) (start : StartReq)
    (log : List (Event π)) : Prop where
  called : reqs q = .callback callback
  started : reqs r = .start start
  provider : ∃ provider, start.provider = some provider ∧ provider.slug = callback.slug
  challenge : isValidAppChallenge (start.appChallenge.getD "") = true
  verifier : verifyAppChallenge lib (exchange.appVerifier.getD "")
    (start.appChallenge.getD "") = true
  nonce : callback.state.getD "" = start.nonce
  code : exchange.code = callback.handoffCode
  returned : callback.consumedAt < start.now + settings.oauthStateTtl
  redeemed : exchange.consumedAt < callback.createdAt + settings.handoffTtl
  order : ∃ state handoff,
    [Entry.opened r (.state state), .closed q (.state state)].Sublist (deeds log) ∧
    [Entry.closed q (.state state), .opened q (.handoff handoff)].Sublist (deeds log) ∧
    [Entry.opened q (.handoff handoff), .closed p (.handoff handoff)].Sublist (deeds log)

/-- In the run from `c₀` to `c`, the last SELECT of `p` found this user, and it answered with the
session of that row. -/
def Admits (p : π) (c₀ c : Cfg π (Store π) Memory Label Exn Answer) (user : User)
    (outcome : Outcome) : Prop :=
  ∃ c₁ c₂, Cfg.Reach (fun _ _ => True) c₀ c₁ ∧ c₁.step p = some c₂ ∧
    Cfg.Reach (fun _ _ => True) c₂ c ∧
      FindsUser user (c₁.procs p) (c₁.point p).view (.outcome outcome)

/-- The session of an account that the identity is linked to, or the identity for a sign-up. -/
def Delivers (initial : List SocialIdentity) (p : π)
    (c₀ c : Cfg π (Store π) Memory Label Exn Answer) (identity : VerifiedIdentity)
    (outcome : Outcome) : Prop :=
  (∃ user, Linked initial c.db.2 identity user.id ∧ Admits p c₀ c user outcome) ∨
  outcome = .provisioning ⟨identity.provider, identity.sub, identity.suggestedName,
    identity.email⟩

theorem verified_of_met {verifier challenge : Option String} (h : challenge.getD "" ≠ "")
    (hmet : challengeMet lib verifier challenge = true) :
    verifyAppChallenge lib (verifier.getD "") (challenge.getD "") = true := by
  simp only [challengeMet, Bool.or_eq_true, decide_eq_true_eq, Bool.and_eq_true] at hmet
  rcases hmet with hempty | hverified
  · exact absurd hempty h
  · exact hverified.2

omit [DecidableEq π] in
/-- A payload that passes the checks opens its challenge, and calls for what it stands for. -/
theorem matches_of_stands {initial : List SocialIdentity} {identity : VerifiedIdentity}
    {verifier challenge : Option String} {payload : HandoffPayload} {token : Redeemed}
    {outcome : Outcome} (hstands : StandsFor initial log identity challenge payload)
    (hchallenge : challenge.getD "" ≠ "") (hcheck : checkPayload lib verifier payload = some token)
    (hmatches : Matches token outcome) :
    verifyAppChallenge lib (verifier.getD "") (challenge.getD "") = true ∧
      ((∃ user, Linked initial log identity user.id ∧
        outcome = .session (tokens user) (some (userView user))) ∨
      outcome = .provisioning ⟨identity.provider, identity.sub, identity.suggestedName,
        identity.email⟩) := by
  unfold checkPayload at hcheck
  rcases hstands with ⟨userId, hlinked, rfl⟩ | rfl
  · by_cases hmet : challengeMet lib verifier challenge = true
    · refine ⟨verified_of_met hchallenge hmet, Or.inl ?_⟩
      by_cases hempty : userId = ""
      · simp [accountPayload, hmet, hempty] at hcheck
      · have htoken : token = .authenticated userId := by
          simpa [accountPayload, hmet, hempty, eq_comm] using hcheck
        rw [htoken] at hmatches
        obtain ⟨user, rfl, _, houtcome⟩ := hmatches
        exact ⟨user, hlinked, houtcome⟩
    · simp [accountPayload, hmet] at hcheck
  · by_cases hmet : challengeMet lib verifier challenge = true
    · refine ⟨verified_of_met hchallenge hmet, Or.inr ?_⟩
      have htoken : Redeemed.provisioning ⟨identity.provider, identity.sub,
          identity.suggestedName, identity.email⟩ = token := by
        simp [identityPayload, hmet] at hcheck
        exact hcheck.2
      rw [← htoken] at hmatches
      exact hmatches
    · simp [identityPayload, hmet] at hcheck

/-! ## One sign-in -/

def oneProvider : BrokerProvider where
  slug := "github"
  authorizeUrl := "https://github.com/login/oauth/authorize"
  scopes := ["read:user"]
  supportsPkce := false
  clientId := "id"

def oneSettings : BrokerSettings where
  gatewayBaseUrl := "https://island.example/"

def oneChallenge : String := "0123456789abcdefghijklmnopqrstuvwxyzABCDEF-"

def oneLib : AuthLib where
  verifyPassword _ _ := false
  parseAssertion _ := none
  verifyAuthentication _ _ _ _ := .error .invalidAuthenticationResponse
  appChallengeFor verifier := if verifier = "v" then oneChallenge else ""

def oneDb : Db where
  users := [{ id := "U", username := "u", aikoUsername := "u" }]
  identities := [{ id := "I", provider := "github", providerSub := "7", userId := "U" }]

def oneStart : StartReq where
  provider := some oneProvider
  appChallenge := some oneChallenge
  codeVerifier := "c"
  nonce := "n"
  now := 0

def oneCallback : CallbackReq where
  configured := true
  slug := "github"
  code := some "code"
  state := some "n"
  error := none
  exchanged := .ok ⟨"github", "7", none, none⟩
  consumedAt := 1
  handoffCode := "h"
  createdAt := 2

def oneExchange : ExchangeReq := ⟨"h", some "v", 3⟩

/-- A start, its callback, and two exchanges of the one code. -/
def oneReqs : ℕ → BrokerRequest
  | 0 => .start oneStart
  | 1 => .callback oneCallback
  | _ => .exchange oneExchange

def oneSignIn : List ℕ := List.replicate 3 0 ++ List.replicate 8 1 ++ List.replicate 5 2

def oneState : OAuthState := oneStart.row oneSettings oneProvider

def oneHandoff : OAuthHandoff where
  code := "h"
  payload := some (accountPayload "U" (some oneChallenge))
  expiresAt := 120000002

def oneDeeds : List (Entry ℕ Ticket) :=
  [.opened 0 (.state oneState), .closed 1 (.state oneState), .opened 1 (.handoff oneHandoff),
    .closed 2 (.handoff oneHandoff)]

theorem fresh_one : Fresh oneDb := ⟨rfl, List.nodup_nil, List.nodup_nil⟩

theorem signsIn_one {log : List (Event ℕ)} (h : deeds log = oneDeeds) :
    SignsIn oneSettings oneLib oneReqs 2 1 0 oneExchange oneCallback oneStart log := by
  constructor
  · rfl
  · rfl
  · exact ⟨oneProvider, rfl, rfl⟩
  · decide +kernel
  · decide +kernel
  · rfl
  · rfl
  · decide
  · decide
  · rw [h]
    exact ⟨oneState, oneHandoff, by decide +kernel, by decide +kernel, by decide +kernel⟩

/-- The tokens of an answer. -/
def tokensOf : Answer → Option Tokens
  | .outcome outcome => outcome.tokens
  | _ => none

/-! ## What an exchange has behind it -/

/-- The session of an answer is that of the row which the exchange read. -/
theorem delivers_of_answer {exchange : ExchangeReq} {outcome : Outcome}
    {identity : VerifiedIdentity} (hreq : reqs p = .exchange exchange)
    (hr : Cfg.Reach (fun _ _ => True) (startOf settings lib reqs db mem) c)
    (hret : c.procs p = .ret (.outcome outcome))
    (h : (∃ user, Linked db.identities c.db.2 identity user.id ∧
        outcome = .session (tokens user) (some (userView user))) ∨
      outcome = .provisioning ⟨identity.provider, identity.sub, identity.suggestedName,
        identity.email⟩) :
    Delivers db.identities p (startOf settings lib reqs db mem) c identity outcome := by
  have hstart : (startOf settings lib reqs db mem).procs p =
      noting (brokerNotes p) ((BrokerRequest.exchange exchange).body settings lib) := by
    rw [← hreq]
    rfl
  have hthrough := @through_exchange _ settings lib exchange (brokerNotes p)
  rw [← hstart] at hthrough
  have hlater := hthrough.reach hr
  rw [hret] at hlater
  rcases h with ⟨user, hlinked, rfl⟩ | hprovisioning
  · rcases hlater with ⟨_, hother⟩ | ⟨c₁, c₂, h₁, hstep, h₂, found, hfound⟩
    · cases hother
    · left
      have hid : user.id = found.id := by
        have hanswer := Answer.outcome.inj hfound.2.2.1
        exact congrArg (fun t => t.access.userId) (Outcome.session.inj hanswer).1
      rw [hid] at hlinked
      exact ⟨found, hlinked, c₁, c₂, h₁, hstep, h₂, hfound⟩
  · exact Or.inr hprovisioning

theorem signsIn_of_answer (hfresh : Fresh db)
    (hr : Cfg.Reach (fun _ _ => True) (startOf settings lib reqs db mem) c)
    {exchange : ExchangeReq} {outcome : Outcome} (hreq : reqs p = .exchange exchange)
    (hret : c.procs p = .ret (.outcome outcome)) :
    ∃ q r callback start identity, callback.exchanged = .ok identity ∧
      SignsIn settings lib reqs p q r exchange callback start c.db.2 ∧
      Delivers db.identities p (startOf settings lib reqs db mem) c identity outcome := by
  obtain ⟨handoff, payload, token, hclosed, hpayload, hcheck, hmatches⟩ :=
    claimed_of_outcome hfresh hr hreq hret
  have hc := chronicle_of_reach hfresh hr
  obtain ⟨q, hminted⟩ := hc.balanced.opened_first hclosed
  obtain ⟨callback, state, identity, staged, hcallback, hrelays⟩ :=
    hc.issued q (.handoff handoff) (hminted.subset List.mem_cons_self)
  obtain ⟨r, hissued⟩ :=
    hc.balanced.opened_first (hrelays.claimed.subset List.mem_cons_self)
  obtain ⟨start, provider, hstart, hprovider, hvalid, hstate⟩ :=
    hc.issued r (.state state) (hissued.subset List.mem_cons_self)
  have hcallbackClaims := hc.claimed q (.state state) (hrelays.claimed.subset List.mem_cons_self)
  rw [hcallback] at hcallbackClaims
  have hexchangeClaims := hc.claimed p (.handoff handoff) hclosed
  rw [hreq] at hexchangeClaims
  have hstaged : payload = staged := by
    rw [hrelays.minted] at hpayload
    exact (Option.some.inj hpayload).symm
  rw [hstaged] at hcheck
  obtain ⟨hverified, hcalls⟩ :=
    matches_of_stands hrelays.stands hrelays.challenged hcheck hmatches
  refine ⟨q, r, callback, start, identity, hrelays.exchanged, ?_,
    delivers_of_answer hreq hr hret hcalls⟩
  constructor
  · exact hcallback
  · exact hstart
  · refine ⟨provider, hprovider, ?_⟩
    rw [← hrelays.provider, hstate]
    rfl
  · exact hvalid
  · rw [hstate] at hverified
    exact hverified
  · rw [hcallbackClaims.1, hstate]
    rfl
  · rw [hexchangeClaims.1, hrelays.minted]
  · have hexpires := hcallbackClaims.2
    rw [hstate] at hexpires
    exact hexpires
  · have hexpires := hexchangeClaims.2
    rw [hrelays.minted] at hexpires
    exact hexpires
  · exact ⟨state, handoff, hissued, hrelays.claimed, hminted⟩

/-- An exchange that answered completes one sign-in, and what it answers is what the provider's
identity stands for: a session is that of a linked account, whose row the exchange found in the
store and which was not banned there. -/
theorem exchange_completes_a_sign_in (hfresh : Fresh db)
    (hr : Cfg.Reach (fun _ _ => True) (startOf settings lib reqs db mem) c)
    {exchange : ExchangeReq} {outcome : Outcome} (hreq : reqs p = .exchange exchange)
    (hret : c.procs p = .ret (.outcome outcome)) :
    ∃ q r callback start identity, callback.exchanged = .ok identity ∧
      SignsIn settings lib reqs p q r exchange callback start c.db.2 ∧
      Delivers db.identities p (startOf settings lib reqs db mem) c identity outcome :=
  signsIn_of_answer hfresh hr hreq hret

theorem exchange_completes_a_sign_in_of_one :
    ∃ c, Cfg.play oneSignIn (startOf oneSettings oneLib oneReqs oneDb {}) = some c ∧
      ∃ outcome, outcome.tokens = some ⟨⟨"U", 0⟩, some ⟨"U", 0⟩⟩ ∧
        ∃ q r callback start identity, callback.exchanged = .ok identity ∧
          SignsIn oneSettings oneLib oneReqs 2 q r oneExchange callback start c.db.2 ∧
          Delivers oneDb.identities 2 (startOf oneSettings oneLib oneReqs oneDb {}) c identity
            outcome := by
  have hrun : (Cfg.play oneSignIn (startOf oneSettings oneLib oneReqs oneDb {})).map
      (fun c => (c.procs 2).returned.bind tokensOf) =
        some (some ⟨⟨"U", 0⟩, some ⟨"U", 0⟩⟩) := by
    decide +kernel
  obtain ⟨c, hc, htokens⟩ := Option.map_eq_some_iff.mp hrun
  obtain ⟨answer, hret, houtcome⟩ := Option.bind_eq_some_iff.mp htokens
  cases answer with
  | outcome outcome =>
      exact ⟨c, hc, outcome, houtcome, exchange_completes_a_sign_in fresh_one
        (Cfg.reach_of_play Cfg.Reach.start hc) rfl (Request.returned_eq_some.mp hret)⟩
  | _ => cases houtcome

theorem same_of_start (hfresh : Fresh db)
    (hr : Cfg.Reach (fun _ _ => True) (startOf settings lib reqs db mem) c)
    {p' q' : π} {exchange exchange' : ExchangeReq} {callback callback' : CallbackReq}
    {start start' : StartReq}
    (h : SignsIn settings lib reqs p q r exchange callback start c.db.2)
    (h' : SignsIn settings lib reqs p' q' r exchange' callback' start' c.db.2) :
    p = p' ∧ q = q' := by
  have hc := chronicle_of_reach hfresh hr
  obtain ⟨state, handoff, hissued, hrelayed, hminted⟩ := h.order
  obtain ⟨state', handoff', hissued', hrelayed', hminted'⟩ := h'.order
  have hstate : state = state' := by
    obtain ⟨req, provider, hreq, hprovider, _, hrow⟩ :=
      hc.issued r (.state state) (hissued.subset List.mem_cons_self)
    obtain ⟨req', provider', hreq', hprovider', _, hrow'⟩ :=
      hc.issued r (.state state') (hissued'.subset List.mem_cons_self)
    obtain rfl : req = req' := BrokerRequest.start.inj (hreq.symm.trans hreq')
    obtain rfl : provider = provider' := Option.some.inj (hprovider.symm.trans hprovider')
    exact hrow.trans hrow'.symm
  rw [← hstate] at hrelayed'
  have hcallback : q = q' := eq_of_closed hc.balanced.closedOnce
    (hrelayed.subset List.mem_cons_self) (hrelayed'.subset List.mem_cons_self)
  rw [← hcallback] at hminted'
  have hopened := hminted.subset List.mem_cons_self
  have hopened' := hminted'.subset List.mem_cons_self
  have hhandoff : (Ticket.handoff handoff) = .handoff handoff' := by
    obtain ⟨req, _, _, _, hreq, hrelays⟩ := hc.issued q (.handoff handoff) hopened
    obtain ⟨req', _, _, _, hreq', hrelays'⟩ := hc.issued q (.handoff handoff') hopened'
    obtain rfl : req = req' := BrokerRequest.callback.inj (hreq.symm.trans hreq')
    apply List.inj_on_of_nodup_map hc.balanced.openedOnce
    · exact mem_openedRows.mpr ⟨q, hopened⟩
    · exact mem_openedRows.mpr ⟨q, hopened'⟩
    · rw [hrelays.minted, hrelays'.minted]
      rfl
  rw [← hhandoff] at hminted'
  have hlast : ∀ {a b : Entry π Ticket}, b ∈ [a, b] := by
    intro a b
    exact List.mem_cons_of_mem a List.mem_cons_self
  exact ⟨eq_of_closed hc.balanced.closedOnce (hminted.subset hlast) (hminted'.subset hlast),
    hcallback⟩

/-- Two exchanges that answered have two starts behind them. -/
theorem answers_have_distinct_starts (hfresh : Fresh db)
    (hr : Cfg.Reach (fun _ _ => True) (startOf settings lib reqs db mem) c) {p' : π}
    {exchange exchange' : ExchangeReq} {outcome outcome' : Outcome}
    (hreq : reqs p = .exchange exchange) (hret : c.procs p = .ret (.outcome outcome))
    (hreq' : reqs p' = .exchange exchange') (hret' : c.procs p' = .ret (.outcome outcome'))
    (hne : p ≠ p') :
    ∃ q r callback start q' r' callback' start', r ≠ r' ∧
      SignsIn settings lib reqs p q r exchange callback start c.db.2 ∧
      SignsIn settings lib reqs p' q' r' exchange' callback' start' c.db.2 := by
  obtain ⟨q, r, callback, start, _, _, h, _⟩ := signsIn_of_answer hfresh hr hreq hret
  obtain ⟨q', r', callback', start', _, _, h', _⟩ := signsIn_of_answer hfresh hr hreq' hret'
  refine ⟨q, r, callback, start, q', r', callback', start', ?_, h, h'⟩
  rintro rfl
  exact hne (same_of_start hfresh hr h h').1

/-- A start leads to one answer at most, through one callback. -/
theorem start_is_redeemed_once (hfresh : Fresh db)
    (hr : Cfg.Reach (fun _ _ => True) (startOf settings lib reqs db mem) c)
    {p' q' : π} {exchange exchange' : ExchangeReq} {callback callback' : CallbackReq}
    {start start' : StartReq}
    (h : SignsIn settings lib reqs p q r exchange callback start c.db.2)
    (h' : SignsIn settings lib reqs p' q' r exchange' callback' start' c.db.2) :
    p = p' ∧ q = q' :=
  same_of_start hfresh hr h h'

/-- A second exchange of the same code. -/
theorem start_is_redeemed_once_of_two :
    ∃ c, Cfg.play (oneSignIn ++ List.replicate 3 3)
        (startOf oneSettings oneLib oneReqs oneDb {}) = some c ∧
      SignsIn oneSettings oneLib oneReqs 2 1 0 oneExchange oneCallback oneStart c.db.2 ∧
      ∀ p q exchange callback start,
        SignsIn oneSettings oneLib oneReqs p q 0 exchange callback start c.db.2 →
          2 = p ∧ 1 = q := by
  have hrun : (Cfg.play (oneSignIn ++ List.replicate 3 3)
      (startOf oneSettings oneLib oneReqs oneDb {})).map (fun c => deeds c.db.2) =
        some oneDeeds := by
    decide +kernel
  obtain ⟨c, hc, hdeeds⟩ := Option.map_eq_some_iff.mp hrun
  refine ⟨c, hc, signsIn_one hdeeds, ?_⟩
  intro p q exchange callback start h
  exact start_is_redeemed_once fresh_one (Cfg.reach_of_play Cfg.Reach.start hc)
    (signsIn_one hdeeds) h

/-! ## One fate for each ticket -/

/-- In every run: the open tickets are those that were minted and not claimed; no two were minted
under one key; and a ticket was claimed once at most, after it was minted, in its time and by a
request that named it. -/
theorem each_ticket_has_one_fate (hfresh : Fresh db)
    (hr : Cfg.Reach (fun _ _ => True) (startOf settings lib reqs db mem) c) :
    (∀ t, t ∈ tickets c.db.1 ↔
      (∃ q, .opened q t ∈ deeds c.db.2) ∧ ∀ p, .closed p t ∉ deeds c.db.2) ∧
    (((deeds c.db.2).filterMap openedRow).map Ticket.key).Nodup ∧
    ((deeds c.db.2).filterMap closedRow).Nodup ∧
    (∀ q t, .opened q t ∈ deeds c.db.2 → Issues settings db.identities (reqs q) q c.db.2 t) ∧
    ∀ p t, .closed p t ∈ deeds c.db.2 → Claims (reqs p) t ∧
      ∃ q, [Entry.opened q t, .closed p t].Sublist (deeds c.db.2) := by
  have hc := chronicle_of_reach hfresh hr
  refine ⟨hc.balanced.live, hc.balanced.openedOnce, hc.balanced.closedOnce, hc.issued, ?_⟩
  intro p t hclosed
  exact ⟨hc.claimed p t hclosed, hc.balanced.opened_first hclosed⟩

theorem each_ticket_has_one_fate_of_two :
    ∃ c, Cfg.play (oneSignIn ++ List.replicate 3 3)
        (startOf oneSettings oneLib oneReqs oneDb {}) = some c ∧
      (∀ p, .closed p (.handoff oneHandoff) ∈ deeds c.db.2 ↔ p = 2) ∧
      .handoff oneHandoff ∉ tickets c.db.1 ∧ Claims (oneReqs 2) (.handoff oneHandoff) := by
  have hrun : (Cfg.play (oneSignIn ++ List.replicate 3 3)
      (startOf oneSettings oneLib oneReqs oneDb {})).map (fun c => deeds c.db.2) =
        some oneDeeds := by
    decide +kernel
  obtain ⟨c, hc, hdeeds⟩ := Option.map_eq_some_iff.mp hrun
  obtain ⟨hlive, _, honce, _, hclaims⟩ :=
    each_ticket_has_one_fate fresh_one (Cfg.reach_of_play Cfg.Reach.start hc)
  have hclosed : Entry.closed 2 (.handoff oneHandoff) ∈ deeds c.db.2 := by
    rw [hdeeds]
    simp [oneDeeds]
  refine ⟨c, hc, ?_, ?_, (hclaims 2 _ hclosed).1⟩
  · intro p
    constructor
    · exact fun hp => eq_of_closed honce hp hclosed
    · intro hp
      rw [hp]
      exact hclosed
  · intro hopen
    exact ((hlive _).mp hopen).2 2 hclosed

end

end AikoIsland.BrokerSignIns
