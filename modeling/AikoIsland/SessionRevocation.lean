import AikoIsland.SuspendedSessions
import AikoIsland.Takeover
import AikoIsland.Observing
import AikoIsland.Security

/-!
# Revoked sessions

Any number of token-minting requests, bans and un-bans, interleaved statement by
statement. A token carries the generation of the row that its request resolved; a
recovery raises the generation of one account by one with its commit, and nothing
else in these runs touches a generation.

So a token is dead after every recovery of its account that commits later than the
SELECT of its row, also when the token itself is handed out after that commit. The
pair that a recovery returns carries the generation it published and passes the gate
until the next one, as long as it has not expired and the account is not suspended.
-/
namespace AikoIsland.SessionRevocation
open Tables Gateway WriterLock RelyGuarantee Footprint Publishing Observing Passkeys SigningKeys
  Recovery Accounts Realtime Auth SuspendedSessions Takeover Security

/-! ## The requests -/

inductive SessionRequest where
  | mint (request : MintRequest)
  | ban (moderators : List String) (targetId moderatorId : String) (now : Time)
  | unban (targetId : String)

/-- A ban hands no token out. -/
def SessionRequest.body (settings : AuthSettings) (lib : AuthLib) (crypto : Crypto) :
    SessionRequest → Body Outcome
  | .mint request => request.body settings lib crypto
  | .ban moderators targetId moderatorId now => do
      banUserRoute moderators targetId moderatorId now
      return .redirect (.ok targetId)
  | .unban targetId => do
      (unbanUser targetId).session
      return .redirect (.ok targetId)

def SessionRequest.recovers : SessionRequest → Bool
  | .mint request => isRecovery request
  | _ => false

/-! ## Generations -/

/-- No account has another generation, and no recovery was committed. -/
structure Unchanged (a b : Db) : Prop where
  ids : b.users.map (·.id) = a.users.map (·.id)
  generations : ∀ u, generationOf u b = generationOf u a
  rekeys : b.rekeys = a.rekeys

/-- A recovery of the account was committed. -/
structure Recovers (userId : String) (a b : Db) : Prop where
  ids : b.users.map (·.id) = a.users.map (·.id)
  account : userId ∈ a.users.map (·.id)
  raised : generationOf userId b = generationOf userId a + 1
  others : ∀ u, u ≠ userId → generationOf u b = generationOf u a
  recorded : ∃ credentialId, b.rekeys = a.rekeys ++ [⟨userId, generationOf userId b, credentialId⟩]

theorem Unchanged.refl (a : Db) : Unchanged a a := ⟨rfl, fun _ => rfl, rfl⟩

theorem Unchanged.trans {a b c : Db} (h : Unchanged a b) (h' : Unchanged b c) : Unchanged a c :=
  ⟨h'.ids.trans h.ids, fun u => (h'.generations u).trans (h.generations u),
    h'.rekeys.trans h.rekeys⟩

theorem unchanged_of_same {a b : Db} (husers : b.users = a.users) (hrekeys : b.rekeys = a.rekeys) :
    Unchanged a b := by
  constructor
  · rw [husers]
  · intro u
    unfold generationOf Db.userById
    rw [husers]
  · exact hrekeys

/-- An UPDATE of other columns. -/
theorem unchanged_map {a : Db} {g : User → User} (hid : ∀ u, (g u).id = u.id)
    (hgeneration : ∀ u, (g u).tokenGeneration = u.tokenGeneration) :
    Unchanged a { a with users := a.users.map g } := by
  constructor
  · simp [hid]
  · intro u
    unfold generationOf
    rw [Db.userById_map a hid, Option.map_map]
    congr 2
    funext v
    exact hgeneration v
  · rfl

theorem generationOf_eq {db : Db} {user : User} (h : db.userById user.id = some user) :
    generationOf user.id db = user.tokenGeneration := by
  simp [generationOf, h]

/-- With distinct ids the row is the one that its id finds. -/
theorem userById_of_mem {db : Db} {user : User} (hids : (db.users.map (·.id)).Nodup)
    (huser : user ∈ db.users) : db.userById user.id = some user := by
  unfold Db.userById
  cases hfound : db.users.find? fun u => u.id = user.id with
  | none =>
      have hnone := List.find?_eq_none.mp hfound user huser
      simp at hnone
  | some found =>
      have hid : found.id = user.id := by simpa using List.find?_some hfound
      rw [List.inj_on_of_nodup_map hids (List.mem_of_find?_eq_some hfound) huser hid]

theorem recovers_of_rekeyed {credentialRowId : String} {row : PendingRecovery} {user : User}
    {a w s : Db} (h : rekeyed credentialRowId row user w = some s) (hw : Unchanged a w)
    (huser : w.userById user.id = some user) : Recovers user.id a s := by
  have hself := generationOf_rekeyed_self h huser
  have hids : s.users.map (·.id) = w.users.map (·.id) := by
    obtain ⟨_, hinsert, rfl⟩ := Option.map_eq_some_iff.mp h
    obtain ⟨_, rfl⟩ := Db.insertCredential_eq_some.mp hinsert
    have hid : ∀ u : User,
        (if u.id = user.id then { u with tokenGeneration := u.tokenGeneration + 1 } else u).id =
          u.id := by
      intro u
      split_ifs <;> rfl
    simp [bumpGeneration, purgeUserKeys, purgeUserCredentials, hid]
  constructor
  · exact hids.trans hw.ids
  · rw [← hw.ids]
    exact List.mem_map_of_mem (Db.mem_of_userById huser).1
  · rw [hself, hw.generations]
  · intro u hu
    rw [generationOf_rekeyed_other h hu, hw.generations]
  · exact ⟨row.stagedCredentialId, by rw [rekeys_of_rekeyed h, hself, hw.rekeys]⟩

/-! ## Writes that leave the generations -/

/-- A write after which nothing was revoked. -/
def Quiet (_ : Label) (f : Db → Option Db) : Prop := ∀ s s', f s = some s' → Unchanged s s'

def AnySegment (_ : Label) (_ : Db → Memory → Memory) : Prop := True

theorem quiet_exec {t : Label} {f : Db → Db} (husers : ∀ s, (f s).users = s.users)
    (hrekeys : ∀ s, (f s).rekeys = s.rekeys) : Quiet t fun s => some (f s) := by
  intro s s' hs
  cases hs
  exact unchanged_of_same (husers s) (hrekeys s)

theorem uses_updateUser {g : User → User} (hid : ∀ u, (g u).id = u.id)
    (hgeneration : ∀ u, (g u).tokenGeneration = u.tokenGeneration) (id : String) :
    Uses Quiet AnySegment (updateUser id g) := by
  have hwrite : Quiet .plain fun db =>
      some { db with users := db.users.map fun u => if u.id = id then g u else u } := by
    intro s s' hs
    cases hs
    apply unchanged_map
    · intro u
      split_ifs
      · exact hid u
      · rfl
    · intro u
      split_ifs
      · exact hgeneration u
      · rfl
  apply Uses.bind (Uses.exec hwrite)
  intro rowcount
  split_ifs <;> trivial

theorem uses_banUser (moderators : List String) (targetId moderatorId : String) (now : Time) :
    Uses Quiet AnySegment (banUser moderators targetId moderatorId now) := by
  unfold banUser
  split_ifs
  · trivial
  · trivial
  · apply Uses.bind (Uses.query _)
    intro found
    cases found with
    | none => trivial
    | some target =>
        dsimp only
        split_ifs
        · apply Uses.bind
          · apply uses_updateUser
            · intro _
              rfl
            · intro _
              rfl
          · intro _
            trivial
        · trivial

theorem uses_unbanUser (targetId : String) : Uses Quiet AnySegment (unbanUser targetId) := by
  apply Uses.bind (Uses.query _)
  intro found
  cases found with
  | none => trivial
  | some target =>
      dsimp only
      split_ifs
      · apply Uses.bind
        · apply uses_updateUser
          · intro _
            rfl
          · intro _
            rfl
        · intro _
          trivial
      · trivial

theorem uses_disconnectUser {W : Label → (Db → Option Db) → Prop} (userId : String) :
    Uses W AnySegment (disconnectUser userId) := by
  apply Uses.bind (Uses.atomically trivial)
  intro targets
  exact uses_closeAll (fun _ => trivial) (fun _ => trivial) targets

section
variable (settings : AuthSettings) (lib : AuthLib) (crypto : Crypto)

theorem quiet_insertHandoff (r : OAuthHandoff) : Quiet .plain fun db => db.insertHandoff r := by
  intro s s' hs
  obtain ⟨_, rfl⟩ := Db.insertHandoff_eq_some.mp hs
  exact unchanged_of_same rfl rfl

/-- Recovery finalize apart, no request changes a generation. -/
theorem uses_body {request : SessionRequest} (h : request.recovers = false) :
    Uses Quiet AnySegment (request.body settings lib crypto) := by
  cases request with
  | ban moderators targetId moderatorId now =>
      have hroute : Uses Quiet AnySegment (banUserRoute moderators targetId moderatorId now) :=
        Uses.bind (uses_banUser moderators targetId moderatorId now).session fun _ =>
          uses_disconnectUser targetId
      exact Uses.bind hroute fun _ => trivial
  | unban targetId => exact Uses.bind (uses_unbanUser targetId).session fun _ => trivial
  | mint request =>
      cases request with
      | login username password => exact uses_login
      | social req now => exact uses_social (quiet_exec (fun _ => rfl) fun _ => rfl)
      | oauthCallback req =>
          exact uses_oauthCallback (quiet_exec (fun _ => rfl) fun _ => rfl) fun _ =>
            quiet_insertHandoff _
      | oauthExchange req => exact uses_oauthExchange (quiet_exec (fun _ => rfl) fun _ => rfl)
      | passkeyAuthenticateFinish req =>
          exact uses_passkeyAuthenticateFinish (quiet_exec (fun _ => rfl) fun _ => rfl)
            fun _ _ => quiet_exec (fun _ => rfl) fun _ => rfl
      | refresh token => exact uses_refresh
      | recoverFinalize recoveryId finalizeToken credentialRowId now => cases h

end

/-! ## Recovery finalize -/

/-- What a request that may recover publishes. -/
def Revokes (a b : Db) : Prop := Unchanged a b ∨ ∃ userId, Recovers userId a b

/-- The pair of a recovery. -/
def recoveredTokens (userId : String) (db : Db) : Tokens where
  access := ⟨userId, generationOf userId db⟩
  refresh := some ⟨userId, generationOf userId db⟩

/-- Tokens stand for a published recovery, at its generation. -/
def Issued (ab : Option (Db × Db)) (res : Except Exn Outcome) : Prop :=
  ∀ o t, res = .ok o → o.tokens = some t → ∃ userId a b, ab = some (a, b) ∧
    Recovers userId a b ∧ t = recoveredTokens userId b

def spec : Spec ℕ Db Memory Label where
  inv db _ := (db.users.map (·.id)).Nodup
  rely _ _ _ _ _ := True
  meets _ _ := True
  rely_refl _ _ _ := trivial
  rely_trans _ _ := trivial

section
variable {p : ℕ} {x : Point Db Memory} {past : List (Db × Db)}

theorem owed_error (e : Exn) : Owed Issued past (.error e) := by
  constructor
  · intro _ o t ho
    cases ho
  · intro ab _ o t ho
    cases ho

theorem Revokes.ids {a b : Db} (h : Revokes a b) : b.users.map (·.id) = a.users.map (·.id) := by
  cases h with
  | inl hsame => exact hsame.ids
  | inr hraised =>
      obtain ⟨_, hrecovers⟩ := hraised
      exact hrecovers.ids

theorem allows_of_revokes {a b : Db} {mem : Memory} {w w' : Option Db}
    (hi : (a.users.map (·.id)).Nodup) (h : Revokes a b) :
    spec.Allows p ⟨a, mem, w⟩ ⟨b, mem, w'⟩ := by
  constructor
  · change (b.users.map (·.id)).Nodup
    rw [h.ids]
    exact hi
  · intro _ _
    trivial

/-- The sockets are dropped after the commit. -/
theorem publishes_afterCommit {s : Session} (hx : x.work = none)
    (h : Owed Issued past (.ok (rekeyOutcome s))) :
    Publishes spec p Revokes Issued past
      (do
        let s ← (do
          disconnectUser s.userId
          return s : Body Session)
        return rekeyOutcome s) x := by
  have hdisconnect : Uses (fun _ _ => False) (fun _ _ => True) (disconnectUser s.userId) :=
    (uses_disconnectUser s.userId).mono (fun _ _ h => h) fun _ _ h => h
  apply Publishes.of_segments
  · exact Uses.bind (Uses.bind hdisconnect fun _ => trivial) fun _ => trivial
  · exact hx
  · exact Returns.bind (Q := fun s' => s' = s) (Through.bind fun _ => rfl) fun s' hs' => by
      rw [hs']
      exact h
  · exact owed_error
  · intro g y hi
    exact ⟨hi, fun _ _ => trivial⟩

theorem publishes_recoverFinalize (hx : x.work = none)
    (recoveryId finalizeToken credentialRowId : String) (crypto : Crypto) (now : Time) :
    Publishes spec p Revokes Issued []
      (afterFinalize (finalizeRecovery crypto recoveryId finalizeToken credentialRowId now)) x := by
  have hrow : ∀ (row : PendingRecovery) (z : Point Db Memory) (w : Db),
      z.work = some w → Unchanged z.db w →
      Publishes spec p Revokes Issued [] (afterFinalize (finalizeRow credentialRowId row)) z := by
    intro row z w hz hw y hy
    have hyw : y.work = some w := hy.work.trans hz
    have hdb : y.db = z.db := hy.db_eq hz
    rw [Point.view_of_some hyw]
    change Publishes spec p Revokes Issued [] (afterFinalize
      (Request.bind (.ret (w.userById row.userId)) _)) y
    cases huser : w.userById row.userId with
    | none =>
        apply Publishes.commit hyw
        intro v hv _
        have hsame : Revokes v.db w := by
          rw [hv.db_eq hyw, hdb]
          exact Or.inl hw
        exact ⟨hsame, allows_of_revokes hv.inv hsame, fun _ _ => owed_error _⟩
    | some user =>
        apply Publishes.exec
        intro y₁ hy₁ _
        apply Publishes.exec
        intro y₂ hy₂ _ y₃ hy₃ _
        have hview₃ : y₃.view = purgeUserKeys row.userId (purgeUserCredentials row.userId w) := by
          rw [hy₃.view_eq rfl, hy₂.view_eq rfl, hy₁.view_eq hyw]
        have hdb₃ : y₃.db = z.db :=
          (hy₃.db_eq rfl).trans ((hy₂.db_eq rfl).trans ((hy₁.db_eq hyw).trans hdb))
        have hid : user.id = row.userId := (Db.mem_of_userById huser).2
        rw [hview₃]
        constructor
        · intro s hs
          constructor
          · intro hn
            rw [hy₃.work] at hn
            cases hn.2
          · intro _
            apply Publishes.exec
            intro y₄ hy₄ _
            have hview₄ : y₄.view = s := hy₄.view_eq rfl
            have hrekeyed : rekeyed credentialRowId row user w =
                some (bumpGeneration user.id row.stagedCredentialId s) := by
              unfold rekeyed
              dsimp only at hs
              rw [hs]
              rfl
            have hfound : s.userById user.id = some user := by
              obtain ⟨_, rfl⟩ := Db.insertCredential_eq_some.mp hs
              rw [hid]
              exact huser
            have hrecovers : Recovers user.id z.db
                (bumpGeneration user.id row.stagedCredentialId s) :=
              recovers_of_rekeyed hrekeyed hw (by rw [hid]; exact huser)
            rw [hview₄]
            apply Publishes.commit rfl
            intro v hv _
            have hdb : v.db = z.db :=
              (hv.db_eq rfl).trans ((hy₄.db_eq rfl).trans hdb₃)
            have hrevokes : Revokes v.db (bumpGeneration user.id row.stagedCredentialId s) := by
              rw [hdb]
              exact Or.inr ⟨user.id, hrecovers⟩
            refine ⟨hrevokes, allows_of_revokes hv.inv hrevokes, fun _ _ => ?_⟩
            have howed : Owed Issued [(v.db, bumpGeneration user.id row.stagedCredentialId s)]
                (.ok (rekeyOutcome ⟨user.id, generationOf user.id s + 1⟩)) := by
              constructor
              · intro hnil
                cases hnil
              · intro ab hab o t ho ht
                rw [List.mem_singleton] at hab
                cases ho
                cases ht
                refine ⟨user.id, _, _, congrArg some hab, ?_, ?_⟩
                · rw [hdb]
                  exact hrecovers
                · rw [recoveredTokens, generationOf_bumpGeneration hfound]
            exact publishes_afterCommit rfl howed
        · exact fun _ _ _ _ _ => owed_error _
  intro y hy _
  have hview : y.view = y.db := Point.view_of_none (hy.free hx)
  constructor
  · intro s hs
    cases hs
    constructor
    · intro hn
      cases hn.1
    · intro _
      beta_reduce
      cases y.view.pending.find? _ with
      | none => exact fun _ _ => owed_error _
      | some row =>
          apply hrow row _ (takePending recoveryId (crypto.sha256Hex finalizeToken) now y.view) rfl
          rw [hview]
          exact unchanged_of_same rfl rfl
  · intro hs
    cases hs

/-! ## Runs -/

variable (settings : AuthSettings) (lib : AuthLib) (crypto : Crypto)

theorem respects_unchanged :
    Respects spec p (fun _ _ => True) Unchanged Quiet AnySegment where
  refl := Unchanged.refl
  trans h h' := h.trans h'
  stable _ _ := trivial
  write _ _ z s hW _ _ _ _ hs := hW z.view s hs
  segment _ _ _ _ hi _ _ := ⟨⟨hi, fun _ _ => trivial⟩, trivial⟩
  commit _ _ _ hi _ hs := ⟨allows_of_revokes hi (Or.inl hs), trivial⟩

/-- What the result of a request says about what it published. -/
def Owes (request : SessionRequest) (ab : Option (Db × Db)) (res : Except Exn Outcome) : Prop :=
  request.recovers = true → Issued ab res

/-- What a request publishes: a recovery, if it is one that recovers. -/
def MayPublish (request : SessionRequest) (a b : Db) : Prop :=
  Unchanged a b ∨ request.recovers = true ∧ ∃ userId, Recovers userId a b

theorem publishes_request (request : SessionRequest) (db : Db) (mem : Memory) :
    Publishes spec p (MayPublish request) (Owes request) [] (request.body settings lib crypto)
      ⟨db, mem, none⟩ := by
  cases hrecovers : request.recovers with
  | false =>
      apply (of_respects respects_unchanged (uses_body settings lib crypto hrecovers)
        (Unchanged.refl db)).mono
      · intro a b h
        exact Or.inl h
      · intro ab res _ h
        rw [hrecovers] at h
        cases h
  | true =>
      cases request with
      | ban moderators targetId moderatorId now => cases hrecovers
      | unban targetId => cases hrecovers
      | mint request =>
          cases request with
          | recoverFinalize recoveryId finalizeToken credentialRowId now =>
              apply (publishes_recoverFinalize (x := ⟨db, mem, none⟩) rfl recoveryId finalizeToken
                credentialRowId crypto now).mono
              · intro a b h
                cases h with
                | inl hsame => exact Or.inl hsame
                | inr hraised => exact Or.inr ⟨rfl, hraised⟩
              · intro ab res h _
                exact h
          | _ => cases hrecovers

end

/-- All requests before their first statement. -/
def start (settings : AuthSettings) (lib : AuthLib) (crypto : Crypto)
    (requests : ℕ → SessionRequest) (db : Db) (mem : Memory) :
    Cfg ℕ Db Memory Label Exn Outcome :=
  Cfg.init db mem fun p => (requests p).body settings lib crypto

abbrev Run (c c' : Cfg ℕ Db Memory Label Exn Outcome) : Prop := Cfg.Reach (fun _ _ => True) c c'

section
variable {settings : AuthSettings} {lib : AuthLib} {crypto : Crypto}
  {requests : ℕ → SessionRequest} {db : Db} {mem : Memory}
  {c c' : Cfg ℕ Db Memory Label Exn Outcome} {p : ℕ}

variable (mem) in
/-- Every request has published what it may, and owes its result to it. -/
theorem guarded_start (hids : (db.users.map (·.id)).Nodup) :
    Guarded spec (fun p => MayPublish (requests p)) (fun p => Owes (requests p)) (fun _ => [])
      (start settings lib crypto requests db mem) := by
  constructor
  · exact hids
  · intro p
    exact publishes_request settings lib crypto (requests p) db mem

/-- One step leaves the generations, or a recovery commits with it. -/
theorem step_revokes (hids : (db.users.map (·.id)).Nodup)
    (hr : Run (start settings lib crypto requests db mem) c) (hs : c.step p = some c') :
    MayPublish (requests p) c.db c'.db := by
  obtain ⟨past, hguarded, _⟩ := (guarded_start mem hids).reach hr
  cases hguarded.change (fun _ _ => trivial) hs with
  | inl hsame =>
      rw [hsame]
      exact Or.inl (Unchanged.refl c.db)
  | inr hpublished => exact hpublished

/-- Over a run an account's generation rises by the recoveries of the account. -/
theorem counted (hids : (db.users.map (·.id)).Nodup)
    (hr : Run (start settings lib crypto requests db mem) c) (hr' : Run c c') :
    c'.db.users.map (·.id) = c.db.users.map (·.id) ∧
      ∃ later, c'.db.rekeys = c.db.rekeys ++ later ∧ ∀ u, generationOf u c'.db =
        generationOf u c.db + (later.filter fun r => r.userId = u).length := by
  induction hr' with
  | start => exact ⟨rfl, [], by simp, by simp⟩
  | @step d d' q hd _ hs ih =>
      obtain ⟨hsame, later, hlater, hcount⟩ := ih
      cases step_revokes hids (hr.trans hd) hs with
      | inl hunchanged =>
          refine ⟨hunchanged.ids.trans hsame, later, hunchanged.rekeys.trans hlater, fun u => ?_⟩
          rw [hunchanged.generations, hcount]
      | inr hrecovered =>
          obtain ⟨_, userId, hrecovers⟩ := hrecovered
          obtain ⟨credentialId, hrecorded⟩ := hrecovers.recorded
          refine ⟨hrecovers.ids.trans hsame,
            later ++ [⟨userId, generationOf userId d'.db, credentialId⟩], ?_, fun u => ?_⟩
          · rw [hrecorded, hlater, List.append_assoc]
          · rw [List.filter_append, List.length_append]
            by_cases hu : u = userId
            · subst hu
              rw [hrecovers.raised, hcount]
              simp [add_assoc]
            · rw [hrecovers.others u hu, hcount]
              simp [Ne.symm hu]

theorem generationOf_le (hids : (db.users.map (·.id)).Nodup)
    (hr : Run (start settings lib crypto requests db mem) c) (hr' : Run c c') (u : String) :
    generationOf u c.db ≤ generationOf u c'.db := by
  obtain ⟨_, later, _, hcount⟩ := counted hids hr hr'
  have := hcount u
  omega

end

/-! ## Tokens -/

section
variable {Token : Type} (jwt : Jwt Token)

/-- No ingress accepts the token, whatever type it asks for. -/
def Rejected (db : Db) (token : Token) : Prop :=
  ∀ expectedType now, sessionUser jwt db token expectedType now = .error .invalidSession

/-- What the token decodes to, if anything. -/
def Carries (token : Token) (claims : Claims) : Prop :=
  ∀ expectedType now found, decodeToken jwt token expectedType now = some found → found = claims

/-- Every recovery of the account that commits from here on revokes the token for good. -/
def RevokedAfter (token : Token) (userId : String) (d : Cfg ℕ Db Memory Label Exn Outcome) : Prop :=
  ∀ q c₁ c₂ c₃, Run d c₁ → c₁.step q = some c₂ → Recovers userId c₁.db c₂.db → Run c₂ c₃ →
    Rejected jwt c₃.db token

variable {jwt}

theorem rejected_of_superseded {token : Token} {claims : Claims} (h : Carries jwt token claims)
    {db : Db} (hgeneration : claims.generation < generationOf claims.userId db) :
    Rejected jwt db token := by
  intro expectedType now
  rw [sessionUser_eq]
  cases hdecode : decodeToken jwt token expectedType now with
  | none => rfl
  | some found =>
      rw [h expectedType now found hdecode]
      unfold gate
      dsimp only
      cases huser : db.userById claims.userId with
      | none => rfl
      | some user =>
          have hstale : claims.generation ≠ user.tokenGeneration := by
            have hcurrent : generationOf claims.userId db = user.tokenGeneration := by
              simp [generationOf, huser]
            omega
          dsimp only
          rw [if_pos hstale]

theorem carries_issue {tokenSettings : TokenSettings} (h : Unforgeable jwt tokenSettings)
    (tokenType : TokenType) (claims : Claims) (issuedAt : Time) :
    Carries jwt (issue jwt tokenSettings tokenType claims issuedAt) claims := by
  intro expectedType now found hdecode
  by_cases hid : claims.userId = ""
  · obtain ⟨payload, hpayload, hfound⟩ := Option.bind_eq_some_iff.mp hdecode
    have hverified := Option.eq_some_of_filter_eq_some hpayload
    rw [verified_issue h] at hverified
    obtain rfl := Option.some.inj hverified
    simp [payloadClaims, issuePayload, hid] at hfound
  · exact (claims_of_decode_issue h hid hdecode).2

end

section
variable {settings : AuthSettings} {lib : AuthLib} {crypto : Crypto}
  {requests : ℕ → SessionRequest} {db : Db} {mem : Memory}
  {d : Cfg ℕ Db Memory Label Exn Outcome} {Token : Type} {jwt : Jwt Token}

/-- A token of a generation that the account has reached is revoked by the next recovery. -/
theorem revokedAfter_of_le (hids : (db.users.map (·.id)).Nodup)
    (hr : Run (start settings lib crypto requests db mem) d) {token : Token} {claims : Claims}
    (hcarries : Carries jwt token claims)
    (hle : claims.generation ≤ generationOf claims.userId d.db) :
    RevokedAfter jwt token claims.userId d := by
  intro q c₁ c₂ c₃ h₁ hs hrecovers h₂
  apply rejected_of_superseded hcarries
  have hbefore := generationOf_le hids hr h₁ claims.userId
  have hafter := generationOf_le hids ((hr.trans h₁).step (fun _ _ => trivial) hs) h₂ claims.userId
  have hraised := hrecovers.raised
  omega

/-! ### Tokens from a row -/

/-- The pair carries the id and the generation of the row; a refresh hands out one half. -/
structure CarriesRow (user : User) (t : Tokens) : Prop where
  access : t.access = ⟨user.id, user.tokenGeneration⟩
  refresh : ∀ r ∈ t.refresh, r = ⟨user.id, user.tokenGeneration⟩

/-- The tokens are for the row that was looked up, a recovery's apart. -/
def LookedUpRow (settings : AuthSettings) (lib : AuthLib) (request : MintRequest)
    (rest : Body Outcome) (db : Db) (o : Outcome) : Prop :=
  ∃ find user, Resolves settings lib request rest find ∧ find db = some user ∧
    (isRecovery request = false → ∀ t, o.tokens = some t → CarriesRow user t)

theorem answers_lookedUpRow (request : MintRequest) :
    Answers settings lib request (LookedUpRow settings lib request) where
  minted hres huser := by
    refine ⟨_, _, hres, huser, fun _ t ht => ?_⟩
    cases ht
    exact ⟨rfl, fun r hr => (Option.some.inj hr).symm⟩
  refreshed hres huser := by
    refine ⟨_, _, hres, huser, fun _ t ht => ?_⟩
    cases ht
    refine ⟨rfl, fun r hr => ?_⟩
    cases hr
  rekeyed hres huser hkind _ := by
    refine ⟨_, _, hres, huser, fun hother => ?_⟩
    rw [hkind] at hother
    cases hother

theorem mem_of_resolves {request : MintRequest} {rest : Body Outcome} {find : Db → Option User}
    {user : User} {db : Db} (h : Resolves settings lib request rest find)
    (huser : find db = some user) : user ∈ db.users := by
  cases h with
  | login username password =>
      have hfound := Option.eq_some_of_filter_eq_some huser
      exact List.mem_of_find?_eq_some hfound
  | refresh token =>
      obtain ⟨claims, _, hfound⟩ := Option.bind_eq_some_iff.mp huser
      exact (Db.mem_of_userById hfound).1
  | social => exact (Db.mem_of_userById huser).1
  | oauthCallback => exact (Db.mem_of_userById huser).1
  | oauthExchange => exact (Db.mem_of_userById huser).1
  | passkeyAuthenticateFinish => exact (Db.mem_of_userById huser).1
  | recoverFinalize => exact (Db.mem_of_userById huser).1

/-- A request that recovers nothing sees the generations of the committed store. -/
theorem generationOf_resolved (hids : (db.users.map (·.id)).Nodup)
    (hr : Run (start settings lib crypto requests db mem) d) {p : ℕ}
    (hkind : (requests p).recovers = false) {user : User}
    (huser : user ∈ (d.point p).view.users) :
    generationOf user.id d.db = user.tokenGeneration := by
  have hview := (reach_view Unchanged.refl Unchanged.trans (fun t f s s' h => h s s') hr
    (uses_body settings lib crypto hkind) (Unchanged.refl db)).2
  have hnodup : ((d.point p).view.users.map (·.id)).Nodup := by
    rw [hview.ids, (counted hids Cfg.Reach.start hr).1]
    exact hids
  rw [← hview.generations, generationOf_eq (userById_of_mem hnodup huser)]

/-- Request `p` looks up the row of the user with its step from `d₁`. -/
structure ReadsRow (settings : AuthSettings) (lib : AuthLib) (request : MintRequest) (p : ℕ)
    (user : User) (d₁ d₂ : Cfg ℕ Db Memory Label Exn Outcome) : Prop where
  steps : d₁.step p = some d₂
  resolves : ∃ find, Resolves settings lib request (d₁.procs p) find ∧
    find (d₁.point p).view = some user

/-- A token of a sign-in or a refresh is revoked by the recoveries after its SELECT. -/
theorem revoked_of_minted {tokenSettings : TokenSettings} (hjwt : Unforgeable jwt tokenSettings)
    (hids : (db.users.map (·.id)).Nodup) {c : Cfg ℕ Db Memory Label Exn Outcome} {p : ℕ}
    {request : MintRequest} {o : Outcome} {t : Tokens}
    (hr : Run (start settings lib crypto requests db mem) c)
    (hrequest : requests p = .mint request) (hkind : isRecovery request = false)
    (ho : c.procs p = .ret o) (ht : o.tokens = some t) :
    ∃ d₁ d₂ user, Run (start settings lib crypto requests db mem) d₁ ∧
      ReadsRow settings lib request p user d₁ d₂ ∧ Run d₂ c ∧ CarriesRow user t ∧
      ∀ tokenType issuedAt, RevokedAfter jwt
        (issue jwt tokenSettings tokenType ⟨user.id, user.tokenGeneration⟩ issuedAt) user.id d₂ := by
  have hbody : Through (LookedUpRow settings lib request) (fun o => o.tokens = none)
      ((start settings lib crypto requests db mem).procs p) := by
    change Through _ _ ((requests p).body settings lib crypto)
    rw [hrequest]
    exact through_body (answers_lookedUpRow request)
  have hlater := hbody.reach hr
  rw [ho] at hlater
  cases hlater with
  | inl hnone =>
      rw [hnone] at ht
      cases ht
  | inr hread =>
      obtain ⟨d₁, d₂, h₁, hstep, h₂, find, user, hresolves, huser, hcarries⟩ := hread
      refine ⟨d₁, d₂, user, h₁, ⟨hstep, find, hresolves, huser⟩, h₂, hcarries hkind t ht, ?_⟩
      intro tokenType issuedAt
      have hrecovers : (requests p).recovers = false := by
        rw [hrequest]
        exact hkind
      have hgeneration := generationOf_resolved hids h₁ hrecovers (mem_of_resolves hresolves huser)
      have hnext := h₁.step (fun _ _ => trivial) hstep
      have hle := generationOf_le hids h₁ (Cfg.Reach.start.step (fun _ _ => trivial) hstep) user.id
      apply revokedAfter_of_le hids hnext (carries_issue hjwt tokenType _ issuedAt)
      dsimp only
      omega

/-- Request `p` recovers the account with its step from `d₁`, and with no other. -/
structure RecoversOnce (c₀ : Cfg ℕ Db Memory Label Exn Outcome) (p : ℕ) (userId : String)
    (d₁ d₂ c : Cfg ℕ Db Memory Label Exn Outcome) : Prop where
  reached : Run c₀ d₁
  steps : d₁.step p = some d₂
  rest : Run d₂ c
  recovers : Recovers userId d₁.db d₂.db
  once : ∀ e₁ e₂, Run c₀ e₁ → e₁.step p = some e₂ → Run e₂ c → Unchanged e₁.db e₂.db ∨
    Recovers userId e₁.db e₂.db ∧ generationOf userId e₂.db = generationOf userId d₂.db

theorem recoversOnce (hids : (db.users.map (·.id)).Nodup)
    {c : Cfg ℕ Db Memory Label Exn Outcome} {p : ℕ} {o : Outcome} {t : Tokens}
    (hr : Run (start settings lib crypto requests db mem) c)
    (hkind : (requests p).recovers = true) (ho : c.procs p = .ret o) (ht : o.tokens = some t) :
    ∃ d₁ d₂ userId, RecoversOnce (start settings lib crypto requests db mem) p userId d₁ d₂ c ∧
      t = recoveredTokens userId d₂.db := by
  obtain ⟨past, hguarded, _, hnew⟩ := (guarded_start mem hids).reach hr
  have howed := hguarded.result (r := .ok o) ho
  cases hpast : past p with
  | nil =>
      obtain ⟨_, _, _, hnone, _⟩ := howed.1 hpast hkind o t rfl ht
      cases hnone
  | cons ab rest =>
      have hab : ab ∈ past p := by
        rw [hpast]
        exact List.mem_cons_self
      obtain ⟨userId, a, b, hpair, hrecovers, htokens⟩ := howed.2 ab hab hkind o t rfl ht
      cases hpair
      cases hnew p (a, b) hab with
      | inl hnone => cases hnone
      | inr hpublished =>
          obtain ⟨d₁, d₂, h₁, hstep, h₂, hdbs⟩ := hpublished
          cases hdbs
          refine ⟨d₁, d₂, userId, ⟨h₁, hstep, h₂, hrecovers, ?_⟩, htokens⟩
          intro e₁ e₂ h hs h'
          obtain ⟨before, hbefore, _⟩ := (guarded_start mem hids).reach h
          obtain ⟨after, hafter, _, hown⟩ := hbefore.step (fun _ _ => trivial) hs
          cases hown with
          | inl hsame =>
              rw [hsame.2]
              exact Or.inl (Unchanged.refl e₁.db)
          | inr hchange =>
              -- what this step published is still among what the result is owed to
              have hin : (e₁.db, e₂.db) ∈ after p := by
                rw [hchange.1]
                exact List.mem_cons_self
              obtain ⟨later, hlater, hkept, _⟩ := hafter.reach h'
              obtain ⟨u, a, b, hpair, hraised, htokens'⟩ :=
                (hlater.result (r := .ok o) ho).2 _ (hkept p _ hin) hkind o t rfl ht
              cases hpair
              have haccess : (⟨userId, generationOf userId d₂.db⟩ : Claims) =
                  ⟨u, generationOf u e₂.db⟩ := by
                rw [htokens] at htokens'
                exact congrArg Tokens.access htokens'
              obtain ⟨huser, hgeneration⟩ := Claims.mk.inj haccess
              rw [huser] at hgeneration ⊢
              exact Or.inr ⟨hraised, hgeneration.symm⟩

/-- Until the next recovery the tokens of a recovery pass the gate, unless they have expired
or the account is suspended. -/
theorem accepted_until_next {tokenSettings : TokenSettings} (hjwt : Unforgeable jwt tokenSettings)
    (hids : (db.users.map (·.id)).Nodup) (hnonempty : "" ∉ db.users.map (·.id))
    (hr : Run (start settings lib crypto requests db mem) d) {userId : String}
    (haccount : userId ∈ d.db.users.map (·.id)) (tokenType : TokenType) (issuedAt : Time)
    {e : Cfg ℕ Db Memory Label Exn Outcome} (he : Run d e) {later : List Rekey}
    (hlater : e.db.rekeys = d.db.rekeys ++ later) (hnone : ∀ r ∈ later, r.userId ≠ userId)
    {now : Time} (hissued : issuedAt ≤ now)
    (hlive : (now : ℤ) < expiry tokenSettings tokenType issuedAt) :
    ∃ user, e.db.userById userId = some user ∧ (isBanned user = false →
      sessionUser jwt e.db (issue jwt tokenSettings tokenType
        ⟨userId, generationOf userId d.db⟩ issuedAt) tokenType now = .ok user) := by
  have hstart : d.db.users.map (·.id) = db.users.map (·.id) := (counted hids Cfg.Reach.start hr).1
  obtain ⟨hsame, later', hlater', hcount⟩ := counted hids hr he
  have hgeneration : generationOf userId e.db = generationOf userId d.db := by
    have hrest : later' = later := List.append_cancel_left (hlater'.symm.trans hlater)
    have hcount := hcount userId
    rw [hrest, List.filter_eq_nil_iff.mpr (by simpa using hnone)] at hcount
    simpa using hcount
  have hid : userId ≠ "" := by
    intro hempty
    apply hnonempty
    rw [← hempty, ← hstart]
    exact haccount
  rw [← hsame] at haccount
  obtain ⟨user, huser, rfl⟩ := List.mem_map.mp haccount
  have hfound : e.db.userById user.id = some user := by
    apply userById_of_mem _ huser
    rw [hsame, hstart]
    exact hids
  refine ⟨user, hfound, fun hfree => ?_⟩
  rw [sessionUser_eq, decode_issue hjwt hid hissued hlive]
  unfold gate
  dsimp only
  rw [hfound]
  dsimp only
  rw [← hgeneration, generationOf_eq hfound, hfree]
  simp

/-- What passes the gate as one type passes it as no other. -/
theorem rejected_as_other {tokenSettings : TokenSettings} (hjwt : Unforgeable jwt tokenSettings)
    {token : Token} {tokenType expectedType : TokenType} {now : Time} {user : User}
    (h : sessionUser jwt db token tokenType now = .ok user) (hne : expectedType ≠ tokenType)
    (db' : Db) (now' : Time) :
    sessionUser jwt db' token expectedType now' = .error .invalidSession := by
  rw [sessionUser_eq] at h
  obtain ⟨claims, hdecode, _⟩ := gate_eq_ok h
  obtain ⟨payload, hverified, _, htype⟩ := signed_of_decode hjwt hdecode
  have hnone : decodeToken jwt token expectedType now' = none := by
    cases hother : decodeToken jwt token expectedType now' with
    | none => rfl
    | some found =>
        obtain ⟨payload', hverified', _, htype'⟩ := signed_of_decode hjwt hother
        rw [hverified] at hverified'
        cases hverified'
        rw [htype] at htype'
        exact absurd (TokenType.value_inj.mp (Option.some.inj htype')).symm hne
  rw [sessionUser_eq, hnone]
  rfl

end

/-! ## The result -/

/-- Runs from `c₀`, whose requests are these. -/
structure Revocation {Token : Type} (jwt : Jwt Token) (tokenSettings : TokenSettings)
    (settings : AuthSettings) (lib : AuthLib) (requests : ℕ → SessionRequest)
    (c₀ : Cfg ℕ Db Memory Label Exn Outcome) : Prop where
  step : ∀ {c c' : Cfg ℕ Db Memory Label Exn Outcome} {p : ℕ}, Run c₀ c → c.step p = some c' →
    MayPublish (requests p) c.db c'.db
  counted : ∀ {c c' : Cfg ℕ Db Memory Label Exn Outcome}, Run c₀ c → Run c c' →
    ∃ later, c'.db.rekeys = c.db.rekeys ++ later ∧ ∀ u, generationOf u c'.db =
      generationOf u c.db + (later.filter fun r => r.userId = u).length
  older : ∀ token claims, Carries jwt token claims →
    claims.generation ≤ generationOf claims.userId c₀.db →
    RevokedAfter jwt token claims.userId c₀
  minted : ∀ {c : Cfg ℕ Db Memory Label Exn Outcome} {p : ℕ} {request : MintRequest}
    {o : Outcome} {t : Tokens}, Run c₀ c → requests p = .mint request →
    isRecovery request = false → c.procs p = .ret o → o.tokens = some t →
    ∃ d₁ d₂ user, Run c₀ d₁ ∧ ReadsRow settings lib request p user d₁ d₂ ∧ Run d₂ c ∧
      CarriesRow user t ∧ ∀ tokenType issuedAt, RevokedAfter jwt
        (issue jwt tokenSettings tokenType ⟨user.id, user.tokenGeneration⟩ issuedAt) user.id d₂
  recovered : ∀ {c : Cfg ℕ Db Memory Label Exn Outcome} {p : ℕ} {o : Outcome} {t : Tokens},
    Run c₀ c → (requests p).recovers = true → c.procs p = .ret o → o.tokens = some t →
    ∃ d₁ d₂ userId, RecoversOnce c₀ p userId d₁ d₂ c ∧ t = recoveredTokens userId d₂.db ∧
      ∀ tokenType issuedAt,
        RevokedAfter jwt (issue jwt tokenSettings tokenType t.access issuedAt) userId d₂ ∧
        ∀ e later now, Run d₂ e → e.db.rekeys = d₂.db.rekeys ++ later →
          (∀ r ∈ later, r.userId ≠ userId) → issuedAt ≤ now →
          (now : ℤ) < expiry tokenSettings tokenType issuedAt →
          ∃ user, e.db.userById userId = some user ∧ (isBanned user = false →
            sessionUser jwt e.db (issue jwt tokenSettings tokenType t.access issuedAt) tokenType
              now = .ok user)
  separate : ∀ {token : Token} {tokenType expectedType : TokenType} {a : Db} {now : Time}
    {user : User}, sessionUser jwt a token tokenType now = .ok user → expectedType ≠ tokenType →
    ∀ b now', sessionUser jwt b token expectedType now' = .error .invalidSession

/-- A recovery revokes every token of its account that was minted from an earlier row. -/
theorem revocation_is_permanent {Token : Type} {jwt : Jwt Token} {tokenSettings : TokenSettings}
    (hjwt : Unforgeable jwt tokenSettings) (settings : AuthSettings) (lib : AuthLib)
    (crypto : Crypto) (requests : ℕ → SessionRequest) {db : Db} (mem : Memory)
    (hids : (db.users.map (·.id)).Nodup) (hnonempty : "" ∉ db.users.map (·.id)) :
    Revocation jwt tokenSettings settings lib requests
      (start settings lib crypto requests db mem) where
  step hr hs := step_revokes hids hr hs
  counted hr hr' := (SessionRevocation.counted hids hr hr').2
  older token claims hcarries hle := revokedAfter_of_le hids Cfg.Reach.start hcarries hle
  minted hr hrequest hkind ho ht := revoked_of_minted hjwt hids hr hrequest hkind ho ht
  recovered hr hkind ho ht := by
    obtain ⟨d₁, d₂, userId, hone, rfl⟩ := recoversOnce hids hr hkind ho ht
    have hr₂ := hone.reached.step (fun _ _ => trivial) hone.steps
    refine ⟨d₁, d₂, userId, hone, rfl, fun tokenType issuedAt => ⟨?_, ?_⟩⟩
    · exact revokedAfter_of_le hids hr₂ (carries_issue hjwt tokenType _ issuedAt) le_rfl
    · intro e later now he hlater hnone hissued hlive
      apply accepted_until_next hjwt hids hnonempty hr₂ _ tokenType issuedAt he hlater hnone
        hissued hlive
      rw [hone.recovers.ids]
      exact hone.recovers.account
  separate h hne db' now' := rejected_as_other hjwt h hne db' now'

/-! ## A library that signs nothing else -/

/-- The payloads of the island, as a test. -/
def signs (tokenSettings : TokenSettings) : Payload → Bool
  | ⟨some _, some type, .int n, some iat, some exp⟩ =>
      decide (0 ≤ n ∧ 0 ≤ iat) &&
        (decide (type = "access" ∧ exp = iat + tokenSettings.jwtAccessTtlSeconds) ||
          decide (type = "refresh" ∧ exp = iat + tokenSettings.jwtRefreshTtlSeconds))
  | ⟨some _, some type, .absent, some _, some _⟩ => type = "access" || type = "refresh"
  | ⟨none, some type, .absent, some _, some _⟩ => type = "provisioning"
  | _ => false

/-- A token is its payload; no other payload verifies. -/
def plainJwt (tokenSettings : TokenSettings) : Jwt Payload where
  encode payload := payload
  verified payload := if signs tokenSettings payload then some payload else none

theorem timestamp_add (now : Time) (ttl : ℕ) :
    timestamp (now + ttl * 1000000) = timestamp now + ttl := by
  unfold timestamp
  rw [Nat.add_mul_div_right now ttl (by decide)]
  push_cast
  rfl

theorem signs_of_signed {tokenSettings : TokenSettings} {payload : Payload}
    (h : Signed tokenSettings payload) : signs tokenSettings payload = true := by
  cases h with
  | session tokenType claims now =>
      have hiat : 0 ≤ timestamp now := Int.natCast_nonneg _
      cases tokenType with
      | access => simp [signs, issuePayload, TokenType.value, TokenSettings.ttl, timestamp_add, hiat]
      | refresh => simp [signs, issuePayload, TokenType.value, TokenSettings.ttl, timestamp_add, hiat]
  | legacy tokenType userId iat exp => cases tokenType <;> rfl
  | provisioning iat exp => rfl

theorem signed_of_session {tokenSettings : TokenSettings} (tokenType : TokenType) (userId : String)
    {n iat : ℤ} (hn : 0 ≤ n) (hiat : 0 ≤ iat) :
    Signed tokenSettings ⟨some userId, some tokenType.value, .int n, some iat,
      some (iat + tokenSettings.ttl tokenType)⟩ := by
  have hsession : Signed tokenSettings _ :=
    Signed.session tokenType ⟨userId, n.toNat⟩ (iat.toNat * 1000000)
  have hstamp : timestamp (iat.toNat * 1000000) = iat := by
    unfold timestamp
    rw [Nat.mul_div_cancel _ (by decide)]
    exact Int.toNat_of_nonneg hiat
  unfold issuePayload at hsession
  rw [timestamp_add, hstamp] at hsession
  dsimp only at hsession
  rw [Int.toNat_of_nonneg hn] at hsession
  exact hsession

theorem signed_of_signs {tokenSettings : TokenSettings} {payload : Payload}
    (h : signs tokenSettings payload = true) : Signed tokenSettings payload := by
  unfold signs at h
  split at h
  · rename_i userId type n iat exp
    rw [Bool.and_eq_true, Bool.or_eq_true, decide_eq_true_eq, decide_eq_true_eq,
      decide_eq_true_eq] at h
    obtain ⟨⟨hn, hiat⟩, htype⟩ := h
    cases htype with
    | inl haccess =>
        rw [haccess.1, haccess.2]
        exact signed_of_session .access userId hn hiat
    | inr hrefresh =>
        rw [hrefresh.1, hrefresh.2]
        exact signed_of_session .refresh userId hn hiat
  · rename_i userId type iat exp
    rw [Bool.or_eq_true, decide_eq_true_eq, decide_eq_true_eq] at h
    cases h with
    | inl haccess =>
        rw [haccess]
        exact .legacy .access userId iat exp
    | inr hrefresh =>
        rw [hrefresh]
        exact .legacy .refresh userId iat exp
  · rename_i type iat exp
    rw [decide_eq_true_eq] at h
    rw [h]
    exact .provisioning iat exp
  · cases h

theorem unforgeable_plainJwt (tokenSettings : TokenSettings) :
    Unforgeable (plainJwt tokenSettings) tokenSettings where
  decodes payload h := if_pos (signs_of_signed h)
  signed token payload h := by
    change (if signs tokenSettings token = true then some token else none) = some payload at h
    split_ifs at h with hsigns
    cases h
    exact signed_of_signs hsigns

/-- A login and the recovery that takes the account over. -/
def loginAndRecovery : ℕ → SessionRequest
  | 0 => .mint (.login "mallory" "password")
  | _ => .mint (.recoverFinalize "01RECOVERY" "token" "01CREDENTIAL" 5)

theorem a_takeover_revokes :
    Revocation (plainJwt ⟨900, 2592000⟩) ⟨900, 2592000⟩ {} plainLib loginAndRecovery
      (start {} plainLib plainCrypto loginAndRecovery
        (ripeStore plainCrypto "01RECOVERY" "token") {}) :=
  revocation_is_permanent (unforgeable_plainJwt _) {} plainLib plainCrypto loginAndRecovery {}
    (by simp [ripeStore]) (by simp [ripeStore, suspendedUser])

end AikoIsland.SessionRevocation
