import AikoIsland.Realtime

/-!
# A re-key leaves no row of an older session

Any number of recovery finalizes together with the requests that attach
credentials or signing keys to an account: the passkey door, `POST /v1/keys`
and sockets with signed sends, each with its session gate. They interleave
statement by statement. In every committed state after a finalize of an account,
its credentials and signing keys are the staged credential and rows written
under the newest token generation, in every run in which a session's insert
executes while the account is still at the session's generation.

The gate reads the generation once and no later write looks again, so a
finalize may commit between the gate and the insert.
-/
namespace AikoIsland.Takeover
open Tables Gateway WriterLock RelyGuarantee Footprint Passkeys SigningKeys Recovery Messages
open Realtime

/-! ## The requests -/

inductive TakeoverRequest where
  | finalize (recoveryId finalizeToken credentialRowId : String) (now : Time)
  | passkeyAdd (token : Option Claims) (state credential rowId : String) (now : Time)
  | registerKey (token : Option Claims) (pubkey : String) (keyVersion : ℕ) (rowId : String)
      (now bumpedAt : Time)
  | socket (conn : ℕ) (h : Handshake)

/-- A route behind the gate, in its session. -/
def authenticated (token : Option Claims) (route : User → Body Unit) : Body Unit :=
  (do
    let user ← getCurrentUser token
    route user : Body Unit).session

def TakeoverRequest.body (crypto : Crypto) : TakeoverRequest → Body Unit
  | .finalize recoveryId finalizeToken credentialRowId now => do
      let _ ← recoverFinalize crypto recoveryId finalizeToken credentialRowId now
      return ()
  | .passkeyAdd token state credential rowId now =>
      authenticated token fun user => passkeyAddFinish crypto user state credential rowId now
  | .registerKey token pubkey keyVersion rowId now bumpedAt =>
      authenticated token fun user => SigningKeys.registerKey user pubkey keyVersion rowId now bumpedAt
  | .socket conn h => wsEndpoint conn h

/-! ## Rows and their authorities -/

/-- The condition on steps: the account is still at the generation of the writing session. -/
def sessionCurrent : Label → Point Db Memory → Bool
  | .sessionWrite userId generation, x => generationOf userId x.view ≤ generation
  | _, _ => true

/-- Besides the staged credential, only rows of sessions at the generation of the re-key. -/
structure Attributed (r : Rekey) (db : Db) : Prop where
  credentials : ∀ c ∈ db.credentials, c.userId = r.userId →
    c.author = .session r.generation ∨ c.author = .recovery ∧ c.credentialId = r.credentialId
  keys : ∀ k ∈ db.signingKeys, k.userId = r.userId → k.author = .session r.generation

/-- Every account that was re-keyed is at the generation of its newest re-key, and clean of
what came before it. -/
structure Clean (db : Db) : Prop where
  bounded : ∀ r ∈ db.rekeys, r.generation ≤ generationOf r.userId db
  newest : ∀ r ∈ db.rekeys, ∃ r' ∈ db.rekeys,
    r'.userId = r.userId ∧ r'.generation = generationOf r.userId db
  attributed : ∀ r ∈ db.rekeys, r.generation = generationOf r.userId db → Attributed r db

/-- Generations are the same, and a clean store stays clean. -/
structure Keeps (a b : Db) : Prop where
  generation : ∀ u, generationOf u b = generationOf u a
  clean : Clean a → Clean b

theorem Keeps.refl (a : Db) : Keeps a a := ⟨fun _ => rfl, id⟩

theorem Keeps.trans {a b c : Db} (h : Keeps a b) (h' : Keeps b c) : Keeps a c :=
  ⟨fun u => (h'.generation u).trans (h.generation u), fun hc => h'.clean (h.clean hc)⟩

/-- Users, re-keys, credentials and keys are as before, or new rows carry the generation that
their account has. -/
theorem keeps_of_added {a b : Db} (husers : b.users = a.users) (hrekeys : b.rekeys = a.rekeys)
    (hcred : ∀ c ∈ b.credentials, c ∈ a.credentials ∨ c.author = .session (generationOf c.userId a))
    (hkeys : ∀ k ∈ b.signingKeys,
      (∃ k' ∈ a.signingKeys, k'.userId = k.userId ∧ k'.author = k.author) ∨
        k.author = .session (generationOf k.userId a)) : Keeps a b := by
  have hgen : ∀ u, generationOf u b = generationOf u a := by
    intro u
    simp [generationOf, Db.userById, husers]
  refine ⟨hgen, fun hc => ?_⟩
  constructor
  · intro r hr
    rw [hrekeys] at hr
    rw [hgen]
    exact hc.bounded r hr
  · intro r hr
    rw [hrekeys] at hr ⊢
    rw [hgen]
    exact hc.newest r hr
  · intro r hr hcur
    rw [hrekeys] at hr
    rw [hgen] at hcur
    have hold : Attributed r a := hc.attributed r hr hcur
    constructor
    · intro c hmem hu
      rcases hcred c hmem with hin | hnew
      · exact hold.credentials c hin hu
      · left
        rw [hnew, hu, hcur]
    · intro k hmem hu
      rcases hkeys k hmem with ⟨k', hin, hu', hauthor⟩ | hnew
      · rw [← hauthor]
        exact hold.keys k' hin (hu'.trans hu)
      · rw [hnew, hu, hcur]

theorem keeps_of_same {a b : Db} (husers : b.users = a.users) (hrekeys : b.rekeys = a.rekeys)
    (hcred : b.credentials = a.credentials) (hkeys : b.signingKeys = a.signingKeys) :
    Keeps a b := by
  refine keeps_of_added husers hrekeys (fun c hc => ?_) fun k hk => ?_
  · rw [hcred] at hc
    exact Or.inl hc
  · rw [hkeys] at hk
    exact Or.inl ⟨k, hk, rfl, rfl⟩

/-! ## The writes of a session -/

/-- The writes of a session of `user`. -/
inductive SessionWrite (user : User) : Label → (Db → Option Db) → Prop
  | passkey {t : Label} {f : Db → Option Db} (h : PasskeyWrite user t f) : SessionWrite user t f
  | serve {t : Label} {f : Db → Option Db} (h : ServeWrite user t f) : SessionWrite user t f
  | key {t : Label} {f : Db → Option Db} (h : OriginWrite user t f) : SessionWrite user t f

section
variable {user : User} {t : Label} {f : Db → Option Db} {z : Point Db Memory} {s : Db}

/-- A key insert at the current generation is attributed to it. -/
theorem keeps_of_insertSigningKey {a b : Db} {k : SigningKey}
    (hk : k.author = .session (generationOf k.userId a)) (h : a.insertSigningKey k = some b) :
    Keeps a b := by
  obtain ⟨_, rfl⟩ := Db.insertSigningKey_eq_some.mp h
  refine keeps_of_added rfl rfl (fun c hc => Or.inl hc) fun k' hk' => ?_
  rcases List.mem_append.mp hk' with hold | hnew
  · exact Or.inl ⟨k', hold, rfl, rfl⟩
  · obtain rfl := List.mem_singleton.mp hnew
    exact Or.inr hk

theorem keeps_of_originWrite (h : OriginWrite user t f)
    (hgen : user.tokenGeneration ≤ generationOf user.id z.view)
    (hm : sessionCurrent t z = true) (hf : f z.view = some s) : Keeps z.view s := by
  obtain ⟨o, hkey, huser, hog⟩ := h
  have hcurrent : o.label = t → generationOf o.userId z.view = o.generation := by
    intro ht
    rw [← ht] at hm
    simp only [sessionCurrent, KeyObservation.label, decide_eq_true_eq] at hm
    rw [huser, hog] at hm ⊢
    omega
  cases hkey with
  | insert id now =>
      refine keeps_of_insertSigningKey ?_ hf
      simp only [KeyObservation.row]
      rw [hcurrent rfl]
  | capped id now maxKeys =>
      unfold cappedInsert at hf
      split_ifs at hf
      · refine keeps_of_insertSigningKey ?_ hf
        simp only [KeyObservation.row]
        rw [hcurrent rfl]
      · obtain rfl := Option.some.inj hf
        exact Keeps.refl _
  | bump id now =>
      obtain rfl := Option.some.inj hf
      refine keeps_of_added rfl rfl (fun c hc => Or.inl hc) fun k hk => ?_
      obtain ⟨k₀, hk₀, rfl⟩ := List.mem_map.mp hk
      left
      refine ⟨k₀, hk₀, ?_⟩
      split_ifs <;> simp

theorem keeps_of_passkeyWrite (h : PasskeyWrite user t f)
    (hgen : user.tokenGeneration ≤ generationOf user.id z.view)
    (hm : sessionCurrent t z = true) (hf : f z.view = some s) : Keeps z.view s := by
  cases h with
  | burn state now =>
      obtain rfl := Option.some.inj hf
      exact keeps_of_same rfl rfl rfl rfl
  | link rowId material =>
      obtain ⟨_, rfl⟩ := Db.insertCredential_eq_some.mp hf
      refine keeps_of_added rfl rfl (fun c hc => ?_) fun k hk => Or.inl ⟨k, hk, rfl, rfl⟩
      rcases List.mem_append.mp hc with hold | hnew
      · exact Or.inl hold
      · obtain rfl := List.mem_singleton.mp hnew
        right
        have hcurrent : generationOf user.id z.view = user.tokenGeneration := by
          simp only [sessionCurrent, decide_eq_true_eq] at hm
          omega
        simp only [passkeyCredentialRow]
        rw [hcurrent]

theorem keeps_of_sessionWrite (h : SessionWrite user t f)
    (hgen : user.tokenGeneration ≤ generationOf user.id z.view)
    (hm : sessionCurrent t z = true) (hf : f z.view = some s) : Keeps z.view s := by
  cases h with
  | passkey h => exact keeps_of_passkeyWrite h hgen hm hf
  | key h => exact keeps_of_originWrite h hgen hm hf
  | serve h =>
      obtain ⟨rowId, hsend⟩ := h
      cases hsend with
      | key h => exact keeps_of_originWrite h hgen hm hf
      | message _ _ =>
          obtain ⟨_, rfl⟩ := Db.insertMessage_eq_some.mp hf
          exact keeps_of_same rfl rfl rfl rfl

end

/-! ## The re-key -/

section
variable {credentialRowId : String} {row : PendingRecovery} {user : User} {w s : Db}

theorem generationOf_rekeyed_self (h : rekeyed credentialRowId row user w = some s)
    (hu : w.userById user.id = some user) :
    generationOf user.id s = generationOf user.id w + 1 := by
  simp [generationOf, userById_rekeyed h, hu]

theorem generationOf_rekeyed_other (h : rekeyed credentialRowId row user w = some s) {id : String}
    (hid : id ≠ user.id) : generationOf id s = generationOf id w := by
  unfold generationOf
  rw [userById_rekeyed h]
  cases hv : w.userById id with
  | none => rfl
  | some v =>
      have hvid : v.id ≠ user.id := by
        rw [(Db.mem_of_userById hv).2]
        exact hid
      simp [hvid]

theorem rekeys_of_rekeyed (h : rekeyed credentialRowId row user w = some s) :
    s.rekeys = w.rekeys ++
      [⟨user.id, generationOf user.id w + 1, row.stagedCredentialId⟩] := by
  obtain ⟨a, ha, rfl⟩ := Option.map_eq_some_iff.mp h
  obtain ⟨_, rfl⟩ := Db.insertCredential_eq_some.mp ha
  rfl

theorem credentials_of_rekeyed (h : rekeyed credentialRowId row user w = some s) :
    s.credentials = (w.credentials.filter fun c => c.userId ≠ row.userId) ++
      [passkeyCredentialRow credentialRowId row.userId (stagedMaterial row) .recovery] := by
  obtain ⟨a, ha, rfl⟩ := Option.map_eq_some_iff.mp h
  obtain ⟨_, rfl⟩ := Db.insertCredential_eq_some.mp ha
  rfl

theorem signingKeys_of_rekeyed (h : rekeyed credentialRowId row user w = some s) :
    s.signingKeys = w.signingKeys.filter fun k => k.userId ≠ row.userId := by
  obtain ⟨a, ha, rfl⟩ := Option.map_eq_some_iff.mp h
  obtain ⟨_, rfl⟩ := Db.insertCredential_eq_some.mp ha
  rfl

/-- Right after the re-key the account has the staged credential and nothing else. -/
theorem attributed_rekeyed (h : rekeyed credentialRowId row user w = some s)
    (hid : user.id = row.userId) (generation : ℕ) :
    Attributed ⟨user.id, generation, row.stagedCredentialId⟩ s := by
  constructor
  · intro c hc hu
    rw [credentials_of_rekeyed h] at hc
    rcases List.mem_append.mp hc with hold | hnew
    · have hne := (List.mem_filter.mp hold).2
      rw [hu] at hne
      simp [hid] at hne
    · obtain rfl := List.mem_singleton.mp hnew
      exact Or.inr ⟨rfl, rfl⟩
  · intro k hk hu
    rw [signingKeys_of_rekeyed h] at hk
    have hne := (List.mem_filter.mp hk).2
    rw [hu] at hne
    simp [hid] at hne

/-- Another account keeps what it had. -/
theorem attributed_other (h : rekeyed credentialRowId row user w = some s)
    (hid : user.id = row.userId) {r : Rekey} (hr : r.userId ≠ user.id) (ha : Attributed r w) :
    Attributed r s := by
  constructor
  · intro c hc hu
    rw [credentials_of_rekeyed h] at hc
    rcases List.mem_append.mp hc with hold | hnew
    · exact ha.credentials c (List.mem_filter.mp hold).1 hu
    · obtain rfl := List.mem_singleton.mp hnew
      exact absurd (hu.symm.trans hid.symm) hr
  · intro k hk hu
    rw [signingKeys_of_rekeyed h] at hk
    exact ha.keys k (List.mem_filter.mp hk).1 hu

theorem clean_of_rekeyed (hc : Clean w) (h : rekeyed credentialRowId row user w = some s)
    (hu : w.userById row.userId = some user) :
    Clean s ∧ ∀ u, generationOf u w ≤ generationOf u s := by
  have hid : user.id = row.userId := (Db.mem_of_userById hu).2
  rw [← hid] at hu
  have hself := generationOf_rekeyed_self h hu
  have hother : ∀ {u : String}, u ≠ user.id → generationOf u s = generationOf u w :=
    generationOf_rekeyed_other h
  have hgrows : ∀ u, generationOf u w ≤ generationOf u s := by
    intro u
    by_cases hne : u = user.id
    · subst hne
      omega
    · rw [hother hne]
  have hrekeys := rekeys_of_rekeyed h
  have hold : ∀ r ∈ w.rekeys, r ∈ s.rekeys := by
    intro r hr
    rw [hrekeys]
    exact List.mem_append_left _ hr
  have hnew : (⟨user.id, generationOf user.id w + 1, row.stagedCredentialId⟩ : Rekey) ∈
      s.rekeys := by
    rw [hrekeys]
    exact List.mem_append_right _ (List.mem_singleton_self _)
  have hcases : ∀ r ∈ s.rekeys, r ∈ w.rekeys ∨
      r = ⟨user.id, generationOf user.id w + 1, row.stagedCredentialId⟩ := by
    intro r hr
    rw [hrekeys] at hr
    exact (List.mem_append.mp hr).imp id List.mem_singleton.mp
  refine ⟨?_, hgrows⟩
  constructor
  · intro r hr
    rcases hcases r hr with hin | rfl
    · exact (hc.bounded r hin).trans (hgrows r.userId)
    · exact hself.ge
  · intro r hr
    by_cases hne : r.userId = user.id
    · exact ⟨_, hnew, hne.symm, by rw [hne, hself]⟩
    · rcases hcases r hr with hin | rfl
      · obtain ⟨r', hr', hru, hgen⟩ := hc.newest r hin
        exact ⟨r', hold r' hr', hru, by rw [hgen, hother hne]⟩
      · exact absurd rfl hne
  · intro r hr hcur
    rcases hcases r hr with hin | rfl
    · by_cases hne : r.userId = user.id
      · -- an older re-key of this account is not current any more
        have hle := hc.bounded r hin
        rw [hne] at hcur hle
        omega
      · rw [hother hne] at hcur
        exact attributed_other h hid hne (hc.attributed r hin hcur)
    · exact attributed_rekeyed h hid _

end

/-! ## The specification -/

def spec : Spec ℕ Db Memory Label where
  inv db _ := Clean db
  rely _ db _ db' _ := ∀ u, generationOf u db ≤ generationOf u db'
  meets t x := sessionCurrent t x = true
  rely_refl _ _ _ _ := le_rfl
  rely_trans h h' u := (h u).trans (h' u)

section
variable {p : ℕ} {x : Point Db Memory}

theorem allows_keeps {db s : Db} {mem mem' : Memory} {w w' : Option Db} (hi : Clean db)
    (h : Keeps db s) : spec.Allows p ⟨db, mem, w⟩ ⟨s, mem', w'⟩ :=
  ⟨h.clean hi, fun _ _ u => (h.generation u).ge⟩

/-- The requests of a session keep the invariant; the account's generation does not fall below
the session's. -/
theorem respects_session (user : User) {A : Label → (Db → Memory → Memory) → Prop} :
    Respects spec p (fun db _ => user.tokenGeneration ≤ generationOf user.id db) Keeps
      (SessionWrite user) A where
  refl := Keeps.refl
  trans := Keeps.trans
  stable he h := h.trans (he.rely user.id)
  write t f z s hw _ hv hk hm hs := by
    refine keeps_of_sessionWrite hw ?_ hm hs
    rw [hk.generation]
    exact hv
  segment t g z _ hi hv _ := ⟨⟨hi, fun _ _ _ => le_rfl⟩, hv⟩
  commit db mem s hi hv h := by
    refine ⟨allows_keeps hi h, ?_⟩
    rw [h.generation]
    exact hv

/-- Behind the gate the session's generation is that of the account. -/
theorem safe_session {r : Body Unit} {user : User} {token : Option Claims} (hx : x.work = none)
    (hgate : gate token x.db = .ok user) {A : Label → (Db → Memory → Memory) → Prop}
    (hr : Uses (SessionWrite user) A r) :
    Safe spec p r (fun _ _ => True) (fun _ _ => True) x := by
  obtain ⟨claims, _, hfound, _, _⟩ := gate_eq_ok hgate
  have hid : user.id = claims.userId := (Db.mem_of_userById hfound).2
  have hgen : user.tokenGeneration ≤ generationOf user.id x.db := by
    rw [hid, generationOf, hfound]
    exact le_rfl
  have hview : Keeps x.db x.view := by
    rw [Point.view_of_none hx]
    exact Keeps.refl x.db
  exact ((respects_session (p := p) user).safe hr hgen hview).mono (fun _ _ _ _ => trivial)
    fun _ _ _ _ => trivial

theorem safe_authenticated (hi : Clean x.db) (hx : x.work = none) (token : Option Claims)
    {route : User → Body Unit} {A : Label → (Db → Memory → Memory) → Prop}
    (hroute : ∀ user, Uses (SessionWrite user) A (route user)) :
    Safe spec p (authenticated token route) (fun _ _ => True) (fun _ _ => True) x := by
  have hbody : Safe spec p (do
      let user ← getCurrentUser token
      route user) (fun _ _ => True) (fun _ _ => True) x := by
    refine safe_getCurrentUser (fun y user hy hgate => ?_) fun _ _ _ => trivial
    rw [Point.view_of_none (hy.free hx)] at hgate
    exact safe_session (hy.free hx) hgate (hroute user)
  exact Safe.session (hbody.mono (fun _ _ _ _ _ _ => trivial) fun _ _ _ _ _ _ => trivial) hi

theorem safe_wsEndpoint (hx : x.work = none) (conn : ℕ) (h : Handshake) :
    Safe spec p (wsEndpoint conn h) (fun _ _ => True) (fun _ _ => True) x := by
  refine Safe.atomically fun y hy _ => ⟨⟨hy.inv, fun _ _ _ => le_rfl⟩, ?_⟩
  have hfree : y.work = none := hy.free hx
  rw [Point.view_of_none hfree]
  cases hgate : gate h.token y.db with
  | error e => exact Safe.pure fun _ _ => trivial
  | ok user =>
      have huses : Uses (SessionWrite user) (SocketSegment conn) (do
          accept conn h.completes
          register conn user.id
          serve conn user h.frames) := by
        refine Uses.bind (Uses.bind (Uses.atomically (.accept h.completes)) fun _ => ?_) fun _ => ?_
        · split_ifs <;> exact trivial
        · refine Uses.bind (Uses.atomically (.register user.id)) fun _ => ?_
          exact (uses_serve conn user h.frames).mono (fun _ _ hw => .serve hw) fun _ _ hs => hs
      exact safe_session (x := y.acted _) hfree hgate huses

theorem safe_recoverFinalize (crypto : Crypto) (hi : Clean x.db) (hx : x.work = none)
    (recoveryId finalizeToken credentialRowId : String) (now : Time) :
    Safe spec p (recoverFinalize crypto recoveryId finalizeToken credentialRowId now)
      (fun _ _ => True) (fun _ _ => True) x := by
  have hsession : Safe spec p
      (finalizeRecovery crypto recoveryId finalizeToken credentialRowId now).session
      (fun _ y => y.work = none) (fun _ _ => True) x := by
    refine safe_finalizeRecovery crypto recoveryId finalizeToken credentialRowId now hx hi
      (fun y hy => hy.free hx) (fun y row hy _ _ => ⟨?_, fun z hz => hz.free (hy.free hx)⟩)
      fun y row user s hy _ huser hkey => ⟨?_, fun z hz => hz.free (hy.free hx)⟩
    · exact allows_keeps hy.inv (keeps_of_same rfl rfl rfl rfl)
    · have htaken : Keeps y.db (takePending recoveryId (crypto.sha256Hex finalizeToken) now y.db) :=
        keeps_of_same rfl rfl rfl rfl
      have hclean := htaken.clean hy.inv
      obtain ⟨hs, hgrows⟩ := clean_of_rekeyed hclean hkey huser
      exact ⟨hs, fun _ _ => hgrows⟩
  refine Safe.andThen hsession hi fun s y hyi hyw => ?_
  cases s with
  | none => exact Safe.raise fun _ _ => trivial
  | some s =>
      have hdisconnect : Uses (fun _ _ => False) (fun _ _ => True) (disconnectUser s.userId) :=
        Uses.bind (Uses.atomically trivial) fun targets =>
          uses_closeAll (fun _ => trivial) (fun _ => trivial) targets
      have hmemory : Respects spec p (fun _ _ => True) Keeps (fun _ _ => False) (fun _ _ => True) :=
        { refl := Keeps.refl
          trans := Keeps.trans
          stable := fun _ _ => trivial
          write := fun _ _ _ _ hw => hw.elim
          segment := fun _ _ _ _ hi _ _ => ⟨⟨hi, fun _ _ _ => le_rfl⟩, trivial⟩
          commit := fun _ _ _ hi _ h => ⟨allows_keeps hi h, trivial⟩ }
      have hview : Keeps y.db y.view := by
        rw [Point.view_of_none hyw]
        exact Keeps.refl y.db
      exact Safe.andThen ((hmemory.safe hdisconnect trivial hview).mono (fun _ _ _ h => h)
        fun _ _ _ _ => trivial) hyi fun _ _ _ _ => Safe.pure fun _ _ => trivial

theorem safe_body (crypto : Crypto) (hi : Clean x.db) (hx : x.work = none)
    (req : TakeoverRequest) :
    Safe spec p (req.body crypto) (fun _ _ => True) (fun _ _ => True) x := by
  cases req with
  | finalize recoveryId finalizeToken credentialRowId now =>
      exact Safe.andThen (safe_recoverFinalize crypto hi hx recoveryId finalizeToken
        credentialRowId now) hi fun _ _ _ _ => Safe.pure fun _ _ => trivial
  | passkeyAdd token state credential rowId now =>
      refine safe_authenticated (A := fun _ _ => False) hi hx token fun user => ?_
      exact (uses_passkeyAddFinish crypto user state credential rowId now).mono
        (fun _ _ hw => .passkey hw) fun _ _ ha => ha
  | registerKey token pubkey keyVersion rowId now bumpedAt =>
      refine safe_authenticated (A := fun _ _ => False) hi hx token fun user => ?_
      exact (uses_registerKey user pubkey keyVersion rowId now bumpedAt).mono
        (fun _ _ hw => .key ⟨_, hw, rfl, rfl⟩) fun _ _ ha => ha
  | socket conn h => exact safe_wsEndpoint hx conn h

end

/-! ## Every run -/

/-- In every state of a run that meets the condition: an account that was re-keyed is at the
generation of its newest re-key, and its credentials and keys are the staged credential and rows
of sessions at that generation. -/
theorem rekeyed_account_is_clean {db₀ : Db} (hrekeys : db₀.rekeys = []) (mem₀ : Memory)
    (crypto : Crypto) (reqs : ℕ → TakeoverRequest) {c : Cfg ℕ Db Memory Label Exn Unit}
    (hr : Cfg.Reach (fun t x => sessionCurrent t x = true)
      (Cfg.init db₀ mem₀ fun p => (reqs p).body crypto) c) :
    ∀ r ∈ c.db.rekeys, ∃ newest ∈ c.db.rekeys, newest.userId = r.userId ∧
      r.generation ≤ newest.generation ∧ newest.generation = generationOf r.userId c.db ∧
      Attributed newest c.db := by
  have hinit : Clean db₀ := by
    constructor <;> simp [hrekeys]
  have hstart : Sound spec (fun _ _ _ => True) (fun _ _ _ => True)
      (Cfg.init db₀ mem₀ fun p => (reqs p).body crypto) :=
    Sound.init hinit fun p => safe_body crypto hinit rfl (reqs p)
  have hsound := hstart.reach hr
  intro r hr
  obtain ⟨newest, hmem, huser, hgen⟩ := hsound.inv.newest r hr
  refine ⟨newest, hmem, huser, ?_, hgen, ?_⟩
  · rw [hgen]
    exact hsound.inv.bounded r hr
  · refine hsound.inv.attributed newest hmem ?_
    rw [hgen, huser]

/-! ## Runs -/

/-- A toy of the libraries: every attestation verifies to a credential named after it, and a
token is its own hash. -/
def toyCrypto : Crypto where
  verifyRegistration _ credential := .ok { credentialId := credential, publicKey := credential }
  ed25519Verify _ _ _ := true
  sha256Hex := id

/-- An account with one passkey, a recovery past its deadline and an open register challenge. -/
def lostDevice : Db where
  users := [{ id := "U", username := "u", aikoUsername := "u" }]
  credentials := [
    { id := "c0", credentialId := "old", userId := "U", publicKey := "old", author := .session 0 }]
  challenges := [⟨"AAAA", .register, 100, false⟩]
  pending := [
    { id := "R", userId := "U", stagedCredentialId := "new", stagedPublicKey := "new",
      vetoDeadline := 5, finalizeTokenHash := "t" }]

/-- The old session adds a passkey while the recovery finalizes. -/
def takeoverRequests : ℕ → TakeoverRequest
  | 0 => .passkeyAdd (some ⟨"U", 0⟩) "AAAA" "evil" "c1" 10
  | _ => .finalize "R" "t" "c2" 10

def takeoverStart : Cfg ℕ Db Memory Label Exn Unit :=
  Cfg.init lostDevice {} fun p => (takeoverRequests p).body toyCrypto

/-- Without the condition the old session attaches a passkey after the re-key: it passed the gate
before the finalize and inserts after it. -/
theorem old_session_can_attach_a_passkey :
    ¬ ∀ (db₀ : Db) (mem₀ : Memory) (crypto : Crypto) (reqs : ℕ → TakeoverRequest)
      (c : Cfg ℕ Db Memory Label Exn Unit), db₀.rekeys = [] →
      Cfg.Reach (fun _ _ => True) (Cfg.init db₀ mem₀ fun p => (reqs p).body crypto) c →
      ∀ r ∈ c.db.rekeys, ∃ newest ∈ c.db.rekeys, newest.userId = r.userId ∧
        r.generation ≤ newest.generation ∧ newest.generation = generationOf r.userId c.db ∧
        Attributed newest c.db := by
  intro hclaim
  have hrun : (Cfg.play [0, 1, 1, 1, 1, 1, 1, 1, 1, 1, 0, 0, 0, 0] takeoverStart).map
      (fun c => (c.db.rekeys, c.db.credentials.map fun k => (k.userId, k.author))) =
      some ([⟨"U", 1, "new"⟩], [("U", .recovery), ("U", .session 0)]) := by
    decide +kernel
  obtain ⟨c, hc, hview⟩ := Option.map_eq_some_iff.mp hrun
  obtain ⟨hrekeys, hcreds⟩ := Prod.mk.injEq .. ▸ hview
  obtain ⟨newest, hmem, _, _, _, hattr⟩ := hclaim lostDevice {} toyCrypto takeoverRequests c rfl
    (Cfg.reach_of_play Cfg.Reach.start hc) ⟨"U", 1, "new"⟩ (by simp [hrekeys])
  rw [hrekeys, List.mem_singleton] at hmem
  subst hmem
  have hin : ("U", Author.session 0) ∈ c.db.credentials.map fun k => (k.userId, k.author) := by
    simp [hcreds]
  obtain ⟨k, hk, heq⟩ := List.mem_map.mp hin
  obtain ⟨huser, hauthor⟩ := Prod.mk.injEq .. ▸ heq
  have howner := hattr.credentials k hk huser
  rw [hauthor] at howner
  revert howner
  simp

/-- A passkey that is added before the finalize meets the condition and is gone after it. -/
theorem finalize_after_the_add_is_clean :
    ∃ c, Cfg.playChecked sessionCurrent [0, 0, 0, 0, 0, 1, 1, 1, 1, 1, 1, 1, 1, 1] takeoverStart =
        some c ∧
      ∀ r ∈ c.db.rekeys, ∃ newest ∈ c.db.rekeys, newest.userId = r.userId ∧
        r.generation ≤ newest.generation ∧ newest.generation = generationOf r.userId c.db ∧
        Attributed newest c.db := by
  have hrun : (Cfg.playChecked sessionCurrent [0, 0, 0, 0, 0, 1, 1, 1, 1, 1, 1, 1, 1, 1]
      takeoverStart).isSome = true := by
    decide +kernel
  obtain ⟨c, hc⟩ := Option.isSome_iff_exists.mp hrun
  exact ⟨c, hc, rekeyed_account_is_clean rfl {} toyCrypto takeoverRequests
    (Cfg.reach_of_playChecked (fun _ _ h => h) Cfg.Reach.start hc)⟩

end AikoIsland.Takeover
