import AikoIsland.Observing
import AikoIsland.Idempotency

/-!
# The roster of signing keys

Explicit registrations under one cap, sends that observe their key and
revocations, interleaved statement by statement. An INSERT of a send takes the
lock whether it is applied or refused, so the row that refused it is still there
to be bumped. An explicit registration looks for the row before it writes, and
again after a capped INSERT that added nothing, without the lock: a revocation
that comes between takes the row away, and the bump raises, or a key that was on
file when the INSERT looked is refused. So the result is about the runs in which
no row that an explicit registration has seen of its own key goes away between two
of its statements.
-/
namespace AikoIsland.KeyRoster
open Tables Gateway WriterLock RelyGuarantee Footprint Publishing Observing SigningKeys Messages
open Idempotency (OutboundCall raises_bindText raises_refuseBlockedDm)

/-! ## The requests -/

/-- A send with the row ids minted for its two attempts to insert the key. -/
structure SignedSend where
  call : OutboundCall
  first : String
  second : String

def SignedSend.minted (s : SignedSend) : Minted :=
  { s.call.minted with keyIds := [s.first, s.second] }

inductive SomeRequest where
  | register (o : KeyObservation) (id : String) (now bumpedAt : Time)
  | send (s : SignedSend)
  | revoke (userId pubkey : String)

def SomeRequest.body (maxKeys : ℕ) : SomeRequest → Body Bool
  | .register o id now bumpedAt => registerExplicitKey o id now bumpedAt maxKeys
  | .send s =>
      createOutbound s.call.user s.call.channel s.call.out s.minted >>= fun r => return r.2
  | .revoke userId pubkey => revokeKey userId pubkey

/-- Whose statement it is, the store that the statement before it left, and its own label. -/
abbrev Seen := SomeRequest × Option Db × Option Label

def family (maxKeys : ℕ) (requests : ℕ → SomeRequest) (p : ℕ) :
    Request Db Memory Seen Exn Bool :=
  observe (fun seen t => (requests p, seen, t)) none ((requests p).body maxKeys).session

/-- The key row of `a`, if there is one, is the key row of `b`. -/
def keyStays (userId pubkey : String) (a b : Db) : Bool :=
  match getKey userId pubkey a with
  | none => true
  | some k => (getKey userId pubkey b).any fun k' => k'.id = k.id

/-- What the ULID generator promises: the id of a new row is not in use. -/
def fresh : Seen → Point Db Memory → Bool
  | (.register _ id _ _, _, some (.sessionWrite _ _)), x =>
      x.view.signingKeys.all fun k => k.id ≠ id
  | (.send s, _, some (.sessionWrite _ _)), x =>
      x.view.signingKeys.all fun k => k.id ≠ s.first && k.id ≠ s.second
  | _, _ => true

/-- The condition on steps: a registration finds the row of its key that it saw before. -/
def kept : Seen → Point Db Memory → Bool
  | (.register o _ _ _, some s, _), x => keyStays o.userId o.pubkey s x.view
  | _, _ => true

/-! ## The table -/

/-- PRIMARY KEY (id), UNIQUE (user_id, pubkey). -/
structure Keyed (db : Db) : Prop where
  ids : (db.signingKeys.map (·.id)).Nodup
  keys : (db.signingKeys.map fun k => (k.userId, k.pubkey)).Nodup

/-- Every row is still there, with another `last_seen_at` at most. -/
def Persists (a b : Db) : Prop :=
  ∀ k ∈ a.signingKeys, ∃ t, { k with lastSeenAt := t } ∈ b.signingKeys

/-- What a send may do to the roster. -/
def Evolves (a b : Db) : Prop := Keyed a → Keyed b ∧ Persists a b

/-- Rows under one id agree in all but `last_seen_at`. -/
def SameColumns (a b : Db) : Prop :=
  ∀ k ∈ a.signingKeys, ∀ k' ∈ b.signingKeys, k'.id = k.id →
    k' = { k with lastSeenAt := k'.lastSeenAt }

section
variable {a b c db : Db} {k : SigningKey} {userId pubkey id : String} {t : Time}

theorem getKey_eq_some (h : getKey userId pubkey db = some k) :
    k ∈ db.signingKeys ∧ k.userId = userId ∧ k.pubkey = pubkey := by
  have hkey : k.userId = userId ∧ k.pubkey = pubkey := by
    simpa using List.find?_some h
  exact ⟨List.mem_of_find?_eq_some h, hkey⟩

theorem getKey_isSome (hk : k ∈ db.signingKeys) (huser : k.userId = userId)
    (hpubkey : k.pubkey = pubkey) : (getKey userId pubkey db).isSome = true := by
  rw [getKey, List.find?_isSome]
  exact ⟨k, hk, by simp [huser, hpubkey]⟩

/-- One row has this id. -/
theorem rowcount_one (hdb : Keyed db) (hk : k ∈ db.signingKeys) :
    (db.signingKeys.filter fun r => r.id = k.id).length = 1 := by
  have hcount : (db.signingKeys.map (·.id)).count k.id = 1 :=
    List.count_eq_one_of_mem hdb.ids (List.mem_map_of_mem hk)
  rw [List.count_eq_countP, List.countP_map, List.countP_eq_length_filter] at hcount
  rw [← hcount]
  congr 1

theorem Keyed.same (h : Keyed a) (hkeys : b.signingKeys = a.signingKeys) : Keyed b := by
  constructor
  · rw [hkeys]
    exact h.ids
  · rw [hkeys]
    exact h.keys

theorem keyed_bump (h : Keyed a) : Keyed (bumpKey id t a) := by
  have hmap : ∀ {β : Type} (f : SigningKey → β),
      (∀ k : SigningKey, f { k with lastSeenAt := t } = f k) →
        (bumpKey id t a).signingKeys.map f = a.signingKeys.map f := by
    intro β f hf
    rw [bumpKey, List.map_map]
    apply List.map_congr_left
    intro k _
    dsimp only [Function.comp]
    split_ifs
    · exact hf k
    · rfl
  constructor
  · rw [hmap _ fun _ => rfl]
    exact h.ids
  · rw [hmap _ fun _ => rfl]
    exact h.keys

theorem persists_bump : Persists a (bumpKey id t a) := by
  intro k hk
  have hmem : (if k.id = id then { k with lastSeenAt := t } else k) ∈
      (bumpKey id t a).signingKeys := List.mem_map_of_mem hk
  split_ifs at hmem
  · exact ⟨t, hmem⟩
  · exact ⟨k.lastSeenAt, hmem⟩

theorem keyed_insert (h : Keyed a) (hins : a.insertSigningKey k = some b) : Keyed b := by
  obtain ⟨hnew, rfl⟩ := Db.insertSigningKey_eq_some.mp hins
  constructor
  · rw [List.map_append, List.nodup_append]
    refine ⟨h.ids, List.nodup_singleton _, ?_⟩
    intro x hx y hy hxy
    obtain ⟨r, hr, rfl⟩ := List.mem_map.mp hx
    obtain rfl := List.mem_singleton.mp hy
    exact (hnew r hr).1 hxy
  · rw [List.map_append, List.nodup_append]
    refine ⟨h.keys, List.nodup_singleton _, ?_⟩
    intro x hx y hy hxy
    obtain ⟨r, hr, rfl⟩ := List.mem_map.mp hx
    obtain rfl := List.mem_singleton.mp hy
    obtain ⟨huser, hpubkey⟩ := Prod.mk.inj hxy
    exact (hnew r hr).2 huser hpubkey

theorem persists_insert (hins : a.insertSigningKey k = some b) : Persists a b := by
  obtain ⟨_, rfl⟩ := Db.insertSigningKey_eq_some.mp hins
  exact fun r hr => ⟨r.lastSeenAt, List.mem_append_left _ hr⟩

theorem keyed_delete (h : Keyed a) : Keyed (deleteKey userId pubkey a) :=
  ⟨h.ids.sublist (List.filter_sublist.map _), h.keys.sublist (List.filter_sublist.map _)⟩

theorem Persists.refl (a : Db) : Persists a a := fun k hk => ⟨k.lastSeenAt, hk⟩

theorem Persists.trans (h : Persists a b) (h' : Persists b c) : Persists a c := by
  intro k hk
  obtain ⟨t, ht⟩ := h k hk
  obtain ⟨t', ht'⟩ := h' _ ht
  exact ⟨t', ht'⟩

theorem Evolves.refl (a : Db) : Evolves a a := fun h => ⟨h, Persists.refl a⟩

theorem Evolves.trans (h : Evolves a b) (h' : Evolves b c) : Evolves a c := by
  intro ha
  obtain ⟨hb, hab⟩ := h ha
  obtain ⟨hc, hbc⟩ := h' hb
  exact ⟨hc, hab.trans hbc⟩

theorem evolves_keyWrite {o : KeyObservation} {l : Label} {f : Db → Option Db}
    (h : KeyWrite o l f) (hf : f a = some b) : Evolves a b := by
  intro ha
  cases h with
  | insert id now => exact ⟨keyed_insert ha hf, persists_insert hf⟩
  | capped id now maxKeys =>
      unfold cappedInsert at hf
      split_ifs at hf
      · exact ⟨keyed_insert ha hf, persists_insert hf⟩
      · obtain rfl := Option.some.inj hf
        exact ⟨ha, Persists.refl a⟩
  | bump id now =>
      obtain rfl := Option.some.inj hf
      exact ⟨keyed_bump ha, persists_bump⟩

theorem evolves_sendWrite {user : User} {rowId : String} {l : Label} {f : Db → Option Db}
    (h : SendWrite user rowId l f) (hf : f a = some b) : Evolves a b := by
  cases h with
  | message _ _ =>
      obtain ⟨_, rfl⟩ := Db.insertMessage_eq_some.mp hf
      exact fun ha => ⟨ha.same rfl, Persists.refl a⟩
  | key hkey =>
      obtain ⟨o, hwrite, _⟩ := hkey
      exact evolves_keyWrite hwrite hf

/-- Where every row persists, the row under an old id is the old row. -/
theorem sameColumns_of_persists (hb : Keyed b) (h : Persists a b) : SameColumns a b := by
  intro k hk k' hk' hid
  obtain ⟨t, ht⟩ := h k hk
  have hsame : k' = { k with lastSeenAt := t } :=
    List.inj_on_of_nodup_map hb.ids hk' ht hid
  rw [hsame]

theorem sameColumns_delete (ha : Keyed a) : SameColumns a (deleteKey userId pubkey a) := by
  intro k hk k' hk' hid
  have hold : k' ∈ a.signingKeys := List.mem_of_mem_filter hk'
  have hsame : k' = k := List.inj_on_of_nodup_map ha.ids hold hk hid
  rw [hsame]

/-- A row that stays is found again. -/
theorem getKey_of_keyStays (h : keyStays userId pubkey a b = true)
    (hk : getKey userId pubkey a = some k) :
    ∃ k', getKey userId pubkey b = some k' ∧ k'.id = k.id := by
  rw [keyStays, hk] at h
  cases hb : getKey userId pubkey b with
  | none =>
      rw [hb] at h
      cases h
  | some k' =>
      rw [hb] at h
      exact ⟨k', rfl, by simpa using h⟩

theorem getKey_of_inserted {r : SigningKey} (hins : a.insertSigningKey r = some b) :
    ∃ k, getKey r.userId r.pubkey b = some k := by
  rw [← Option.isSome_iff_exists]
  obtain ⟨_, rfl⟩ := Db.insertSigningKey_eq_some.mp hins
  exact getKey_isSome (List.mem_append_right _ (List.mem_singleton.mpr rfl)) rfl rfl

/-- A refused INSERT under a new id found the row of the key. -/
theorem getKey_of_refused {r : SigningKey} (hins : db.insertSigningKey r = none)
    (hnew : ∀ k ∈ db.signingKeys, k.id ≠ r.id) :
    ∃ k, getKey r.userId r.pubkey db = some k := by
  rw [← Option.isSome_iff_exists]
  by_contra hnone
  have hfree : ∀ k ∈ db.signingKeys, k.id ≠ r.id ∧ (k.userId = r.userId → k.pubkey ≠ r.pubkey) :=
    fun k hk => ⟨hnew k hk, fun huser hpubkey => hnone (getKey_isSome hk huser hpubkey)⟩
  have hsome := Db.insertSigningKey_eq_some.mpr ⟨hfree, rfl⟩
  rw [hins] at hsome
  cases hsome

end

def spec : Spec ℕ Db Memory Seen where
  inv db _ := Keyed db
  rely _ _ _ _ _ := True
  meets t x := fresh t x = true ∧ kept t x = true
  rely_refl _ _ _ := trivial
  rely_trans _ _ := trivial

/-! ## Sends -/

/-- Not one of the errors that the observation of a key may end with. -/
def KeyFine (e : Exn) : Prop := e ≠ .integrityError ∧ e ≠ .staleDataError

def NoKeyError {α : Type} (r : Except Exn α) : Prop := ∀ e, r = .error e → KeyFine e

section
variable {p : ℕ} {x : Point Db Memory} {past : List (Db × Db)} {α : Type}
  {g : Option Db → Option Label → Seen} {user : User} {rowId : String}

theorem respects_send :
    Respects (unseen g spec) p (fun _ _ => True) Evolves (SendWrite user rowId)
      fun _ _ => False where
  refl := Evolves.refl
  trans := Evolves.trans
  stable _ _ := trivial
  write _ _ _ _ h _ _ _ _ hf := evolves_sendWrite h hf
  segment _ _ _ h := h.elim
  commit _ _ _ hi _ hs := ⟨⟨(hs hi).1, fun _ _ => trivial⟩, trivial⟩

theorem owed_keyFine {e : Exn} (h : KeyFine e) (past : List (Db × Db)) :
    Owed (fun _ => @NoKeyError α) past (.error e) := by
  have herror : @NoKeyError α (.error e) := fun e' he' => Except.error.inj he' ▸ h
  exact ⟨fun _ => herror, fun _ _ => herror⟩

theorem publishes_tail (user : User) (rowId : String) {r : Body α}
    (huses : Uses (SendWrite user rowId) (fun _ _ => False) r) (hraises : Raises KeyFine r)
    (hx : Evolves x.db x.view) :
    Publishes (unseen g spec) p Evolves (fun _ => NoKeyError) past r x :=
  (raises_publishes hraises (of_respects respects_send huses hx)).mono (fun _ _ h => h) fun _ _ h => h.2

/-- The observation of a key under a fresh id raises nothing: a refused INSERT holds the lock, and
the row that refused it is bumped. -/
theorem publishes_recordSigningKey {s : SignedSend} {o : KeyObservation} {now bumpedAt : Time}
    {k : Unit → Body α} (hx : Evolves x.db x.view)
    (hk : ∀ past y, Evolves y.db y.view →
      Publishes (unseen (fun seen t => (.send s, seen, t)) spec) p Evolves (fun _ => NoKeyError)
        past (k ()) y) :
    Publishes (unseen (fun seen t => (.send s, seen, t)) spec) p Evolves (fun _ => NoKeyError)
      past (recordSigningKey o now bumpedAt [s.first, s.second] >>= k) x := by
  intro y hy hm
  have hview : Evolves y.db y.view := env_view Evolves.refl hy hx
  constructor
  · intro w hw
    have hstep : Evolves y.db w := hview.trans (evolves_keyWrite (.insert s.first now) hw)
    constructor
    · intro hn
      have hsame : ({ y with db := w } : Point Db Memory).view = w := Point.view_of_none hn.2
      refine ⟨hstep, ⟨(hstep hy.inv).1, fun _ _ => trivial⟩, hk _ _ ?_⟩
      rw [hsame]
      exact Evolves.refl w
    · exact fun _ => hk _ _ hstep
  · intro hrefused z hz
    have hzview : z.view = y.view := hz.view_eq rfl
    have hzdb : z.db = y.db := hz.db_eq rfl
    obtain ⟨seen, hfresh, _⟩ := hm
    have hnew : ∀ r ∈ y.view.signingKeys, r.id ≠ s.first := by
      intro r hr
      have hall : fresh (.send s, seen, some (.sessionWrite o.userId o.generation)) y = true :=
        hfresh
      simp only [fresh, List.all_eq_true, Bool.and_eq_true, decide_eq_true_eq] at hall
      exact (hall r hr).1
    obtain ⟨row, hrow⟩ := getKey_of_refused (r := o.row s.first now) hrefused hnew
    have hfound : getKey o.userId o.pubkey z.view = some row := by
      rw [hzview]
      exact hrow
    dsimp only
    rw [hfound]
    intro v hv _
    have hvview : v.view = y.view := hv.view_eq (hz.work.trans rfl)
    have hvdb : v.db = y.db := (hv.db_eq (hz.work.trans rfl)).trans hzdb
    have hkeyed : Keyed v.view := by
      rw [hvview]
      exact (hview hy.inv).1
    have hcount : (v.view.signingKeys.filter fun r => r.id = row.id).length = 1 := by
      apply rowcount_one hkeyed
      rw [hvview]
      exact (getKey_eq_some hrow).1
    constructor
    · intro w hw
      obtain rfl := Option.some.inj hw
      constructor
      · exact fun hn => absurd hn.1 (by decide)
      · intro _
        dsimp only
        rw [hcount]
        apply hk
        rw [Point.view_mk_some, hvdb, hvview]
        exact hview.trans (evolves_keyWrite (o := o) (.bump row.id bumpedAt) rfl)
    · intro hnone
      cases hnone

theorem publishes_send (s : SignedSend) (hx : Evolves x.db x.view) :
    Publishes (unseen (fun seen t => (.send s, seen, t)) spec) p Evolves (fun _ => NoKeyError) past
      (createOutbound s.call.user s.call.channel s.call.out s.minted) x := by
  have hrespects : Respects (unseen (fun seen t => (SomeRequest.send s, seen, t)) spec) p
      (fun _ _ => True) Evolves (SendWrite s.call.user s.minted.msgId) fun _ _ => False :=
    respects_send
  have hencode : KeyFine .unicodeEncodeError :=
    ⟨fun h => (by cases h), fun h => (by cases h)⟩
  have hblocked : KeyFine .blockedDmSend := ⟨fun h => (by cases h), fun h => (by cases h)⟩
  have hclash : KeyFine .messageIntegrityError := ⟨fun h => (by cases h), fun h => (by cases h)⟩
  have hrest : ∀ clientMsgId past y, Evolves y.db y.view →
      Publishes (unseen (fun seen t => (SomeRequest.send s, seen, t)) spec) p Evolves
        (fun _ => NoKeyError) past (do
          let body ← bindText s.call.out.body
          let row := outboundRow s.call.user s.call.channel s.call.out body clientMsgId s.minted
          flushOr .messageIntegrityError (fun db => db.insertMessage row)
            (.messageInsert row.id s.call.channel.id clientMsgId)
          commit
          return (row, true)) y := by
    intro clientMsgId past y hy
    apply publishes_tail s.call.user s.minted.msgId _ _ hy
    · exact Uses.bind (uses_bindText _) fun body => Uses.bind (uses_flushOr
        (.message (m := outboundRow s.call.user s.call.channel s.call.out body clientMsgId s.minted)
          rfl rfl)) fun _ => Uses.bind (Uses.commitNow _) fun _ => trivial
    · apply Raises.bind (raises_bindText hencode _)
      intro body
      exact Raises.bind ⟨fun _ => trivial, fun _ => hclash⟩ fun _ => trivial
  apply Publishes.after_respects hrespects (uses_bindText _) (raises_bindText hencode _) hx
    fun past e he => owed_keyFine he past
  intro past clientMsgId y hy
  apply Publishes.query
  intro z hz
  have hz' : Evolves z.db z.view := env_view Evolves.refl hz hy
  cases z.view.messages.find? fun m =>
      m.channelId = s.call.channel.id && m.clientMsgId = some clientMsgId with
  | some existing =>
      have hok : NoKeyError (.ok (existing, false)) := fun e he => by cases he
      exact ⟨fun _ => hok, fun _ _ => hok⟩
  | none =>
      apply Publishes.after_respects hrespects (uses_refuseBlockedDm _ _)
        (raises_refuseBlockedDm hblocked _ _) hz' fun past e he => owed_keyFine he past
      intro past _ v hv
      unfold recordOrigin
      cases s.call.out.origin with
      | none => exact hrest clientMsgId past v hv
      | some origin => exact publishes_recordSigningKey hv fun past y => hrest clientMsgId past y

end

/-! ## Explicit registrations -/

/-- The row of the key was bumped. -/
def Bumps (o : KeyObservation) (bumpedAt : Time) (a b : Db) : Prop :=
  ∃ k, getKey o.userId o.pubkey a = some k ∧ b = bumpKey k.id bumpedAt a

/-- What an explicit registration publishes. -/
inductive Registers (o : KeyObservation) (id : String) (now bumpedAt : Time) (maxKeys : ℕ)
    (a b : Db) : Prop
  | bumped (h : Bumps o bumpedAt a b)
  | inserted (hroom : keyCount o.userId a < maxKeys) (h : a.insertSigningKey (o.row id now) = some b)
  | suppressed (h : b = a)

/-- The key is absent and the cap is reached. -/
def Full (o : KeyObservation) (maxKeys : ℕ) (db : Db) : Prop :=
  getKey o.userId o.pubkey db = none ∧ maxKeys ≤ keyCount o.userId db

/-- A registration succeeds, or what it published was a capped INSERT on a full roster. -/
def Registered (o : KeyObservation) (maxKeys : ℕ) (ab : Option (Db × Db)) (r : Except Exn Bool) :
    Prop :=
  r = .ok true ∨ r = .ok false ∧ ∃ a b, ab = some (a, b) ∧ Full o maxKeys a

/-- The end of a registration that found the row. -/
def bumpFound (id : String) (bumpedAt : Time) : Body Bool := do
  flushBump id bumpedAt
  commit
  return true

/-- A registration after its capped INSERT: the rows it added and the row fetched again. -/
def afterInsert (bumpedAt : Time) : Option ℕ → Option SigningKey → Body Bool
  | none, none => throwExn .integrityError
  | none, some existing => bumpFound existing.id bumpedAt
  | some 0, some existing => bumpFound existing.id bumpedAt
  | some 0, none => return false
  | some (_ + 1), some _ => do
      commit
      return true
  | some (_ + 1), none => do
      commit
      throwExn (.raised "AttributeError")

section
variable {p : ℕ} {x : Point Db Memory} {past : List (Db × Db)} {o : KeyObservation}
  {id : String} {now bumpedAt : Time} {maxKeys : ℕ} {G : Db → Db → Prop}
  {N : Option (Db × Db) → Except Exn Bool → Prop}

/-- The labels of one registration. -/
def labels (o : KeyObservation) (id : String) (now bumpedAt : Time) (seen : Option Db)
    (t : Option Label) : Seen :=
  (.register o id now bumpedAt, seen, t)

theorem owed_true (hN : ∀ ab, N ab (.ok true)) (past : List (Db × Db)) :
    Owed N past (.ok true) :=
  ⟨fun _ => hN none, fun ab _ => hN (some ab)⟩

theorem keyed_committed {s : Db} (h : Keyed s) (y : Point Db Memory) (mem : Memory)
    (w : Option Db) : spec.Allows p y ⟨s, mem, w⟩ :=
  ⟨h, fun _ _ => trivial⟩

/-- A registration that found its row, and finds it again, bumps it. -/
theorem publishes_bumpFound (hG : ∀ a b, Bumps o bumpedAt a b → G a b)
    (hN : ∀ ab, N ab (.ok true)) {s : Db} {k : SigningKey}
    (hk : getKey o.userId o.pubkey s = some k) (hx : x.view = x.db) :
    Publishes spec p G N past
      (observe (labels o id now bumpedAt) (some s) (bumpFound k.id bumpedAt).session) x := by
  intro y hy hm
  have hview : y.view = y.db := env_view (R := fun a b => b = a) (fun _ => rfl) hy hx
  obtain ⟨k', hk', hid⟩ := getKey_of_keyStays hm.2 hk
  have hmem : k' ∈ y.view.signingKeys := (getKey_eq_some hk').1
  have hkeyed : Keyed y.view := by
    rw [hview]
    exact hy.inv
  have hcount : (y.view.signingKeys.filter fun r => r.id = k.id).length = 1 := by
    rw [← hid]
    exact rowcount_one hkeyed hmem
  constructor
  · intro w hw
    obtain rfl := Option.some.inj hw
    constructor
    · exact fun hn => absurd hn.1 (by decide)
    · intro _
      dsimp only
      rw [hcount]
      intro z hz _
      have hzwork : z.work = some (bumpKey k.id bumpedAt y.view) := hz.work
      have hzdb : z.db = y.view := (hz.db_eq rfl).trans hview.symm
      constructor
      · intro hfree
        rw [hzwork] at hfree
        cases hfree
      · intro w hw
        obtain rfl := Option.some.inj (hzwork.symm.trans hw)
        refine ⟨hG _ _ ⟨k', ?_, ?_⟩, ?_, fun _ _ => owed_true hN _⟩
        · rw [hzdb]
          exact hk'
        · rw [hzdb, hid]
        · rw [Point.committed, Point.view_of_some hzwork]
          exact keyed_committed (keyed_bump hkeyed) _ _ _
  · intro hnone
    cases hnone

/-- After the capped INSERT the row is fetched again: a row that was there is still there. -/
theorem publishes_refetch (hG : ∀ a b, Bumps o bumpedAt a b → G a b)
    (hN : ∀ ab, N ab (.ok true)) {s : Db} {rows : Option ℕ} (hx : x.view = x.db)
    (hrows : rows = none ∨ rows = some 0 ∨ rows = some 1 ∧ x.work = none)
    (hs : (∃ k, getKey o.userId o.pubkey s = some k) ∨ rows = some 0 ∧ Owed N past (.ok false)) :
    Publishes spec p G N past
      (observe (labels o id now bumpedAt) (some s)
        (select (getKey o.userId o.pubkey) >>= afterInsert bumpedAt rows).session) x := by
  intro y hy hm
  have hview : y.view = y.db := env_view (R := fun a b => b = a) (fun _ => rfl) hy hx
  refine ⟨keyed_committed hy.inv _ _ _, ?_⟩
  change Publishes spec p G N past (observe (labels o id now bumpedAt) (some y.view)
    (afterInsert bumpedAt rows (getKey o.userId o.pubkey y.view)).session) y
  cases hkey : getKey o.userId o.pubkey y.view with
  | none =>
      rcases hs with ⟨k, hk⟩ | ⟨rfl, hfalse⟩
      · obtain ⟨k', hk', _⟩ := getKey_of_keyStays hm.2 hk
        rw [hkey] at hk'
        cases hk'
      · exact fun _ _ => hfalse
  | some k =>
      rcases hrows with rfl | rfl | ⟨rfl, hfree⟩
      · exact publishes_bumpFound hG hN hkey hview
      · exact publishes_bumpFound hG hN hkey hview
      · intro z hz _
        constructor
        · exact fun _ _ _ => owed_true hN _
        · intro w hw
          rw [hz.free (hy.free hfree)] at hw
          cases hw

theorem registerExplicitKey_eq :
    registerExplicitKey o id now bumpedAt maxKeys = (do
      match ← select (getKey o.userId o.pubkey) with
      | some existing => bumpFound existing.id bumpedAt
      | none =>
          let rows ← executeCapped o id now maxKeys
          select (getKey o.userId o.pubkey) >>= afterInsert bumpedAt rows) := by
  unfold registerExplicitKey
  congr 1
  funext existing
  cases existing with
  | some existing => rfl
  | none =>
      dsimp only
      congr 1
      funext rows
      have hafter : ∀ f : Option SigningKey → Body Bool,
          (∀ row, f row = afterInsert bumpedAt rows row) →
            (select (getKey o.userId o.pubkey) >>= f) =
              select (getKey o.userId o.pubkey) >>= afterInsert bumpedAt rows := by
        intro f hf
        rw [funext hf]
      match rows with
      | none => exact hafter _ fun row => by cases row <;> rfl
      | some 0 => exact hafter _ fun row => by cases row <;> rfl
      | some (_ + 1) => exact hafter _ fun row => by cases row <;> rfl

theorem publishes_register (hx : x.work = none) :
    Publishes spec p (Registers o id now bumpedAt maxKeys) (Registered o maxKeys) []
      (observe (labels o id now bumpedAt) none
        (registerExplicitKey o id now bumpedAt maxKeys).session) x := by
  have hG : ∀ a b, Bumps o bumpedAt a b → Registers o id now bumpedAt maxKeys a b :=
    fun _ _ h => .bumped h
  have hN : ∀ ab, Registered o maxKeys ab (.ok true) := fun _ => Or.inl rfl
  rw [registerExplicitKey_eq]
  intro y hy _
  have hyfree : y.work = none := hy.free hx
  have hyview : y.view = y.db := Point.view_of_none hyfree
  refine ⟨keyed_committed hy.inv _ _ _, ?_⟩
  change Publishes spec p _ _ _ (observe _ (some y.view) (Request.session
    (match getKey o.userId o.pubkey y.view with
      | some existing => bumpFound existing.id bumpedAt
      | none => do
          let rows ← executeCapped o id now maxKeys
          select (getKey o.userId o.pubkey) >>= afterInsert bumpedAt rows))) y
  cases hfirst : getKey o.userId o.pubkey y.view with
  | some k => exact publishes_bumpFound hG hN hfirst hyview
  | none =>
      intro z hz hm
      have hzfree : z.work = none := hz.free hyfree
      have hzview : z.view = z.db := Point.view_of_none hzfree
      have hkeyed : Keyed z.view := by
        rw [hzview]
        exact hz.inv
      have hnew : ∀ k ∈ z.view.signingKeys, k.id ≠ id := by
        have hfresh : (z.view.signingKeys.all fun k => k.id ≠ id) = true := hm.1
        simpa using hfresh
      constructor
      · intro w hw
        constructor
        · intro _
          change Registers o id now bumpedAt maxKeys z.db w ∧ _ ∧ Publishes spec p _ _ _
            (observe _ (some ((cappedInsert o id now maxKeys z.view).getD z.view))
              (Request.session (select (getKey o.userId o.pubkey) >>= afterInsert bumpedAt
                (some (if keyCount o.userId z.view < maxKeys then 1 else 0))))) _
          rw [hw, Option.getD_some]
          by_cases hroom : keyCount o.userId z.view < maxKeys
          · rw [cappedInsert, if_pos hroom] at hw
            rw [if_pos hroom]
            refine ⟨?_, keyed_committed (keyed_insert hkeyed hw) _ _ _, ?_⟩
            · rw [← hzview]
              exact .inserted hroom hw
            · apply publishes_refetch hG hN
              · exact Point.view_of_none hzfree
              · exact Or.inr (Or.inr ⟨rfl, hzfree⟩)
              · exact Or.inl (getKey_of_inserted hw)
          · rw [cappedInsert, if_neg hroom] at hw
            obtain rfl := Option.some.inj hw
            rw [if_neg hroom]
            refine ⟨.suppressed hzview, keyed_committed hkeyed _ _ _, ?_⟩
            apply publishes_refetch hG hN
            · exact Point.view_of_none hzfree
            · exact Or.inr (Or.inl rfl)
            · cases hkey : getKey o.userId o.pubkey z.view with
              | some k => exact Or.inl ⟨k, rfl⟩
              | none =>
                  right
                  have hfull : Full o maxKeys z.db := by
                    rw [← hzview]
                    exact ⟨hkey, Nat.le_of_not_lt hroom⟩
                  constructor
                  · rfl
                  · constructor
                    · intro h
                      cases h
                    · intro ab hab
                      obtain rfl := List.mem_singleton.mp hab
                      exact Or.inr ⟨rfl, _, _, rfl, hfull⟩
        · exact fun hn => absurd ⟨rfl, hzfree⟩ hn
      · intro hrefused
        apply publishes_refetch hG hN
        · rw [Point.refused_view, Point.refused_db]
          exact hzview
        · exact Or.inl rfl
        · left
          unfold cappedInsert at hrefused
          split_ifs at hrefused
          exact getKey_of_refused hrefused hnew

end

/-! ## Runs -/

/-- The publications of each request. -/
def Writes (maxKeys : ℕ) : SomeRequest → Db → Db → Prop
  | .register o id now bumpedAt, a, b => Registers o id now bumpedAt maxKeys a b
  | .send _, a, b => Evolves a b
  | .revoke userId pubkey, a, b => b = deleteKey userId pubkey a

/-- The result of each request, by what it published. -/
def Answers (maxKeys : ℕ) : SomeRequest → Option (Db × Db) → Except Exn Bool → Prop
  | .register o _ _ _, ab, r => Registered o maxKeys ab r
  | .send _, _, r => NoKeyError r
  | .revoke _ _, _, _ => True

section
variable {p : ℕ} {x : Point Db Memory} {maxKeys : ℕ} {requests : ℕ → SomeRequest} {a b : Db}

theorem publishes_revoke {g : Option Db → Option Label → Seen} {userId pubkey : String}
    (hx : x.work = none) :
    Publishes (unseen g spec) p (fun a b => b = deleteKey userId pubkey a) (fun _ _ => True) []
      (revokeKey userId pubkey) x := by
  apply Publishes.exec
  intro y hy _
  have hview : y.view = y.db := Point.view_of_none (hy.free hx)
  apply Publishes.commit rfl
  intro z hz _
  have hzdb : z.db = y.view := (hz.db_eq rfl).trans hview.symm
  have hkeyed : Keyed y.view := by
    rw [hview]
    exact hy.inv
  refine ⟨?_, ⟨keyed_delete hkeyed, fun _ _ => trivial⟩, fun _ => trivial, fun _ _ => trivial⟩
  rw [hzdb]

theorem publishes_family (p : ℕ) (db : Db) (mem : Memory) :
    Publishes spec p (Writes maxKeys (requests p)) (Answers maxKeys (requests p)) []
      (family maxKeys requests p) ⟨db, mem, none⟩ := by
  unfold family
  cases requests p with
  | register o id now bumpedAt => exact publishes_register rfl
  | send s =>
      apply publishes_observe
      apply Publishes.session
      apply Publishes.map
      apply (publishes_send s (Evolves.refl db)).mono
      · exact fun _ _ h => h
      · intro _ r hr e he
        apply hr
        cases r with
        | error e' => exact congrArg Except.error (Except.error.inj he)
        | ok a => cases he
  | revoke userId pubkey =>
      apply publishes_observe
      apply Publishes.session
      exact publishes_revoke rfl

/-- Every publication leaves the columns of a row as they are. -/
theorem sameColumns_of_writes (ha : Keyed a) {r : SomeRequest} (h : Writes maxKeys r a b) :
    SameColumns a b := by
  cases r with
  | register o id now bumpedAt =>
      have hevolves : Keyed b ∧ Persists a b := by
        cases h with
        | bumped h =>
            obtain ⟨k, _, rfl⟩ := h
            exact ⟨keyed_bump ha, persists_bump⟩
        | inserted _ h => exact ⟨keyed_insert ha h, persists_insert h⟩
        | suppressed h =>
            rw [h]
            exact ⟨ha, Persists.refl a⟩
      exact sameColumns_of_persists hevolves.1 hevolves.2
  | send s => exact sameColumns_of_persists (h ha).1 (h ha).2
  | revoke userId pubkey =>
      rw [show b = deleteKey userId pubkey a from h]
      exact sameColumns_delete ha

/-- A registration that adds a row found room for it. -/
theorem room_of_registers {o : KeyObservation} {id : String} {now bumpedAt : Time}
    (h : Registers o id now bumpedAt maxKeys a b) {k : SigningKey} (hk : k ∈ b.signingKeys)
    (hnew : ∀ k' ∈ a.signingKeys, k'.id ≠ k.id) : keyCount o.userId a < maxKeys := by
  cases h with
  | bumped h =>
      obtain ⟨r, _, rfl⟩ := h
      obtain ⟨k', hk', rfl⟩ := List.mem_map.mp hk
      exact absurd (by split_ifs <;> rfl) (hnew k' hk')
  | inserted hroom _ => exact hroom
  | suppressed h =>
      rw [h] at hk
      exact absurd rfl (hnew k hk)

end

section
variable {db : Db} {mem : Memory} {maxKeys : ℕ} {requests : ℕ → SomeRequest}
  {c : Cfg ℕ Db Memory Seen Exn Bool}

/-- What a run owes to the roster in the state `c` that it has reached, and in the step that
follows. -/
structure RosterKept (P : Seen → Point Db Memory → Prop) (db : Db) (mem : Memory) (maxKeys : ℕ)
    (requests : ℕ → SomeRequest) (c : Cfg ℕ Db Memory Seen Exn Bool) : Prop where
  /-- A user has one row for a pubkey. -/
  unique : (c.db.signingKeys.map fun k => (k.userId, k.pubkey)).Nodup
  /-- A row that lives on keeps its version and its birth. -/
  columns : ∀ p c', c.Meets P p → c.step p = some c' → ∀ k ∈ c.db.signingKeys,
    ∀ k' ∈ c'.db.signingKeys, k'.id = k.id →
      k'.keyVersion = k.keyVersion ∧ k'.firstSeenAt = k.firstSeenAt
  /-- A registration adds a row under the cap only. -/
  capped : ∀ p c' o id now bumpedAt, requests p = .register o id now bumpedAt →
    c.Meets P p → c.step p = some c' → ∀ k ∈ c'.db.signingKeys,
      (∀ k' ∈ c.db.signingKeys, k'.id ≠ k.id) → keyCount o.userId c.db < maxKeys
  /-- A refusal comes from a write that found the key absent and the cap reached. -/
  refused : ∀ p o id now bumpedAt, requests p = .register o id now bumpedAt →
    c.procs p = .ret false → ∃ c₁ c₂, Cfg.Reach P (Cfg.init db mem (family maxKeys requests)) c₁ ∧
      c₁.step p = some c₂ ∧ Cfg.Reach P c₂ c ∧ publishing (c₁.procs p) (c₁.point p) = true ∧
        Full o maxKeys c₁.db
  /-- A registration of a key that is held when it starts succeeds and bumps the row. -/
  held : ∀ p o id now bumpedAt, requests p = .register o id now bumpedAt → ∀ c₁ c₂,
    Cfg.Reach P (Cfg.init db mem (family maxKeys requests)) c₁ →
    c₁.procs p = family maxKeys requests p → getKey o.userId o.pubkey c₁.db ≠ none →
    c₁.Meets P p → c₁.step p = some c₂ → Cfg.Reach P c₂ c →
      ((c.procs p).ended = true → c.procs p = .ret true) ∧
        ∀ c', c.Meets P p → c.step p = some c' → c'.db = c.db ∨ Bumps o bumpedAt c.db c'.db
  /-- A send raises none of the errors of a key observation. -/
  recorded : ∀ p s, requests p = .send s → ∀ e, c.procs p = .raise e → KeyFine e

/-- The condition on the steps of a run. -/
def Meeting (t : Seen) (x : Point Db Memory) : Prop := fresh t x = true ∧ kept t x = true

theorem guarded_init (maxKeys : ℕ) (requests : ℕ → SomeRequest) (mem : Memory) (hdb : Keyed db) :
    Guarded spec (fun p => Writes maxKeys (requests p)) (fun p => Answers maxKeys (requests p))
      (fun _ => []) (Cfg.init db mem (family maxKeys requests)) :=
  ⟨hdb, fun p => publishes_family p db mem⟩

/-- A registration that found its row at its first statement. -/
theorem held_of_found {p : ℕ} {o : KeyObservation} {id : String} {now bumpedAt : Time}
    {c₁ c₂ : Cfg ℕ Db Memory Seen Exn Bool} (hdb : Keyed db)
    (hp : requests p = .register o id now bumpedAt)
    (hr : Cfg.Reach spec.meets (Cfg.init db mem (family maxKeys requests)) c₁)
    (hstart : c₁.procs p = family maxKeys requests p)
    (hkey : getKey o.userId o.pubkey c₁.db ≠ none) (hm : c₁.Meets spec.meets p)
    (hs : c₁.step p = some c₂) (hr' : Cfg.Reach spec.meets c₂ c) :
    ((c.procs p).ended = true → c.procs p = .ret true) ∧
      ∀ c', c.Meets spec.meets p → c.step p = some c' →
        c'.db = c.db ∨ Bumps o bumpedAt c.db c'.db := by
  obtain ⟨past, hguarded, _⟩ := (guarded_init maxKeys requests mem hdb).reach hr
  obtain ⟨past', hnext, _⟩ := hguarded.step hm hs
  have hfree : c₁.work p = none := work_of_unstarted hr hstart
  have hview : (c₁.point p).view = c₁.db := Point.view_of_none hfree
  obtain ⟨k, hk⟩ := Option.ne_none_iff_exists'.mp hkey
  -- from here on the registration is the bump of that row
  have hfamily : family maxKeys requests p = observe (labels o id now bumpedAt) none
      (registerExplicitKey o id now bumpedAt maxKeys).session := by
    rw [family, hp]
    rfl
  have hadvance : (c₁.procs p).advance (c₁.point p) =
      (observe (labels o id now bumpedAt) (some c₁.db) (bumpFound k.id bumpedAt).session,
        c₁.point p) := by
    rw [hstart, hfamily, registerExplicitKey_eq]
    change (observe _ (some (c₁.point p).view) (Request.session
      (match getKey o.userId o.pubkey (c₁.point p).view with
        | some existing => bumpFound existing.id bumpedAt
        | none => do
            let rows ← executeCapped o id now maxKeys
            select (getKey o.userId o.pubkey) >>= afterInsert bumpedAt rows)), c₁.point p) = _
    rw [hview, hk]
  obtain ⟨_, _, hput⟩ := Cfg.step_cases hs
  rw [hadvance] at hput
  have hprocs : c₂.procs p =
      observe (labels o id now bumpedAt) (some c₁.db) (bumpFound k.id bumpedAt).session := by
    rw [hput]
    exact Function.update_self p _ c₁.procs
  have hpoint : c₂.point p = c₁.point p := by
    rw [hput]
    exact Cfg.point_put_self _ _
  have hwork : (c₂.point p).view = (c₂.point p).db := by
    rw [hpoint]
    exact hview
  have hbumps : Guarded spec
      (fun q => if q = p then Bumps o bumpedAt else Writes maxKeys (requests q))
      (fun q => if q = p then fun _ r => r = .ok true else Answers maxKeys (requests q))
      (fun q => if q = p then [] else past' q) c₂ := by
    constructor
    · exact hnext.inv
    · intro q
      by_cases hqp : q = p
      · subst hqp
        simp only [if_true]
        rw [hprocs]
        exact publishes_bumpFound (N := fun _ r => r = .ok true) (fun _ _ h => h) (fun _ => rfl) hk hwork
      · simp only [if_neg hqp]
        exact hnext.publishes q
  obtain ⟨later, hlater, _⟩ := hbumps.reach hr'
  constructor
  · intro hend
    cases hlast : c.procs p with
    | ret a =>
        obtain ⟨_, howed⟩ := (hlater.result (r := .ok a) hlast).elim
        rw [if_pos rfl] at howed
        rw [Except.ok.inj howed]
    | raise e =>
        obtain ⟨_, howed⟩ := (hlater.result (r := .error e) hlast).elim
        rw [if_pos rfl] at howed
        cases howed
    | _ =>
        rw [hlast] at hend
        cases hend
  · intro c' hm' hs'
    have hchange := hlater.change hm' hs'
    simpa using hchange

theorem roster_kept (hdb : Keyed db)
    (hr : Cfg.Reach Meeting (Cfg.init db mem (family maxKeys requests)) c) :
    RosterKept Meeting db mem maxKeys requests c := by
  obtain ⟨past, hguarded, _, hnew⟩ := (guarded_init maxKeys requests mem hdb).reach_publishing hr
  constructor
  · exact hguarded.inv.keys
  · intro p c' hm hs k hk k' hk' hid
    rcases hguarded.change hm hs with hsame | hwrites
    · rw [hsame] at hk'
      rw [List.inj_on_of_nodup_map hguarded.inv.ids hk' hk hid]
      exact ⟨rfl, rfl⟩
    · have hcolumns := sameColumns_of_writes hguarded.inv hwrites k hk k' hk' hid
      rw [hcolumns]
      exact ⟨rfl, rfl⟩
  · intro p c' o id now bumpedAt hp hm hs k hk hadded
    rcases hguarded.change hm hs with hsame | hwrites
    · rw [hsame] at hk
      exact absurd rfl (hadded k hk)
    · rw [hp] at hwrites
      exact room_of_registers hwrites hk hadded
  · intro p o id now bumpedAt hp hret
    have howed := hguarded.result (r := .ok false) hret
    rw [hp] at howed
    cases hpast : past p with
    | nil =>
        rcases howed.1 hpast with htrue | ⟨_, a, b, hab, _⟩
        · cases htrue
        · cases hab
    | cons ab rest =>
        have hmem : ab ∈ past p := by
          rw [hpast]
          exact List.mem_cons_self
        rcases howed.2 ab hmem with htrue | ⟨_, a, b, hab, hfull⟩
        · cases htrue
        · obtain rfl := Option.some.inj hab
          rcases hnew p (a, b) hmem with hnil | ⟨c₁, c₂, h₁, hs, h₂, heq, hpublish⟩
          · cases hnil
          · obtain ⟨rfl, rfl⟩ := Prod.mk.inj heq
            exact ⟨c₁, c₂, h₁, hs, h₂, hpublish, hfull⟩
  · intro p o id now bumpedAt hp c₁ c₂ h₁ hstart hkey hm hs h₂
    exact held_of_found hdb hp h₁ hstart hkey hm hs h₂
  · intro p s hp e he
    have howed := hguarded.result (r := .error e) he
    rw [hp] at howed
    obtain ⟨_, hnone⟩ := howed.elim
    exact hnone e rfl

end

/-! ## A held key and its revocation -/

def heldKey : Db where
  signingKeys := [⟨"J", "U", "zK", 1, 1, 1, .session 0⟩]

/-- The key is registered again and revoked. -/
def registerAndRevoke (p : ℕ) : SomeRequest :=
  if p = 0 then .register ⟨"U", "zK", 1, 0⟩ "K" 7 8 else .revoke "U" "zK"

theorem keyed_heldKey : Keyed heldKey := by
  constructor
  · decide
  · decide

/-- One after the other, with a full roster: the row is bumped and then deleted. -/
theorem a_held_key_is_registered_again :
    ∃ c, Cfg.playChecked (fun t x => fresh t x && kept t x) [0, 0, 0, 0, 1, 1, 1]
        (Cfg.init heldKey {} (family 1 registerAndRevoke)) = some c ∧
      RosterKept Meeting heldKey {} 1 registerAndRevoke c := by
  have hrun : (Cfg.playChecked (fun t x => fresh t x && kept t x) [0, 0, 0, 0, 1, 1, 1]
      (Cfg.init heldKey {} (family 1 registerAndRevoke))).isSome = true := by
    decide +kernel
  obtain ⟨c, hc⟩ := Option.isSome_iff_exists.mp hrun
  have hmeets : ∀ t x, (fresh t x && kept t x) = true → Meeting t x :=
    fun t x h => by simpa [Meeting] using h
  exact ⟨c, hc, roster_kept keyed_heldKey (Cfg.reach_of_playChecked hmeets Cfg.Reach.start hc)⟩

/-- The revocation comes between the SELECT of the registration and its bump. -/
theorem a_revocation_fails_a_registration :
    ¬∀ (db : Db) (mem : Memory) (maxKeys : ℕ) (requests : ℕ → SomeRequest)
      (c : Cfg ℕ Db Memory Seen Exn Bool), Keyed db →
      Cfg.Reach (fun t x => fresh t x = true) (Cfg.init db mem (family maxKeys requests)) c →
        RosterKept (fun t x => fresh t x = true) db mem maxKeys requests c := by
  intro hclaim
  have hrun : ((Cfg.playChecked fresh [0] (Cfg.init heldKey {} (family 1 registerAndRevoke))).bind
      fun c₂ => (Cfg.playChecked fresh [1, 1, 0, 0] c₂).map fun c =>
        ((c.procs 0).ended, (c.procs 0).returned)) = some (true, none) := by
    decide +kernel
  obtain ⟨c₂, hc₂, hlater⟩ := Option.bind_eq_some_iff.mp hrun
  obtain ⟨c, hc, hlast⟩ := Option.map_eq_some_iff.mp hlater
  obtain ⟨hended, hreturned⟩ := Prod.mk.inj hlast
  have hfirst : (((Cfg.init heldKey {} (family 1 registerAndRevoke)).procs 0).label.all fun t =>
      fresh t ((Cfg.init heldKey {} (family 1 registerAndRevoke)).point 0)) = true ∧
        (Cfg.init heldKey {} (family 1 registerAndRevoke)).step 0 = some c₂ := by
    simpa [Cfg.playChecked, Option.bind_eq_some_iff] using hc₂
  have hbefore : Cfg.Reach (fun t x => fresh t x = true)
      (Cfg.init heldKey {} (family 1 registerAndRevoke)) c₂ :=
    Cfg.reach_of_playChecked (fun _ _ h => h) Cfg.Reach.start hc₂
  have hafter : Cfg.Reach (fun t x => fresh t x = true) c₂ c :=
    Cfg.reach_of_playChecked (fun _ _ h => h) Cfg.Reach.start hc
  have hkept := hclaim heldKey {} 1 registerAndRevoke c keyed_heldKey (hbefore.trans hafter)
  have hheld := hkept.held 0 ⟨"U", "zK", 1, 0⟩ "K" 7 8 rfl _ c₂ Cfg.Reach.start rfl (by decide)
    (fun t ht => Option.all_eq_true _ _ |>.mp hfirst.1 t ht) hfirst.2 hafter
  rw [hheld.1 hended] at hreturned
  cases hreturned

end AikoIsland.KeyRoster
