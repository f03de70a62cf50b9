import AikoIsland.AppendOnly
import AikoIsland.Messages

/-!
# Sends are the sender's own and idempotent

Any number of `create_outbound` calls by any users in any channels with any client
ids, interleaved statement by statement. A call that returns gets a row of its own
user with the text of the first send under its client id, and never fails because
the id was used before, in every run in which no other user sends under the id in
that channel and the call's INSERT, if it makes one, meets no row with the id.

The lookup and the unique key leave the sender out: a second user with the same
client id in the channel is handed the first user's row. Two resends that both
look before either inserts collide, and one of them fails.
-/
namespace AikoIsland.Idempotency
open Tables Gateway WriterLock RelyGuarantee Footprint AppendOnly SigningKeys Messages

/-! ## The calls -/

structure OutboundCall where
  user : User
  channel : Channel
  out : Outbound
  minted : Minted

def OutboundCall.body (c : OutboundCall) : Body (Message × Bool) :=
  (createOutbound c.user c.channel c.out c.minted).session

/-- One client id in one channel. -/
def SameKey (c c' : OutboundCall) : Prop :=
  c.channel.id = c'.channel.id ∧ c.out.clientMsgId = c'.out.clientMsgId

/-- The row lies under the call's channel and client id. -/
def Holds (c : OutboundCall) (m : Message) : Prop :=
  m.channelId = c.channel.id ∧ ∃ key, encode c.out.clientMsgId = some key ∧
    m.clientMsgId = some key

/-- The row that the call inserts. -/
structure CreatedBy (c : OutboundCall) (m : Message) : Prop where
  id : m.id = c.minted.msgId
  sender : m.senderUserId = some c.user.id
  body : encode c.out.body = some m.body
  holds : Holds c m

/-- What the ULID generator promises: a minted id is new and minted once. -/
structure FreshIds (db₀ : Db) (calls : ℕ → OutboundCall) : Prop where
  new : ∀ p, ∀ m ∈ db₀.messages, m.id ≠ (calls p).minted.msgId
  once : ∀ p q, p ≠ q → (calls p).minted.msgId ≠ (calls q).minted.msgId

/-- UNIQUE (channel_id, client_msg_id). -/
def KeysUnique (db : Db) : Prop :=
  ∀ m ∈ db.messages, ∀ m' ∈ db.messages, m.channelId = m'.channelId → m.clientMsgId.isSome →
    m.clientMsgId = m'.clientMsgId → m = m'

/-- The condition on steps: the message INSERT of the call meets no row with its client id. -/
def keyFree (rowId : String) : Label → Point Db Memory → Bool
  | .messageInsert id channelId clientMsgId, x =>
      id ≠ rowId || x.view.messages.all fun m =>
        m.channelId ≠ channelId || m.clientMsgId ≠ some clientMsgId
  | _, _ => true

/-- The condition on inputs: nobody else sends under the call's client id in its channel. -/
structure OwnKey (db₀ : Db) (calls : ℕ → OutboundCall) (p : ℕ) : Prop where
  stored : ∀ m ∈ db₀.messages, Holds (calls p) m → m.senderUserId = some (calls p).user.id
  sent : ∀ q, SameKey (calls q) (calls p) → (calls q).user.id = (calls p).user.id

/-! ## The rows of a run -/

/-- Every row was there at the start or was created by a call, and keys are unique. -/
structure Kept (db₀ : Db) (calls : ℕ → OutboundCall) (db : Db) : Prop where
  rows : ∀ m ∈ db.messages, m ∈ db₀.messages ∨ ∃ q, CreatedBy (calls q) m
  unique : KeysUnique db

/-- Rows of other calls were appended. -/
def Others (calls : ℕ → OutboundCall) (p : ℕ) (a b : Db) : Prop :=
  Appends (fun m => ∃ q, q ≠ p ∧ CreatedBy (calls q) m) a.messages b.messages

def spec (db₀ : Db) (calls : ℕ → OutboundCall) (rowId : String) : Spec ℕ Db Memory Label where
  inv db _ := Kept db₀ calls db
  rely p db _ db' _ := Others calls p db db'
  meets t x := keyFree rowId t x = true
  rely_refl _ _ _ := Appends.refl _ _
  rely_trans h h' := h.trans h'

/-- The call's row is not there. -/
def Unsent (c : OutboundCall) (db : Db) : Prop := ∀ m ∈ db.messages, m.id ≠ c.minted.msgId

/-- What a call returns: a row under its key, and whether it is its own. -/
structure Returned (c : OutboundCall) (r : Message × Bool) (db : Db) : Prop where
  stored : r.1 ∈ db.messages
  holds : Holds c r.1
  created : r.2 = true ↔ r.1.id = c.minted.msgId

theorem onlyKeys_messages {a b : Db} (h : OnlyKeys a b) : b.messages = a.messages := by
  obtain ⟨_, rfl⟩ := h
  rfl

section
variable {db₀ : Db} {calls : ℕ → OutboundCall} {rowId : String} {p : ℕ} {x y : Point Db Memory}

theorem Unsent.env (hf : FreshIds db₀ calls) (h : Unsent (calls p) x.db)
    (he : (spec db₀ calls rowId).Env p x y) : Unsent (calls p) y.db := by
  intro m hm
  rcases Appends.cases (he.rely : Others calls p x.db y.db) hm with hold | ⟨q, hq, hrow⟩
  · exact h m hold
  · rw [hrow.id]
    exact hf.once q p hq

theorem Returned.env {r : Message × Bool} (h : Returned (calls p) r x.db)
    (he : (spec db₀ calls rowId).Env p x y) : Returned (calls p) r y.db where
  stored := Appends.mem (he.rely : Others calls p x.db y.db) h.stored
  holds := h.holds
  created := h.created

/-- A key row on the side changes no message. -/
theorem respects_origin (hf : FreshIds db₀ calls) (user : User) :
    Respects (spec db₀ calls rowId) p (fun db _ => Unsent (calls p) db) OnlyKeys
      (OriginWrite user) fun _ _ => False where
  refl := OnlyKeys.refl
  trans := OnlyKeys.trans
  stable he h := h.env hf he
  write _ _ _ _ hw _ _ _ _ hs := onlyKeys_of_originWrite hw hs
  segment _ _ _ hg := hg.elim
  commit db _ s hi hu hs := by
    have hmessages : s.messages = db.messages := onlyKeys_messages hs
    refine ⟨⟨⟨fun m hm => ?_, fun m hm m' hm' => ?_⟩, fun _ _ => Appends.of_eq hmessages⟩, ?_⟩
    · exact hi.rows m (hmessages ▸ hm)
    · exact hi.unique m (hmessages ▸ hm) m' (hmessages ▸ hm')
    · intro m hm
      exact hu m (hmessages ▸ hm)

/-! ## What a call may raise -/

/-- Anything but the `IntegrityError` of a message row. -/
def Elsewhere (e : Exn) : Prop := e ≠ .messageIntegrityError

theorem raises_bindText {P : Exn → Prop} (hP : P .unicodeEncodeError) (s : PyStr) :
    Raises P (bindText s : Body String) := by
  unfold bindText
  cases encode s with
  | none => exact hP
  | some t => exact trivial

theorem raises_refuseBlockedDm {P : Exn → Prop} (hP : P .blockedDmSend) (user : User)
    (channel : Channel) : Raises P (refuseBlockedDm user channel) := by
  unfold refuseBlockedDm
  split_ifs
  · exact trivial
  · split
    · exact hP
    · exact trivial
    · refine Raises.bind (fun _ => trivial) fun blocked => ?_
      split_ifs
      · exact hP
      · exact trivial

theorem raises_recordSigningKey (o : KeyObservation) (now bumpedAt : Time) (ids : List String) :
    Raises Elsewhere (recordSigningKey o now bumpedAt ids) := by
  induction ids with
  | nil => exact fun h => by cases h
  | cons id ids ih =>
      refine Raises.bind ⟨fun _ => trivial, fun _ => trivial⟩ fun ok => ?_
      split_ifs
      · exact trivial
      · refine Raises.bind (fun _ => trivial) fun existing => ?_
        cases existing with
        | none => exact ih
        | some existing =>
            refine Raises.bind ⟨fun _ => trivial, fun _ => trivial⟩ fun rowcount => ?_
            split_ifs
            · exact trivial
            · exact fun h => by cases h

theorem raises_recordOrigin (user : User) (out : Outbound) (minted : Minted) :
    Raises Elsewhere (recordOrigin user out minted) := by
  unfold recordOrigin
  cases out.origin with
  | none => exact trivial
  | some origin => exact raises_recordSigningKey _ _ _ _

end

/-! ## One call -/

section
variable {db₀ : Db} {calls : ℕ → OutboundCall} {rowId : String} {p : ℕ} {x y : Point Db Memory}

/-- The row and its commit: it is published, or another row holds the key. -/
theorem safe_insertRow (hf : FreshIds db₀ calls) {key : String} {m : Message}
    (hm : CreatedBy (calls p) m) (hkey : m.clientMsgId = some key)
    (hu : Unsent (calls p) x.db) (hview : OnlyKeys x.db x.view) :
    Safe (spec db₀ calls rowId) p (do
        flushOr .messageIntegrityError (fun db => db.insertMessage m)
          (.messageInsert m.id (calls p).channel.id key)
        commit
        return (m, true))
      (fun r y => Returned (calls p) r y.db)
      (fun e _ => (calls p).minted.msgId = rowId → Elsewhere e) x := by
  refine safe_flushOr (fun y s hy _ hs => ?_) fun y z hy hmeets hn _ hp => ?_
  · have hrows : y.view.messages = y.db.messages := onlyKeys_messages (env_view OnlyKeys.refl hy hview)
    obtain ⟨hnew, rfl⟩ := Db.insertMessage_eq_some.mp hs
    refine Safe.commit fun z hz _ => ?_
    have hzs := hz.view_eq rfl
    have hzd : z.db = y.db := hz.db_eq rfl
    have hcommitted : z.committed.db.messages = z.db.messages ++ [m] := by
      rw [Point.committed_db, hzs, hzd, ← hrows]
    constructor
    · intro w _
      constructor
      · constructor
        · intro m' hm'
          rw [hcommitted] at hm'
          rcases List.mem_append.mp hm' with hold | hlast
          · exact hz.inv.rows m' hold
          · exact Or.inr ⟨p, List.mem_singleton.mp hlast ▸ hm⟩
        · -- the constraint left no other row under the key
          have hother : ∀ m' ∈ z.db.messages, m'.channelId = m.channelId →
              m'.clientMsgId ≠ m.clientMsgId := by
            intro m' hm' hch
            rw [hzd, ← hrows] at hm'
            exact (hnew m' hm').2 (by rw [hkey]; rfl) hch
          intro a ha b hb hch hsome heq
          rw [hcommitted] at ha hb
          rcases List.mem_append.mp ha with ha | ha <;> rcases List.mem_append.mp hb with hb | hb
          · exact hz.inv.unique a ha b hb hch hsome heq
          · rw [List.mem_singleton.mp hb] at hch heq
            exact absurd heq (hother a ha hch)
          · rw [List.mem_singleton.mp ha] at hch heq
            exact absurd heq.symm (hother b hb hch.symm)
          · rw [List.mem_singleton.mp ha, List.mem_singleton.mp hb]
      · intro q hq
        have happends : Others calls q z.db z.committed.db := by
          unfold Others
          rw [hcommitted]
          exact Appends.single _ ⟨p, hq.symm, hm⟩
        exact happends
    · refine Safe.pure fun v hv => Returned.env (x := z.committed) ?_ hv
      refine ⟨?_, hm.holds, ?_⟩
      · rw [hcommitted]
        exact List.mem_append_right _ (List.mem_singleton_self m)
      · simp [hm.id]
  · -- with the condition nothing is left for the constraints to refuse
    have hrows : y.view.messages = y.db.messages := onlyKeys_messages (env_view OnlyKeys.refl hy hview)
    have huy : Unsent (calls p) y.db := hu.env hf hy
    have hfree : ∀ m' ∈ y.view.messages,
        m'.channelId ≠ (calls p).channel.id ∨ m'.clientMsgId ≠ some key := by
      simpa [spec, keyFree, hm.id, hp] using hmeets
    have hclash : ∀ m' ∈ y.view.messages, m'.id ≠ m.id ∧
        (m.clientMsgId.isSome → m'.channelId = m.channelId → m'.clientMsgId ≠ m.clientMsgId) := by
      intro m' hm'
      constructor
      · rw [hm.id]
        exact huy m' (hrows ▸ hm')
      · intro _ hch
        rw [hkey]
        exact (hfree m' hm').resolve_left fun hne => hne (hch.trans hm.holds.1)
    have hsome := hn.symm.trans (Db.insertMessage_eq_some.mpr ⟨hclash, rfl⟩)
    cases hsome

theorem safe_createOutbound (hf : FreshIds db₀ calls) (hx : x.work = none)
    (hu : Unsent (calls p) x.db) :
    Safe (spec db₀ calls rowId) p
      (createOutbound (calls p).user (calls p).channel (calls p).out (calls p).minted)
      (fun r y => Returned (calls p) r y.db)
      (fun e _ => (calls p).minted.msgId = rowId → Elsewhere e) x := by
  have helse : ∀ {α : Type} {r : Body α} {Q : α → Point Db Memory → Prop}
      {E : Exn → Point Db Memory → Prop} {z : Point Db Memory}, Raises Elsewhere r →
      Safe (spec db₀ calls rowId) p r Q E z →
      Safe (spec db₀ calls rowId) p r Q
        (fun e _ => (calls p).minted.msgId = rowId → Elsewhere e) z :=
    fun hr hs => (hr.safe hs).mono (fun _ _ _ h => h) fun _ _ _ h _ => h.1
  unfold createOutbound
  cases hkey : encode (calls p).out.clientMsgId with
  | none =>
      rw [bindText, hkey]
      exact Safe.raise fun _ _ _ h => by cases h
  | some key =>
      rw [bindText_eq hkey]
      refine Safe.pure_bind (Safe.query fun y hy => ?_)
      have hyw : y.work = none := hy.free hx
      have huy : Unsent (calls p) y.db := hu.env hf hy
      rw [Point.view_of_none hyw]
      cases hfound : y.db.messages.find? fun m =>
          m.channelId = (calls p).channel.id && m.clientMsgId = some key with
      | some existing =>
          have hmem : existing ∈ y.db.messages := List.mem_of_find?_eq_some hfound
          have hholds : existing.channelId = (calls p).channel.id ∧
              existing.clientMsgId = some key := by simpa using List.find?_some hfound
          refine Safe.pure fun z hz => Returned.env ⟨hmem, ⟨hholds.1, key, hkey, hholds.2⟩, ?_⟩ hz
          simp [huy existing hmem]
      | none =>
          have horigin : Respects (spec db₀ calls rowId) p (fun db _ => Unsent (calls p) db)
              OnlyKeys (OriginWrite (calls p).user) fun _ _ => False :=
            respects_origin hf (calls p).user
          have hview : OnlyKeys y.db y.view := by
            rw [Point.view_of_none hyw]
            exact OnlyKeys.refl _
          refine Safe.andThen (helse (raises_refuseBlockedDm (fun h => by cases h) _ _)
            (horigin.safe (uses_refuseBlockedDm _ _) huy hview)) hy.inv fun _ z hzi hz => ?_
          refine Safe.andThen (helse (raises_recordOrigin _ _ _)
            (horigin.safe (uses_recordOrigin _ _ _) hz.1 hz.2)) hzi fun _ u hui hu => ?_
          cases hbody : encode (calls p).out.body with
          | none =>
              rw [bindText, hbody]
              exact Safe.raise fun _ _ _ h => by cases h
          | some body =>
              rw [bindText_eq hbody]
              exact Safe.pure_bind (safe_insertRow hf ⟨rfl, rfl, hbody, rfl, key, hkey, rfl⟩ rfl
                hu.1 hu.2)

theorem safe_body (hf : FreshIds db₀ calls) (hi : Kept db₀ calls x.db) (hx : x.work = none)
    (hu : Unsent (calls p) x.db) :
    Safe (spec db₀ calls rowId) p (calls p).body (fun r y => Returned (calls p) r y.db)
      (fun e _ => (calls p).minted.msgId = rowId → Elsewhere e) x := by
  refine Safe.session ((safe_createOutbound hf hx hu).mono ?_ ?_) hi
  · intro r y _ hr z hz
    have hrolled : Returned (calls p) r y.rolledBack.db := hr
    exact hrolled.env hz
  · exact fun _ _ _ he _ _ => he

end

/-! ## Every run -/

/-- The row that a send under the call's key returns: the caller's own, with the text of the
caller's first send under the key, which every send under it returns. -/
structure FirstSend (db₀ : Db) (calls : ℕ → OutboundCall) (p : ℕ)
    (procs : ℕ → Body (Message × Bool)) (row : Message) : Prop where
  sender : row.senderUserId = some (calls p).user.id
  holds : Holds (calls p) row
  body : row ∈ db₀.messages ∨ ∃ q, SameKey (calls q) (calls p) ∧ CreatedBy (calls q) row
  agreed : ∀ q row' created, SameKey (calls q) (calls p) → procs q = .ret (row', created) →
    row' = row

theorem Holds.sameKey {c c' : OutboundCall} (h : SameKey c c') {m : Message} (hm : Holds c m) :
    Holds c' m := by
  obtain ⟨hch, key, hkey, hm⟩ := hm
  exact ⟨hch.trans h.1, key, h.2 ▸ hkey, hm⟩

/-- Rows under the keys of two calls have those keys in common. -/
theorem sameKey_of_holds {c c' : OutboundCall} {m : Message} (h : Holds c m) (h' : Holds c' m) :
    SameKey c c' := by
  obtain ⟨hch, key, hkey, hm⟩ := h
  obtain ⟨hch', key', hkey', hm'⟩ := h'
  obtain rfl : key = key' := Option.some.inj (hm.symm.trans hm')
  exact ⟨hch.symm.trans hch', by rw [← codes_encode hkey, ← codes_encode hkey']⟩

/-- In every state of a run in which the call's INSERT meets no row with its client id: when
nobody else sends under the id in the channel, the call returns the caller's own first row and is
not refused for the id. -/
theorem send_returns_the_first_own_row {db₀ : Db} {mem₀ : Memory} {calls : ℕ → OutboundCall}
    (hf : FreshIds db₀ calls) (hunique : KeysUnique db₀) (p : ℕ) (hown : OwnKey db₀ calls p)
    {c : Cfg ℕ Db Memory Label Exn (Message × Bool)}
    (hr : Cfg.Reach (fun t x => keyFree (calls p).minted.msgId t x = true)
      (Cfg.init db₀ mem₀ fun p => (calls p).body) c) :
    (∀ row created, c.procs p = .ret (row, created) →
      FirstSend db₀ calls p c.procs row ∧ (created = true ↔ row.id = (calls p).minted.msgId)) ∧
    c.procs p ≠ .raise .messageIntegrityError := by
  have hinit : Kept db₀ calls db₀ := ⟨fun m hm => Or.inl hm, hunique⟩
  have hstart : Sound (spec db₀ calls (calls p).minted.msgId)
      (fun q r y => Returned (calls q) r y.db)
      (fun q e _ => (calls q).minted.msgId = (calls p).minted.msgId → Elsewhere e)
      (Cfg.init db₀ mem₀ fun p => (calls p).body) :=
    Sound.init hinit fun q => safe_body hf hinit rfl (hf.new q)
  have hsound := hstart.reach hr
  constructor
  · intro row created hret
    have hrow : Returned (calls p) (row, created) c.db := hsound.returned hret
    have hsource : row ∈ db₀.messages ∨ ∃ q, SameKey (calls q) (calls p) ∧ CreatedBy (calls q) row :=
      (hsound.inv.rows row hrow.stored).imp id fun ⟨q, hq⟩ =>
        ⟨q, sameKey_of_holds hq.holds hrow.holds, hq⟩
    refine ⟨⟨?_, hrow.holds, hsource, fun q row' created' hkey hret' => ?_⟩, hrow.created⟩
    · rcases hsource with hold | ⟨q, hkey, hq⟩
      · exact hown.stored row hold hrow.holds
      · rw [hq.sender, hown.sent q hkey]
    · have hrow' : Returned (calls q) (row', created') c.db := hsound.returned hret'
      obtain ⟨hch, key, _, hm⟩ := hrow.holds
      obtain ⟨hch', key', _, hm'⟩ := hrow'.holds.sameKey hkey
      have hkeys : row'.clientMsgId = row.clientMsgId := by
        obtain ⟨_, k, hk, hk'⟩ := hrow.holds
        obtain ⟨_, l, hl, hl'⟩ := hrow'.holds.sameKey hkey
        rw [hk', hl', Option.some.inj (hk.symm.trans hl)]
      exact hsound.inv.unique row' hrow'.stored row hrow.stored (hch'.trans hch.symm)
        (by rw [hm']; rfl) hkeys
  · intro hraise
    have helse := hsound.raised hraise rfl
    exact helse rfl

/-! ## Runs -/

def member (id : String) : User := { id := id, username := id, aikoUsername := id }

/-- Sends under one client id into one channel, the first by A and the others by the given user. -/
def sendsOf (second : String) (p : ℕ) : OutboundCall where
  user := member (if p = 0 then "A" else second)
  channel := { id := "C", name := "room", aikoChannel := "room" }
  out := { body := codes (if p = 0 then "hi" else "bye"), clientMsgId := codes "x" }
  minted := { msgId := String.ofList (List.replicate p 'x') }

theorem sendsOf_fresh (second : String) : FreshIds {} (sendsOf second) where
  new _ m hm := by cases hm
  once p q hpq heq := by
    have hlengths := congrArg (fun s => s.toList.length) heq
    simp only [sendsOf, String.toList_ofList, List.length_replicate] at hlengths
    exact hpq hlengths

theorem keysUnique_empty : KeysUnique {} := fun m hm => by cases hm

def sendsStart (second : String) : Cfg ℕ Db Memory Label Exn (Message × Bool) :=
  Cfg.init {} {} fun p => (sendsOf second p).body

def sendsSchedule : List ℕ := [0, 0, 0, 0, 1, 1]

theorem sends_return (second : String) (h : second = "A" ∨ second = "B") :
    (Cfg.playChecked (keyFree "x") sendsSchedule (sendsStart second)).map (fun c =>
      (c.procs 1).returned.map fun r => (r.1.senderUserId, r.1.body, r.2)) =
      some (some (some "A", "hi", false)) := by
  rcases h with rfl | rfl <;> decide +kernel

theorem reach_of_sends {second : String} {c : Cfg ℕ Db Memory Label Exn (Message × Bool)}
    (h : Cfg.playChecked (keyFree "x") sendsSchedule (sendsStart second) = some c) :
    Cfg.Reach (fun t x => keyFree (sendsOf second 1).minted.msgId t x = true)
      (Cfg.init {} {} fun p => (sendsOf second p).body) c :=
  Cfg.reach_of_playChecked (fun _ _ h => h) Cfg.Reach.start h

/-- A second user with the same client id is handed the first user's row. -/
theorem send_can_return_a_foreign_row :
    ¬ ∀ (db₀ : Db) (mem₀ : Memory) (calls : ℕ → OutboundCall)
      (c : Cfg ℕ Db Memory Label Exn (Message × Bool)), FreshIds db₀ calls → KeysUnique db₀ →
      Cfg.Reach (fun _ _ => True) (Cfg.init db₀ mem₀ fun p => (calls p).body) c →
      ∀ p, (∀ row created, c.procs p = .ret (row, created) →
        FirstSend db₀ calls p c.procs row) ∧ c.procs p ≠ .raise .messageIntegrityError := by
  intro hclaim
  obtain ⟨c, hc, hret⟩ := Option.map_eq_some_iff.mp (sends_return "B" (Or.inr rfl))
  obtain ⟨⟨row, created⟩, hrow, hview⟩ := Option.map_eq_some_iff.mp hret
  have hfirst := (hclaim {} {} (sendsOf "B") c (sendsOf_fresh "B") keysUnique_empty
    ((reach_of_sends hc).mono fun _ _ _ => trivial) 1).1 row created
    (Request.returned_eq_some.mp hrow)
  obtain ⟨hsender, _⟩ := Prod.mk.inj hview
  rw [hfirst.sender] at hsender
  revert hsender
  decide

/-- A resend by the same user meets the condition and returns the first row. -/
theorem resend_returns_the_first_row :
    ∃ c, Cfg.playChecked (keyFree "x") sendsSchedule (sendsStart "A") = some c ∧
      (∀ row created, c.procs 1 = .ret (row, created) →
        FirstSend {} (sendsOf "A") 1 c.procs row ∧ (created = true ↔ row.id = "x")) ∧
      c.procs 1 ≠ .raise .messageIntegrityError := by
  obtain ⟨c, hc, _⟩ := Option.map_eq_some_iff.mp (sends_return "A" (Or.inl rfl))
  have hown : OwnKey {} (sendsOf "A") 1 := by
    constructor
    · intro m hm
      cases hm
    · intro q _
      simp [sendsOf]
  exact ⟨c, hc, send_returns_the_first_own_row (sendsOf_fresh "A") keysUnique_empty 1 hown
    (reach_of_sends hc)⟩

end AikoIsland.Idempotency
