import AikoIsland.Relabelling
import AikoIsland.Stopping
import AikoIsland.Idempotency

/-!
# A signed message and the binding of its key

Any number of sends, interleaved statement by statement with any other requests
over the store, revocations and account deletions among them, and each of them
may stop between two statements. A send with an origin observes its key first,
in a savepoint, and inserts its message last.

Where the key is known the INSERT of its row is refused, which leaves the
transaction open: the bump of `last_seen_at` and the message are then published
by one commit or not at all. Where it is new the savepoint is the transaction,
and its release commits the binding on its own, before the message is inserted
and whether or not it ever is. So the result is about the runs in which the
first key INSERT of every send finds its row.
-/
namespace AikoIsland.KeyBinding
open Tables Gateway WriterLock RelyGuarantee Publishing Relabelling Stopping SigningKeys Messages
open Idempotency (OutboundCall)

/-! ## The requests -/

/-- A send that may stop with `failure`, or any other request. -/
inductive SomeRequest where
  | send (call : OutboundCall) (failure : Exn) (stop : Option ℕ)
  | other (r : Body Unit)

def SomeRequest.body : SomeRequest → Body (Option (Message × Bool))
  | .send call failure stop => cutAt failure stop (call.body >>= fun r => return some r)
  | .other r => r >>= fun _ => return none

def family (requests : ℕ → SomeRequest) (p : ℕ) :
    Request Db Memory (SomeRequest × Label) Exn (Option (Message × Bool)) :=
  relabel (fun t => (requests p, t)) (requests p).body

/-- The key row of this send, or one under the id minted for it. -/
def clashes (call : OutboundCall) (k : SigningKey) : Bool :=
  match call.out.origin with
  | none => false
  | some origin =>
      k.userId = call.user.id && k.pubkey = origin.senderPubkey ||
        call.minted.keyIds.head? = some k.id

/-- The condition on steps: a key INSERT outside a transaction finds the row. -/
def keyStored : SomeRequest × Label → Point Db Memory → Bool
  | (.send call _ _, .sessionWrite _ _), x =>
      x.work.isSome || x.view.signingKeys.any (clashes call)
  | _, _ => true

/-! ## What a send publishes -/

/-- The key of a send was observed: its row was bumped, or added. -/
inductive Observes (userId pubkey : String) (bumpedAt : Time) (keys : List SigningKey) :
    List SigningKey → Prop
  | bumped (k : SigningKey) (hk : k ∈ keys) (huser : k.userId = userId)
      (hpubkey : k.pubkey = pubkey) :
      Observes userId pubkey bumpedAt keys
        (keys.map fun x => if x.id = k.id then { x with lastSeenAt := bumpedAt } else x)
  | recorded (k : SigningKey) (huser : k.userId = userId) (hpubkey : k.pubkey = pubkey) :
      Observes userId pubkey bumpedAt keys (keys ++ [k])

/-- A send's message and the observation of its key. -/
structure Together (call : OutboundCall) (origin : Origin) (a b : Db) : Prop where
  message : ∃ m, m.id = call.minted.msgId ∧ m.origin = some origin ∧
    b.messages = a.messages ++ [m]
  key : Observes call.user.id origin.senderPubkey call.minted.bumpedAt a.signingKeys b.signingKeys

/-- The publications of a request: those of a send with an origin, or any. -/
def Allowed : SomeRequest → Db → Db → Prop
  | .send call _ _, a, b => ∀ origin, call.out.origin = some origin → Together call origin a b
  | .other _, _, _ => True

/-- A send with an origin that returns its row as new has published it with its key. -/
def Created : SomeRequest → Option (Db × Db) → Except Exn (Option (Message × Bool)) → Prop
  | .send call _ _, ab, r => ∀ origin m, call.out.origin = some origin →
      r = .ok (some (m, true)) → ∃ a b, ab = some (a, b) ∧ Together call origin a b
  | .other _, _, _ => True

def spec : Spec ℕ Db Memory (SomeRequest × Label) where
  inv _ _ := True
  rely _ _ _ _ _ := True
  meets t x := keyStored t x = true
  rely_refl _ _ _ := trivial
  rely_trans _ _ := trivial

section
variable {g : Label → SomeRequest × Label} {p : ℕ} {x y : Point Db Memory} {w : Db}
  {G : Db → Db → Prop} {α : Type} {N : Option (Db × Db) → Except Exn α → Prop}

theorem allows_all (x y : Point Db Memory) : (along g spec).Allows p x y :=
  ⟨trivial, fun _ _ => trivial⟩

/-- The working copy has this key observed and the messages as they were. -/
structure Bound (o : KeyObservation) (bumpedAt : Time) (a w : Db) : Prop where
  key : Observes o.userId o.pubkey bumpedAt a.signingKeys w.signingKeys
  messages : w.messages = a.messages

/-- The bump of a row that was found under the lock. -/
theorem publishes_bump {o : KeyObservation} {bumpedAt : Time} {k : Unit → Body α}
    (hN : ∀ e, Owed N [] (.error e))
    (hk : ∀ y w, y.work = some w → Bound o bumpedAt y.db w →
      Publishes (along g spec) p G N [] (k ()) y)
    {row : SigningKey} (hrow : row ∈ x.db.signingKeys) (huser : row.userId = o.userId)
    (hpubkey : row.pubkey = o.pubkey) (hx : x.work = some x.db) :
    Publishes (along g spec) p G N [] (flushBump row.id bumpedAt >>= k) x := by
  change Publishes (along g spec) p G N [] (((Request.exec .plain _ _).bind fun rowcount =>
    if rowcount = 1 then return () else throwExn .staleDataError).bind k) x
  rw [Request.bind_assoc]
  apply Publishes.exec
  intro y hy _
  have hview : y.view = x.db := hy.view_eq hx
  have hdb : y.db = x.db := hy.db_eq hx
  split
  · apply hk _ _ rfl
    rw [hview]
    constructor
    · rw [hdb]
      exact Observes.bumped row hrow huser hpubkey
    · rw [hdb]
      rfl
  · exact hN _

/-- After a refused INSERT: the row is bumped, or the INSERT is tried again, all of it under
the lock. -/
theorem publishes_afterConflict {o : KeyObservation} {now bumpedAt : Time}
    {k : Unit → Body α} (hN : ∀ e, Owed N [] (.error e))
    (hk : ∀ y w, y.work = some w → Bound o bumpedAt y.db w →
      Publishes (along g spec) p G N [] (k ()) y)
    (ids : List String) (x : Point Db Memory) (hx : x.work = some x.db) :
    Publishes (along g spec) p G N [] ((do
      match ← select (getKey o.userId o.pubkey) with
      | some existing => flushBump existing.id bumpedAt
      | none => recordSigningKey o now bumpedAt ids) >>= k) x := by
  have hfound : ∀ y : Point Db Memory, y.work = some y.db → ∀ row,
      getKey o.userId o.pubkey y.db = some row →
      Publishes (along g spec) p G N [] (flushBump row.id bumpedAt >>= k) y := by
    intro y hy row hrow
    have hkey : row.userId = o.userId ∧ row.pubkey = o.pubkey := by
      simpa using List.find?_some hrow
    exact publishes_bump hN hk (List.mem_of_find?_eq_some hrow) hkey.1 hkey.2 hy
  induction ids generalizing x with
  | nil =>
      change Publishes (along g spec) p G N [] (((Request.query _).bind _).bind k) x
      rw [Request.bind_assoc]
      apply Publishes.query
      intro y hy
      have hdb : y.db = x.db := hy.db_eq hx
      have hwork : y.work = some y.db := by rw [hy.work, hx, hdb]
      rw [Point.view_of_some hwork]
      cases hrow : getKey o.userId o.pubkey y.db with
      | some row => exact hfound y hwork row hrow
      | none => exact hN _
  | cons id ids ih =>
      change Publishes (along g spec) p G N [] (((Request.query _).bind _).bind k) x
      rw [Request.bind_assoc]
      apply Publishes.query
      intro y hy
      have hdb : y.db = x.db := hy.db_eq hx
      have hwork : y.work = some y.db := by rw [hy.work, hx, hdb]
      rw [Point.view_of_some hwork]
      cases hrow : getKey o.userId o.pubkey y.db with
      | some row => exact hfound y hwork row hrow
      | none =>
          intro z hz _
          have hzdb : z.db = y.db := hz.db_eq hwork
          have hzwork : z.work = some z.db := by rw [hz.work, hwork, hzdb]
          constructor
          · intro s hs
            constructor
            · intro hfree
              rw [hzwork] at hfree
              cases hfree.2
            · intro _
              rw [Point.view_of_some hzwork] at hs
              obtain ⟨_, rfl⟩ := Db.insertSigningKey_eq_some.mp hs
              exact hk _ _ rfl ⟨Observes.recorded _ rfl rfl, rfl⟩
          · intro _
            have hrefused : z.refused.work = some z.refused.db := by
              rw [Point.refused_db, Point.refused, Point.view_of_some hzwork]
            exact ih z.refused hrefused

/-- The observation of the key of a send: in a run that meets the condition its first INSERT is
refused. -/
theorem publishes_recordSigningKey {call : OutboundCall} {origin : Origin} {failure : Exn}
    {stop : Option ℕ} (ho : call.out.origin = some origin) {o : KeyObservation}
    (huser : o.userId = call.user.id) (hpubkey : o.pubkey = origin.senderPubkey)
    {now bumpedAt : Time} {k : Unit → Body α} (hN : ∀ e, Owed N [] (.error e))
    (hk : ∀ y w, y.work = some w → Bound o bumpedAt y.db w →
      Publishes (along (Prod.mk (.send call failure stop)) spec) p G N [] (k ()) y)
    (hx : x.work = none) :
    Publishes (along (Prod.mk (.send call failure stop)) spec) p G N []
      (recordSigningKey o now bumpedAt call.minted.keyIds >>= k) x := by
  cases hids : call.minted.keyIds with
  | nil => exact hN _
  | cons id ids =>
      intro y hy hm
      have hfree : y.work = none := hy.free hx
      have hview : y.view = y.db := Point.view_of_none hfree
      have hmet : keyStored (.send call failure stop, .sessionWrite o.userId o.generation) y =
        true := hm
      have hstored : ∃ row ∈ y.db.signingKeys, row.userId = o.userId ∧ row.pubkey = o.pubkey ∨
          row.id = id := by
        have hany : y.view.signingKeys.any (clashes call) = true := by
          simpa [keyStored, hfree] using hmet
        rw [hview, List.any_eq_true] at hany
        obtain ⟨row, hrow, hclash⟩ := hany
        have hcases : row.userId = call.user.id ∧ row.pubkey = origin.senderPubkey ∨
            id = row.id := by
          simpa [clashes, ho, hids] using hclash
        rw [huser, hpubkey]
        exact ⟨row, hrow, hcases.imp_right Eq.symm⟩
      constructor
      · intro s hs
        rw [hview] at hs
        obtain ⟨hnew, _⟩ := Db.insertSigningKey_eq_some.mp hs
        obtain ⟨row, hrow, ⟨hu, hp⟩ | hid⟩ := hstored
        · exact absurd hp ((hnew row hrow).2 hu)
        · exact absurd hid (hnew row hrow).1
      · intro _
        have hrefused : y.refused.work = some y.refused.db := by
          rw [Point.refused_db, Point.refused, hview]
        exact publishes_afterConflict hN hk ids y.refused hrefused

/-- What the result of a send says of its publications. -/
def CreatedRow (call : OutboundCall) (origin : Origin) (ab : Option (Db × Db))
    (r : Except Exn (Message × Bool)) : Prop :=
  ∀ m, r = .ok (m, true) → ∃ a b, ab = some (a, b) ∧ Together call origin a b

theorem owed_error {call : OutboundCall} {origin : Origin} (e : Exn) :
    Owed (CreatedRow call origin) [] (.error e) := by
  constructor
  · intro _ m h
    cases h
  · intro ab hab
    cases hab

/-- The message and the commit: with the key observed they publish the two together. -/
theorem publishes_message {call : OutboundCall} {origin : Origin}
    (ho : call.out.origin = some origin) {o : KeyObservation} (huser : o.userId = call.user.id)
    (hpubkey : o.pubkey = origin.senderPubkey) {body clientMsgId : String} (hx : x.work = some w)
    (hbound : Bound o call.minted.bumpedAt x.db w) :
    Publishes (along g spec) p (Together call origin) (CreatedRow call origin) [] (do
      let row := outboundRow call.user call.channel call.out body clientMsgId call.minted
      flushOr .messageIntegrityError (fun db => db.insertMessage row)
        (.messageInsert row.id call.channel.id clientMsgId)
      commit
      return (row, true)) x := by
  intro y hy _
  have hdb : y.db = x.db := hy.db_eq hx
  have hwork : y.work = some w := hy.work.trans hx
  rw [hy.view_eq hx]
  constructor
  · intro s hs
    obtain ⟨_, rfl⟩ := Db.insertMessage_eq_some.mp hs
    constructor
    · intro hfree
      rw [hwork] at hfree
      cases hfree.2
    · intro _
      apply Publishes.commit rfl
      intro z hz _
      have hzdb : z.db = x.db := (hz.db_eq rfl).trans hdb
      have htogether : Together call origin z.db
          { w with messages := w.messages ++
            [outboundRow call.user call.channel call.out body clientMsgId call.minted] } := by
        constructor
        · refine ⟨outboundRow call.user call.channel call.out body clientMsgId call.minted, rfl,
            ho, ?_⟩
          rw [hzdb, ← hbound.messages]
        · rw [hzdb, ← huser, ← hpubkey]
          exact hbound.key
      refine ⟨htogether, allows_all _ _, ?_⟩
      constructor
      · exact fun hnone => by cases hnone
      · intro ab hab m _
        rw [List.mem_singleton.mp hab]
        exact ⟨_, _, rfl, htogether⟩
  · exact fun _ _ _ => owed_error _

theorem publishes_createOutbound {call : OutboundCall} {origin : Origin} {failure : Exn}
    {stop : Option ℕ} (ho : call.out.origin = some origin) (hx : x.work = none) :
    Publishes (along (Prod.mk (.send call failure stop)) spec) p (Together call origin)
      (CreatedRow call origin) [] (createOutbound call.user call.channel call.out call.minted) x := by
  unfold createOutbound
  cases hkey : encode call.out.clientMsgId with
  | none =>
      rw [bindText, hkey]
      exact owed_error _
  | some clientMsgId =>
      rw [bindText_eq hkey]
      apply Publishes.query
      intro y hy
      have hyfree : y.work = none := hy.free hx
      cases y.view.messages.find? fun m =>
          m.channelId = call.channel.id && m.clientMsgId = some clientMsgId with
      | some existing =>
          constructor
          · exact fun _ _ h => by cases h
          · exact fun _ h => by cases h
      | none =>
          apply Publishes.after_reads (uses_refuseBlockedDm _ _) hyfree trivial
            (safe_any allows_all _) owed_error
          intro _ z hz _ _
          unfold recordOrigin
          rw [ho]
          apply publishes_recordSigningKey ho rfl rfl owed_error _ hz
          intro u w hu hbound
          cases hbody : encode call.out.body with
          | none =>
              rw [bindText, hbody]
              exact owed_error _
          | some body =>
              rw [bindText_eq hbody]
              exact publishes_message ho rfl rfl hu hbound

theorem publishes_family {requests : ℕ → SomeRequest} (p : ℕ) (db : Db) (mem : Memory) :
    Publishes spec p (Allowed (requests p)) (Created (requests p)) [] (family requests p)
      ⟨db, mem, none⟩ := by
  apply publishes_relabel
  have hany := publishes_any (p := p) (x := ⟨db, mem, none⟩)
    (allows_all (g := Prod.mk (requests p))) (requests p).body []
  cases hrequest : requests p with
  | other r =>
      rw [hrequest] at hany
      exact hany
  | send call failure stop =>
      cases ho : call.out.origin with
      | none =>
          rw [hrequest] at hany
          apply hany.mono
          · intro a b _ origin ho'
            rw [ho] at ho'
            cases ho'
          · intro ab r _ origin m ho'
            rw [ho] at ho'
            cases ho'
      | some origin =>
          apply publishes_cutAt
          · apply Publishes.map
            apply (publishes_createOutbound ho rfl).session.mono
            · intro a b htogether origin' ho'
              obtain rfl : origin = origin' := Option.some.inj (ho.symm.trans ho')
              exact htogether
            · intro ab r hcreated origin' m ho' hr
              cases r with
              | error e => cases hr
              | ok result =>
                  obtain rfl : origin = origin' := Option.some.inj (ho.symm.trans ho')
                  exact hcreated m (by rw [Option.some.inj (Except.ok.inj hr)])
          · intro ab origin' m _ hr
            cases hr

end

/-! ## Runs -/

section
variable {db : Db} {mem : Memory} {requests : ℕ → SomeRequest} {p : ℕ} {call : OutboundCall}
  {origin : Origin} {failure : Exn} {stop : Option ℕ}
  {c : Cfg ℕ Db Memory (SomeRequest × Label) Exn (Option (Message × Bool))}

/-- What a run owes to its sends with an origin: each change a send makes to the committed store
is its message and the observation of its key, and it made one before it returns its row as
new. -/
structure Atomic (db : Db) (mem : Memory) (requests : ℕ → SomeRequest)
    (P : SomeRequest × Label → Point Db Memory → Prop) (p : ℕ) (call : OutboundCall)
    (origin : Origin) (c : Cfg ℕ Db Memory (SomeRequest × Label) Exn (Option (Message × Bool))) :
    Prop where
  together : ∀ c', c.Meets P p → c.step p = some c' →
    c'.db = c.db ∨ Together call origin c.db c'.db
  created : ∀ m, c.procs p = .ret (some (m, true)) → ∃ c₁ c₂,
    Cfg.Reach P (Cfg.init db mem (family requests)) c₁ ∧ c₁.step p = some c₂ ∧
      Cfg.Reach P c₂ c ∧ Together call origin c₁.db c₂.db

/-- In a run in which the first key INSERT of every send finds its row, the observation of a key
is committed with the message and never without it. -/
theorem key_and_message_together
    (hr : Cfg.Reach (fun t x => keyStored t x = true) (Cfg.init db mem (family requests)) c)
    (hp : requests p = .send call failure stop) (ho : call.out.origin = some origin) :
    Atomic db mem requests (fun t x => keyStored t x = true) p call origin c := by
  have hinit : Guarded spec (fun p => Allowed (requests p)) (fun p => Created (requests p))
      (fun _ => []) (Cfg.init db mem (family requests)) :=
    ⟨trivial, fun p => publishes_family p db mem⟩
  obtain ⟨past, hguarded, _, hnew⟩ := hinit.reach hr
  have hallowed : ∀ a b, Allowed (requests p) a b → Together call origin a b := by
    intro a b h
    rw [hp] at h
    exact h origin ho
  constructor
  · intro c' hm hs
    exact (hguarded.change hm hs).imp_right (hallowed _ _)
  · intro m hret
    have howed := hguarded.result (r := .ok (some (m, true))) hret
    rw [hp] at howed
    cases hpast : past p with
    | nil =>
        obtain ⟨_, _, hnone, _⟩ := howed.1 hpast origin m ho rfl
        cases hnone
    | cons ab rest =>
        have hmem : ab ∈ past p := by
          rw [hpast]
          exact List.mem_cons_self
        obtain ⟨a, b, hab, htogether⟩ := howed.2 ab hmem origin m ho rfl
        obtain rfl := Option.some.inj hab
        rcases hnew p (a, b) hmem with hnil | ⟨c₁, c₂, h₁, hs, h₂, heq⟩
        · cases hnil
        · obtain ⟨rfl, rfl⟩ := Prod.mk.inj heq
          exact ⟨c₁, c₂, h₁, hs, h₂, htogether⟩

end

/-! ## A known key and a new one -/

def keyOrigin : Origin where
  senderPubkey := "zK"
  keyVersion := 1
  sig := "s"

def firstSend : OutboundCall where
  user := { id := "U", username := "u", aikoUsername := "u" }
  channel := { id := "C", name := "c", aikoChannel := "c" }
  out := { body := codes "hi", clientMsgId := codes "k", origin := some keyOrigin }
  minted := { msgId := "M", keyIds := ["K", "L"], now := 7, bumpedAt := 8 }

def oneSend (stop : Option ℕ) (p : ℕ) : SomeRequest :=
  if p = 0 then .send firstSend .peerGone stop else .other (return ())

def knownKey : Db where
  signingKeys := [⟨"J", "U", "zK", 1, 1, 1, .session 0⟩]

/-- With a known key the message and the bump are there after the commit. -/
theorem known_key_and_message_together :
    ∃ c, Cfg.playChecked keyStored [0, 0, 0, 0, 0, 0, 0]
        (Cfg.init knownKey {} (family (oneSend none))) = some c ∧
      Atomic knownKey {} (oneSend none) (fun t x => keyStored t x = true) 0 firstSend keyOrigin
        c := by
  have hrun : (Cfg.playChecked keyStored [0, 0, 0, 0, 0, 0, 0]
      (Cfg.init knownKey {} (family (oneSend none)))).isSome = true := by
    decide +kernel
  obtain ⟨c, hc⟩ := Option.isSome_iff_exists.mp hrun
  exact ⟨c, hc, key_and_message_together
    (Cfg.reach_of_playChecked (fun _ _ h => h) Cfg.Reach.start hc) rfl rfl⟩

/-- A new key is committed with the release of its savepoint; here the send stops after it. -/
theorem a_new_key_is_committed_alone :
    ¬∀ (db : Db) (mem : Memory) (requests : ℕ → SomeRequest) (p : ℕ) (call : OutboundCall)
      (origin : Origin) (failure : Exn) (stop : Option ℕ)
      (c : Cfg ℕ Db Memory (SomeRequest × Label) Exn (Option (Message × Bool))),
      Cfg.Reach (fun _ _ => True) (Cfg.init db mem (family requests)) c →
      requests p = .send call failure stop → call.out.origin = some origin →
        Atomic db mem requests (fun _ _ => True) p call origin c := by
  intro hclaim
  have hrun : ((Cfg.play [0] (Cfg.init {} {} (family (oneSend (some 2))))).bind fun c =>
      (c.step 0).map fun c' => (c.db.signingKeys.length, c.db.messages.length,
        c'.db.signingKeys.length, c'.db.messages.length)) = some (0, 0, 1, 0) := by
    decide +kernel
  obtain ⟨c, hc, hstep⟩ := Option.bind_eq_some_iff.mp hrun
  obtain ⟨c', hs, hlengths⟩ := Option.map_eq_some_iff.mp hstep
  rw [Prod.mk.injEq, Prod.mk.injEq, Prod.mk.injEq] at hlengths
  obtain ⟨hkeys, hmessages, hkeys', hmessages'⟩ := hlengths
  have hatomic := hclaim {} {} (oneSend (some 2)) 0 firstSend keyOrigin .peerGone (some 2) c
    (Cfg.reach_of_play Cfg.Reach.start hc) rfl rfl
  rcases hatomic.together c' (fun _ _ => trivial) hs with hsame | htogether
  · rw [hsame, hkeys] at hkeys'
    cases hkeys'
  · obtain ⟨m, _, _, happended⟩ := htogether.message
    rw [happended, List.length_append, hmessages] at hmessages'
    cases hmessages'

end AikoIsland.KeyBinding
