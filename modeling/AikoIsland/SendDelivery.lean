import AikoIsland.AppendOnly
import AikoIsland.SendPath

/-!
# The send path delivers what it persists

Any number of WebSocket sends, resends of a client id among them, interleaved
statement by statement; any send to a connection may raise. A message row that
a send has committed is handed to the hub's fanout exactly once and, when its
channel federates, to the bus exactly once, in every run in which no ack of a
newly created row raises. Nothing is handed over twice in any run of this kind,
and a send without a new row hands over nothing.

The ack stands between the commit and the two hand-overs. When it raises there,
the row stays and nobody is told: the resend finds the row and only acks.
-/
namespace AikoIsland.SendDelivery
open Tables Gateway WriterLock RelyGuarantee Footprint AppendOnly SigningKeys Messages Realtime
open SendPath

/-! ## The sends -/

structure Send where
  conn : ℕ
  user : User
  frame : SendFrame

def Send.body (s : Send) : Body Unit := handleSend s.conn s.user s.frame

/-- The id that the row gets if the send creates one. -/
def Send.msgId (s : Send) : String := s.frame.minted.msgId

/-- What the ULID generator promises: a minted id is new and minted once. -/
structure FreshIds (db₀ : Db) (sends : ℕ → Send) : Prop where
  new : ∀ p, ∀ m ∈ db₀.messages, m.id ≠ (sends p).msgId
  once : ∀ p q, p ≠ q → (sends p).msgId ≠ (sends q).msgId

/-- The condition on steps. -/
def ackReturns : Label → Point Db Memory → Bool
  | .ackSend created raises, _ => !(created && raises)
  | _, _ => true

/-! ## What is known of one row -/

def rowsOf (id : String) (db : Db) : List Message := db.messages.filter fun m => m.id = id

def fansOut (id : String) : Call → Bool
  | .fanout channelId (.message m) _ => m.id = id && m.channelId = channelId
  | _ => false

def publishes (id : String) : Call → Bool
  | .busSend msgId _ _ _ => msgId = id
  | _ => false

def fanoutsOf (id : String) (calls : List Call) : ℕ := calls.countP (fansOut id)

def busSendsOf (id : String) (calls : List Call) : ℕ := calls.countP (publishes id)

/-- The rows under the id, and how often they were handed to the hub and to the bus. -/
structure Tally (id : String) (rows : List Message) (fanouts busSends : ℕ) (db : Db)
    (mem : Memory) : Prop where
  rows : rowsOf id db = rows
  fanouts : fanoutsOf id mem.calls = fanouts
  busSends : busSendsOf id mem.calls = busSends

/-- A call that hands over no message under the id. -/
def Spares (id : String) (call : Call) : Prop := fansOut id call = false ∧ publishes id call = false

/-- What the other sends do to the row of one. -/
structure Others (id : String) (db : Db) (mem : Memory) (db' : Db) (mem' : Memory) : Prop where
  messages : Appends (fun m => m.id ≠ id) db.messages db'.messages
  calls : Appends (Spares id) mem.calls mem'.calls

theorem Others.refl (id : String) (db : Db) (mem : Memory) : Others id db mem db mem :=
  ⟨Appends.refl _ _, Appends.refl _ _⟩

theorem Others.trans {id : String} {a b c : Db} {m m' m'' : Memory} (h : Others id a m b m')
    (h' : Others id b m' c m'') : Others id a m c m'' :=
  ⟨h.messages.trans h'.messages, h.calls.trans h'.calls⟩

theorem Tally.others {id : String} {rows : List Message} {f b : ℕ} {db db' : Db}
    {mem mem' : Memory} (h : Tally id rows f b db mem) (ho : Others id db mem db' mem') :
    Tally id rows f b db' mem' where
  rows := by
    rw [rowsOf, ho.messages.filter_eq fun m hm => by simpa using hm]
    exact h.rows
  fanouts := by
    rw [fanoutsOf, List.countP_eq_length_filter, ho.calls.filter_eq fun c hc => hc.1,
      ← List.countP_eq_length_filter]
    exact h.fanouts
  busSends := by
    rw [busSendsOf, List.countP_eq_length_filter, ho.calls.filter_eq fun c hc => hc.2,
      ← List.countP_eq_length_filter]
    exact h.busSends

/-! ## The specification -/

/-- Nothing is handed over twice; what users can read is as it was at the start. -/
structure Once (db₀ db : Db) (mem : Memory) : Prop where
  readable : ∀ u c, db.readableChannel u c = db₀.readableChannel u c
  fanouts : ∀ id, fanoutsOf id mem.calls ≤ 1
  busSends : ∀ id, busSendsOf id mem.calls ≤ 1

def spec (db₀ : Db) (sends : ℕ → Send) : Spec ℕ Db Memory Label where
  inv := Once db₀
  rely p := Others (sends p).msgId
  meets t x := ackReturns t x = true
  rely_refl _ db mem := Others.refl _ db mem
  rely_trans h h' := h.trans h'

section
variable {db₀ : Db} {sends : ℕ → Send} {p : ℕ} {x y : Point Db Memory} {rows : List Message}
  {f b : ℕ}

theorem Tally.env (h : Tally (sends p).msgId rows f b x.db x.mem)
    (he : (spec db₀ sends).Env p x y) : Tally (sends p).msgId rows f b y.db y.mem :=
  h.others he.rely

theorem Tally.called {id : String} {db : Db} {mem mem' : Memory} {call : Call}
    (h : Tally id rows f b db mem) (hcalls : mem'.calls = mem.calls ++ [call]) :
    Tally id rows (f + (fansOut id call).toNat) (b + (publishes id call).toNat) db mem' where
  rows := h.rows
  fanouts := by
    have hf : mem.calls.countP (fansOut id) = f := h.fanouts
    rw [fanoutsOf, hcalls, List.countP_append, hf]
    cases hc : fansOut id call <;> simp [hc]
  busSends := by
    have hb : mem.calls.countP (publishes id) = b := h.busSends
    rw [busSendsOf, hcalls, List.countP_append, hb]
    cases hc : publishes id call <;> simp [hc]

/-- A segment that makes no call. -/
theorem allows_uncalled (hi : Once db₀ x.db x.mem) {g : Db → Memory → Memory}
    (hcalls : (g x.db x.mem).calls = x.mem.calls) :
    (spec db₀ sends).Allows p x (x.acted g) where
  inv := by
    refine ⟨hi.readable, fun id => ?_, fun id => ?_⟩
    · simpa [hcalls] using hi.fanouts id
    · simpa [hcalls] using hi.busSends id
  others _ _ := ⟨Appends.refl _ _, Appends.of_eq hcalls⟩

/-- A call that concerns the sender's own row only, with the count it leads to. -/
theorem allows_called (hfresh : FreshIds db₀ sends) (hi : Once db₀ x.db x.mem) {call : Call}
    {g : Db → Memory → Memory} (hcalls : (g x.db x.mem).calls = x.mem.calls ++ [call])
    (howns : ∀ id, id ≠ (sends p).msgId → Spares id call)
    (h : Tally (sends p).msgId rows f b x.db (g x.db x.mem)) (hf : f ≤ 1) (hb : b ≤ 1) :
    (spec db₀ sends).Allows p x (x.acted g) where
  inv := by
    refine ⟨hi.readable, fun id => ?_, fun id => ?_⟩
    · by_cases hid : id = (sends p).msgId
      · rw [hid, Point.acted_mem, h.fanouts]
        exact hf
      · have hspared := (howns id hid).1
        have hold := hi.fanouts id
        simpa [fanoutsOf, hcalls, List.countP_append, hspared] using hold
    · by_cases hid : id = (sends p).msgId
      · rw [hid, Point.acted_mem, h.busSends]
        exact hb
      · have hspared := (howns id hid).2
        have hold := hi.busSends id
        simpa [busSendsOf, hcalls, List.countP_append, hspared] using hold
  others q hq := by
    refine ⟨Appends.refl _ _, ?_⟩
    rw [Point.acted_mem, hcalls]
    exact Appends.single _ (howns _ (hfresh.once q p hq))

theorem allows_reply (hfresh : FreshIds db₀ sends) (hi : Once db₀ x.db x.mem)
    (h : Tally (sends p).msgId rows f b x.db x.mem) (conn : ℕ) (r : Reply) :
    (spec db₀ sends).Allows p x (x.acted fun _ m => m.log (.reply conn r)) ∧
      Tally (sends p).msgId rows f b (x.acted fun _ m => m.log (.reply conn r)).db
        (x.acted fun _ m => m.log (.reply conn r)).mem := by
  have hcalls : (x.mem.log (.reply conn r)).calls = x.mem.calls ++ [.reply conn r] := rfl
  have hcalled : Tally (sends p).msgId rows f b x.db (x.mem.log (.reply conn r)) := h.called hcalls
  refine ⟨allows_called hfresh hi rfl (fun _ _ => ⟨rfl, rfl⟩) hcalled ?_ ?_, hcalled⟩
  · rw [← h.fanouts]
    exact hi.fanouts _
  · rw [← h.busSends]
    exact hi.busSends _

/-! ## The transaction -/

/-- Key rows are nobody's message. -/
theorem allows_onlyKeys (hi : Once db₀ x.db x.mem) {s : Db} {w : Option Db}
    (h : OnlyKeys x.db s) : (spec db₀ sends).Allows p x ⟨s, x.mem, w⟩ := by
  obtain ⟨keys, rfl⟩ := h
  exact ⟨⟨hi.readable, hi.fanouts, hi.busSends⟩, fun _ _ => ⟨Appends.refl _ _, Appends.refl _ _⟩⟩

theorem respects_keys (hfresh : FreshIds db₀ sends) (conn : ℕ) (user : User) :
    Respects (spec db₀ sends) p (Tally (sends p).msgId rows f b) OnlyKeys (OriginWrite user)
      (ErrorReply conn) where
  refl := OnlyKeys.refl
  trans := OnlyKeys.trans
  stable he h := h.env he
  write _ _ _ _ hw _ _ _ _ hs := onlyKeys_of_originWrite hw hs
  segment t g z hg hi hv _ := by
    obtain ⟨code, detail, clientMsgId, raises⟩ := hg
    cases raises with
    | true => exact ⟨allows_uncalled hi rfl, hv⟩
    | false => exact allows_reply hfresh hi hv conn _
  commit db mem s hi hv h := by
    refine ⟨allows_onlyKeys (x := ⟨db, mem, none⟩) hi h, ?_⟩
    obtain ⟨keys, rfl⟩ := h
    exact ⟨hv.rows, hv.fanouts, hv.busSends⟩

theorem transaction (hfresh : FreshIds db₀ sends) (p : ℕ) :
    Transaction (spec db₀ sends) p (sends p).conn (sends p).user (sends p).msgId
      (Tally (sends p).msgId [] 0 0) OnlyKeys
      (fun row => Tally (sends p).msgId [row] 0 0) where
  before := respects_keys hfresh _ _
  commit db mem k s row channel hi hv hk hrow hs := by
    obtain ⟨keys, rfl⟩ := hk
    obtain ⟨_, rfl⟩ := Db.insertMessage_eq_some.mp hs
    constructor
    · refine ⟨⟨hi.readable, hi.fanouts, hi.busSends⟩, fun q hq => ⟨?_, Appends.refl _ _⟩⟩
      refine Appends.single _ ?_
      rw [hrow.id]
      exact hfresh.once p q hq.symm
    · refine ⟨?_, hv.fanouts, hv.busSends⟩
      have hnone : db.messages.filter (fun m => m.id = (sends p).msgId) = [] := hv.rows
      simp [rowsOf, List.filter_append, hnone, hrow.id]
  after he h := h.env he

/-! ## After the commit -/

/-- One fanout of the row; the connections it drops change no count. -/
theorem safe_fanout (hfresh : FreshIds db₀ sends) {row : Message}
    (hid : row.id = (sends p).msgId) (h : Tally (sends p).msgId [row] 0 b x.db x.mem)
    (exclude : List String) (dead : List ℕ) :
    Safe (spec db₀ sends) p (fanout row.channelId (.message row) exclude dead)
      (fun _ y => Tally (sends p).msgId [row] 1 b y.db y.mem) (fun _ _ => False) x := by
  refine Safe.atomically fun y hy _ => ?_
  have hyt : Tally (sends p).msgId [row] 0 b y.db y.mem := h.env hy
  have hcalls : ∃ targets, (y.mem.fanout y.db row.channelId (.message row) exclude).calls =
      y.mem.calls ++ [.fanout row.channelId (.message row) targets] := ⟨_, rfl⟩
  obtain ⟨targets, hcalls⟩ := hcalls
  have hsent : Tally (sends p).msgId [row] 1 b y.db
      (y.mem.fanout y.db row.channelId (.message row) exclude) := by
    have hcalled := hyt.called hcalls
    simpa [fansOut, publishes, hid] using hcalled
  have hb : b ≤ 1 := by
    rw [← hyt.busSends]
    exact hy.inv.busSends _
  refine ⟨allows_called hfresh hy.inv hcalls (fun id hne => ?_) hsent le_rfl hb, ?_⟩
  · simp [Spares, fansOut, publishes, hid, Ne.symm hne]
  · split_ifs
    · exact Safe.pure fun z hz => Tally.env hsent hz
    · intro z hz _
      have hzt := Tally.env hsent hz
      refine ⟨allows_uncalled hz.inv (by simp [Memory.foldl_unregister]), fun u hu => ?_⟩
      refine Tally.env (x := z.acted _) ?_ hu
      exact ⟨hzt.rows, by simpa [Memory.foldl_unregister] using hzt.fanouts,
        by simpa [Memory.foldl_unregister] using hzt.busSends⟩

/-- A channel that federates gets one publish before the fanout. -/
theorem safe_deliver (hfresh : FreshIds db₀ sends) (user : User) (frame : SendFrame)
    {r : Persisted} (hid : r.row.id = (sends p).msgId) (hch : r.row.channelId = r.channel.id)
    (h : Tally (sends p).msgId [r.row] 0 0 x.db x.mem) :
    Safe (spec db₀ sends) p (deliver user frame r)
      (fun _ y => Tally (sends p).msgId [r.row] 1 (shouldFederate r.channel).toNat y.db y.mem)
      (fun _ _ => False) x := by
  unfold deliver
  rw [← hch]
  cases shouldFederate r.channel with
  | false => exact safe_fanout hfresh hid h r.exclude frame.dead
  | true =>
      refine Safe.atomically fun y hy _ => ?_
      have hyt : Tally (sends p).msgId [r.row] 0 0 y.db y.mem := h.env hy
      have hcalls : (published user r.channel r.row frame.body frame.sentAt frame.discovered
          y.mem).calls = y.mem.calls ++
            [.busSend r.row.id user.aikoUsername r.channel.aikoChannel frame.body] :=
        rfl
      have hsent : Tally (sends p).msgId [r.row] 0 1 y.db
          (published user r.channel r.row frame.body frame.sentAt frame.discovered y.mem) := by
        have hcalled := hyt.called hcalls
        simpa [fansOut, publishes, hid] using hcalled
      refine ⟨allows_called hfresh hy.inv hcalls (fun id hne => ?_) hsent zero_le_one le_rfl, ?_⟩
      · simp [Spares, fansOut, publishes, hid, Ne.symm hne]
      · exact safe_fanout hfresh hid hsent r.exclude frame.dead

/-- No row and no hand-over, or one row handed over as its channel asks. -/
def Delivered (db₀ : Db) (s : Send) (db : Db) (mem : Memory) : Prop :=
  Tally s.msgId [] 0 0 db mem ∨ ∃ row channel,
    db₀.readableChannel s.user.id row.channelId = some channel ∧
      Tally s.msgId [row] 1 (shouldFederate channel).toNat db mem

theorem Delivered.env (h : Delivered db₀ (sends p) x.db x.mem)
    (he : (spec db₀ sends).Env p x y) : Delivered db₀ (sends p) y.db y.mem := by
  rcases h with hnone | ⟨row, channel, hch, hrow⟩
  · exact Or.inl (hnone.env he)
  · exact Or.inr ⟨row, channel, hch, hrow.env he⟩

theorem safe_body (hfresh : FreshIds db₀ sends) (hi : Once db₀ x.db x.mem)
    (hx : x.work = none) (h : Tally (sends p).msgId [] 0 0 x.db x.mem) :
    Safe (spec db₀ sends) p (sends p).body
      (fun _ y => Delivered db₀ (sends p) y.db y.mem)
      (fun _ y => Delivered db₀ (sends p) y.db y.mem) x := by
  have hsession := safe_sendSession (sends p).frame (transaction hfresh p) hi h hx
  refine Safe.andThen (hsession.mono (fun _ _ _ hr => hr) fun _ _ _ he => Or.inl he) hi ?_
  rintro r y hyi ⟨_, hr⟩
  cases r with
  | none => exact Safe.pure fun z hz => Or.inl (Tally.env hr hz)
  | some r =>
      obtain ⟨⟨⟨db, mem, hdb, hread⟩, _⟩, hr⟩ := hr
      dsimp only
      cases hc : r.created with
      | false =>
          simp only [hc, Bool.false_eq_true, if_false] at hr
          refine safe_connSend (fun z hz _ _ => ?_) fun z u hz _ _ hu => ?_
          · have hreply := allows_reply hfresh hz.inv (Tally.env hr hz) (sends p).conn
              (.ack (sends p).frame.clientMsgId r.row.id r.row.createdAt)
            exact ⟨hreply.1, Safe.pure fun u hu => Or.inl (Tally.env hreply.2 hu)⟩
          · exact Or.inl (Tally.env hr (hz.trans hu))
      | true =>
          simp only [hc, if_true] at hr
          obtain ⟨hout, hrow⟩ := hr
          refine safe_connSend (fun z hz _ _ => ?_) fun z u hz hm hraise hu => ?_
          · have hreply := allows_reply hfresh hz.inv (Tally.env hrow hz) (sends p).conn
              (.ack (sends p).frame.clientMsgId r.row.id r.row.createdAt)
            refine ⟨hreply.1, ?_⟩
            refine (safe_deliver hfresh _ _ hout.id hout.channel hreply.2).mono ?_ ?_
            · intro _ u _ hu
              rw [hdb.readable, ← hout.channel] at hread
              exact Or.inr ⟨r.row, r.channel, hread, hu⟩
            · exact fun _ _ _ he => he.elim
          · -- the condition rules out an ack that raises after a commit
            have hret : ackReturns (.ackSend true (sends p).frame.peerGone) z = true := hm
            rw [hraise] at hret
            cases hret

end

/-! ## Every run -/

/-- A row of the send was handed to the hub once, and to the bus once when its channel federates;
without a row nothing was handed over. -/
def HandedOver (s : Send) (db : Db) (calls : List Call) : Prop :=
  (∀ m ∈ db.messages, m.id = s.msgId → fanoutsOf m.id calls = 1 ∧
    ∃ channel, db.readableChannel s.user.id m.channelId = some channel ∧
      busSendsOf m.id calls = (shouldFederate channel).toNat) ∧
  ((∀ m ∈ db.messages, m.id ≠ s.msgId) → fanoutsOf s.msgId calls = 0 ∧ busSendsOf s.msgId calls = 0)

/-- In every state of a run in which no ack of a new row raises: nothing was handed over twice,
and what an ended send has committed was handed over once, to the hub and where due to the bus. -/
theorem committed_row_is_handed_over_once {db₀ : Db} {mem₀ : Memory} {sends : ℕ → Send}
    (hfresh : FreshIds db₀ sends) (hcalls : mem₀.calls = [])
    {c : Cfg ℕ Db Memory Label Exn Unit}
    (hr : Cfg.Reach (fun t x => ackReturns t x = true)
      (Cfg.init db₀ mem₀ fun p => (sends p).body) c) :
    (∀ id, fanoutsOf id c.mem.calls ≤ 1 ∧ busSendsOf id c.mem.calls ≤ 1) ∧
      ∀ p, (c.procs p).ended = true → HandedOver (sends p) c.db c.mem.calls := by
  have hinit : Once db₀ db₀ mem₀ := by
    refine ⟨fun _ _ => rfl, fun id => ?_, fun id => ?_⟩
    · simp [fanoutsOf, hcalls]
    · simp [busSendsOf, hcalls]
  have hempty : ∀ p, Tally (sends p).msgId [] 0 0 db₀ mem₀ := by
    intro p
    refine ⟨?_, by simp [fanoutsOf, hcalls], by simp [busSendsOf, hcalls]⟩
    simpa [rowsOf, List.filter_eq_nil_iff] using hfresh.new p
  have hsound := (Sound.init (S := spec db₀ sends)
    (Q := fun p _ y => Delivered db₀ (sends p) y.db y.mem)
    (E := fun p _ y => Delivered db₀ (sends p) y.db y.mem) hinit
    fun p => safe_body hfresh hinit rfl (hempty p)).reach hr
  refine ⟨fun id => ⟨hsound.inv.fanouts id, hsound.inv.busSends id⟩, fun p hend => ?_⟩
  have hdelivered : Delivered db₀ (sends p) c.db c.mem := by
    cases hp : c.procs p with
    | ret a => exact hsound.returned hp
    | raise e => exact hsound.raised hp
    | _ =>
        rw [hp] at hend
        cases hend
  have hrow : ∀ m ∈ c.db.messages, m.id = (sends p).msgId →
      m ∈ rowsOf (sends p).msgId c.db := by
    intro m hm hid
    exact List.mem_filter.mpr ⟨hm, by simpa using hid⟩
  rcases hdelivered with hnone | ⟨row, channel, hread, hone⟩
  · constructor
    · intro m hm hid
      have hmem := hrow m hm hid
      rw [hnone.rows] at hmem
      cases hmem
    · exact fun _ => ⟨hnone.fanouts, hnone.busSends⟩
  · constructor
    · intro m hm hid
      have hmem := hrow m hm hid
      rw [hone.rows] at hmem
      obtain rfl := List.mem_singleton.mp hmem
      rw [hid, hsound.inv.readable]
      exact ⟨hone.fanouts, channel, hread, hone.busSends⟩
    · intro habsent
      have hmem : row ∈ rowsOf (sends p).msgId c.db := by
        rw [hone.rows]
        exact List.mem_singleton_self row
      obtain ⟨hin, hid⟩ := List.mem_filter.mp hmem
      exact absurd (of_decide_eq_true hid) (habsent row hin)

/-! ## Runs -/

def sender : User := { id := "A", username := "a", aikoUsername := "a" }

def room : Db where
  users := [sender]
  channels := [{ id := "C", name := "room", aikoChannel := "room" }]

/-- Sends with one client id from one socket after the other; the peer of the first is gone. -/
def resends (p : ℕ) : Send where
  conn := p
  user := sender
  frame :=
    { clientMsgId := codes "x", channelId := codes "C", body := codes "hi",
      minted := { msgId := String.ofList ('m' :: List.replicate p 'x') }, peerGone := p = 0 }

theorem resends_freshIds : FreshIds room resends where
  new _ m hm := by cases hm
  once p q hpq heq := by
    have hlengths := congrArg (fun s => s.toList.length) heq
    simp only [Send.msgId, resends, String.toList_ofList, List.length_cons,
      List.length_replicate] at hlengths
    omega

def resendStart : Cfg ℕ Db Memory Label Exn Unit := Cfg.init room {} fun p => (resends p).body

/-- Without the condition a committed row can stay undelivered: its ack raises, and the resend
finds the row and only acks. -/
theorem send_can_lose_a_committed_row :
    ¬ ∀ (db₀ : Db) (mem₀ : Memory) (sends : ℕ → Send) (c : Cfg ℕ Db Memory Label Exn Unit),
      FreshIds db₀ sends → mem₀.calls = [] →
      Cfg.Reach (fun _ _ => True) (Cfg.init db₀ mem₀ fun p => (sends p).body) c →
      ∀ p, (c.procs p).ended = true → ∀ m ∈ c.db.messages, m.id = (sends p).msgId →
        fanoutsOf m.id c.mem.calls = 1 := by
  intro hclaim
  have hrun : (Cfg.play [0, 0, 0, 0, 0, 0, 0, 0, 1, 1, 1, 1, 1, 1] resendStart).map
      (fun c => ((c.procs 0).ended, (c.procs 1).ended, c.db.messages.map (·.id),
        fanoutsOf "m" c.mem.calls)) = some (true, true, ["m"], 0) := by
    decide +kernel
  obtain ⟨c, hc, hview⟩ := Option.map_eq_some_iff.mp hrun
  simp only [Prod.mk.injEq] at hview
  obtain ⟨hend, _, hrows, hnone⟩ := hview
  have hin : "m" ∈ c.db.messages.map (·.id) := by simp [hrows]
  obtain ⟨m, hm, hid⟩ := List.mem_map.mp hin
  have hone := hclaim room {} resends c resends_freshIds rfl
    (Cfg.reach_of_play Cfg.Reach.start hc) 0 hend m hm hid
  rw [hid, hnone] at hone
  cases hone

/-- A resend whose ack raises after the row was delivered meets the condition. -/
theorem failing_resend_hands_over_once :
    ∃ c, Cfg.playChecked ackReturns [1, 1, 1, 1, 1, 1, 1, 1, 1, 1, 0, 0, 0, 0, 0, 0] resendStart =
        some c ∧
      ((∀ id, fanoutsOf id c.mem.calls ≤ 1 ∧ busSendsOf id c.mem.calls ≤ 1) ∧
        ∀ p, (c.procs p).ended = true → HandedOver (resends p) c.db c.mem.calls) := by
  have hrun : (Cfg.playChecked ackReturns [1, 1, 1, 1, 1, 1, 1, 1, 1, 1, 0, 0, 0, 0, 0, 0]
      resendStart).isSome = true := by
    decide +kernel
  obtain ⟨c, hc⟩ := Option.isSome_iff_exists.mp hrun
  exact ⟨c, hc, committed_row_is_handed_over_once resends_freshIds rfl
    (Cfg.reach_of_playChecked (fun _ _ h => h) Cfg.Reach.start hc)⟩

end AikoIsland.SendDelivery
