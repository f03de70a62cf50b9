import AikoIsland.SendPath

/-!
# The subscribe fence leaves no gap

Any number of subscribes, sends and bus ingests over one hub, interleaved
statement by statement, with the block rows constant and no membership change.
For every channel of a suback, each message the viewer may see that was there
before the run, or whose flow has reached its fanout, is at most the fence or
was sent live to the connection, for as long as the connection is registered.

Ids are in no order here. A message whose fanout took its snapshot before the
channel was added had been committed by then, so the fence, which is read
later, counts it; a later snapshot finds the connection.
-/
namespace AikoIsland.SubscribeFence
open Tables Gateway WriterLock RelyGuarantee Footprint SigningKeys Memberships Messages Realtime
open SendPath

/-! ## The flows -/

inductive Flow where
  | subscribe (conn : ℕ) (userId : String) (channelIds : List PyStr) (maxVariables : ℕ)
      (peerGone : Bool)
  | send (conn : ℕ) (user : User) (f : SendFrame)
  | ingest (msg : InboundMessage) (ids : IngestIds)

def Flow.body : Flow → Body Unit
  | .subscribe conn userId channelIds maxVariables peerGone =>
      (handleSubscribe conn userId channelIds maxVariables peerGone).session
  | .send conn user f => handleSend conn user f
  | .ingest msg ids => do
      let _ ← Realtime.ingest msg ids
      return ()

/-! ## Messages and their fanouts -/

def FannedOut (calls : List Call) (m : Message) : Prop :=
  ∃ targets, .fanout m.channelId (.message m) targets ∈ calls

def SentLive (conn : ℕ) (calls : List Call) (m : Message) : Prop :=
  ∃ targets, .fanout m.channelId (.message m) targets ∈ calls ∧ ∃ d ∈ targets, d.conn = conn

/-- There before the run, or committed by a flow that has reached its fanout. -/
def Due (db₀ : Db) (calls : List Call) (m : Message) : Prop :=
  m ∈ db₀.messages ∨ FannedOut calls m

def Subscribed (conn : ℕ) (channelId : String) (conns : List Connection) : Prop :=
  ∀ k ∈ conns, k.id = conn → channelId ∈ k.subscribed

/-- Every due message of the channel is accounted for by `B`, or was sent live. -/
structure Covered (db₀ : Db) (conn : ℕ) (channelId : String) (B : Message → Prop)
    (mem : Memory) : Prop where
  subscribed : Subscribed conn channelId mem.conns
  reached : ∀ k ∈ mem.conns, k.id = conn → ∀ m, visible db₀ channelId k.userId m = true →
    Due db₀ mem.calls m → B m ∨ SentLive conn mem.calls m

/-- What every step does to the hub: nobody registers, subscriptions stay, and a new fanout
reaches whoever was subscribed. -/
structure Later (db₀ : Db) (mem mem' : Memory) : Prop where
  conns : ∀ k' ∈ mem'.conns, ∃ k ∈ mem.conns,
    k.id = k'.id ∧ k.userId = k'.userId ∧ k.subscribed ⊆ k'.subscribed
  calls : ∀ c ∈ mem.calls, c ∈ mem'.calls
  live : ∀ m, FannedOut mem'.calls m → FannedOut mem.calls m ∨
    ∀ k' ∈ mem'.conns, Subscribed k'.id m.channelId mem.conns →
      visible db₀ m.channelId k'.userId m = true → SentLive k'.id mem'.calls m

section
variable {db₀ : Db} {a b c : Memory}

theorem SentLive.mono {conn : ℕ} {m : Message} (hcalls : ∀ c ∈ a.calls, c ∈ b.calls)
    (h : SentLive conn a.calls m) : SentLive conn b.calls m := by
  obtain ⟨targets, hmem, hd⟩ := h
  exact ⟨targets, hcalls _ hmem, hd⟩

theorem Later.subscribed (h : Later db₀ a b) {conn : ℕ} {channelId : String}
    (hs : Subscribed conn channelId a.conns) : Subscribed conn channelId b.conns := by
  intro k' hk' hid
  obtain ⟨k, hk, hkid, _, hsub⟩ := h.conns k' hk'
  exact hsub (hs k hk (hkid.trans hid))

theorem Later.refl (db₀ : Db) (a : Memory) : Later db₀ a a where
  conns k hk := ⟨k, hk, rfl, rfl, List.Subset.refl _⟩
  calls _ h := h
  live _ h := Or.inl h

theorem Later.trans (h : Later db₀ a b) (h' : Later db₀ b c) : Later db₀ a c where
  conns k'' hk'' := by
    obtain ⟨k', hk', hid', huser', hsub'⟩ := h'.conns k'' hk''
    obtain ⟨k, hk, hid, huser, hsub⟩ := h.conns k' hk'
    exact ⟨k, hk, hid.trans hid', huser.trans huser', List.Subset.trans hsub hsub'⟩
  calls call hcall := h'.calls call (h.calls call hcall)
  live m hm := by
    rcases h'.live m hm with hold | hlive
    · rcases h.live m hold with hfirst | hlive
      · exact Or.inl hfirst
      · right
        intro k'' hk'' hs hv
        obtain ⟨k', hk', hid, huser, _⟩ := h'.conns k'' hk''
        rw [← hid] at hs ⊢
        rw [← huser] at hv
        exact (hlive k' hk' hs hv).mono h'.calls
    · right
      intro k'' hk'' hs hv
      exact hlive k'' hk'' (h.subscribed hs) hv

/-- What is covered stays covered: a message that becomes due is sent live. -/
theorem Covered.later {conn : ℕ} {channelId : String} {B : Message → Prop}
    (hc : Covered db₀ conn channelId B a) (h : Later db₀ a b) :
    Covered db₀ conn channelId B b where
  subscribed := h.subscribed hc.subscribed
  reached k' hk' hid m hv hdue := by
    obtain ⟨k, hk, hkid, huser, _⟩ := h.conns k' hk'
    have hcover : Due db₀ a.calls m → B m ∨ SentLive conn b.calls m := by
      intro hold
      have hva : visible db₀ channelId k.userId m = true := by rwa [huser]
      exact (hc.reached k hk (hkid.trans hid) m hva hold).imp id (SentLive.mono h.calls)
    rcases hdue with hfirst | hfan
    · exact hcover (Or.inl hfirst)
    · rcases h.live m hfan with hold | hlive
      · exact hcover (Or.inr hold)
      · right
        have hch : m.channelId = channelId := by
          simp only [visible, Bool.and_eq_true, decide_eq_true_eq] at hv
          exact hv.1.1
        subst hch
        rw [← hid]
        exact hlive k' hk' (by rw [hid]; exact hc.subscribed) hv

theorem Covered.mono {conn : ℕ} {channelId : String} {B B' : Message → Prop}
    (hc : Covered db₀ conn channelId B a)
    (hB : ∀ k ∈ a.conns, k.id = conn → ∀ m, visible db₀ channelId k.userId m = true → B m → B' m) :
    Covered db₀ conn channelId B' a where
  subscribed := hc.subscribed
  reached k hk hid m hv hdue := (hc.reached k hk hid m hv hdue).imp (hB k hk hid m hv) id

end

/-! ## The specification -/

structure Fenced (db₀ db : Db) (mem : Memory) : Prop where
  blocks : db.blocks = db₀.blocks
  access : ∀ u c, (db₀.readableChannel u c).isSome = true → (db.readableChannel u c).isSome = true
  due : ∀ m, Due db₀ mem.calls m → m ∈ db.messages
  covered : ∀ conn fences, .reply conn (.suback fences) ∈ mem.calls → ∀ e ∈ fences,
    Covered db₀ conn e.1 (fun m => m.id ≤ e.2) mem

def spec (db₀ : Db) : Spec ℕ Db Memory Label where
  inv := Fenced db₀
  rely _ db mem db' mem' := (∀ m ∈ db.messages, m ∈ db'.messages) ∧ Later db₀ mem mem'
  meets _ _ := True
  rely_refl _ _ mem := ⟨fun _ h => h, Later.refl db₀ mem⟩
  rely_trans h h' := ⟨fun m hm => h'.1 m (h.1 m hm), h.2.trans h'.2⟩

/-- Messages and readable channels only grow; nobody is blocked or unblocked. -/
structure Grows (a b : Db) : Prop where
  messages : ∀ m ∈ a.messages, m ∈ b.messages
  blocks : b.blocks = a.blocks
  access : ∀ u c, (a.readableChannel u c).isSome = true → (b.readableChannel u c).isSome = true

theorem Grows.refl (a : Db) : Grows a a := ⟨fun _ h => h, rfl, fun _ _ h => h⟩

theorem Grows.trans {a b c : Db} (h : Grows a b) (h' : Grows b c) : Grows a c where
  messages m hm := h'.messages m (h.messages m hm)
  blocks := h'.blocks.trans h.blocks
  access u ch hr := h'.access u ch (h.access u ch hr)

theorem grows_of_insertMessage {a b : Db} {m : Message} (h : a.insertMessage m = some b) :
    Grows a b := by
  obtain ⟨_, rfl⟩ := Db.insertMessage_eq_some.mp h
  exact ⟨fun _ => List.mem_append_left _, rfl, fun _ _ hr => hr⟩

theorem grows_of_onlyKeys {a b : Db} (h : OnlyKeys a b) : Grows a b := by
  obtain ⟨_, rfl⟩ := h
  exact ⟨fun _ hm => hm, rfl, fun _ _ hr => hr⟩

theorem grows_of_insertChannel {a b : Db} {c : Channel} (h : a.insertChannel c = some b) :
    Grows a b := by
  obtain ⟨_, _, rfl⟩ := Db.insertChannel_eq_some.mp h
  refine ⟨fun _ hm => hm, rfl, fun u id hr => ?_⟩
  unfold Db.readableChannel at hr ⊢
  rw [List.find?_isSome] at hr ⊢
  obtain ⟨ch, hch, hp⟩ := hr
  exact ⟨ch, List.mem_append_left _ hch, hp⟩

theorem grows_of_inboundWrite {channelId : String} {rowId : Option String} {t : Label}
    {f : Db → Option Db} {a b : Db} (h : InboundWrite channelId rowId t f) (hf : f a = some b) :
    Grows a b := by
  cases h with
  | channel name => exact grows_of_insertChannel hf
  | message _ _ => exact grows_of_insertMessage hf

section
variable {db₀ : Db} {p : ℕ} {x y : Point Db Memory}

theorem allows_of_grows {db s : Db} {mem : Memory} {w w' : Option Db} (hi : Fenced db₀ db mem)
    (h : Grows db s) : (spec db₀).Allows p ⟨db, mem, w⟩ ⟨s, mem, w'⟩ where
  inv :=
    { blocks := h.blocks.trans hi.blocks
      access := fun u c hr => h.access u c (hi.access u c hr)
      due := fun m hm => h.messages m (hi.due m hm)
      covered := hi.covered }
  others _ _ := ⟨h.messages, Later.refl db₀ mem⟩

/-- A segment is allowed when what it newly fans out is committed and what it newly fences is
covered. -/
theorem allows_segment (hi : Fenced db₀ x.db x.mem) {g : Db → Memory → Memory}
    (hlater : Later db₀ x.mem (g x.db x.mem))
    (hfan : ∀ m, FannedOut (g x.db x.mem).calls m → FannedOut x.mem.calls m ∨ m ∈ x.db.messages)
    (hsub : ∀ conn fences, .reply conn (.suback fences) ∈ (g x.db x.mem).calls →
      .reply conn (.suback fences) ∈ x.mem.calls ∨
        ∀ e ∈ fences, Covered db₀ conn e.1 (fun m => m.id ≤ e.2) x.mem) :
    (spec db₀).Allows p x (x.acted g) where
  inv :=
    { blocks := hi.blocks
      access := hi.access
      due := fun m hm => by
        rcases hm with hfirst | hfanned
        · exact hi.due m (Or.inl hfirst)
        · exact (hfan m hfanned).elim (fun hold => hi.due m (Or.inr hold)) id
      covered := fun conn fences hmem e he => by
        rcases hsub conn fences hmem with hold | hnew
        · exact (hi.covered conn fences hold e he).later hlater
        · exact (hnew e he).later hlater }
  others _ _ := ⟨fun _ hm => hm, hlater⟩

/-- A call that neither delivers a message nor fences. -/
def Silent (call : Call) : Prop :=
  (∀ ch m targets, call ≠ .fanout ch (.message m) targets) ∧
    ∀ conn fences, call ≠ .reply conn (.suback fences)

/-- Connections may go, and silent calls be made. -/
theorem allows_silent (hi : Fenced db₀ x.db x.mem) {g : Db → Memory → Memory}
    (hconns : ∀ k ∈ (g x.db x.mem).conns, k ∈ x.mem.conns)
    (hkept : ∀ call ∈ x.mem.calls, call ∈ (g x.db x.mem).calls)
    (hcalls : ∀ call ∈ (g x.db x.mem).calls, call ∈ x.mem.calls ∨ Silent call) :
    (spec db₀).Allows p x (x.acted g) := by
  have hfan : ∀ m, FannedOut (g x.db x.mem).calls m → FannedOut x.mem.calls m := by
    rintro m ⟨targets, hmem⟩
    rcases hcalls _ hmem with hold | hsilent
    · exact ⟨targets, hold⟩
    · exact absurd rfl (hsilent.1 _ _ _)
  refine allows_segment hi ⟨?_, hkept, fun m hm => Or.inl (hfan m hm)⟩
    (fun m hm => Or.inl (hfan m hm)) fun conn fences hmem => ?_
  · intro k hk
    exact ⟨k, hconns k hk, rfl, rfl, List.Subset.refl _⟩
  · rcases hcalls _ hmem with hold | hsilent
    · exact Or.inl hold
    · exact absurd rfl (hsilent.2 _ _)

theorem fannedOut_of_reply {conn : ℕ} {r : Reply} {mem : Memory} {m : Message}
    (h : FannedOut (mem.log (.reply conn r)).calls m) : FannedOut mem.calls m := by
  obtain ⟨targets, hmem⟩ := h
  rcases List.mem_append.mp hmem with hold | hnew
  · exact ⟨targets, hold⟩
  · simp at hnew

theorem allows_log (hi : Fenced db₀ x.db x.mem) {call : Call} (hcall : Silent call) :
    (spec db₀).Allows p x (x.acted fun _ m => m.log call) := by
  refine allows_silent hi (fun _ hk => hk) (fun _ h => List.mem_append_left _ h) fun c hc => ?_
  rcases List.mem_append.mp hc with hold | hnew
  · exact Or.inl hold
  · exact Or.inr (List.mem_singleton.mp hnew ▸ hcall)

theorem allows_same (hi : Fenced db₀ x.db x.mem) : (spec db₀).Allows p x x :=
  ⟨hi, fun q _ => (spec db₀).rely_refl q _ _⟩

/-- A fanout of a committed row, with the block set of its sender. -/
theorem allows_fanout (hi : Fenced db₀ x.db x.mem) {row : Message} {exclude : List String}
    (hrow : row ∈ x.db.messages)
    (hexclude : ∀ u, notBlocked db₀ u row = true → u ∉ exclude) :
    (spec db₀).Allows p x
      (x.acted fun db m => m.fanout db row.channelId (.message row) exclude) := by
  have hnew : ∀ m, FannedOut (x.mem.fanout x.db row.channelId (.message row) exclude).calls m →
      FannedOut x.mem.calls m ∨ m = row := by
    rintro m ⟨targets, hmem⟩
    rcases List.mem_append.mp hmem with hold | hlast
    · exact Or.inl ⟨targets, hold⟩
    · simp only [List.mem_singleton, Call.fanout.injEq, Frame.message.injEq] at hlast
      exact Or.inr hlast.2.1
  refine allows_segment hi ⟨?_, fun _ h => List.mem_append_left _ h, fun m hm => ?_⟩
    (fun m hm => ?_) fun conn fences hmem => ?_
  · intro k hk
    exact ⟨k, hk, rfl, rfl, List.Subset.refl _⟩
  · rcases hnew m hm with hold | rfl
    · exact Or.inl hold
    · right
      intro k hk hs hv
      simp only [visible, Bool.and_eq_true] at hv
      have htarget : k ∈ x.mem.fanoutTargets m.channelId exclude := by
        refine List.mem_filter.mpr ⟨hk, ?_⟩
        simpa using ⟨hs k hk rfl, hexclude k.userId hv.2⟩
      exact ⟨_, List.mem_append_right _ (List.mem_singleton_self _), _,
        List.mem_map_of_mem htarget, rfl⟩
  · rcases hnew m hm with hold | rfl
    · exact Or.inl hold
    · exact Or.inr hrow
  · rcases List.mem_append.mp hmem with hold | hlast
    · exact Or.inl hold
    · simp at hlast

/-! ## Sends -/

/-- A committed row stays. -/
theorem mem_messages_env {row : Message} (h : row ∈ x.db.messages) (he : (spec db₀).Env p x y) :
    row ∈ y.db.messages :=
  he.rely.1 row h

theorem respects_grows {W : Label → (Db → Option Db) → Prop}
    {A : Label → (Db → Memory → Memory) → Prop}
    (hW : ∀ t f a b, W t f → f a = some b → Grows a b)
    (hA : ∀ t g (z : Point Db Memory), A t g → Fenced db₀ z.db z.mem →
      (spec db₀).Allows p z (z.acted g)) :
    Respects (spec db₀) p (fun _ _ => True) Grows W A where
  refl := Grows.refl
  trans := Grows.trans
  stable _ _ := trivial
  write t f z s hw _ _ _ _ hs := hW t f z.view s hw hs
  segment t g z hg hi _ _ := ⟨hA t g z hg hi, trivial⟩
  commit _ _ _ hi _ h := ⟨allows_of_grows hi h, trivial⟩

theorem silent_reply (conn : ℕ) {r : Reply} (hr : ∀ fences, r ≠ .suback fences) :
    Silent (.reply conn r) :=
  ⟨fun _ _ _ => Call.noConfusion, fun _ fences heq => hr fences (Call.reply.inj heq).2⟩

theorem transaction (db₀ : Db) (p conn : ℕ) (user : User) (msgId : String) :
    Transaction (spec db₀) p conn user msgId (fun _ _ => True) Grows
      (fun row db _ => row ∈ db.messages) where
  before := respects_grows (fun _ _ _ _ hw hf => grows_of_onlyKeys (onlyKeys_of_originWrite hw hf))
    fun t g z hg hi => by
      obtain ⟨code, detail, clientMsgId, raises⟩ := hg
      cases raises with
      | true => exact allows_same hi
      | false => exact allows_log hi (silent_reply conn fun _ => Reply.noConfusion)
  commit db mem k s row channel hi _ hk _ hs := by
    have hgrows : Grows db s := hk.trans (grows_of_insertMessage hs)
    obtain ⟨_, rfl⟩ := Db.insertMessage_eq_some.mp hs
    exact ⟨allows_of_grows hi hgrows, List.mem_append_right _ (List.mem_singleton_self row)⟩
  after he h := mem_messages_env h he

theorem safe_fanout {row : Message} {exclude : List String}
    (hrow : row ∈ x.db.messages) (hexclude : ∀ u, notBlocked db₀ u row = true → u ∉ exclude)
    (dead : List ℕ) :
    Safe (spec db₀) p (fanout row.channelId (.message row) exclude dead) (fun _ _ => True)
      (fun _ _ => True) x := by
  refine Safe.atomically fun y hy _ => ?_
  have hmem : row ∈ y.db.messages := mem_messages_env hrow hy
  refine ⟨allows_fanout hy.inv hmem hexclude, ?_⟩
  split_ifs
  · exact Safe.pure fun _ _ => trivial
  · intro z hz _
    refine ⟨allows_silent hz.inv ?_ ?_ ?_, fun _ _ => trivial⟩
    all_goals simp only [Memory.foldl_unregister]
    · exact fun k hk => (List.mem_filter.mp hk).1
    · exact fun _ h => h
    · exact fun _ h => Or.inl h

theorem allows_publish (hi : Fenced db₀ x.db x.mem) (user : User) (channel : Channel)
    (row : Message) (body : PyStr) (sentAt : Time) (discovered : Bool) :
    (spec db₀).Allows p x (x.acted fun _ m => published user channel row body sentAt discovered m) := by
  refine allows_silent hi (fun _ hk => hk) (fun _ h => List.mem_append_left _ h) fun c hc => ?_
  rcases List.mem_append.mp hc with hold | hnew
  · exact Or.inl hold
  · obtain rfl := List.mem_singleton.mp hnew
    exact Or.inr ⟨fun _ _ _ => Call.noConfusion, fun _ _ => Call.noConfusion⟩

/-- The block set that a flow reads keeps out nobody who may see its row. -/
theorem not_excluded {db : Db} {mem : Memory} (hi : Fenced db₀ db mem) {row : Message}
    {sender : String} (hs : row.senderUserId = some sender) (u : String)
    (hv : notBlocked db₀ u row = true) : u ∉ db.blockedPairUserIds sender := by
  rw [← notBlocked_congr hi.blocks] at hv
  exact not_blockedPair_of_notBlocked hv hs

theorem safe_deliver (user : User) (f : SendFrame) {r : Persisted}
    (hrow : r.row ∈ x.db.messages) (hch : r.row.channelId = r.channel.id)
    (hexclude : ∀ u, notBlocked db₀ u r.row = true → u ∉ r.exclude) :
    Safe (spec db₀) p (deliver user f r) (fun _ _ => True) (fun _ _ => True) x := by
  have hfanout : ∀ y : Point Db Memory, r.row ∈ y.db.messages →
      Safe (spec db₀) p (fanout r.channel.id (.message r.row) r.exclude f.dead) (fun _ _ => True)
        (fun _ _ => True) y := by
    intro y hy
    rw [← hch]
    exact safe_fanout hy hexclude f.dead
  unfold deliver
  split_ifs
  · refine Safe.atomically fun y hy _ => ?_
    have hmem : r.row ∈ y.db.messages := mem_messages_env hrow hy
    exact ⟨allows_publish hy.inv user r.channel r.row f.body f.sentAt f.discovered, hfanout _ hmem⟩
  · exact hfanout x hrow

theorem safe_handleSend (hi : Fenced db₀ x.db x.mem) (hx : x.work = none) (conn : ℕ)
    (user : User) (f : SendFrame) :
    Safe (spec db₀) p (handleSend conn user f) (fun _ _ => True) (fun _ _ => True) x := by
  have hsession := safe_sendSession f (transaction db₀ p conn user f.minted.msgId) hi trivial hx
  refine Safe.andThen (hsession.mono (fun _ _ _ h => h) fun _ _ _ _ => trivial) hi ?_
  rintro r y hyi ⟨_, hr⟩
  cases r with
  | none => exact Safe.pure fun _ _ => trivial
  | some r =>
      obtain ⟨⟨_, db, mem, hdb, hexclude⟩, hr⟩ := hr
      refine safe_connSend (fun z hz _ _ => ⟨?_, ?_⟩) fun _ _ _ _ _ _ => trivial
      · exact allows_log hz.inv (silent_reply conn fun _ => Reply.noConfusion)
      · cases hc : r.created with
        | false => exact Safe.pure fun _ _ => trivial
        | true =>
            simp only [hc, if_true] at hr
            obtain ⟨hout, hrow⟩ := hr
            have hmem : r.row ∈ z.db.messages := mem_messages_env hrow hz
            refine safe_deliver user f hmem hout.channel fun u hv => ?_
            rw [hexclude]
            exact not_excluded hdb hout.sender u hv

/-! ## Ingests -/

/-- What an ingest carries out of its session: a committed row with its block set. -/
def Ingested (db₀ : Db) (r : Option (Message × List String)) (y : Point Db Memory) : Prop :=
  ∀ row exclude, r = some (row, exclude) →
    row ∈ y.db.messages ∧ ∀ u, notBlocked db₀ u row = true → u ∉ exclude

theorem Ingested.env {r : Option (Message × List String)} (h : Ingested db₀ r x)
    (he : (spec db₀).Env p x y) : Ingested db₀ r y := by
  intro row exclude hr
  obtain ⟨hmem, hexclude⟩ := h row exclude hr
  exact ⟨mem_messages_env hmem he, hexclude⟩

/-- The inserts of an inbound message only let the tables grow. -/
theorem safe_inbound {α : Type} (ids : IngestIds) {r : Body α}
    (h : Uses (InboundWrite ids.channelId (some ids.rowId)) (fun _ _ => False) r)
    (hx : Grows x.db x.view) :
    Safe (spec db₀) p r (fun _ y => Grows y.db y.view) (fun _ _ => True) x := by
  have hrespects : Respects (spec db₀) p (fun _ _ => True) Grows
      (InboundWrite ids.channelId (some ids.rowId)) (fun _ _ => False) :=
    respects_grows (fun _ _ _ _ hw hf => grows_of_inboundWrite hw hf) fun _ _ _ hg => hg.elim
  exact (hrespects.safe h trivial hx).mono (fun _ _ _ hy => hy.2) fun _ _ _ _ => trivial

theorem safe_insertInbound (ids : IngestIds) (hi : Fenced db₀ x.db x.mem)
    (hx : Grows x.db x.view) (msg : InboundMessage) (channel : Channel) (sender : Option User)
    (created : ℤ) :
    Safe (spec db₀) p (insertInbound msg channel sender created ids.rowId)
      (fun row y => row ∈ y.db.messages ∧ y.work = none) (fun _ _ => True) x := by
  refine Safe.andThen (safe_inbound ids (uses_bindOptional msg.username) hx) hi fun label y hyi hy => ?_
  refine Safe.andThen (safe_inbound ids (uses_bindText msg.message) hy) hyi fun body z _ hz => ?_
  refine safe_flushOrRaise (fun u s hu _ hs => ?_) fun _ _ _ _ _ _ => trivial
  have hview : Grows u.db u.view := env_view Grows.refl hu hz
  refine Safe.commit fun v hv _ => ?_
  have hvs : v.view = s := hv.view_eq rfl
  have hvd : v.db = u.db := hv.db_eq rfl
  have hgrows : Grows v.db s := by
    rw [hvd]
    exact hview.trans (grows_of_insertMessage hs)
  constructor
  · intro w _
    have hallow : (spec db₀).Allows p v ⟨s, v.mem, none⟩ := allows_of_grows hv.inv hgrows
    rw [← hvs] at hallow
    exact hallow
  · have hrow : inboundRow channel sender label body created ids.rowId ∈ v.view.messages := by
      rw [hvs]
      obtain ⟨_, rfl⟩ := Db.insertMessage_eq_some.mp hs
      exact List.mem_append_right _ (List.mem_singleton_self _)
    exact Safe.pure fun w hw => ⟨mem_messages_env (x := v.committed) hrow hw, hw.free rfl⟩

theorem safe_persistInbound (ids : IngestIds) (hi : Fenced db₀ x.db x.mem)
    (hx : x.work = none) (msg : InboundMessage) :
    Safe (spec db₀) p (persistInbound msg ids.channelId ids.rowId ids.now)
      (fun r y => ∀ row, r = some row → row ∈ y.db.messages ∧ y.work = none)
      (fun _ _ => True) x := by
  have hgrows : Grows x.db x.view := by
    rw [Point.view_of_none hx]
    exact Grows.refl x.db
  unfold persistInbound
  split
  · exact Safe.pure fun _ _ _ h => by cases h
  · exact Safe.pure fun _ _ _ h => by cases h
  · next name _ _ =>
      refine Safe.andThen (safe_inbound ids (uses_channelOrReserved ids.channelId .channel)
        hgrows) hi fun channel y hyi hy => ?_
      cases channel with
      | none => exact Safe.pure fun _ _ _ h => by cases h
      | some channel =>
          refine Safe.andThen (safe_inbound ids (uses_senderOf msg.username) hy) hyi
            fun sender z hzi hz => ?_
          refine Safe.andThen (safe_inbound ids (uses_createdFrom msg.timestamp ids.now) hz) hzi
            fun created u hui hu => ?_
          refine Safe.andThen (safe_insertInbound ids hui hu msg channel sender created) hui ?_
          intro row v _ hv
          refine Safe.pure fun w hw row' heq => ?_
          obtain rfl := Option.some.inj heq
          exact ⟨mem_messages_env hv.1 hw, hw.free hv.2⟩

/-- The block set is read after the commit, from a store that still holds the row. -/
theorem safe_ingestTransaction (ids : IngestIds) (hi : Fenced db₀ x.db x.mem)
    (hx : x.work = none) (msg : InboundMessage) :
    Safe (spec db₀) p (ingestTransaction msg ids) (fun r y => Ingested db₀ r y)
      (fun _ _ => True) x := by
  refine Safe.andThen (safe_persistInbound ids hi hx msg) hi fun r y _ hr => ?_
  cases r with
  | none => exact Safe.pure fun _ _ _ _ h => by cases h
  | some row =>
      obtain ⟨hrow, hyw⟩ := hr row rfl
      have hstays : ∀ {u : Point Db Memory} {exclude : List String},
          (spec db₀).Env p y u → (∀ v, notBlocked db₀ v row = true → v ∉ exclude) →
          Ingested db₀ (some (row, exclude)) u := by
        intro u exclude hu hexclude row' exclude' heq
        obtain ⟨rfl, rfl⟩ := Prod.mk.inj (Option.some.inj heq)
        exact ⟨mem_messages_env hrow hu, hexclude⟩
      cases hsender : row.senderUserId with
      | none =>
          simp only [hsender]
          exact Safe.pure fun z hz => hstays hz fun _ _ => List.not_mem_nil
      | some sender =>
          simp only [hsender]
          refine Safe.query fun z hz => ?_
          rw [Point.view_of_none (hz.free hyw)]
          exact Safe.pure fun u hu => hstays (hz.trans hu) (not_excluded hz.inv hsender)

theorem safe_ingest (ids : IngestIds) (hi : Fenced db₀ x.db x.mem) (hx : x.work = none)
    (msg : InboundMessage) :
    Safe (spec db₀) p (Realtime.ingest msg ids) (fun _ _ => True) (fun _ _ => True) x := by
  have hrow : ∀ y : Point Db Memory, Fenced db₀ y.db y.mem → y.work = none →
      Safe (spec db₀) p (ingestRow msg ids) (fun _ _ => True) (fun _ _ => True) y := by
    intro y hyi hyw
    have hsession : Safe (spec db₀) p (ingestTransaction msg ids).session
        (fun r z => Ingested db₀ r z) (fun _ _ => True) y := by
      refine Safe.session ((safe_ingestTransaction ids hyi hyw msg).mono ?_ ?_) hyi
      · intro r z _ hr v hv
        exact Ingested.env (x := z.rolledBack) hr hv
      · exact fun _ _ _ _ _ _ => trivial
    refine Safe.andThen hsession hyi fun r z _ hr => ?_
    cases r with
    | none => exact Safe.pure fun _ _ => trivial
    | some r =>
        obtain ⟨hmem, hexclude⟩ := hr r.1 r.2 rfl
        exact safe_fanout hmem hexclude ids.dead
  have hecho : Safe (spec db₀) p (ownEcho msg ids.now)
      (fun _ y => y.work = none) (fun _ _ => True) x := by
    unfold ownEcho
    split
    · exact Safe.pure fun y hy => hy.free hx
    · exact Safe.pure fun y hy => hy.free hx
    · intro y hy _
      constructor
      · exact allows_silent hy.inv (fun _ hk => hk) (fun _ h => h) fun _ h => Or.inl h
      · exact fun z hz => hz.free (hy.free hx)
  refine Safe.andThen hecho hi fun echo y hyi hyw => ?_
  cases echo with
  | true => exact Safe.pure fun _ _ => trivial
  | false =>
      have htry : Safe (spec db₀) p ((ingestRow msg ids).handle fun _ => return ())
          (fun _ _ => True) (fun _ _ => True) y := by
        refine Safe.handle ((hrow y hyi hyw).mono (fun _ _ _ h => h) fun _ z _ _ => ?_) hyi
        exact Safe.pure fun _ _ => trivial
      exact Safe.andThen htry hyi fun _ _ _ _ => Safe.pure fun _ _ => trivial

/-! ## The subscribe -/

def OwnedBy (userId : String) (conn : ℕ) (conns : List Connection) : Prop :=
  ∀ k ∈ conns, k.id = conn → k.userId = userId

theorem OwnedBy.later {userId : String} {conn : ℕ} {a b : Memory}
    (h : OwnedBy userId conn a.conns) (hl : Later db₀ a b) : OwnedBy userId conn b.conns := by
  intro k' hk' hid
  obtain ⟨k, hk, hkid, huser, _⟩ := hl.conns k' hk'
  exact huser ▸ h k hk (hkid.trans hid)

/-- After the channels were added: what was due by then is among the committed rows of `base`. -/
structure Waiting (db₀ : Db) (conn : ℕ) (userId : String) (base : List Message)
    (ids : List String) (x : Point Db Memory) : Prop where
  free : x.work = none
  owner : OwnedBy userId conn x.mem.conns
  committed : ∀ m ∈ base, m ∈ x.db.messages
  covered : ∀ c ∈ ids, Covered db₀ conn c (fun m => m ∈ base) x.mem

theorem Waiting.env {conn : ℕ} {userId : String} {base : List Message} {ids : List String}
    (h : Waiting db₀ conn userId base ids x) (he : (spec db₀).Env p x y) :
    Waiting db₀ conn userId base ids y where
  free := he.free h.free
  owner := h.owner.later he.rely.2
  committed m hm := mem_messages_env (h.committed m hm) he
  covered c hc := (h.covered c hc).later he.rely.2

/-- Every pair of the list is a channel with a fence that covers it. -/
def Fences (db₀ : Db) (conn : ℕ) (ids : List String) (fences : List (String × String))
    (mem : Memory) : Prop :=
  fences.map Prod.fst = ids ∧ ∀ e ∈ fences, Covered db₀ conn e.1 (fun m => m.id ≤ e.2) mem

theorem Fences.later {conn : ℕ} {ids : List String} {fences : List (String × String)}
    {a b : Memory} (h : Fences db₀ conn ids fences a) (hl : Later db₀ a b) :
    Fences db₀ conn ids fences b :=
  ⟨h.1, fun e he => (h.2 e he).later hl⟩

/-- The fence is the maximum of two readings; the first one already counts every message. -/
theorem safe_latestUlid {channelId userId : String} {α : Type} {k : String → Body α}
    {Q : α → Point Db Memory → Prop} {E : Exn → Point Db Memory → Prop}
    (h : ∀ y z fence, (spec db₀).Env p x y → (spec db₀).Env p y z →
      maxId (visibleMessages y.view channelId userId) ≤ fence → Safe (spec db₀) p (k fence) Q E z) :
    Safe (spec db₀) p (latestUlid channelId userId >>= k) Q E x := by
  intro y hy z hz
  have hfence : (([channelId].map fun c =>
      (c, max (maxId (visibleMessages y.view c userId)) (maxId (channelRetractions z.view c)))).lookup
        channelId).getD "" =
      max (maxId (visibleMessages y.view channelId userId))
        (maxId (channelRetractions z.view channelId)) := by
    simp
  exact h y z _ hy hz (hfence ▸ le_max_left _ _)

/-- The fences are read one after the other; what one of them covers stays covered. -/
theorem safe_readFences {conn : ℕ} {userId : String} {base : List Message} (ids : List String)
    (hi : Fenced db₀ x.db x.mem) (h : Waiting db₀ conn userId base ids x) :
    Safe (spec db₀) p (readFences userId ids)
      (fun fences y => Fences db₀ conn ids fences y.mem ∧ Later db₀ x.mem y.mem)
      (fun _ _ => True) x := by
  induction ids generalizing x with
  | nil => exact Safe.pure fun y hy => ⟨⟨rfl, fun e he => by cases he⟩, hy.rely.2⟩
  | cons c ids ih =>
      refine safe_latestUlid fun y z fence hy hz hfence => ?_
      have hwy : Waiting db₀ conn userId base (c :: ids) y := h.env hy
      have hwz : Waiting db₀ conn userId base (c :: ids) z := hwy.env hz
      have hxz : Later db₀ x.mem z.mem := hy.rely.2.trans hz.rely.2
      -- the messages of `base` are counted by the first reading
      have hcovered : Covered db₀ conn c (fun m => m.id ≤ fence) z.mem := by
        refine (hwz.covered c List.mem_cons_self).mono fun k hk hid m hv hm => ?_
        rw [hwz.owner k hk hid, ← visible_congr hy.inv.blocks] at hv
        have hitem : Item.message m ∈ visibleMessages y.view c userId := by
          rw [Point.view_of_none hwy.free]
          exact List.mem_map_of_mem (List.mem_filter.mpr ⟨hwy.committed m hm, hv⟩)
        exact (le_maxId hitem).trans hfence
      have hrest : Waiting db₀ conn userId base ids z :=
        ⟨hwz.free, hwz.owner, hwz.committed,
          fun c' hc' => hwz.covered c' (List.mem_cons_of_mem c hc')⟩
      refine Safe.andThen (ih hz.inv hrest) hz.inv fun fences u _ hu => ?_
      refine Safe.pure fun v hv => ?_
      obtain ⟨hfences, hzu⟩ := hu
      have hzv : Later db₀ z.mem v.mem := hzu.trans hv.rely.2
      have hrestv : Fences db₀ conn ids fences v.mem := hfences.later hv.rely.2
      refine ⟨⟨by simp [hrestv.1], ?_⟩, hxz.trans hzv⟩
      intro e he
      rcases List.mem_cons.mp he with rfl | he
      · exact hcovered.later hzv
      · exact hrestv.2 e he

/-- Readable channels that the frame names are found, whatever else the tables gained. -/
def Answers (db₀ : Db) (userId : String) (channelIds : List PyStr) (ids : List String) : Prop :=
  ∀ s ∈ channelIds, ∀ c, encode s = some c → (db₀.readableChannel userId c).isSome = true → c ∈ ids

theorem bindAll_cases (ss : List PyStr) :
    (∃ e, bindAll ss = .raise e) ∨
      ∃ ts, bindAll ss = .ret ts ∧ ∀ s ∈ ss, ∀ t, encode s = some t → t ∈ ts := by
  induction ss with
  | nil => exact Or.inr ⟨[], rfl, fun s hs => by cases hs⟩
  | cons s ss ih =>
      rw [bindAll]
      unfold bindText
      cases hs : encode s with
      | none => exact Or.inl ⟨.unicodeEncodeError, rfl⟩
      | some t =>
          rcases ih with ⟨e, he⟩ | ⟨ts, hts, hall⟩
          · left
            refine ⟨e, ?_⟩
            rw [he]
            rfl
          · right
            refine ⟨t :: ts, ?_, ?_⟩
            · rw [hts]
              rfl
            · intro s' hs' t' ht'
              rcases List.mem_cons.mp hs' with rfl | hs'
              · rw [hs] at ht'
                obtain rfl := Option.some.inj ht'
                exact List.mem_cons_self
              · exact List.mem_cons_of_mem t (hall s' hs' t' ht')

theorem safe_filterReadableIds (maxVariables : ℕ) (userId : String) (channelIds : List PyStr)
    (hx : x.work = none) :
    Safe (spec db₀) p (Realtime.filterReadableIds maxVariables userId channelIds)
      (fun ids y => Answers db₀ userId channelIds ids ∧ (spec db₀).Env p x y)
      (fun _ _ => True) x := by
  unfold Realtime.filterReadableIds
  split_ifs with hnil hmany
  · refine Safe.pure fun y hy => ⟨?_, hy⟩
    subst hnil
    exact fun s hs => by cases hs
  · exact Safe.raise fun _ _ => trivial
  · rcases bindAll_cases channelIds with ⟨e, he⟩ | ⟨ts, hts, hall⟩
    · rw [he]
      exact Safe.raise fun _ _ => trivial
    · rw [hts]
      intro y hy z hz
      refine ⟨?_, hy.trans hz⟩
      intro s hs c hc hr
      rw [Point.view_of_none (hy.free hx)]
      exact List.mem_filter.mpr ⟨hall s hs c hc, hy.inv.access userId c hr⟩

/-- Adding channels to a subscription takes nobody off the hub. -/
theorem later_subscribe (mem : Memory) (conn : ℕ) (ids : List String) :
    Later db₀ mem (mem.subscribe conn ids) where
  conns k' hk' := by
    obtain ⟨k, hk, rfl⟩ := List.mem_map.mp hk'
    refine ⟨k, hk, ?_⟩
    split_ifs
    · exact ⟨rfl, rfl, fun c hc => List.mem_union_left hc ids⟩
    · exact ⟨rfl, rfl, List.Subset.refl _⟩
  calls _ h := h
  live _ h := Or.inl h

/-- Subscribed first: what is due by now is committed, so the fence will count it. -/
theorem waiting_subscribe (hi : Fenced db₀ x.db x.mem) (hx : x.work = none) {conn : ℕ}
    {userId : String} (howner : OwnedBy userId conn x.mem.conns) (ids : List String) :
    Waiting db₀ conn userId x.db.messages ids (x.acted fun _ m => m.subscribe conn ids) where
  free := hx
  owner := howner.later (later_subscribe x.mem conn ids : Later db₀ x.mem _)
  committed _ hm := hm
  covered c hc :=
    { subscribed := by
        intro k' hk' hid
        obtain ⟨k, hk, rfl⟩ := List.mem_map.mp hk'
        split_ifs at hid ⊢ with hconn
        · exact List.mem_union_right _ hc
        · exact absurd hid hconn
      reached := fun _ _ _ m _ hdue => Or.inl (hi.due m hdue) }

/-- The suback that was sent answers every readable channel of the frame. -/
def Answered (db₀ : Db) (conn : ℕ) (userId : String) (channelIds : List PyStr)
    (calls : List Call) : Prop :=
  ∃ fences, .reply conn (.suback fences) ∈ calls ∧
    Answers db₀ userId channelIds (fences.map Prod.fst)

theorem safe_handleSubscribe (hi : Fenced db₀ x.db x.mem) (hx : x.work = none) (conn : ℕ)
    (userId : String) (howner : OwnedBy userId conn x.mem.conns) (channelIds : List PyStr)
    (maxVariables : ℕ) (peerGone : Bool) :
    Safe (spec db₀) p (handleSubscribe conn userId channelIds maxVariables peerGone)
      (fun _ y => Answered db₀ conn userId channelIds y.mem.calls) (fun _ _ => True) x := by
  refine Safe.andThen (safe_filterReadableIds maxVariables userId channelIds hx) hi
    fun ids y _ hids => ?_
  obtain ⟨hanswers, hxy⟩ := hids
  refine Safe.atomically fun z hz _ => ?_
  have hxz : (spec db₀).Env p x z := hxy.trans hz
  have hallow : (spec db₀).Allows p z (z.acted fun _ m => m.subscribe conn ids) :=
    allows_segment hz.inv (later_subscribe z.mem conn ids) (fun _ hm => Or.inl hm)
      fun _ _ hmem => Or.inl hmem
  have hwaiting := waiting_subscribe hz.inv (hxz.free hx) (howner.later hxz.rely.2) ids
  refine ⟨hallow, Safe.andThen (safe_readFences ids hallow.inv hwaiting) hallow.inv ?_⟩
  rintro fences u _ ⟨hfences, _⟩
  intro v hv _
  cases peerGone with
  | true => exact ⟨allows_same hv.inv, fun _ _ => trivial⟩
  | false =>
      have hcovers : Fences db₀ conn ids fences v.mem := hfences.later hv.rely.2
      constructor
      · refine allows_segment hv.inv ⟨?_, fun _ h => List.mem_append_left _ h, fun m hm => ?_⟩
          (fun m hm => ?_) fun c fs hmem => ?_
        · exact fun k hk => ⟨k, hk, rfl, rfl, List.Subset.refl _⟩
        · exact Or.inl (fannedOut_of_reply hm)
        · exact Or.inl (fannedOut_of_reply hm)
        · rcases List.mem_append.mp hmem with hold | hnew
          · exact Or.inl hold
          · simp only [List.mem_singleton, Call.reply.injEq, Reply.suback.injEq] at hnew
            obtain ⟨rfl, rfl⟩ := hnew
            exact Or.inr hcovers.2
      · refine fun w hw => ⟨fences, hw.rely.2.calls _ ?_, ?_⟩
        · exact List.mem_append_right _ (List.mem_singleton_self _)
        · rw [hcovers.1]
          exact hanswers

/-! ## Every run -/

/-- What a flow establishes when it returns. -/
def Flow.Done (db₀ : Db) (flow : Flow) (calls : List Call) : Prop :=
  match flow with
  | .subscribe conn userId channelIds _ _ => Answered db₀ conn userId channelIds calls
  | _ => True

/-- A subscribe runs on a connection of its own user. -/
def Flow.Owns (flow : Flow) (conns : List Connection) : Prop :=
  match flow with
  | .subscribe conn userId _ _ _ => OwnedBy userId conn conns
  | _ => True

theorem safe_body (flow : Flow) (hi : Fenced db₀ x.db x.mem) (hx : x.work = none)
    (howner : flow.Owns x.mem.conns) :
    Safe (spec db₀) p flow.body (fun _ y => flow.Done db₀ y.mem.calls) (fun _ _ => True) x := by
  cases flow with
  | subscribe conn userId channelIds maxVariables peerGone =>
      refine Safe.session ((safe_handleSubscribe hi hx conn userId howner channelIds maxVariables
        peerGone).mono ?_ fun _ _ _ _ _ _ => trivial) hi
      rintro _ y _ ⟨fences, hsent, hanswers⟩ z hz
      exact ⟨fences, hz.rely.2.calls _ hsent, hanswers⟩
  | send conn user f => exact safe_handleSend hi hx conn user f
  | ingest msg ids =>
      exact Safe.andThen (safe_ingest ids hi hx msg) hi fun _ _ _ _ => Safe.pure fun _ _ => trivial

end

/-- Every message the viewer may see is at most the fence or was sent live. -/
def NoGap (db₀ : Db) (conn : ℕ) (fences : List (String × String)) (s : Db) (mem : Memory) :
    Prop :=
  ∀ e ∈ fences, ∀ k ∈ mem.conns, k.id = conn → ∀ m, visible s e.1 k.userId m = true →
    Due db₀ mem.calls m → m ∈ s.messages ∧ (m.id ≤ e.2 ∨ SentLive conn mem.calls m)

/-- In every state that any interleaving reaches: every suback sent so far leaves no gap, and a
subscribe that has returned sent one for every readable channel it named. -/
theorem subscribe_leaves_no_gap {db₀ : Db} {mem₀ : Memory} {flows : ℕ → Flow}
    (hcalls : mem₀.calls = []) (howns : ∀ p, (flows p).Owns mem₀.conns)
    {c : Cfg ℕ Db Memory Label Exn Unit}
    (hr : Cfg.Reach (fun _ _ => True) (Cfg.init db₀ mem₀ fun p => (flows p).body) c) :
    (∀ conn fences, .reply conn (.suback fences) ∈ c.mem.calls →
        NoGap db₀ conn fences c.db c.mem) ∧
      ∀ p, c.procs p = .ret () → (flows p).Done db₀ c.mem.calls := by
  have hinit : Fenced db₀ db₀ mem₀ := by
    refine ⟨rfl, fun _ _ h => h, fun m hm => ?_, fun conn fences hmem => ?_⟩
    · rcases hm with hm | ⟨targets, hm⟩
      · exact hm
      · rw [hcalls] at hm
        cases hm
    · rw [hcalls] at hmem
      cases hmem
  have hsound := (Sound.init (S := spec db₀) (E := fun _ _ _ => True)
    (Q := fun p _ y => (flows p).Done db₀ y.mem.calls) hinit
    fun p => safe_body (flows p) hinit rfl (howns p)).reach hr
  constructor
  · intro conn fences hmem e he k hk hid m hv hdue
    refine ⟨hsound.inv.due m hdue, ?_⟩
    rw [visible_congr hsound.inv.blocks] at hv
    exact (hsound.inv.covered conn fences hmem e he).reached k hk hid m hv hdue
  · intro p hp
    exact hsound.returned hp

/-! ## A run -/

def author : User := { id := "A", username := "a", aikoUsername := "a" }

def openRoom : Db where
  users := [author, { id := "V", username := "v", aikoUsername := "v" }]
  channels := [{ id := "C", name := "room", aikoChannel := "room" }]

/-- The viewer's socket is 7 and the author's is 9. -/
def openSockets : Memory where
  conns := [⟨7, "V", []⟩, ⟨9, "A", []⟩]

/-- A subscribe, and sends whose ids fall in no order. -/
def roomFlows : ℕ → Flow
  | 0 => .subscribe 7 "V" [codes "C"] 32766 false
  | p + 1 => .send 9 author
      { clientMsgId := codes "x" ++ [p], channelId := codes "C", body := codes "hi",
        minted := { msgId := String.ofList ('m' :: List.replicate (5 - p) 'a') } }

theorem roomFlows_owns (p : ℕ) : (roomFlows p).Owns openSockets.conns := by
  cases p with
  | zero =>
      have howned : ∀ k ∈ openSockets.conns, k.id = 7 → k.userId = "V" := by decide
      exact howned
  | succ p => exact trivial

def roomStart : Cfg ℕ Db Memory Label Exn Unit :=
  Cfg.init openRoom openSockets fun p => (roomFlows p).body

/-- One message is committed before the channel is added, one before its fence is read and one
after it, in no order of ids; the suback leaves no gap. -/
theorem overlapping_subscribe_leaves_no_gap :
    ∃ c, Cfg.play ([1, 1, 1, 1, 1, 0, 0] ++ [2, 2, 2, 2, 2, 0, 0, 0] ++ [1, 1, 1, 1, 1] ++
        [3, 3, 3, 3, 3, 3, 3, 3, 3, 3, 2, 2, 2, 2, 2, 0]) roomStart = some c ∧
      ((∀ conn fences, .reply conn (.suback fences) ∈ c.mem.calls →
          NoGap openRoom conn fences c.db c.mem) ∧
        ∀ p, c.procs p = .ret () → (roomFlows p).Done openRoom c.mem.calls) := by
  have hrun : (Cfg.play ([1, 1, 1, 1, 1, 0, 0] ++ [2, 2, 2, 2, 2, 0, 0, 0] ++ [1, 1, 1, 1, 1] ++
      [3, 3, 3, 3, 3, 3, 3, 3, 3, 3, 2, 2, 2, 2, 2, 0]) roomStart).isSome = true := by
    decide +kernel
  obtain ⟨c, hc⟩ := Option.isSome_iff_exists.mp hrun
  exact ⟨c, hc, subscribe_leaves_no_gap rfl roomFlows_owns (Cfg.reach_of_play Cfg.Reach.start hc)⟩

end AikoIsland.SubscribeFence
