import AikoIsland.AppendOnly
import AikoIsland.Realtime

/-!
# Bus ingest: every carried message ends as one row

Any number of ingest tasks and channel-add worker steps over one database,
interleaved statement by statement. A message that names a channel outside the
reserved namespace, whose timestamp is absent or representable and whose texts
have a UTF-8 form, ends as exactly one committed row in that channel, unless it
was the echo of an own publish. This holds in every run in which the task's own
INSERT of the channel, if it makes one, meets no channel of that name.

Without that condition two tasks can meet on a new channel name: both select
nothing, both insert, and the second task's exception is only logged.
-/
namespace AikoIsland.IngestLoss
open Tables Gateway WriterLock RelyGuarantee Footprint AppendOnly Messages Realtime

/-! ## The tasks -/

inductive Task where
  | ingest (msg : InboundMessage) (ids : IngestIds)
  | channelWorker (aikoChannel : PyStr) (channelId : String)

def Task.body : Task → Body Bool
  | .ingest msg ids => Realtime.ingest msg ids
  | .channelWorker aikoChannel channelId => do
      channelWorkerStep aikoChannel channelId
      return false

/-- The id minted for a channel. -/
def Task.channelId : Task → String
  | .ingest _ ids => ids.channelId
  | .channelWorker _ channelId => channelId

/-- The id minted for a message row. -/
def Task.rowId : Task → Option String
  | .ingest _ ids => some ids.rowId
  | .channelWorker _ _ => none

/-- What the ULID generator promises: a minted id is new and minted once. -/
structure FreshIds (db₀ : Db) (tasks : ℕ → Task) : Prop where
  channelNew : ∀ p, ∀ c ∈ db₀.channels, c.id ≠ (tasks p).channelId
  rowNew : ∀ p, ∀ m ∈ db₀.messages, (tasks p).rowId ≠ some m.id
  channelOnce : ∀ p q, p ≠ q → (tasks p).channelId ≠ (tasks q).channelId
  rowOnce : ∀ p q r, p ≠ q → (tasks p).rowId = some r → (tasks q).rowId ≠ some r

/-- The message carries a channel name outside `dm:` and a timestamp that converts. -/
def Carries (msg : InboundMessage) (name : PyStr) : Prop :=
  msg.channel = some name ∧ name ≠ [] ∧ isDmChannelName name = false ∧
    msg.timestamp ≠ .unrepresentable

/-- No text of the message holds a lone surrogate. -/
def Encodable (msg : InboundMessage) : Prop :=
  (∀ s, msg.channel = some s → (encode s).isSome) ∧
    (∀ s, msg.username = some s → (encode s).isSome) ∧ (encode msg.message).isSome

/-- The condition on steps: the INSERT of a channel under the minted id meets no channel of that
name. -/
def freshName (channelId : String) : Label → Point Db Memory → Bool
  | .channelInsert id name, x =>
      id ≠ channelId || x.view.channels.all fun c => c.aikoChannel ≠ name
  | _, _ => true

/-! ## What one task does to the tables of the others -/

/-- Rows were appended, under the minted ids only. -/
structure Adds (channelId : String) (rowId : Option String) (a b : Db) : Prop where
  channels : Appends (fun c => c.id = channelId) a.channels b.channels
  messages : Appends (fun m => rowId = some m.id) a.messages b.messages

/-- Rows were appended, none under the ids. -/
structure Spares (channelId : String) (rowId : Option String) (a b : Db) : Prop where
  channels : Appends (fun c => c.id ≠ channelId) a.channels b.channels
  messages : Appends (fun m => rowId ≠ some m.id) a.messages b.messages

theorem Adds.refl (cid : String) (rid : Option String) (a : Db) : Adds cid rid a a :=
  ⟨Appends.refl _ _, Appends.refl _ _⟩

theorem Adds.trans {cid : String} {rid : Option String} {a b c : Db} (h : Adds cid rid a b)
    (h' : Adds cid rid b c) : Adds cid rid a c :=
  ⟨h.channels.trans h'.channels, h.messages.trans h'.messages⟩

theorem Spares.refl (cid : String) (rid : Option String) (a : Db) : Spares cid rid a a :=
  ⟨Appends.refl _ _, Appends.refl _ _⟩

theorem Spares.trans {cid : String} {rid : Option String} {a b c : Db} (h : Spares cid rid a b)
    (h' : Spares cid rid b c) : Spares cid rid a c :=
  ⟨h.channels.trans h'.channels, h.messages.trans h'.messages⟩

theorem Adds.spares {db₀ : Db} {tasks : ℕ → Task} (hf : FreshIds db₀ tasks) {p q : ℕ}
    (hqp : q ≠ p) {a b : Db} (h : Adds (tasks p).channelId (tasks p).rowId a b) :
    Spares (tasks q).channelId (tasks q).rowId a b where
  channels := h.channels.mono fun c hc => by
    rw [hc]
    exact hf.channelOnce p q hqp.symm
  messages := h.messages.mono fun m hm => hf.rowOnce p q m.id hqp.symm hm

/-- Neither minted id is taken. -/
structure Unused (channelId : String) (rowId : Option String) (s : Db) : Prop where
  channels : ∀ c ∈ s.channels, c.id ≠ channelId
  messages : ∀ m ∈ s.messages, rowId ≠ some m.id

theorem Unused.spares {cid : String} {rid : Option String} {a b : Db} (h : Unused cid rid a)
    (hab : Spares cid rid a b) : Unused cid rid b where
  channels c hc := (hab.channels.cases hc).elim (h.channels c) id
  messages m hm := (hab.messages.cases hm).elim (h.messages m) id

/-- Exactly one committed row under the id; it holds the text, in the channel of that name. -/
def Committed (name : String) (text : PyStr) (rowId : String) (s : Db) : Prop :=
  ∃ ch ∈ s.channels, ch.aikoChannel = name ∧
    ∃ m, (s.messages.filter fun m => m.id = rowId) = [m] ∧ m.channelId = ch.id ∧
      encode text = some m.body

theorem Committed.spares {name cid rowId : String} {text : PyStr} {a b : Db}
    (h : Committed name text rowId a) (hab : Spares cid (some rowId) a b) :
    Committed name text rowId b := by
  obtain ⟨ch, hch, hname, m, hm, hrow⟩ := h
  refine ⟨ch, hab.channels.mem hch, hname, m, ?_, hrow⟩
  rw [hab.messages.filter_eq, hm]
  intro z hz
  simpa [eq_comm] using hz

/-- What one inbound write appends. -/
theorem adds_of_inboundWrite {cid : String} {rid : Option String} {t : Label}
    {f : Db → Option Db} {s s' : Db} (h : InboundWrite cid rid t f) (hf : f s = some s') :
    Adds cid rid s s' := by
  cases h with
  | channel name =>
      obtain ⟨_, _, rfl⟩ := Db.insertChannel_eq_some.mp hf
      exact ⟨Appends.single _ rfl, Appends.refl _ _⟩
  | message hid _ =>
      obtain ⟨_, rfl⟩ := Db.insertMessage_eq_some.mp hf
      exact ⟨Appends.refl _ _, Appends.single _ hid⟩

/-! ## The specification -/

/-- Every row is an initial one or lies under the id of some task. -/
def Accounted (db₀ : Db) (tasks : ℕ → Task) (db : Db) : Prop :=
  ∀ m ∈ db.messages, m ∈ db₀.messages ∨ ∃ p, (tasks p).rowId = some m.id

def spec (db₀ : Db) (tasks : ℕ → Task) (channelId : String) : Spec ℕ Db Memory Label where
  inv db _ := Accounted db₀ tasks db
  rely p db _ db' _ := Spares (tasks p).channelId (tasks p).rowId db db'
  meets t x := freshName channelId t x = true
  rely_refl _ db _ := Spares.refl _ _ db
  rely_trans h h' := h.trans h'

section
variable {db₀ : Db} {tasks : ℕ → Task} {cid : String} {p : ℕ} {x y : Point Db Memory}
  {E : Exn → Point Db Memory → Prop}

theorem allows_of_adds (hf : FreshIds db₀ tasks) {db s : Db} {mem mem' : Memory}
    {w w' : Option Db} (hi : Accounted db₀ tasks db)
    (h : Adds (tasks p).channelId (tasks p).rowId db s) :
    (spec db₀ tasks cid).Allows p ⟨db, mem, w⟩ ⟨s, mem', w'⟩ where
  inv m hm := (h.messages.cases hm).elim (hi m) fun hid => Or.inr ⟨p, hid⟩
  others _ hq := h.spares hf hq

/-- A task's segment on the memory leaves the tables alone. -/
theorem allows_segment (hi : Accounted db₀ tasks x.db) (g : Db → Memory → Memory) :
    (spec db₀ tasks cid).Allows p x (x.acted g) :=
  ⟨hi, fun _ _ => Spares.refl _ _ _⟩

theorem respects_inboundWrite (hf : FreshIds db₀ tasks) :
    Respects (spec db₀ tasks cid) p (fun _ _ => True)
      (Adds (tasks p).channelId (tasks p).rowId)
      (InboundWrite (tasks p).channelId (tasks p).rowId) fun _ _ => True where
  refl := Adds.refl _ _
  trans := Adds.trans
  stable _ _ := trivial
  write _ _ _ _ hw _ _ _ _ hs := adds_of_inboundWrite hw hs
  segment _ g _ _ hi _ _ := ⟨allows_segment hi g, trivial⟩
  commit _ _ _ hi _ hadds := ⟨allows_of_adds hf hi hadds, trivial⟩

/-! ## The functions of a carried message -/

/-- Between the lookup and the INSERT of the row: the channel is there and the id is unused. -/
structure Ready (tasks : ℕ → Task) (p : ℕ) (name : String) (ch : Channel)
    (y : Point Db Memory) : Prop where
  channel : ch ∈ y.view.channels
  named : ch.aikoChannel = name
  unused : ∀ m ∈ y.view.messages, (tasks p).rowId ≠ some m.id
  adds : Adds (tasks p).channelId (tasks p).rowId y.db y.view

theorem Ready.env {name : String} {ch : Channel} (h : Ready tasks p name ch x)
    (he : (spec db₀ tasks cid).Env p x y) : Ready tasks p name ch y where
  channel := he.stable (V := fun s => ch ∈ s.channels) (fun hr hm => hr.channels.mem hm) h.channel
  named := h.named
  unused := he.stable (V := fun s => ∀ m ∈ s.messages, (tasks p).rowId ≠ some m.id)
    (fun hr hu m hm => (hr.messages.cases hm).elim (hu m) id) h.unused
  adds := env_view (Adds.refl _ _) he h.adds

theorem safe_upsertChannel {name : PyStr} {t : String} (hx : x.work = none)
    (hu : Unused (tasks p).channelId (tasks p).rowId x.db) (ht : encode name = some t)
    (hdm : isDmChannelName name = false) :
    Safe (spec db₀ tasks (tasks p).channelId) p (upsertChannel name (tasks p).channelId)
      (fun ch y => Ready tasks p t ch y) E x := by
  unfold upsertChannel
  rw [hdm, bindText_eq ht]
  refine Safe.query fun y hy => ?_
  have hwork : y.work = none := hy.free hx
  have hunused : Unused (tasks p).channelId (tasks p).rowId y.db := hu.spares hy.rely
  rw [Point.view_of_none hwork]
  cases hfound : channelByName t y.db with
  | some existing =>
      have hmem : existing ∈ y.db.channels := List.mem_of_find?_eq_some hfound
      have hname : existing.aikoChannel = t := by simpa using List.find?_some hfound
      refine Safe.pure fun z hz => Ready.env ⟨?_, hname, ?_, ?_⟩ hz
      all_goals rw [Point.view_of_none hwork]
      · exact hmem
      · exact hunused.messages
      · exact Adds.refl _ _ _
  | none =>
      refine safe_flushOrRaise (fun z s hz _ hs => ?_) fun z _ hz hm hn _ => ?_
      · rw [Point.view_of_none (hz.free hwork)] at hs
        have hadds : Adds (tasks p).channelId (tasks p).rowId z.db s :=
          adds_of_inboundWrite (.channel t) hs
        obtain ⟨_, _, rfl⟩ := Db.insertChannel_eq_some.mp hs
        refine Safe.pure fun v hv => Ready.env ⟨?_, rfl, ?_, hadds⟩ hv
        · exact List.mem_append_right _ (List.mem_singleton_self _)
        · exact (hunused.spares hz.rely).messages
      · -- the condition and the fresh id leave nothing for the constraints to refuse
        have hz0 : z.view = z.db := Point.view_of_none (hz.free hwork)
        have hnames : ∀ c ∈ z.view.channels, c.aikoChannel ≠ t := by
          simpa [spec, freshName] using hm
        have hids := (hunused.spares hz.rely).channels
        rw [hz0] at hn hnames
        have hsome := Db.insertChannel_eq_some.mpr
          ⟨upsertedChannel_checks (tasks p).channelId (isDmChannelName_encode ht hdm),
            fun c hc => ⟨hids c hc, hnames c hc⟩, rfl⟩
        rw [hn] at hsome
        cases hsome

theorem safe_channelOrReserved {name : PyStr} {t : String} (hx : x.work = none)
    (hi : Accounted db₀ tasks x.db) (hu : Unused (tasks p).channelId (tasks p).rowId x.db)
    (ht : encode name = some t) (hdm : isDmChannelName name = false) :
    Safe (spec db₀ tasks (tasks p).channelId) p (channelOrReserved name (tasks p).channelId)
      (fun r y => ∃ ch, r = some ch ∧ Ready tasks p t ch y) E x := by
  refine Safe.handle (Safe.andThen (safe_upsertChannel hx hu ht hdm) hi fun ch y _ hready => ?_) hi
  exact Safe.pure fun z hz => ⟨ch, rfl, hready.env hz⟩

theorem committed_env {msg : InboundMessage} {ids : IngestIds} (htask : tasks p = .ingest msg ids)
    {name : String} (h : Committed name msg.message ids.rowId x.db)
    (he : (spec db₀ tasks cid).Env p x y) :
    Committed name msg.message ids.rowId y.db := by
  have hrely : Spares (tasks p).channelId (tasks p).rowId x.db y.db := he.rely
  rw [htask] at hrely
  exact h.spares hrely

theorem safe_insertInbound (hf : FreshIds db₀ tasks) {msg : InboundMessage} {ids : IngestIds}
    (htask : tasks p = .ingest msg ids) (henc : Encodable msg) {name : String} {ch : Channel}
    (hready : Ready tasks p name ch x) (sender : Option User) (created : ℤ) :
    Safe (spec db₀ tasks (tasks p).channelId) p (insertInbound msg ch sender created ids.rowId)
      (fun _ y => Committed name msg.message ids.rowId y.db) E x := by
  have hrow : (tasks p).rowId = some ids.rowId := by rw [htask, Task.rowId]
  obtain ⟨label, hlabel⟩ := bindOptional_eq henc.2.1
  obtain ⟨body, hbody⟩ := Option.isSome_iff_exists.mp henc.2.2
  have hids : ∀ y, (spec db₀ tasks (tasks p).channelId).Env p x y →
      ∀ m ∈ y.view.messages, m.id ≠ ids.rowId := by
    intro y hy m hm heq
    refine (hready.env hy).unused m hm ?_
    rw [hrow, heq]
  unfold insertInbound
  rw [hlabel, bindText_eq hbody]
  refine safe_flushOrRaise (fun y s hy _ hs => ?_) fun y _ hy _ hn _ => ?_
  · -- the row is in the working copy; the commit publishes it
    have hadds : Adds (tasks p).channelId (tasks p).rowId y.db s :=
      (hready.env hy).adds.trans (adds_of_inboundWrite (.message hrow rfl) hs)
    have hcommitted : Committed name msg.message ids.rowId s := by
      obtain ⟨_, rfl⟩ := Db.insertMessage_eq_some.mp hs
      refine ⟨ch, (hready.env hy).channel, hready.named,
        inboundRow ch sender label body created ids.rowId, ?_, rfl, hbody⟩
      have hnil : (y.view.messages.filter fun m => m.id = ids.rowId) = [] := by
        rw [List.filter_eq_nil_iff]
        intro m hm heq
        exact hids y hy m hm (of_decide_eq_true heq)
      simp [List.filter_append, hnil, inboundRow]
    refine Safe.commit fun z hz _ => ⟨fun w _ => ?_, ?_⟩
    · have hzs : z.view = s := hz.view_eq rfl
      have hzd : z.db = y.db := hz.db_eq rfl
      refine allows_of_adds hf hz.inv ?_
      rw [hzs, hzd]
      exact hadds
    · refine Safe.pure fun v hv => ?_
      have hzs : z.view = s := hz.view_eq rfl
      have hdb : Committed name msg.message ids.rowId z.committed.db := by
        rw [Point.committed_db, hzs]
        exact hcommitted
      exact committed_env htask hdb hv
  · -- an unused id and a NULL client id cannot clash
    have hsome := hn.symm.trans (Db.insertMessage_eq_some.mpr
      ⟨fun m hm => ⟨hids y hy m hm, fun hc => by cases hc⟩, rfl⟩)
    cases hsome

theorem safe_persistInbound (hf : FreshIds db₀ tasks) {msg : InboundMessage} {ids : IngestIds}
    (htask : tasks p = .ingest msg ids) {name : PyStr} (hc : Carries msg name)
    (henc : Encodable msg) {t : String} (ht : encode name = some t) (hx : x.work = none)
    (hi : Accounted db₀ tasks x.db) (hu : Unused (tasks p).channelId (tasks p).rowId x.db) :
    Safe (spec db₀ tasks (tasks p).channelId) p (persistInbound msg (tasks p).channelId ids.rowId ids.now)
      (fun r y => r.isSome = true ∧ Committed t msg.message ids.rowId y.db) E x := by
  obtain ⟨hname, hne, hdm, hstamp⟩ := hc
  obtain ⟨created, hcreated⟩ := createdFrom_eq hstamp ids.now
  unfold persistInbound
  rw [hname]
  cases name with
  | nil => exact absurd rfl hne
  | cons n ns =>
      refine Safe.andThen (safe_channelOrReserved hx hi hu ht hdm) hi fun r y hyi hr => ?_
      obtain ⟨ch, rfl, hready⟩ := hr
      refine safe_senderOf henc.2.1 hyi fun sender z hz => ?_
      rw [hcreated]
      refine Safe.pure_bind (Safe.andThen (safe_insertInbound hf htask henc (hready.env hz) sender
        created) hz.inv fun row v _ hrow => Safe.pure fun u hu => ⟨rfl, ?_⟩)
      exact committed_env htask hrow hu

theorem safe_ingestTransaction (hf : FreshIds db₀ tasks) {msg : InboundMessage} {ids : IngestIds}
    (htask : tasks p = .ingest msg ids) {name : PyStr} (hc : Carries msg name)
    (henc : Encodable msg) {t : String} (ht : encode name = some t) (hx : x.work = none)
    (hi : Accounted db₀ tasks x.db) (hu : Unused (tasks p).channelId (tasks p).rowId x.db) :
    Safe (spec db₀ tasks (tasks p).channelId) p (ingestTransaction msg ids)
      (fun r y => r.isSome = true ∧ Committed t msg.message ids.rowId y.db) E x := by
  have hcid : (tasks p).channelId = ids.channelId := by rw [htask, Task.channelId]
  have hpersist := safe_persistInbound (E := E) hf htask hc henc ht hx hi hu
  rw [hcid] at hpersist ⊢
  unfold ingestTransaction
  refine Safe.andThen hpersist hi fun r y _ hr => ?_
  obtain ⟨row, rfl⟩ := Option.isSome_iff_exists.mp hr.1
  cases hsender : row.senderUserId with
  | none =>
      simp only [hsender]
      exact Safe.pure fun z hz => ⟨rfl, committed_env htask hr.2 hz⟩
  | some sender =>
      simp only [hsender]
      exact Safe.query fun z hz => Safe.pure fun v hv =>
        ⟨rfl, committed_env htask hr.2 (hz.trans hv)⟩

theorem safe_ingestRow (hf : FreshIds db₀ tasks) {msg : InboundMessage} {ids : IngestIds}
    (htask : tasks p = .ingest msg ids) {name : PyStr} (hc : Carries msg name)
    (henc : Encodable msg) {t : String} (ht : encode name = some t) (hx : x.work = none)
    (hi : Accounted db₀ tasks x.db) (hu : Unused (tasks p).channelId (tasks p).rowId x.db) :
    Safe (spec db₀ tasks (tasks p).channelId) p (ingestRow msg ids)
      (fun _ y => Committed t msg.message ids.rowId y.db)
      (fun _ y => Committed t msg.message ids.rowId y.db) x := by
  have hsession : Safe (spec db₀ tasks (tasks p).channelId) p (ingestTransaction msg ids).session
      (fun r y => r.isSome = true ∧ Committed t msg.message ids.rowId y.db ∧ y.work = none)
      (fun _ y => Committed t msg.message ids.rowId y.db) x := by
    refine Safe.session ((safe_ingestTransaction (E := fun _ _ => False) hf htask hc henc ht hx hi
      hu).mono (fun r y _ hr z hz => ?_) fun _ _ _ he => he.elim) hi
    exact ⟨hr.1, committed_env htask (x := y.rolledBack) hr.2 hz, hz.free rfl⟩
  refine Safe.andThen hsession hi fun r y hyi hr => ?_
  obtain ⟨⟨row, exclude⟩, rfl⟩ := Option.isSome_iff_exists.mp hr.1
  -- the fanout leaves the tables alone, so the row stays
  have huses : Uses (fun _ _ => False) (fun _ _ => True)
      (fanout row.channelId (.message row) exclude ids.dead) :=
    uses_fanout trivial fun _ => trivial
  have hkeeps : Respects (spec db₀ tasks (tasks p).channelId) p
      (fun db _ => Committed t msg.message ids.rowId db) Eq (fun _ _ => False) fun _ _ => True :=
    { refl := fun _ => rfl
      trans := fun h h' => h.trans h'
      stable := fun huv hu => committed_env htask hu huv
      write := fun _ _ _ _ hw => hw.elim
      segment := fun _ g _ _ hzi hz _ => ⟨allows_segment hzi g, hz⟩
      commit := fun _ _ _ hzi hz hs => hs ▸ ⟨allows_of_adds hf hzi (Adds.refl _ _ _), hz⟩ }
  exact (hkeeps.safe huses hr.2.1 (Point.view_of_none hr.2.2).symm).mono (fun _ _ _ h => h.1)
    fun _ _ _ h => h.1

/-- A carried message is an own echo, or its task ends with the row committed. -/
theorem safe_ingest (hf : FreshIds db₀ tasks) {msg : InboundMessage} {ids : IngestIds}
    (htask : tasks p = .ingest msg ids) {name : PyStr} (hc : Carries msg name)
    (henc : Encodable msg) {t : String} (ht : encode name = some t) (hx : x.work = none)
    (hu : Unused (tasks p).channelId (tasks p).rowId x.db) :
    Safe (spec db₀ tasks (tasks p).channelId) p (Realtime.ingest msg ids)
      (fun echo y => echo = true ∨ Committed t msg.message ids.rowId y.db) (fun _ _ => False) x := by
  have hname : msg.channel = some name := hc.1
  have hne : name ≠ [] := hc.2.1
  have htry : ∀ z : Point Db Memory, z.work = none → Accounted db₀ tasks z.db →
      Unused (tasks p).channelId (tasks p).rowId z.db →
      Safe (spec db₀ tasks (tasks p).channelId) p ((ingestRow msg ids).handle fun _ => return ())
        (fun _ y => Committed t msg.message ids.rowId y.db) (fun _ _ => False) z := by
    intro z hz hzi hzu
    refine Safe.handle ((safe_ingestRow hf htask hc henc ht hz hzi hzu).mono
      (fun _ _ _ h => h) fun e u _ h => ?_) hzi
    exact Safe.pure fun v hv => committed_env htask h hv
  unfold Realtime.ingest ownEcho
  rw [hname]
  cases name with
  | nil => exact absurd rfl hne
  | cons n ns =>
      refine Safe.atomically fun y hy _ => ⟨allows_segment hy.inv _, ?_⟩
      have huy : Unused (tasks p).channelId (tasks p).rowId y.db := hu.spares hy.rely
      split_ifs with hecho
      · exact Safe.pure fun _ _ => Or.inl rfl
      · exact Safe.andThen (htry _ (hy.free hx) hy.inv huy) hy.inv
          fun _ z _ h => Safe.pure fun v hv => Or.inr (committed_env htask h hv)

end

/-! ## Every run -/

theorem uses_body (task : Task) :
    Uses (InboundWrite task.channelId task.rowId) (fun _ _ => True) task.body := by
  cases task with
  | ingest msg ids =>
      exact uses_ingest (uses_persistInbound _ _ _ _) (fun _ => trivial) (fun _ _ _ => trivial)
        fun _ => trivial
  | channelWorker name channelId =>
      refine Uses.bind (Uses.handle (Uses.session ?_) fun _ => trivial) fun _ => trivial
      exact Uses.bind (uses_upsertChannel _ .channel) fun _ => Uses.commitNow _

/-- The message of the task must end as a row. -/
def Task.Carried (task : Task) (msg : InboundMessage) (ids : IngestIds) (name : PyStr) : Prop :=
  task = .ingest msg ids ∧ Carries msg name ∧ Encodable msg

/-- After a task returned, its carried message was an own echo or has its row. -/
def Kept (task : Task) (ownEcho : Bool) (s : Db) : Prop :=
  ∀ msg ids name, task.Carried msg ids name →
    ownEcho = true ∨ ∃ t, encode name = some t ∧ Committed t msg.message ids.rowId s

theorem safe_carried {db₀ : Db} {tasks : ℕ → Task} (hf : FreshIds db₀ tasks) (mem : Memory)
    {p : ℕ} :
    Safe (spec db₀ tasks (tasks p).channelId) p (tasks p).body
      (fun echo y => Kept (tasks p) echo y.db)
      (fun _ _ => ∀ msg ids name, ¬(tasks p).Carried msg ids name) ⟨db₀, mem, none⟩ := by
  by_cases hex : ∃ msg ids name, (tasks p).Carried msg ids name
  · obtain ⟨msg, ids, name, htask, hc, henc⟩ := hex
    obtain ⟨t, ht⟩ := Option.isSome_iff_exists.mp (henc.1 name hc.1)
    have hsafe := safe_ingest hf htask hc henc ht (x := ⟨db₀, mem, none⟩) rfl
      ⟨hf.channelNew p, hf.rowNew p⟩
    have hbody : (tasks p).body = Realtime.ingest msg ids := by rw [htask, Task.body]
    rw [hbody]
    refine hsafe.mono (fun echo y _ hy => ?_) fun _ _ _ h => h.elim
    rintro msg' ids' name' ⟨heq, hc', _⟩
    cases htask.symm.trans heq
    obtain rfl : name = name' := Option.some.inj (hc.1.symm.trans hc'.1)
    exact hy.imp id fun h => ⟨t, ht, h⟩
  · have hnone : ∀ msg ids name, ¬(tasks p).Carried msg ids name :=
      fun msg ids name h => hex ⟨msg, ids, name, h⟩
    exact ((respects_inboundWrite hf).safe (uses_body (tasks p)) trivial (Adds.refl _ _ _)).mono
      (fun _ _ _ _ msg ids name h => absurd h (hnone msg ids name)) fun _ _ _ _ => hnone

/-- The task `p` under its own condition, every other task under none. -/
theorem sound_tasks {db₀ : Db} {tasks : ℕ → Task} (hf : FreshIds db₀ tasks) (mem : Memory)
    (p : ℕ) :
    Sound (spec db₀ tasks (tasks p).channelId)
      (fun q echo y => q = p → Kept (tasks p) echo y.db)
      (fun q _ _ => q = p → ∀ msg ids name, ¬(tasks p).Carried msg ids name)
      (Cfg.init db₀ mem fun q => (tasks q).body) := by
  refine Sound.init (fun m hm => Or.inl hm) fun q => ?_
  by_cases hq : q = p
  · subst hq
    exact (safe_carried hf mem).mono (fun _ _ _ h _ => h) fun _ _ _ h _ => h
  · exact ((respects_inboundWrite hf).safe (uses_body (tasks q)) trivial (Adds.refl _ _ _)).mono
      (fun _ _ _ _ h => absurd h hq) fun _ _ _ _ h => absurd h hq

/-- In every run in which its INSERT of the channel, if it makes one, meets no channel of that
name, a carried message whose task has ended was an own echo, or it is exactly one committed row
in its channel. Every row is an initial one or lies under the id of some task. -/
theorem carried_message_ends_as_one_row {db₀ : Db} (mem : Memory) {tasks : ℕ → Task}
    (hf : FreshIds db₀ tasks) {c : Cfg ℕ Db Memory Label Exn Bool} {p : ℕ}
    {msg : InboundMessage} {ids : IngestIds} {name : PyStr} (htask : tasks p = .ingest msg ids)
    (hcarries : Carries msg name) (henc : Encodable msg)
    (h : Cfg.Reach (fun t x => freshName ids.channelId t x = true)
      (Cfg.init db₀ mem fun p => (tasks p).body) c) (hend : (c.procs p).ended = true) :
    (∀ m ∈ c.db.messages, m ∈ db₀.messages ∨ ∃ q, (tasks q).rowId = some m.id) ∧
      (c.procs p = .ret true ∨ c.procs p = .ret false ∧
        ∃ t, encode name = some t ∧ Committed t msg.message ids.rowId c.db) := by
  have hcid : (tasks p).channelId = ids.channelId := by rw [htask, Task.channelId]
  have hinit := sound_tasks hf mem p
  rw [hcid] at hinit
  have hsound := hinit.reach h
  refine ⟨hsound.inv, ?_⟩
  cases hp : c.procs p with
  | ret echo =>
      have hkept := hsound.returned hp rfl msg ids name ⟨htask, hcarries, henc⟩
      cases echo with
      | true => exact Or.inl rfl
      | false => exact Or.inr ⟨rfl, hkept.resolve_left (by decide)⟩
  | raise e => exact absurd ⟨htask, hcarries, henc⟩ (hsound.raised hp rfl msg ids name)
  | _ =>
      rw [hp] at hend
      cases hend

/-! ## Runs -/

def busMessage : InboundMessage where
  username := none
  channel := some (codes "lobby")
  message := codes "hi"

def mintedFor (p : ℕ) : IngestIds where
  channelId := String.ofList ('c' :: List.replicate p 'x')
  rowId := String.ofList ('m' :: List.replicate p 'x')

/-- Every task brings the same message on a channel that is not there yet. -/
def busTasks (p : ℕ) : Task := .ingest busMessage (mintedFor p)

def busStart : Cfg ℕ Db Memory Label Exn Bool := Cfg.init {} {} fun p => (busTasks p).body

theorem ofList_replicate_injective {a : Char} {p q : ℕ} (h : p ≠ q) :
    String.ofList (a :: List.replicate p 'x') ≠ String.ofList (a :: List.replicate q 'x') := by
  intro heq
  have hlists := congrArg (fun s => s.toList.length) heq
  simp only [String.toList_ofList, List.length_cons, List.length_replicate] at hlists
  omega

theorem busTasks_freshIds : FreshIds {} busTasks where
  channelNew _ c hc := by cases hc
  rowNew _ m hm := by cases hm
  channelOnce p q hpq := ofList_replicate_injective hpq
  rowOnce p q r hpq hp hq :=
    ofList_replicate_injective hpq (Option.some.inj (hp.trans hq.symm))

theorem busMessage_carries : Carries busMessage (codes "lobby") :=
  ⟨rfl, by decide, by decide, by decide⟩

theorem busMessage_encodable : Encodable busMessage := by
  refine ⟨fun s hs => ?_, fun s hs => ?_, by decide⟩
  · obtain rfl := Option.some.inj hs
    decide
  · cases hs

/-- Without the condition a carried message can end without a row: two tasks meet on a new
channel name. -/
theorem ingest_can_lose_a_carried_message :
    ¬ ∀ (db₀ : Db) (mem : Memory) (tasks : ℕ → Task) (c : Cfg ℕ Db Memory Label Exn Bool),
      FreshIds db₀ tasks →
      Cfg.Reach (fun _ _ => True) (Cfg.init db₀ mem fun p => (tasks p).body) c →
      ∀ p msg ids name, tasks p = .ingest msg ids → Carries msg name → Encodable msg →
        c.procs p = .ret false →
        ∃ t, encode name = some t ∧ Committed t msg.message ids.rowId c.db := by
  intro hclaim
  have hrun : (Cfg.play [0, 0, 1, 1, 0, 0, 0, 0, 1, 1, 1] busStart).map
      (fun c => ((c.procs 1).returned, c.db.messages.map (·.id))) = some (some false, ["m"]) := by
    decide +kernel
  obtain ⟨c, hc, hview⟩ := Option.map_eq_some_iff.mp hrun
  obtain ⟨hret, hrows⟩ := Prod.mk.injEq .. ▸ hview
  obtain ⟨t, _, ch, _, _, m, hm, _⟩ := hclaim {} {} busTasks c busTasks_freshIds
    (Cfg.reach_of_play Cfg.Reach.start hc) 1 busMessage (mintedFor 1) _ rfl busMessage_carries
    busMessage_encodable (Request.returned_eq_some.mp hret)
  have hmem : m ∈ c.db.messages.filter fun m => m.id = (mintedFor 1).rowId := by simp [hm]
  obtain ⟨hin, hid⟩ := List.mem_filter.mp hmem
  have : m.id ∈ c.db.messages.map (·.id) := List.mem_map_of_mem hin
  rw [hrows, of_decide_eq_true hid] at this
  revert this
  decide

/-- One after the other, both messages end as one row each. -/
theorem sequential_ingests_commit_both_messages :
    ∃ c, Cfg.playChecked (freshName "cx") [0, 0, 0, 0, 0, 0, 0, 1, 1, 1, 1, 1, 1] busStart = some c ∧
      ((∀ m ∈ c.db.messages, m ∈ ({} : Db).messages ∨ ∃ q, (busTasks q).rowId = some m.id) ∧
        (c.procs 1 = .ret true ∨ c.procs 1 = .ret false ∧
          ∃ t, encode (codes "lobby") = some t ∧
            Committed t busMessage.message (mintedFor 1).rowId c.db)) := by
  have hrun : ((Cfg.playChecked (freshName "cx") [0, 0, 0, 0, 0, 0, 0, 1, 1, 1, 1, 1, 1] busStart).map
      fun c => (c.procs 1).ended) = some true := by
    decide +kernel
  obtain ⟨c, hc, hend⟩ := Option.map_eq_some_iff.mp hrun
  have hreach := Cfg.reach_of_playChecked (fun _ _ h => h) Cfg.Reach.start hc
  exact ⟨c, hc, carried_message_ends_as_one_row {} busTasks_freshIds (p := 1) rfl
    busMessage_carries busMessage_encodable hreach hend⟩

end AikoIsland.IngestLoss
