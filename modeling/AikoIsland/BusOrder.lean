import AikoIsland.AppendOnly
import AikoIsland.Ids
import AikoIsland.Realtime

/-!
# The order of bus messages in the timeline

Bus messages in the order of their delivery, each ingested by a task of its own,
the tasks interleaved statement by statement. Every new row is the row of one of
the messages, and the rows of a channel in ascending id are in the order in which
their tasks minted: by the millisecond, then by the random tail. So they are in
the order of delivery exactly when each task mints after the tasks of the messages
delivered before it, in that sense.

Two messages that are ingested within one millisecond are ordered by their tails.
-/
namespace AikoIsland.BusOrder
open Tables Gateway WriterLock RelyGuarantee Footprint AppendOnly Messages Realtime Ids

/-- A bus message with what its task mints; its index is its place in the delivery. -/
structure Delivery where
  msg : InboundMessage
  channelId : String
  mintedAt : ℕ
  rand : ℕ
  now : Time := 0
  dead : List ℕ := []

def Delivery.rowId (d : Delivery) : String := newUlid d.mintedAt d.rand

def Delivery.body (d : Delivery) : Body Bool :=
  ingest d.msg { channelId := d.channelId, rowId := d.rowId, now := d.now, dead := d.dead }

/-- By the millisecond, then by the random tail. -/
def MintedBefore (d d' : Delivery) : Prop :=
  d.mintedAt < d'.mintedAt ∨ d.mintedAt = d'.mintedAt ∧ d.rand < d'.rand

/-- The row is that of the message: minted id and text. -/
structure RowOf (d : Delivery) (m : Message) : Prop where
  id : m.id = d.rowId
  body : encode d.msg.message = some m.body

/-- What the id generator promises: ids of the width, new and minted once. -/
structure FreshMints (db₀ : Db) {n : ℕ} (ds : Fin n → Delivery) : Prop where
  fits : ∀ p, Fits (ds p).mintedAt (ds p).rand
  new : ∀ p, ∀ m ∈ db₀.messages, m.id ≠ (ds p).rowId
  once : ∀ p q, p ≠ q → (ds p).rowId ≠ (ds q).rowId

/-- The message is persisted in the channel. -/
def Persisted {n : ℕ} (ds : Fin n → Delivery) (channelId : String) (db : Db) (p : Fin n) : Prop :=
  ∃ m ∈ db.messages, m.channelId = channelId ∧ RowOf (ds p) m

/-- The rows of the channel in ascending id are in the order of delivery. -/
def InBusOrder {n : ℕ} (ds : Fin n → Delivery) (channelId : String) (db : Db) : Prop :=
  ∀ p q, ∀ m ∈ db.messages, ∀ m' ∈ db.messages, m.channelId = channelId →
    m'.channelId = channelId → RowOf (ds p) m → RowOf (ds q) m' → (m.id < m'.id ↔ p < q)

/-! ## The rows of a run -/

/-- Every row was there at the start or is the row of some delivery. -/
def FromBus (db₀ : Db) {n : ℕ} (ds : Fin n → Delivery) (db : Db) : Prop :=
  ∀ m ∈ db.messages, m ∈ db₀.messages ∨ ∃ p, RowOf (ds p) m

def spec (db₀ : Db) {n : ℕ} (ds : Fin n → Delivery) : Spec (Fin n) Db Memory Label where
  inv db _ := FromBus db₀ ds db
  rely _ _ _ _ _ := True
  meets _ _ := True
  rely_refl _ _ _ := trivial
  rely_trans _ _ := trivial

/-- The writes of one ingest add rows of its message only. -/
def DeliveryWrite (d : Delivery) (_ : Label) (f : Db → Option Db) : Prop :=
  ∀ a b, f a = some b → Appends (RowOf d) a.messages b.messages

section
variable {db₀ : Db} {n : ℕ} {ds : Fin n → Delivery} {p : Fin n}

theorem uses_body (d : Delivery) : Uses (DeliveryWrite d) (fun _ _ => True) d.body := by
  refine uses_ingest (uses_persistInbound_of _ _ _ _ ?_ ?_) (fun _ => trivial)
    (fun _ _ _ => trivial) fun _ => trivial
  · intro name a b h
    obtain ⟨_, _, rfl⟩ := Db.insertChannel_eq_some.mp h
    exact Appends.refl _ _
  · intro m hid _ hbody a b h
    obtain ⟨_, rfl⟩ := Db.insertMessage_eq_some.mp h
    exact Appends.single _ ⟨hid, hbody⟩

theorem respects_delivery :
    Respects (spec db₀ ds) p (fun _ _ => True)
      (fun a b => Appends (RowOf (ds p)) a.messages b.messages) (DeliveryWrite (ds p))
      fun _ _ => True where
  refl _ := Appends.refl _ _
  trans := Appends.trans
  stable _ _ := trivial
  write _ _ _ _ hw _ _ _ _ hs := hw _ _ hs
  segment _ _ _ _ hi _ _ := ⟨⟨hi, fun _ _ => trivial⟩, trivial⟩
  commit _ _ _ hi _ h := by
    refine ⟨⟨fun m hm => ?_, fun _ _ => trivial⟩, trivial⟩
    exact (h.cases hm).elim (hi m) fun hrow => Or.inr ⟨p, hrow⟩

theorem fromBus_of_reach {mem₀ : Memory} {c : Cfg (Fin n) Db Memory Label Exn Bool}
    (hr : Cfg.Reach (fun _ _ => True) (Cfg.init db₀ mem₀ fun p => (ds p).body) c) :
    FromBus db₀ ds c.db := by
  have hinit : Sound (spec db₀ ds) (fun _ _ _ => True) (fun _ _ _ => True)
      (Cfg.init db₀ mem₀ fun p => (ds p).body) := by
    refine Sound.init (fun m hm => Or.inl hm) fun p => ?_
    exact (respects_delivery.safe (x := ⟨db₀, mem₀, none⟩) (uses_body (ds p)) trivial
      (Appends.refl _ _)).mono (fun _ _ _ _ => trivial) fun _ _ _ _ => trivial
  exact (hinit.reach hr).inv

/-- Rows compare by their ids as their tasks minted. -/
theorem id_lt_iff (hf : FreshMints db₀ ds) {q : Fin n} {m m' : Message} (hm : RowOf (ds p) m)
    (hm' : RowOf (ds q) m') : m.id < m'.id ↔ MintedBefore (ds p) (ds q) := by
  rw [hm.id, hm'.id]
  exact newUlid_lt_iff (hf.fits p) (hf.fits q)

theorem MintedBefore.asymm {d d' : Delivery} (h : MintedBefore d d') : ¬ MintedBefore d' d := by
  unfold MintedBefore at *
  omega

end

/-! ## Every run -/

/-- In every state of every run: each row is an initial one or that of a delivery, the ids of the
new rows ascend as their tasks minted, and the rows of a channel are in the order of delivery
exactly when the tasks that persisted them minted in that order. -/
theorem bus_rows_are_in_mint_order {db₀ : Db} {mem₀ : Memory} {n : ℕ} {ds : Fin n → Delivery}
    (hf : FreshMints db₀ ds) {c : Cfg (Fin n) Db Memory Label Exn Bool}
    (hr : Cfg.Reach (fun _ _ => True) (Cfg.init db₀ mem₀ fun p => (ds p).body) c) :
    (∀ m ∈ c.db.messages, m ∈ db₀.messages ∨ ∃ p, RowOf (ds p) m) ∧
    (∀ p q, ∀ m ∈ c.db.messages, ∀ m' ∈ c.db.messages, RowOf (ds p) m → RowOf (ds q) m' →
      (m.id < m'.id ↔ MintedBefore (ds p) (ds q))) ∧
    ∀ channelId, InBusOrder ds channelId c.db ↔
      ∀ p q, Persisted ds channelId c.db p → Persisted ds channelId c.db q → p < q →
        MintedBefore (ds p) (ds q) := by
  refine ⟨fromBus_of_reach hr, fun p q m _ m' _ hrow hrow' => id_lt_iff hf hrow hrow',
    fun channelId => ⟨?_, ?_⟩⟩
  · rintro horder p q ⟨m, hm, hch, hrow⟩ ⟨m', hm', hch', hrow'⟩ hlt
    rw [← id_lt_iff hf hrow hrow']
    exact (horder p q m hm m' hm' hch hch' hrow hrow').mpr hlt
  · intro hmints p q m hm m' hm' hch hch' hrow hrow'
    have hp : Persisted ds channelId c.db p := ⟨m, hm, hch, hrow⟩
    have hq : Persisted ds channelId c.db q := ⟨m', hm', hch', hrow'⟩
    rw [id_lt_iff hf hrow hrow']
    constructor
    · intro hbefore
      by_contra hle
      rcases (not_lt.mp hle).lt_or_eq with hlt | heq
      · exact (hmints q p hq hp hlt).asymm hbefore
      · rw [heq] at hbefore
        exact hbefore.asymm hbefore
    · exact hmints p q hp hq

/-! ## Runs -/

def lobby : Db where
  channels := [{ id := "C", name := "room", aikoChannel := "room" }]

/-- Two messages on one channel, ingested in one millisecond unless the second waits. -/
def twoDeliveries (delay : ℕ) : Fin 2 → Delivery
  | 0 => ⟨⟨none, some (codes "room"), .absent, codes "hi"⟩, "D", 0, 1, 0, []⟩
  | 1 => ⟨⟨none, some (codes "room"), .absent, codes "ho"⟩, "E", delay, 0, 0, []⟩

theorem twoDeliveries_fresh {delay : ℕ} (h : delay < 32 ^ 10) :
    FreshMints lobby (twoDeliveries delay) := by
  have hfits : ∀ p, Fits (twoDeliveries delay p).mintedAt (twoDeliveries delay p).rand := by
    intro p
    match p with
    | 0 => exact ⟨Nat.pow_pos (by decide), Nat.one_lt_pow (by decide) (by decide)⟩
    | 1 => exact ⟨h, Nat.pow_pos (by decide)⟩
  constructor
  · exact hfits
  · intro p m hm
    cases hm
  · intro p q hpq heq
    have hrand := (newUlid_inj (hfits p) (hfits q) heq).2
    match p, q with
    | 0, 0 => exact hpq rfl
    | 1, 1 => exact hpq rfl
    | 0, 1 => cases hrand
    | 1, 0 => cases hrand

def deliveriesStart (delay : ℕ) : Cfg (Fin 2) Db Memory Label Exn Bool :=
  Cfg.init lobby {} fun p => (twoDeliveries delay p).body

def deliveriesSchedule : List (Fin 2) := [0, 0, 0, 0, 1, 1, 1, 1]

theorem deliveries_rows (delay : ℕ) (h : delay = 0 ∨ delay = 1) :
    (Cfg.play deliveriesSchedule (deliveriesStart delay)).map (fun c =>
      c.db.messages.map fun m => (m.id, m.channelId, m.body)) =
      some [(newUlid 0 1, "C", "hi"), (newUlid delay 0, "C", "ho")] := by
  rcases h with rfl | rfl <;> decide +kernel

/-- One task after the other within a millisecond: the later message gets the smaller id. -/
theorem bus_order_can_be_reversed :
    ¬ ∀ (db₀ : Db) (mem₀ : Memory) (n : ℕ) (ds : Fin n → Delivery)
      (c : Cfg (Fin n) Db Memory Label Exn Bool), FreshMints db₀ ds →
      Cfg.Reach (fun _ _ => True) (Cfg.init db₀ mem₀ fun p => (ds p).body) c →
      ∀ channelId, InBusOrder ds channelId c.db := by
  intro hclaim
  obtain ⟨c, hc, hrows⟩ := Option.map_eq_some_iff.mp (deliveries_rows 0 (Or.inl rfl))
  have hfresh : FreshMints lobby (twoDeliveries 0) := twoDeliveries_fresh (by norm_num)
  have horder := hclaim lobby {} 2 (twoDeliveries 0) c hfresh
    (Cfg.reach_of_play Cfg.Reach.start hc) "C"
  have hfirst :
      (newUlid 0 1, "C", "hi") ∈ c.db.messages.map fun m => (m.id, m.channelId, m.body) := by
    simp [hrows]
  have hsecond :
      (newUlid 0 0, "C", "ho") ∈ c.db.messages.map fun m => (m.id, m.channelId, m.body) := by
    simp [hrows]
  obtain ⟨m, hm, heq⟩ := List.mem_map.mp hfirst
  obtain ⟨m', hm', heq'⟩ := List.mem_map.mp hsecond
  simp only [Prod.mk.injEq] at heq heq'
  have hrow : RowOf (twoDeliveries 0 0) m := ⟨heq.1, by rw [heq.2.2]; decide⟩
  have hrow' : RowOf (twoDeliveries 0 1) m' := ⟨heq'.1, by rw [heq'.2.2]; decide⟩
  have hbefore := (horder 0 1 m hm m' hm' heq.2.1 heq'.2.1 hrow hrow').mpr (by decide)
  rw [id_lt_iff hfresh hrow hrow'] at hbefore
  simp [MintedBefore, twoDeliveries] at hbefore

/-- When the second message is ingested a millisecond later, the rows are in the order of
delivery. -/
theorem later_millisecond_keeps_bus_order :
    ∃ c, Cfg.play deliveriesSchedule (deliveriesStart 1) = some c ∧
      InBusOrder (twoDeliveries 1) "C" c.db := by
  obtain ⟨c, hc, _⟩ := Option.map_eq_some_iff.mp (deliveries_rows 1 (Or.inr rfl))
  have hreach : Cfg.Reach (fun _ _ => True)
      (Cfg.init lobby {} fun p => (twoDeliveries 1 p).body) c :=
    Cfg.reach_of_play Cfg.Reach.start hc
  have hfresh : FreshMints lobby (twoDeliveries 1) := twoDeliveries_fresh (by norm_num)
  have horder := (bus_rows_are_in_mint_order hfresh hreach).2.2 "C"
  have hmints : ∀ p q : Fin 2, p < q → MintedBefore (twoDeliveries 1 p) (twoDeliveries 1 q) := by
    intro p q hlt
    match p, q with
    | 0, 1 => exact Or.inl Nat.zero_lt_one
    | 0, 0 => exact absurd hlt (by decide)
    | 1, 0 => exact absurd hlt (by decide)
    | 1, 1 => exact absurd hlt (by decide)
  exact ⟨c, hc, horder.mpr fun p q _ _ hlt => hmints p q hlt⟩

end AikoIsland.BusOrder
