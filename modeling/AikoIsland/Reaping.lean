import AikoIsland.Devices
import AikoIsland.Planning
import AikoIsland.Publishing
import AikoIsland.Ringing

/-!
# What the reaper deletes

Any number of wakes, registrations and removals of device tokens, interleaved
statement by statement. A wake reads the rows of a person, sends, and much later
deletes the rows that a transport proved dead. The DELETE compares the id, the
token and `updated_at` with what was read, and an APNs order also compares
`updated_at` with the instant of the death.

The condition on steps is that a registration writes a row with an instant later
than the one it finds there, and that a minted row id was never used before. Then
a row that still compares equal is the very row that was read, and it was in the
store in every state in between.

The instant of an APNs order is a quotient of milliseconds. Where it comes out
half a microsecond too large, which no quotient before the year 2242 does, a row
that was registered within the excess is deleted too.
-/
namespace AikoIsland.Reaping
open Tables Gateway Calls Devices Transports WriterLock RelyGuarantee Footprint Publishing Planning
  Ringing ReapInstants

/-! ## The requests -/

/-- One wake: the message it is for and what the transports answer. -/
structure Wake where
  cfg : PushConfig
  channelId : String
  channelKind : ChannelKind
  senderId : String
  body : PyStr
  excludeUserIds : List String
  now : Time
  answer : Observation → Answer

inductive DeviceRequest where
  | wake (w : Wake)
  | register (r : Registration) (apnsUseSandbox : Bool) (rowId : String)
      (insertedAt reassignedAt : Time)
  | unregister (userId token : String)

def DeviceRequest.body : DeviceRequest → Body Unit
  | .wake w => wakeForMessage w.cfg w.channelId w.channelKind w.senderId w.body w.excludeUserIds
      w.now w.answer
  | .register r apnsUseSandbox rowId insertedAt reassignedAt =>
      (registerDevice r apnsUseSandbox rowId insertedAt reassignedAt >>= fun _ => return ()).session
  | .unregister userId token => (unregisterDevice userId token >>= fun _ => return ()).session

/-- The condition on steps. -/
def laterAtWrite : Label → Point Db Memory → Bool
  | .deviceWrite rowId now, x =>
      (x.view.devices.all fun d => d.id ≠ rowId || d.updatedAt < now) &&
        (rowId ∉ x.view.deviceIds || x.view.devices.any fun d => d.id = rowId)
  | _, _ => true

theorem of_laterAtWrite {rowId : String} {now : Time} {x : Point Db Memory}
    (h : laterAtWrite (.deviceWrite rowId now) x = true) :
    (∀ d ∈ x.view.devices, d.id = rowId → d.updatedAt < now) ∧
      (rowId ∈ x.view.deviceIds → ∃ d ∈ x.view.devices, d.id = rowId) := by
  simp only [laterAtWrite, Bool.and_eq_true, List.all_eq_true, Bool.or_eq_true, decide_eq_true_eq,
    List.any_eq_true] at h
  exact ⟨fun d hd hid => (h.1 d hd).resolve_left fun hne => hne hid,
    fun hin => h.2.resolve_left fun hout => hout hin⟩

/-! ## Rows over time -/

/-- A row under its id: a later instant, or the same row. -/
structure Refreshed (d d' : DeviceToken) : Prop where
  id : d'.id = d.id
  token : d'.token = d.token
  later : d.updatedAt ≤ d'.updatedAt
  same : d.updatedAt = d'.updatedAt → d' = d

/-- Ids are not forgotten, and under an id that was used there is only the old row, refreshed. -/
structure Lasts (a b : Db) : Prop where
  ids : ∀ i ∈ a.deviceIds, i ∈ b.deviceIds
  rows : ∀ d' ∈ b.devices, d'.id ∈ a.deviceIds → ∃ d ∈ a.devices, Refreshed d d'

structure Sound (db : Db) : Prop where
  unique : (db.devices.map (·.id)).Nodup
  known : ∀ d ∈ db.devices, d.id ∈ db.deviceIds

theorem Refreshed.refl (d : DeviceToken) : Refreshed d d := ⟨rfl, rfl, le_refl _, fun _ => rfl⟩

theorem Refreshed.trans {d d' d'' : DeviceToken} (h : Refreshed d d') (h' : Refreshed d' d'') :
    Refreshed d d'' where
  id := h'.id.trans h.id
  token := h'.token.trans h.token
  later := h.later.trans h'.later
  same hsame := by
    have hfirst : d.updatedAt = d'.updatedAt :=
      le_antisymm h.later (h'.later.trans_eq hsame.symm)
    rw [h'.same (hfirst.symm.trans hsame), h.same hfirst]

theorem Lasts.refl (a : Db) : Lasts a a := ⟨fun _ h => h, fun d hd _ => ⟨d, hd, Refreshed.refl d⟩⟩

theorem Lasts.trans {a b c : Db} (h : Lasts a b) (h' : Lasts b c) : Lasts a c where
  ids i hi := h'.ids i (h.ids i hi)
  rows d'' hd'' hin := by
    obtain ⟨d', hd', hrefreshed'⟩ := h'.rows d'' hd'' (h.ids _ hin)
    rw [hrefreshed'.id] at hin
    obtain ⟨d, hd, hrefreshed⟩ := h.rows d' hd' hin
    exact ⟨d, hd, hrefreshed.trans hrefreshed'⟩

/-- A row that compares equal with one of an earlier store is that row, and was never away. -/
theorem Lasts.unchanged {a b c : Db} (ha : Sound a) (h : Lasts a b) (h' : Lasts b c)
    {d d' : DeviceToken} (hd : d ∈ a.devices) (hd' : d' ∈ c.devices) (hid : d'.id = d.id)
    (hat : d'.updatedAt = d.updatedAt) : d' = d ∧ d ∈ b.devices := by
  have hused : d'.id ∈ a.deviceIds := hid ▸ ha.known d hd
  obtain ⟨m, hm, hlate⟩ := h'.rows d' hd' (h.ids _ hused)
  have hmid : m.id ∈ a.deviceIds := hlate.id ▸ hused
  obtain ⟨d₀, hd₀, hearly⟩ := h.rows m hm hmid
  have hkey : d₀.id = d.id := hearly.id.symm.trans (hlate.id.symm.trans hid)
  obtain rfl : d₀ = d := List.inj_on_of_nodup_map ha.unique hd₀ hd hkey
  have hfirst : d₀.updatedAt = m.updatedAt :=
    le_antisymm hearly.later (hlate.later.trans_eq hat)
  have hsecond : m.updatedAt = d'.updatedAt := hfirst.symm.trans hat.symm
  have hsame : m = d₀ := hearly.same hfirst
  refine ⟨(hlate.same hsecond).trans hsame, ?_⟩
  rw [← hsame]
  exact hm

/-! ## What the requests write -/

/-- The statements on the table: a new row, a reassigned row, a DELETE. -/
inductive DeviceStatement : Label → (Db → Option Db) → Prop
  | insert (d : DeviceToken) :
      DeviceStatement (.deviceWrite d.id d.updatedAt) fun db => db.insertDevice d
  | reassign (r : Registration) (existing : DeviceToken) (now : Time) :
      DeviceStatement (.deviceWrite existing.id now) (reassign r existing now)
  | delete (keep : DeviceToken → Bool) :
      DeviceStatement .plain fun db => some { db with devices := db.devices.filter keep }

/-- The step lemma. -/
theorem lasts_of_statement {t : Label} {f : Db → Option Db} {x : Point Db Memory} {s : Db}
    (h : DeviceStatement t f) (hm : laterAtWrite t x = true) (hx : Sound x.view)
    (hf : f x.view = some s) : Lasts x.view s ∧ Sound s := by
  cases h with
  | insert d =>
      obtain ⟨_, hclash, rfl⟩ := Db.insertDevice_eq_some.mp hf
      have hnew : d.id ∉ x.view.deviceIds := by
        intro hin
        obtain ⟨d', hd', hid⟩ := (of_laterAtWrite hm).2 hin
        exact (hclash d' hd').1 hid
      constructor
      · constructor
        · exact fun i hi => List.mem_append_left _ hi
        · intro d' hd' hin
          rcases List.mem_append.mp hd' with hold | hself
          · exact ⟨d', hold, Refreshed.refl d'⟩
          · obtain rfl := List.mem_singleton.mp hself
            exact absurd hin hnew
      · constructor
        · rw [List.map_append, List.map_singleton, List.nodup_append_comm, List.singleton_append,
            List.nodup_cons]
          refine ⟨fun hin => ?_, hx.unique⟩
          obtain ⟨d', hd', hid⟩ := List.mem_map.mp hin
          exact (hclash d' hd').1 hid
        · intro d' hd'
          rcases List.mem_append.mp hd' with hold | hself
          · exact List.mem_append_left _ (hx.known d' hold)
          · obtain rfl := List.mem_singleton.mp hself
            exact List.mem_append_right _ (List.mem_singleton_self _)
  | reassign r existing now =>
      unfold reassign at hf
      split_ifs at hf
      obtain rfl := Option.some.inj hf
      have hid : ∀ d : DeviceToken,
          (if d.id = existing.id then r.assign now d else d).id = d.id := by
        intro d
        split_ifs <;> rfl
      constructor
      · constructor
        · exact fun i hi => hi
        · intro d' hd' _
          obtain ⟨d, hd, rfl⟩ := List.mem_map.mp hd'
          refine ⟨d, hd, ?_⟩
          split_ifs with he
          · have hlt := (of_laterAtWrite hm).1 d hd he
            exact ⟨rfl, rfl, hlt.le, fun hsame => absurd hsame hlt.ne⟩
          · exact Refreshed.refl d
      · constructor
        · have hmap : x.view.devices.map ((fun d : DeviceToken => d.id) ∘ fun d =>
              if d.id = existing.id then r.assign now d else d) = x.view.devices.map (·.id) :=
            List.map_congr_left fun d _ => hid d
          rw [List.map_map, hmap]
          exact hx.unique
        · intro d' hd'
          obtain ⟨d, hd, rfl⟩ := List.mem_map.mp hd'
          rw [hid d]
          exact hx.known d hd
  | delete keep =>
      obtain rfl := Option.some.inj hf
      constructor
      · exact ⟨fun i hi => hi, fun d' hd' _ => ⟨d', List.mem_of_mem_filter hd', Refreshed.refl d'⟩⟩
      · exact ⟨hx.unique.sublist (List.filter_sublist.map _),
          fun d hd => hx.known d (List.mem_of_mem_filter hd)⟩

/-- Memory is free: the limiter and the log of pushes are not about the table. -/
def AnySegment : Label → (Db → Memory → Memory) → Prop := fun _ _ => True

section
variable {W : Label → (Db → Option Db) → Prop}

theorem uses_pushAll (payload : WakePayload) (deliveries : List PushDelivery) :
    Uses W AnySegment (pushAll payload deliveries) := by
  induction deliveries with
  | nil => exact trivial
  | cons r rest ih => exact Uses.bind (Uses.atomically trivial) fun _ => ih

theorem uses_reapAll {dead : List (Observation × Option ReapOrder)}
    (h : ∀ d order, (d, some order) ∈ dead → W .plain fun db => some (reapRow d order db)) :
    Uses W AnySegment (reapAll dead) := by
  induction dead with
  | nil => exact trivial
  | cons entry rest ih =>
      obtain ⟨d, order⟩ := entry
      have hrest := ih fun d order hin => h d order (List.mem_cons_of_mem _ hin)
      cases order with
      | none => exact hrest
      | some order =>
          exact Uses.bind (Uses.exec (h d order List.mem_cons_self)) fun _ => hrest

theorem uses_recipients (channelId senderId : String) (exclude : List String) :
    Uses W AnySegment (recipients channelId senderId exclude) := by
  unfold recipients
  refine Uses.bind (Uses.query _) fun channel => ?_
  cases channel with
  | none => exact trivial
  | some channel =>
      dsimp only
      split_ifs
      · exact trivial
      · refine Uses.bind (Uses.query _) fun members => ?_
        split_ifs
        · exact trivial
        · exact Uses.bind (Uses.query _) fun live => Uses.bind (Uses.query _) fun _ => trivial

theorem uses_spokenHere (channelId : String) (userIds : List String) :
    Uses W AnySegment (spokenHere channelId userIds) := by
  unfold spokenHere
  split_ifs
  · exact trivial
  · exact Uses.bind (Uses.query _) fun _ => trivial

/-- The rest of a wake deletes on the orders that came back, and nothing else. -/
theorem uses_wakeRows (cfg : PushConfig) (userId : String) (payload : WakePayload) (now : Time)
    (answer : Observation → Answer) (rows : List DeviceToken)
    (h : ∀ d order, (d, some order) ∈ deadOf answer
      (planDeliveries rows payload.kind cfg.configured endWakeVoipGateOpen) →
      W .plain fun db => some (reapRow d order db)) :
    Uses W AnySegment (wakeRows cfg userId payload now answer rows) := by
  unfold wakeRows
  dsimp only
  generalize deadOf answer _ = dead at h ⊢
  by_cases hnone : planDeliveries rows payload.kind cfg.configured endWakeVoipGateOpen = []
  · rw [if_pos hnone]
    exact trivial
  · rw [if_neg hnone]
    refine Uses.bind (Uses.atomically trivial) fun allowed => ?_
    cases allowed with
    | false => exact trivial
    | true =>
        refine Uses.bind (uses_pushAll payload _) fun _ => ?_
        refine Uses.bind (uses_reapAll h) fun _ => ?_
        by_cases hdead : dead = []
        · rw [if_pos hdead]
          exact trivial
        · rw [if_neg hdead]
          exact trivial

variable (hdelete : ∀ d order, W .plain fun db => some (reapRow d order db))
include hdelete

theorem uses_wakeUser (cfg : PushConfig) (userId : String) (payload : WakePayload) (now : Time)
    (answer : Observation → Answer) : Uses W AnySegment (wakeUser cfg userId payload now answer) :=
  Uses.bind (Uses.query _) fun _ => uses_wakeRows _ _ _ _ _ _ fun d order _ => hdelete d order

theorem uses_wakeForMessage (w : Wake) : Uses W AnySegment (DeviceRequest.wake w).body := by
  have heach : ∀ (payload : WakePayload) (userIds : List String),
      Uses W AnySegment (wakeEach w.cfg payload w.now w.answer userIds) := by
    intro payload userIds
    induction userIds with
    | nil => exact trivial
    | cons u rest ih =>
        refine Uses.bind (Uses.handle (uses_wakeUser hdelete _ _ _ _ _) fun _ => ?_) fun _ => ih
        exact Uses.rollbackNow
  change Uses W AnySegment (wakeForMessage _ _ _ _ _ _ _ _)
  unfold wakeForMessage
  split_ifs
  · exact trivial
  · split
    · refine Uses.handle (Uses.session ?_) fun _ => trivial
      exact Uses.bind (uses_recipients _ _ _) fun _ =>
        Uses.bind (uses_spokenHere _ _) fun _ => heach _ _
    · exact trivial

end

theorem uses_request (request : DeviceRequest) :
    Uses DeviceStatement AnySegment request.body := by
  cases request with
  | wake w => exact uses_wakeForMessage (fun d order => DeviceStatement.delete _) w
  | register r sandbox rowId insertedAt reassignedAt =>
      refine Uses.session (Uses.bind ?_ fun _ => trivial)
      refine Uses.bind (Uses.attempt (DeviceStatement.insert (r.row sandbox rowId insertedAt)))
        fun ok => ?_
      cases ok with
      | true => exact trivial
      | false =>
          refine Uses.bind (Uses.query _) fun existing => ?_
          cases existing with
          | none => exact trivial
          | some existing =>
              refine Uses.bind (uses_flushOrRaise (DeviceStatement.reassign r existing _))
                fun _ => ?_
              exact trivial
  | unregister userId token =>
      refine Uses.session (Uses.bind ?_ fun _ => trivial)
      exact Uses.bind (Uses.exec (DeviceStatement.delete _)) fun _ => trivial

/-! ## The table along a run -/

/-- From a sound store the table lasts and stays sound. -/
def Keeps (a b : Db) : Prop := Sound a → Lasts a b ∧ Sound b

def spec (π : Type) : Spec π Db Memory Label where
  inv db _ := Sound db
  rely _ _ _ _ _ := True
  meets t x := laterAtWrite t x = true
  rely_refl _ _ _ := trivial
  rely_trans _ _ := trivial

theorem respects {π : Type} (p : π) :
    Respects (spec π) p (fun _ _ => True) Keeps DeviceStatement AnySegment where
  refl a ha := ⟨Lasts.refl a, ha⟩
  trans h h' ha := by
    obtain ⟨hlasts, hb⟩ := h ha
    obtain ⟨hlasts', hc⟩ := h' hb
    exact ⟨hlasts.trans hlasts', hc⟩
  stable _ _ := trivial
  write t f z s hw hz _ hview hm hf _ := lasts_of_statement hw hm (hview hz).2 hf
  segment t g z _ hz _ _ := ⟨⟨hz, fun _ _ => trivial⟩, trivial⟩
  commit db mem s hdb _ hs := ⟨⟨(hs hdb).2, fun _ _ => trivial⟩, trivial⟩

section
variable {π : Type} [DecidableEq π] {requests : π → DeviceRequest} {db₀ : Db} {mem₀ : Memory}
  {c c' : Cfg π Db Memory Label Exn Unit}

/-- The runs whose steps meet the condition. -/
def Run (c c' : Cfg π Db Memory Label Exn Unit) : Prop :=
  Cfg.Reach (fun t x => laterAtWrite t x = true) c c'

def start (requests : π → DeviceRequest) (db₀ : Db) (mem₀ : Memory) :
    Cfg π Db Memory Label Exn Unit :=
  Cfg.init db₀ mem₀ fun p => (requests p).body

theorem guarded_start (hsound : Sound db₀) :
    Guarded (spec π) (fun _ => Keeps) (fun _ _ _ => True) (fun _ => [])
      (start requests db₀ mem₀) where
  inv := hsound
  publishes p := of_respects (respects p) (uses_request (requests p)) fun ha => ⟨Lasts.refl db₀, ha⟩

/-- The run lemma: between any two states of a run the table lasts. -/
theorem lasts_of_reach (hsound : Sound db₀)
    (hr : Run (start requests db₀ mem₀) c) (hr' : Run c c') :
    Sound c.db ∧ Lasts c.db c'.db := by
  have hstart : Guarded (spec π) (fun _ => Keeps) (fun _ _ _ => True) (fun _ => [])
      (start requests db₀ mem₀) := guarded_start hsound
  obtain ⟨past, hguard, _⟩ := hstart.reach hr
  refine ⟨hguard.inv, ?_⟩
  induction hr' with
  | start => exact Lasts.refl _
  | step hreach hm hs ih =>
      obtain ⟨_, hguard', _⟩ := hguard.reach hreach
      rcases hguard'.change hm hs with hsame | hkeeps
      · rw [hsame]
        exact ih
      · exact ih.trans (hkeeps hguard'.inv).1

end

/-! ## What a wake deletes -/

/-- An answer to the push of `d` that proves the device gone; a dated proof bounds the order. -/
def Proves (w : Wake) (d : Observation) (order : ReapOrder) : Prop :=
  (∃ ms t, Apns.Death (w.answer d) ms ∧ reapInstant ms = some t ∧
      order.notReregisteredSince = some t) ∨
    order.notReregisteredSince = none ∧ Fcm.Detail (w.answer d) "UNREGISTERED"

def Observation.ofRow (row : DeviceToken) : Observation := ⟨row.id, row.token, row.updatedAt⟩

/-- The DELETE of a row that was read, on an order that the answer for it gave. -/
def planned (w : Wake) (s : Db) (_ : Label) (f : Db → Option Db) : Prop :=
  ∃ row ∈ s.devices, ∃ order, Proves w (Observation.ofRow row) order ∧
    f = fun db => some (reapRow (Observation.ofRow row) order db)

section
variable {w : Wake}

theorem proves_of_deadOf {deliveries : List PushDelivery} {d : Observation} {order : ReapOrder}
    (h : (d, some order) ∈ deadOf w.answer deliveries) :
    ∃ r ∈ deliveries, r.observed = d ∧ Proves w d order := by
  obtain ⟨r, hr, hres⟩ := List.mem_filterMap.mp h
  split at hres
  · rename_i order' hsend
    obtain ⟨rfl, rfl⟩ := Prod.mk.inj (Option.some.inj hres)
    refine ⟨r, hr, rfl, ?_⟩
    cases r with
    | apns d environment kind => exact Or.inl (Apns.death_of_reap hsend rfl)
    | fcm d =>
        obtain ⟨hdetail, hnone⟩ := Fcm.detail_of_reap hsend rfl
        exact Or.inr ⟨hnone, hdetail⟩
  · cases hres

/-- A wake writes only what the rows it read and the answers plan. -/
theorem plans_wake (w : Wake) :
    Plans (planned w) (fun _ _ => False) (DeviceRequest.wake w).body := by
  have heach : ∀ (payload : WakePayload) (userIds : List String),
      Plans (planned w) (fun _ _ => False) (wakeEach w.cfg payload w.now w.answer userIds) := by
    intro payload userIds
    induction userIds with
    | nil => exact trivial
    | cons u rest ih =>
        refine Plans.bind (Plans.handle ?_ fun _ => trivial) fun _ => ih
        refine Plans.query fun s => Plans.of_uses (uses_wakeRows _ _ _ _ _ _ ?_)
        intro d order hdead
        obtain ⟨r, hr, rfl, hproves⟩ := proves_of_deadOf hdead
        obtain ⟨row, hrow, hd⟩ := row_of_planned hr
        have hof : r.observed = Observation.ofRow row := hd
        rw [hof] at hproves ⊢
        exact Or.inr ⟨row, List.mem_of_mem_filter hrow, order, hproves, rfl⟩
  change Plans _ _ (wakeForMessage _ _ _ _ _ _ _ _)
  unfold wakeForMessage
  split_ifs
  · exact trivial
  · split
    · refine Plans.handle (Plans.session ?_) fun _ => trivial
      exact Plans.bind (Plans.of_uses (uses_recipients _ _ _)) fun _ =>
        Plans.bind (Plans.of_uses (uses_spokenHere _ _)) fun _ => heach _ _
    · exact trivial

/-- A row that the DELETE takes compares equal with the row that was read. -/
theorem matches_of_reaped {a : Db} {d row : DeviceToken} {order : ReapOrder} (hd : d ∈ a.devices)
    (hgone : d ∉ (reapRow (Observation.ofRow row) order a).devices) :
    d.id = row.id ∧ d.updatedAt = row.updatedAt ∧
      ∀ since, order.notReregisteredSince = some since → (d.updatedAt : ℤ) ≤ since := by
  have hcond := fun hc => hgone (List.mem_filter.mpr ⟨hd, hc⟩)
  simp only [imp_false, Bool.not_eq_true, Bool.not_eq_false', Bool.and_eq_true] at hcond
  refine ⟨of_decide_eq_true hcond.1.1.1, of_decide_eq_true hcond.1.2, fun since hsince => ?_⟩
  simpa [hsince] using hcond.2

/-- Planned writes only take rows away. -/
theorem subset_of_planned {s a b : Db} {t : Label} {f : Db → Option Db} (h : planned w s t f)
    (hf : f a = some b) : ∀ d ∈ b.devices, d ∈ a.devices := by
  obtain ⟨row, _, order, _, rfl⟩ := h
  obtain rfl := Option.some.inj hf
  exact fun d hd => List.mem_of_mem_filter hd

end

/-! ## Reap safety -/

/-- The provider's answer to the push for this row proves the device gone: a 410 from APNs with the
milliseconds of its death, not before which the row was last registered, or an `UNREGISTERED` detail
from FCM. -/
def ProvenDead (w : Wake) (row : DeviceToken) : Prop :=
  (∃ ms, Apns.Death (w.answer (Observation.ofRow row)) ms ∧ (row.updatedAt : ℤ) ≤ 1000 * ms) ∨
    Fcm.Detail (w.answer (Observation.ofRow row)) "UNREGISTERED"

/-- No quotient of a dated answer comes out too large. -/
def DatesNoLater (w : Wake) : Prop := ∀ d ms, Apns.Death (w.answer d) ms → DatedNoLater ms

/-- In every run, a row that a wake's step takes out of the store was read by that wake in an
earlier state, was proved dead, and was in the store unchanged in every state since, if no dated
answer to the wake has a quotient that is too large. -/
theorem reap_safety {π : Type} [DecidableEq π] (requests : π → DeviceRequest) (db₀ : Db)
    (mem₀ : Memory) (hsound : Sound db₀) {c c' : Cfg π Db Memory Label Exn Unit} {p : π} {w : Wake}
    (hp : requests p = .wake w) (hdated : DatesNoLater w) (hr : Run (start requests db₀ mem₀) c)
    (hm : c.Meets (fun t x => laterAtWrite t x = true) p) (hs : c.step p = some c')
    {row : DeviceToken} (hrow : row ∈ c.db.devices) (hgone : row ∉ c'.db.devices) :
    ProvenDead w row ∧ ∃ c₁ c₂, Run (start requests db₀ mem₀) c₁ ∧ c₁.step p = some c₂ ∧
      Run c₂ c ∧ row ∈ c₁.db.devices ∧ ∀ d, Run c₂ d → Run d c → row ∈ d.db.devices := by
  have hplans : Plans (planned w) (fun _ _ => False) ((start requests db₀ mem₀).procs p) := by
    change Plans _ _ (requests p).body
    rw [hp]
    exact plans_wake w
  have hwrote := hplans.change rfl hr hm hs
  obtain ⟨a, b, t, f, hplanned, hf, hin, hout⟩ :=
    exists_wrote_of_lost (V := fun s : Db => row ∈ s.devices) hwrote hrow hgone
  obtain ⟨c₁, c₂, h₁, hmeets, hstep, h₂, row₀, hread, order, hproves, rfl⟩ := hplanned
  obtain rfl := Option.some.inj hf
  obtain ⟨hid, hat, hbound⟩ := matches_of_reaped hin hout
  -- the wake reads what is committed, less what it has itself deleted
  have hcommitted : row₀ ∈ c₁.db.devices := by
    have hsub := Wrote.keeps (R := fun a b : Db => ∀ d ∈ b.devices, d ∈ a.devices)
      (fun _ _ hd => hd) (fun h h' d hd => h d (h' d hd))
      (fun t f a b hdone hf => by
        obtain ⟨_, _, _, _, _, _, hp⟩ := hdone
        exact subset_of_planned hp hf) (hplans.reach rfl h₁).view
    exact hsub row₀ hread
  have hfirst : Run c₁ c₂ := Cfg.Reach.start.step hmeets hstep
  have hsame : ∀ d, Run c₂ d → Run d c → row = row₀ ∧ row₀ ∈ d.db.devices := by
    intro d hd hd'
    obtain ⟨hsound₁, hlasts⟩ := lasts_of_reach hsound h₁ (hfirst.trans hd)
    obtain ⟨_, hlasts'⟩ := lasts_of_reach hsound ((h₁.trans hfirst).trans hd) hd'
    exact Lasts.unchanged hsound₁ hlasts hlasts' hcommitted hrow hid hat
  obtain ⟨rfl, _⟩ := hsame c h₂ Cfg.Reach.start
  constructor
  · rcases hproves with ⟨ms, t, hdeath, ht, horder⟩ | ⟨_, hdetail⟩
    · have hle : t ≤ 1000 * ms := (reapInstant_le_iff ht).mpr (hdated _ ms hdeath)
      exact Or.inl ⟨ms, hdeath, (hbound t horder).trans hle⟩
    · exact Or.inr hdetail
  · exact ⟨c₁, c₂, h₁, hstep, h₂, hcommitted, fun d hd hd' => (hsame d hd hd').2⟩

/-! ### A phone that Apple no longer knows -/

def gone (ms : ℤ) : Answer := .response 410 (some (.dict [(codes "timestamp", .int ms)]))

/-- The call rings one phone, registered at this instant. -/
def iphone (registeredAt : Time) : DeviceToken :=
  { id := "D", userId := "B", token := "T", updatedAt := registeredAt }

def iphoneDb (registeredAt : Time) : Db := { callDb with devices := [iphone registeredAt] }

def ring (ms : ℤ) : Wake where
  cfg := ⟨[.apns], 10⟩
  channelId := "C"
  channelKind := .dm
  senderId := "A"
  body := callBody .callInvite (List.replicate 26 48)
  excludeUserIds := []
  now := 0
  answer _ := gone ms

def ringStart (ms : ℤ) (registeredAt : Time) : Cfg Unit Db Memory Label Exn Unit :=
  start (fun _ => .wake (ring ms)) (iphoneDb registeredAt) {}

/-- The rows before and after the DELETE of the wake, and whether its step meets the condition. -/
def reaping (ms : ℤ) (registeredAt : Time) : Option (List DeviceToken × List DeviceToken × Bool) :=
  (Cfg.playChecked laterAtWrite (List.replicate 9 ()) (ringStart ms registeredAt)).bind fun c =>
    (c.step ()).map fun c' => (c.db.devices, c'.db.devices,
      (c.procs ()).label.all fun t => laterAtWrite t (c.point ()))

theorem sound_iphoneDb (registeredAt : Time) : Sound (iphoneDb registeredAt) :=
  ⟨by simp [iphoneDb], by simp [iphoneDb, iphone, callDb]⟩

theorem exists_step_of_reaping (ms : ℤ) (registeredAt : Time)
    (h : reaping ms registeredAt = some ([iphone registeredAt], [], true)) :
    ∃ c c', Run (ringStart ms registeredAt) c ∧
      c.Meets (fun t x => laterAtWrite t x = true) () ∧ c.step () = some c' ∧
      iphone registeredAt ∈ c.db.devices ∧ iphone registeredAt ∉ c'.db.devices := by
  obtain ⟨c, hc, hnext⟩ := Option.bind_eq_some_iff.mp h
  obtain ⟨c', hc', hdevices⟩ := Option.map_eq_some_iff.mp hnext
  obtain ⟨hbefore, hafter⟩ := Prod.mk.inj hdevices
  obtain ⟨hafter, hlabel⟩ := Prod.mk.inj hafter
  refine ⟨c, c', Cfg.reach_of_playChecked (fun _ _ h => h) Cfg.Reach.start hc, ?_, hc',
    by simp [hbefore], by simp [hafter]⟩
  intro t ht
  rw [Option.mem_def.mp ht] at hlabel
  simpa using hlabel

theorem death_gone_iff {ms ms' : ℤ} : Apns.Death (gone ms) ms' ↔ ms' = ms := by
  have hfield : Transports.field [(codes "timestamp", .int ms)] "timestamp" = .int ms := by
    simp [Transports.field, OrderedDict.get]
  constructor
  · intro h
    obtain ⟨d, hanswer, hstamp⟩ := h
    cases hanswer
    rw [hfield] at hstamp
    cases hstamp
    rfl
  · intro h
    subst h
    exact ⟨_, rfl, hfield⟩

theorem reap_safety_ring : ∃ c c', Run (ringStart 1700000000000 5) c ∧ c.step () = some c' ∧
    iphone 5 ∈ c.db.devices ∧ iphone 5 ∉ c'.db.devices ∧
    ProvenDead (ring 1700000000000) (iphone 5) := by
  obtain ⟨c, c', hrun, hmeets, hstep, hin, hout⟩ :=
    exists_step_of_reaping 1700000000000 5 (by decide +kernel)
  refine ⟨c, c', hrun, hstep, hin, hout, ?_⟩
  have hdated : DatesNoLater (ring 1700000000000) := by
    intro d ms hdeath
    obtain rfl := death_gone_iff.mp hdeath
    exact datedNoLater_of_datable (datable_of_small (by norm_num) (by norm_num))
  exact (reap_safety (fun _ => .wake (ring 1700000000000)) (iphoneDb 5) {} (sound_iphoneDb 5) rfl
    hdated hrun hmeets hstep hin hout).1

/-- In the year 2242 a phone that was registered a microsecond after its death is deleted. -/
theorem a_later_registration_is_deleted : ¬∀ (requests : Unit → DeviceRequest) (db₀ : Db)
    (mem₀ : Memory), Sound db₀ → ∀ (c c' : Cfg Unit Db Memory Label Exn Unit) (w : Wake),
      requests () = .wake w → Run (start requests db₀ mem₀) c →
      c.Meets (fun t x => laterAtWrite t x = true) () → c.step () = some c' →
      ∀ row ∈ c.db.devices, row ∉ c'.db.devices → ProvenDead w row := by
  intro h
  obtain ⟨c, c', hrun, hmeets, hstep, hin, hout⟩ :=
    exists_step_of_reaping 8589934592002 8589934592002001 (by decide +kernel)
  have hdead := h (fun _ => .wake (ring 8589934592002)) (iphoneDb 8589934592002001) {}
    (sound_iphoneDb _) c c' _ rfl hrun hmeets hstep _ hin hout
  rcases hdead with ⟨ms, hdeath, hle⟩ | hdetail
  · obtain rfl := death_gone_iff.mp hdeath
    have hlater : ¬((8589934592002001 : ℕ) : ℤ) ≤ 1000 * 8589934592002 := by norm_num
    exact hlater hle
  · obtain ⟨_, d, _, _, _, hanswer, herror, _⟩ := hdetail
    cases hanswer
    cases herror

end AikoIsland.Reaping
