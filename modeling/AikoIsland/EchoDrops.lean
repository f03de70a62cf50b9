import AikoIsland.Realtime
import AikoIsland.EchoMatching

/-!
# Which inbound messages are dropped as own echoes

Any number of sockets with their sends, the ChatServer discovered or not at each
publish, together with any number of inbound bus messages, interleaved statement
by statement. In every run whose clock readings do not decrease, the drops of a
key are accounted for, one-to-one, by publishes of that key that `bus.send`
confirmed less than the TTL earlier, if every publish of the key in the run was
confirmed.

The mark is written before the publish, and a publish that is dropped because no
ChatServer is discovered leaves its mark behind: the next foreign message with
the same content is taken for its echo.
-/
namespace AikoIsland.EchoDrops
open Tables Gateway Passkeys WriterLock RelyGuarantee Footprint Messages Realtime EchoMatching

/-! ## The requests -/

inductive BusRequest where
  | socket (conn : ℕ) (h : Handshake)
  | ingest (msg : InboundMessage) (ids : IngestIds)

def BusRequest.body : BusRequest → Body Unit
  | .socket conn h => wsEndpoint conn h
  | .ingest msg ids => do
      let _ ← Realtime.ingest msg ids
      return ()

/-! ## The history of the echo store -/

def call : EchoEvent → EchoCall
  | .published now key _ => .markSent now key
  | .checked now aikoChannel aikoUsername body _ => .isOwnEcho now aikoChannel aikoUsername body

def answer : EchoEvent → Bool
  | .published _ _ _ => false
  | .checked _ _ _ _ dropped => dropped

/-- The store is what the calls of the history make of an empty one, with their answers. -/
def Logged (m : Memory) : Prop :=
  m.seen = storeFrom [] (m.echoes.map call) ∧
    trace [] (m.echoes.map call) = m.echoes.map fun e => (call e, answer e)

theorem logged_of_same {m m' : Memory} (h : Logged m) (hseen : m'.seen = m.seen)
    (hechoes : m'.echoes = m.echoes) : Logged m' := by
  unfold Logged
  rw [hseen, hechoes]
  exact h

/-- One more call on the store, recorded with its answer. -/
theorem logged_of_call {m m' : Memory} {e : EchoEvent} (h : Logged m)
    (hechoes : m'.echoes = m.echoes ++ [e]) (hrun : (call e).run m.seen = (answer e, m'.seen)) :
    Logged m' := by
  obtain ⟨hseen, htrace⟩ := h
  constructor
  · rw [hechoes, List.map_append, List.map_singleton, storeFrom_append, ← hseen, hrun]
  · rw [hechoes, List.map_append, List.map_append, trace_append, htrace, ← hseen]
    simp [trace, hrun]

theorem logged_published {m : Memory} (h : Logged m) (user : User) (channel : Channel)
    (row : Message) (body : PyStr) (sentAt : Time) (discovered : Bool) :
    Logged (published user channel row body sentAt discovered m) :=
  logged_of_call h (e := .published sentAt (echoKey user channel body) discovered) rfl rfl

theorem logged_checked {m : Memory} (h : Logged m) (now : Time) (channel : PyStr)
    (msg : InboundMessage) : Logged (checked now channel msg m) := by
  apply logged_of_call h (e := .checked now channel msg.username msg.message
    (isOwnEcho now channel msg.username msg.message m.seen).1)
  · rfl
  · rfl

/-- The segments of a socket keep the history. -/
theorem logged_socketSegment {conn : ℕ} {t : Label} {g : Db → Memory → Memory}
    (hg : SocketSegment conn t g) (db : Db) (m : Memory) (h : Logged m) : Logged (g db m) := by
  cases hg with
  | letIn token =>
      have hsame : (admittedBy conn token db m).seen = m.seen ∧
          (admittedBy conn token db m).echoes = m.echoes := by
        unfold admittedBy
        cases gate token db <;> exact ⟨rfl, rfl⟩
      exact logged_of_same h hsame.1 hsame.2
  | accept completes => cases completes <;> exact logged_of_same h rfl rfl
  | register userId => exact logged_of_same h rfl rfl
  | finish => exact logged_of_same h rfl rfl
  | serve hg =>
      cases hg with
      | receive frame =>
          have hsame : ∀ userId, (takenIn conn userId frame m).seen = m.seen ∧
              (takenIn conn userId frame m).echoes = m.echoes := by
            intro userId
            unfold takenIn
            split_ifs
            · exact ⟨rfl, rfl⟩
            · cases frame <;> exact ⟨rfl, rfl⟩
          exact logged_of_same h (hsame _).1 (hsame _).2
      | reply t r raises => cases raises <;> exact logged_of_same h rfl rfl
      | subscribe ids => exact logged_of_same h rfl rfl
      | publish user channel row body sentAt discovered =>
          exact logged_published h user channel row body sentAt discovered
      | fanout channelId frame exclude => exact logged_of_same h rfl rfl
      | drop conns =>
          refine logged_of_same h ?_ ?_ <;> simp only [Memory.foldl_unregister]

theorem uses_body (req : BusRequest) :
    Uses (fun _ _ => True) (fun _ g => ∀ db m, Logged m → Logged (g db m)) req.body := by
  cases req with
  | socket conn h =>
      exact (uses_wsEndpoint conn h).mono (fun _ _ _ => trivial)
        fun _ _ hg => logged_socketSegment hg
  | ingest msg ids =>
      have hingest := uses_ingest (A := fun _ g => ∀ db m, Logged m → Logged (g db m))
        (uses_persistInbound ids.channelId ids.rowId msg ids.now)
        (fun channel _ m h => logged_checked h ids.now channel msg)
        (fun c f e db m h => logged_of_same h rfl rfl)
        fun conns db m h => by
          refine logged_of_same h ?_ ?_ <;> simp only [Memory.foldl_unregister]
      exact Uses.bind (hingest.mono (fun _ _ _ => trivial) fun _ _ hg => hg) fun _ => trivial

/-! ## Accounting -/

/-- A confirmed publish of the key at `i`, and a later drop of it less than the TTL after. -/
def Covers (key : EchoKey) (echoes : List EchoEvent) (i j : ℕ) : Prop :=
  i < j ∧ ∃ sentAt now, echoes[i]? = some (.published sentAt key true) ∧
    echoes[j]? = some (.checked now key.aikoChannel (some key.aikoUsername) key.body true) ∧
    sentAt ≤ now ∧ now < sentAt + ttl

/-- Each drop of the key has a confirmed publish of its own. -/
def Accounted (key : EchoKey) (echoes : List EchoEvent) : Prop :=
  ∃ G : Finset (ℕ × ℕ), (∀ p ∈ G, Covers key echoes p.1 p.2) ∧
    (∀ p ∈ G, ∀ q ∈ G, p.1 = q.1 → p = q) ∧
    ∀ j now, echoes[j]? =
      some (.checked now key.aikoChannel (some key.aikoUsername) key.body true) → ∃ p ∈ G, p.2 = j

/-- The condition: `bus.send` returned true for every publish of the key. -/
def Confirmed (key : EchoKey) (echoes : List EchoEvent) : Prop :=
  ∀ e ∈ echoes, ∀ sentAt sent, e = .published sentAt key sent → sent = true

def readings (echoes : List EchoEvent) : List Time :=
  (echoes.map call).filterMap EchoCall.reading

section
variable {key : EchoKey} {echoes : List EchoEvent}

theorem published_of_markAt {i : ℕ} {m : EchoMark} (h : markAt (echoes.map call) i = some m) :
    ∃ sentAt sent, echoes[i]? = some (.published sentAt m.key sent) ∧ m.expiresAt = sentAt + ttl := by
  unfold markAt at h
  rw [List.getElem?_map] at h
  cases he : echoes[i]? with
  | none => simp [he] at h
  | some e =>
      cases e with
      | published sentAt key sent =>
          rw [he] at h
          obtain rfl := Option.some.inj h
          exact ⟨sentAt, sent, rfl, rfl⟩
      | checked now aikoChannel aikoUsername body dropped => simp [he, call] at h

theorem checked_of_checkAt {j : ℕ} {t : Time} (h : checkAt (echoes.map call) j = some (key, t)) :
    ∃ dropped, echoes[j]? =
      some (.checked t key.aikoChannel (some key.aikoUsername) key.body dropped) := by
  unfold checkAt at h
  rw [List.getElem?_map] at h
  cases he : echoes[j]? with
  | none => simp [he] at h
  | some e =>
      cases e with
      | published sentAt key sent => simp [he, call] at h
      | checked now aikoChannel aikoUsername body dropped =>
          cases aikoUsername with
          | none => simp [he, call] at h
          | some u =>
              rw [he] at h
              obtain ⟨rfl, rfl⟩ := Prod.mk.inj (Option.some.inj h)
              exact ⟨dropped, rfl⟩

/-- The answers of the history are the answers of the calls. -/
theorem trace_at {m : Memory} (h : Logged m) {j : ℕ} {e : EchoEvent} (he : m.echoes[j]? = some e) :
    (trace [] (m.echoes.map call))[j]? = some (call e, answer e) := by
  rw [h.2, List.getElem?_map, he]
  rfl

/-- A logged store accounts for the drops of a key whose publishes were all confirmed. -/
theorem accounted_of_logged {m : Memory} (h : Logged m) (hclock : (readings m.echoes).Pairwise (· ≤ ·))
    (hsent : Confirmed key m.echoes) : Accounted key m.echoes := by
  obtain ⟨G, hG⟩ := exists_ledger (m.echoes.map call) hclock
  refine ⟨ofKey key (m.echoes.map call) G, fun p hp => ?_, fun p hp q hq he => ?_,
    fun j now hj => ?_⟩
  · obtain ⟨hpair, t, hc⟩ := mem_ofKey.mp hp
    obtain ⟨hlt, mark, t', hm, hc', hlive⟩ := hG.pairs p hpair
    rw [hc] at hc'
    obtain ⟨rfl, rfl⟩ := Prod.mk.inj (Option.some.inj hc')
    obtain ⟨sentAt, sent, hpub, hexp⟩ := published_of_markAt hm
    obtain ⟨dropped, hcheck⟩ := checked_of_checkAt hc
    have htrue : sent = true := hsent _ (List.mem_of_getElem? hpub) sentAt sent rfl
    have hdropped : dropped = true :=
      (hG.answers p.2 _ dropped (trace_at h hcheck)).mpr ⟨p, hpair, rfl⟩
    rw [htrue] at hpub
    rw [hdropped] at hcheck
    refine ⟨hlt, sentAt, t, hpub, hcheck, ?_, hexp ▸ hlive⟩
    -- both readings stand in the history, the publish before the check
    obtain ⟨hi, hgi⟩ := List.getElem?_eq_some_iff.mp hpub
    obtain ⟨hj, hgj⟩ := List.getElem?_eq_some_iff.mp hcheck
    have hordered := List.pairwise_iff_getElem.mp (List.pairwise_filterMap.mp hclock) p.1 p.2
      (by simpa using hi) (by simpa using hj) hlt
    exact hordered sentAt (by simp [hgi, call, EchoCall.reading]) t
      (by simp [hgj, call, EchoCall.reading])
  · exact hG.once p (mem_ofKey.mp hp).1 q (mem_ofKey.mp hq).1 he
  · obtain ⟨p, hp, rfl⟩ := (hG.answers j _ true (trace_at h hj)).mp rfl
    refine ⟨p, mem_ofKey.mpr ⟨hp, now, ?_⟩, rfl⟩
    simp [checkAt, hj, call]

end

/-! ## Every run -/

/-- In every state of a run whose clock readings do not decrease: the drops of a key are
accounted for when every publish of the key was confirmed by `bus.send`. -/
theorem drops_are_accounted_for {db₀ : Db} {mem₀ : Memory} (hseen : mem₀.seen = [])
    (hechoes : mem₀.echoes = []) (reqs : ℕ → BusRequest) {c : Cfg ℕ Db Memory Label Exn Unit}
    (hr : Cfg.Reach (fun _ _ => True) (Cfg.init db₀ mem₀ fun p => (reqs p).body) c)
    (hclock : (readings c.mem.echoes).Pairwise (· ≤ ·)) :
    ∀ key, Confirmed key c.mem.echoes → Accounted key c.mem.echoes := by
  have hstart : Logged mem₀ := by
    constructor
    · rw [hseen, hechoes]
      rfl
    · rw [hechoes]
      rfl
  have hlogged : Logged c.mem := memory_of_reach hstart (fun p => uses_body (reqs p)) hr
  exact fun key hsent => accounted_of_logged hlogged hclock hsent

/-! ## Runs -/

def room : Db where
  users := [{ id := "A", username := "a", aikoUsername := "a" }]
  channels := [{ id := "C", name := "room", aikoChannel := "room" }]

/-- A sends "hi" over a socket; a second later the bus delivers "hi" under A's name. -/
def hiRequests (discovered : Bool) : ℕ → BusRequest
  | 0 => .socket 1
      { token := some ⟨"A", 0⟩
        frames := [.send
          { clientMsgId := codes "x", channelId := codes "C", body := codes "hi"
            minted := { msgId := "m" }, sentAt := 0, discovered := discovered }] }
  | _ => .ingest ⟨some (codes "a"), some (codes "room"), .absent, codes "hi"⟩
      { channelId := "D", rowId := "n", now := 1000000 }

def hiStart (discovered : Bool) : Cfg ℕ Db Memory Label Exn Unit :=
  Cfg.init room {} fun p => (hiRequests discovered p).body

def hiSchedule : List ℕ := List.replicate 13 0 ++ [1]

def hiKey : EchoKey := ⟨codes "room", codes "a", codes "hi"⟩

theorem hi_history (discovered : Bool) :
    (Cfg.play hiSchedule (hiStart discovered)).map (fun c => c.mem.echoes) =
      some [.published 0 hiKey discovered,
        .checked 1000000 (codes "room") (some (codes "a")) (codes "hi") true] := by
  cases discovered <;> decide +kernel

/-- Without the condition a foreign message is dropped: no ChatServer was discovered, so the
message that comes back is not an echo. -/
theorem unsent_publish_can_eat_a_foreign_message :
    ¬ ∀ (db₀ : Db) (mem₀ : Memory) (reqs : ℕ → BusRequest) (c : Cfg ℕ Db Memory Label Exn Unit),
      mem₀.seen = [] → mem₀.echoes = [] →
      Cfg.Reach (fun _ _ => True) (Cfg.init db₀ mem₀ fun p => (reqs p).body) c →
      (readings c.mem.echoes).Pairwise (· ≤ ·) → ∀ key, Accounted key c.mem.echoes := by
  intro hclaim
  obtain ⟨c, hc, hechoes⟩ := Option.map_eq_some_iff.mp (hi_history false)
  obtain ⟨G, hcovers, _, hall⟩ := hclaim room {} (hiRequests false) c rfl rfl
    (Cfg.reach_of_play Cfg.Reach.start hc) (by rw [hechoes]; decide) hiKey
  obtain ⟨p, hp, hj⟩ := hall 1 1000000 (by rw [hechoes]; rfl)
  obtain ⟨hlt, sentAt, now, hpub, _⟩ := hcovers p hp
  have hfirst : p.1 = 0 := by omega
  rw [hfirst, hechoes] at hpub
  simp at hpub

/-- A confirmed publish and its echo meet the condition. -/
theorem confirmed_publish_accounts_for_its_echo :
    ∃ c, Cfg.play hiSchedule (hiStart true) = some c ∧ Accounted hiKey c.mem.echoes := by
  obtain ⟨c, hc, hechoes⟩ := Option.map_eq_some_iff.mp (hi_history true)
  refine ⟨c, hc, drops_are_accounted_for rfl rfl (hiRequests true)
    (Cfg.reach_of_play Cfg.Reach.start hc) (by rw [hechoes]; decide) hiKey ?_⟩
  intro e he sentAt sent heq
  rw [hechoes] at he
  simp only [List.mem_cons, List.not_mem_nil, or_false] at he
  rcases he with rfl | rfl
  · simp only [EchoEvent.published.injEq] at heq
    exact heq.2.2.symm
  · cases heq

end AikoIsland.EchoDrops
