import AikoIsland.DmMembership
import AikoIsland.SoloRun

/-!
# Sends into a direct message under a block

`create_outbound` looks for the client id first, then asks the block gate, then
inserts. The gate reads the pair from the key of the channel, not from the
memberships, so a peer who has left still counts; a key that names no pair is
refused. Whether the sender is one of the pair it does not ask: that is left to the
caller, who admits members only, and to the memberships of a direct message staying
within its pair.
-/
namespace AikoIsland.DmBlocks
open Tables Gateway Memberships Messages DirectMessages DmMembership WriterLock

/-! ## The key -/

/-- A key that parses names two ids, and the peers are those of the two that are not `me`. -/
theorem names_of_canonicalPeerIds {key me : String} {peers : List String}
    (h : canonicalPeerIds key me = some peers) :
    ∃ x y, Names key x y ∧ ∀ p, p ∈ peers ↔ (p = x ∨ p = y) ∧ p ≠ me := by
  unfold canonicalPeerIds at h
  dsimp only at h
  split_ifs at h with hdm hparts
  obtain rfl := Option.some.inj h
  simp only [Bool.or_eq_true, decide_eq_true_eq, not_or, not_not, List.any_eq_true,
    not_exists, not_and] at hparts
  obtain ⟨hlen, hall⟩ := hparts
  rw [List.length_map] at hlen
  obtain ⟨x, y, hsplit⟩ := List.length_eq_two.mp hlen
  rw [hsplit] at hall
  have hx : x.length = 26 := by simpa using hall (String.ofList x)
  have hy : y.length = 26 := by simpa using hall (String.ofList y)
  refine ⟨String.ofList x, String.ofList y, ⟨?_, ?_, ?_⟩, ?_⟩
  · simpa using hx
  · simpa using hy
  · have hprefix : "dm:".toList <+: key.toList := by
      simpa [Db.isDmChannelName, List.isPrefixOf_iff_prefix] using hdm
    obtain ⟨rest, hrest⟩ := hprefix
    have hdrop : key.toList.drop 3 = rest := by
      rw [← hrest]
      rfl
    have hjoin : [':'].intercalate (rest.splitOn ':') = rest := List.intercalate_splitOn ':'
    rw [hdrop] at hsplit
    rw [hsplit] at hjoin
    apply String.toList_inj.mp
    rw [← hrest, ← hjoin]
    simp [List.intercalate]
  · intro p
    rw [hsplit]
    simp

/-! ## The gate -/

/-- The sends that the gate lets pass: a key with peers, none of them under a block. -/
def admitsDm (s : Db) (user : User) (channel : Channel) : Bool :=
  match canonicalPeerIds channel.aikoChannel user.id with
  | none => false
  | some peerIds => !peerIds.any fun p => p ∈ s.blockedPairUserIds user.id

section
variable {user : User} {channel : Channel} {out : Outbound} {minted : Minted}
  {x : Point Db Memory}

theorem run_refuseBlockedDm (hdm : channel.kind = .dm)
    (hgate : admitsDm x.view user channel = false) :
    (refuseBlockedDm user channel).run x = (.error .blockedDmSend, x) := by
  unfold admitsDm at hgate
  unfold refuseBlockedDm
  rw [if_neg (not_not.mpr hdm)]
  cases hpeers : canonicalPeerIds channel.aikoChannel user.id with
  | none => rfl
  | some peerIds =>
      rw [hpeers] at hgate
      cases peerIds with
      | nil => cases hgate
      | cons peer rest =>
          have hany : (peer :: rest).any
              (fun p => decide (p ∈ x.view.blockedPairUserIds user.id)) = true := by
            simpa only [Bool.not_eq_false'] using hgate
          change (if (peer :: rest).any (fun p => decide (p ∈ x.view.blockedPairUserIds user.id))
            then throwExn .blockedDmSend else Pure.pure () : Body Unit).run x = _
          rw [if_pos hany]
          rfl

/-- The stored row of a client id. -/
def storedSend (s : Db) (channel : Channel) (clientMsgId : String) : Option Message :=
  s.messages.find? fun m => m.channelId = channel.id && m.clientMsgId = some clientMsgId

/-- A send that has no stored row and does not pass the gate leaves everything as it was. -/
theorem run_createOutbound (hdm : channel.kind = .dm) {clientMsgId : String}
    (ht : encode out.clientMsgId = some clientMsgId) :
    (∀ existing, storedSend x.view channel clientMsgId = some existing →
      (createOutbound user channel out minted).run x = (.ok (existing, false), x)) ∧
    (storedSend x.view channel clientMsgId = none → admitsDm x.view user channel = false →
      (createOutbound user channel out minted).run x = (.error .blockedDmSend, x)) := by
  have hstart : ∀ found : Option Message, storedSend x.view channel clientMsgId = found →
      (createOutbound user channel out minted).run x =
        (found.elim (do
            refuseBlockedDm user channel
            recordOrigin user out minted
            let body ← bindText out.body
            let row := outboundRow user channel out body clientMsgId minted
            flushOr .messageIntegrityError (fun db => db.insertMessage row)
              (.messageInsert row.id channel.id clientMsgId)
            commit
            return (row, true)) (fun existing => return (existing, false)) :
              Body (Message × Bool)).run x := by
    intro found hfound
    rw [createOutbound, bindText_eq ht]
    change (Request.bind (.ret (storedSend x.view channel clientMsgId)) _).run x = _
    rw [hfound]
    cases found <;> rfl
  constructor
  · intro existing hstored
    rw [hstart _ hstored]
    rfl
  · intro hnone hgate
    rw [hstart _ hnone]
    change (refuseBlockedDm user channel >>= _).run x = _
    rw [Request.run_bind, run_refuseBlockedDm hdm hgate]

theorem run_createOutbound_unencoded (ht : encode out.clientMsgId = none) :
    (createOutbound user channel out minted).run x = (.error .unicodeEncodeError, x) := by
  rw [createOutbound, bindText, ht]
  rfl

/-- A send that added a message passed the gate. -/
theorem admits_of_added (hdm : channel.kind = .dm)
    (h : ((createOutbound user channel out minted).run x).2.db.messages ≠ x.db.messages) :
    admitsDm x.view user channel = true := by
  by_contra hgate
  have hgate : admitsDm x.view user channel = false := by simpa using hgate
  apply h
  cases ht : encode out.clientMsgId with
  | none => rw [run_createOutbound_unencoded ht]
  | some clientMsgId =>
      cases hstored : storedSend x.view channel clientMsgId with
      | some existing => rw [(run_createOutbound hdm ht).1 existing hstored]
      | none => rw [(run_createOutbound hdm ht).2 hstored hgate]

end

/-! ## Runs -/

section
variable {π : Type} [DecidableEq π] {reqs : π → ChannelRequest} {db : Db} {mem mem' : Memory}
  {c : Cfg π Db Memory Label Exn Answer}

/-- After any history of openings, leaves, blocks, unblocks and sends: a send into a direct message
that adds a row has a key with two ids, no block between the sender and either of them, and a member
who sends is one of the two; a resend gives the stored row and changes nothing; and with a malformed
key no row is added. -/
theorem blocked_dm_sends (hdb : DmTables db) (hnew : NewIds reqs db)
    (hr : Cfg.Reach (fun _ _ => True) (startOf reqs db mem) c) (user : User) (channel : Channel)
    (out : Outbound) (minted : Minted) (hch : channel ∈ c.db.channels)
    (hdm : channel.kind = .dm) :
    (((createOutbound user channel out minted).run ⟨c.db, mem', none⟩).2.db.messages ≠
        c.db.messages →
      ∃ a b, Names channel.aikoChannel a b ∧
        (∀ peer, peer = a ∨ peer = b → peer ≠ user.id → ¬BlockedBetween c.db user.id peer) ∧
        (IsMember c.db channel.id user.id → user.id = a ∨ user.id = b)) ∧
    (∀ row ∈ c.db.messages, row.channelId = channel.id → row.senderUserId = some user.id →
      ∀ clientMsgId, encode out.clientMsgId = some clientMsgId →
        row.clientMsgId = some clientMsgId →
        (createOutbound user channel out minted).run ⟨c.db, mem', none⟩ =
          (.ok (row, false), ⟨c.db, mem', none⟩)) ∧
    (canonicalPeerIds channel.aikoChannel user.id = none →
      ((createOutbound user channel out minted).run ⟨c.db, mem', none⟩).2.db.messages =
        c.db.messages) := by
  obtain ⟨hinv, _⟩ := dmInv_of_reach hdb hnew hr
  constructor
  · intro hadded
    have hgate : admitsDm c.db user channel = true :=
      admits_of_added (x := ⟨c.db, mem', none⟩) hdm hadded
    unfold admitsDm at hgate
    cases hpeers : canonicalPeerIds channel.aikoChannel user.id with
    | none =>
        rw [hpeers] at hgate
        cases hgate
    | some peers =>
        rw [hpeers] at hgate
        simp only [Bool.not_eq_true', List.any_eq_false, decide_eq_true_eq] at hgate
        obtain ⟨a, b, hnames, hmem⟩ := names_of_canonicalPeerIds hpeers
        refine ⟨a, b, hnames, fun peer hp hne hblock => ?_, ?_⟩
        · exact hgate peer ((hmem peer).mpr ⟨hp, hne⟩) (mem_blockedPairUserIds.mpr hblock)
        · rintro ⟨m, hm, hmc, hmu⟩
          rw [← hmu]
          exact hinv.pairs m hm channel hch hdm hmc.symm a b hnames
  constructor
  · intro row hrow hc _ clientMsgId ht hclient
    cases hstored : storedSend c.db channel clientMsgId with
    | none =>
        have hnone := List.find?_eq_none.mp hstored row hrow
        simp [hc, hclient] at hnone
    | some existing =>
        have hmem : existing ∈ c.db.messages := List.mem_of_find?_eq_some hstored
        have hkey := List.find?_some hstored
        simp only [Bool.and_eq_true, decide_eq_true_eq] at hkey
        obtain rfl : existing = row := by
          apply hinv.sends existing hmem row hrow (hkey.1.trans hc.symm)
          · rw [hkey.2, hclient]
          · rw [hkey.2]
            rfl
        exact (run_createOutbound (x := ⟨c.db, mem', none⟩) hdm ht).1 existing hstored
  · intro hmalformed
    by_contra hadded
    have hgate : admitsDm c.db user channel = true :=
      admits_of_added (x := ⟨c.db, mem', none⟩) hdm hadded
    rw [admitsDm, hmalformed] at hgate
    cases hgate

end

/-! ## A send after the peer has left -/

def pairRoom : Channel := dmChannel "ch1" (canonicalAikoChannel alice.id bob.id)

def leftDb : Db :=
  { users := [alice, bob], channels := [pairRoom],
    memberships := [⟨"ch1", alice.id, .member, true⟩] }

def hello : Outbound := { body := [104, 105], clientMsgId := [49] }

theorem leftDb_tables : DmTables leftDb := by
  constructor
  · decide
  · decide
  · decide
  · decide +kernel
  · intro m hm ch hch _ _ x y hnames
    obtain rfl := List.mem_singleton.mp hm
    obtain rfl := List.mem_singleton.mp hch
    have hpair := eq_of_names_canonical (a := alice.id) (b := bob.id) (by decide) (by decide) hnames
    rcases hpair with ⟨rfl, _⟩ | ⟨_, rfl⟩
    · exact Or.inl rfl
    · exact Or.inr rfl
  · intro m hm
    exact absurd hm List.not_mem_nil

theorem newIds_none (db : Db) : NewIds (fun p : Fin 0 => p.elim0) db := by
  constructor <;> exact fun p => p.elim0

/-- Without a block Alice's send is stored, and she is one of the pair. -/
theorem blocked_dm_sends_left :
    ∃ a b, Names pairRoom.aikoChannel a b ∧
      (∀ peer, peer = a ∨ peer = b → peer ≠ alice.id → ¬BlockedBetween leftDb alice.id peer) ∧
      (IsMember leftDb pairRoom.id alice.id → alice.id = a ∨ alice.id = b) := by
  have hadded : ((createOutbound alice pairRoom hello ⟨"m1", [], 0, 0⟩).run
      ⟨leftDb, ({} : Memory), none⟩).2.db.messages ≠ leftDb.messages := by decide +kernel
  have hreach : Cfg.Reach (fun _ _ => True) (startOf (fun p : Fin 0 => p.elim0) leftDb {})
      (startOf (fun p : Fin 0 => p.elim0) leftDb {}) := Cfg.Reach.start
  exact (blocked_dm_sends leftDb_tables (newIds_none leftDb) hreach alice pairRoom hello
    ⟨"m1", [], 0, 0⟩ List.mem_cons_self rfl).1 hadded

def carol : User := { id := "01CCCCCCCCCCCCCCCCCCCCCCCC", username := "c", aikoUsername := "c" }

/-- `create_outbound` stores the send of a user whom the key does not name. -/
theorem a_third_user_sends : ¬∀ (db : Db) (mem' : Memory), DmTables db →
    ∀ (user : User) (channel : Channel) (out : Outbound) (minted : Minted),
      channel ∈ db.channels → channel.kind = .dm →
      ((createOutbound user channel out minted).run ⟨db, mem', none⟩).2.db.messages ≠
        db.messages →
      ∃ peer, (Names channel.aikoChannel user.id peer ∨ Names channel.aikoChannel peer user.id) ∧
        (peer ≠ user.id → ¬BlockedBetween db user.id peer) := by
  intro h
  have hadded : ((createOutbound carol pairRoom hello ⟨"m1", [], 0, 0⟩).run
      ⟨leftDb, ({} : Memory), none⟩).2.db.messages ≠ leftDb.messages := by decide +kernel
  obtain ⟨peer, hnames, _⟩ := h leftDb {} leftDb_tables carol pairRoom hello ⟨"m1", [], 0, 0⟩
    List.mem_cons_self rfl hadded
  have hkey : pairRoom.aikoChannel = canonicalAikoChannel alice.id bob.id := rfl
  rw [hkey] at hnames
  rcases hnames with hfirst | hsecond
  · rcases eq_of_names_canonical (by decide) (by decide) hfirst with ⟨hself, _⟩ | ⟨hself, _⟩
    · exact absurd hself (by decide)
    · exact absurd hself (by decide)
  · rcases eq_of_names_canonical (by decide) (by decide) hsecond with ⟨_, hself⟩ | ⟨_, hself⟩
    · exact absurd hself (by decide)
    · exact absurd hself (by decide)

end AikoIsland.DmBlocks
