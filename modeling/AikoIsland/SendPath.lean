import AikoIsland.Realtime

/-!
# The transaction of a send

What `_handle_send` does before its ack, for any specification. `V` is what the
sender knows while its row is not committed, `R` what its working copy may
differ by before the row is inserted, and `P` what the commit establishes. A
send that ends without a new row, by an error frame, a resend or an exception,
still knows `V`; one that reports a new row has committed it.

Key rows go through a savepoint, so they may become visible before the row
does. Nothing here speaks about the ack or the steps after it.
-/
namespace AikoIsland.SendPath
open Tables Gateway WriterLock RelyGuarantee Footprint SigningKeys Messages Memberships Realtime

/-- The row of a send: minted id, the channel, and the session's user as its author. -/
structure Outgoing (user : User) (channel : Channel) (msgId : String) (row : Message) : Prop where
  id : row.id = msgId
  channel : row.channelId = channel.id
  sender : row.senderUserId = some user.id

/-- The segments inside the session of a send. -/
inductive ErrorReply (conn : ℕ) : Label → (Db → Memory → Memory) → Prop
  | mk (code detail : String) (clientMsgId : PyStr) (raises : Bool) :
      ErrorReply conn .plain fun _ m =>
        if raises then m else m.log (.reply conn (.error code detail clientMsgId))

/-- A specification under which the transaction of one send can be followed. -/
structure Transaction (S : Spec ℕ Db Memory Label) (p conn : ℕ) (user : User) (msgId : String)
    (V : Db → Memory → Prop) (R : Db → Db → Prop) (P : Message → Db → Memory → Prop) :
    Prop where
  before : Respects S p V R (OriginWrite user) (ErrorReply conn)
  commit : ∀ db mem k s row channel, S.inv db mem → V db mem → R db k →
    Outgoing user channel msgId row → k.insertMessage row = some s →
    S.Allows p ⟨db, mem, none⟩ ⟨s, mem, none⟩ ∧ P row s mem
  after : ∀ {row x y}, S.Env p x y → P row x.db x.mem → P row y.db y.mem

section
variable {S : Spec ℕ Db Memory Label} {p conn : ℕ} {user : User} {channel : Channel}
  {msgId : String} {V : Db → Memory → Prop} {R : Db → Db → Prop}
  {P : Message → Db → Memory → Prop} {x y : Point Db Memory}

/-- The row is not committed, and the working copy differs by no more than `R`. -/
def Unsent (V : Db → Memory → Prop) (R : Db → Db → Prop) (y : Point Db Memory) : Prop :=
  V y.db y.mem ∧ R y.db y.view

theorem Unsent.env (h : Transaction S p conn user msgId V R P) (hx : Unsent V R x)
    (he : S.Env p x y) : Unsent V R y :=
  ⟨h.before.stable he hx.1, env_view h.before.refl he hx.2⟩

theorem Unsent.free (h : Transaction S p conn user msgId V R P) (hv : V x.db x.mem)
    (hx : x.work = none) : Unsent V R x := by
  refine ⟨hv, ?_⟩
  rw [Point.view_of_none hx]
  exact h.before.refl x.db

/-- A request with the footprint of the first steps leaves the row unsent. -/
theorem Unsent.safe {α : Type} (h : Transaction S p conn user msgId V R P) (hx : Unsent V R x)
    {r : Body α} (hr : Uses (OriginWrite user) (ErrorReply conn) r) :
    Safe S p r (fun _ y => Unsent V R y) (fun _ y => Unsent V R y) x :=
  h.before.safe hr hx.1 hx.2

/-- A text from outside raises, or the rest goes on with its UTF-8 form. -/
theorem Unsent.bindText {α : Type} (h : Transaction S p conn user msgId V R P)
    (hx : Unsent V R x) (s : PyStr) {k : String → Body α} {Q : α → Point Db Memory → Prop}
    (hk : ∀ t, Safe S p (k t) Q (fun _ y => Unsent V R y) x) :
    Safe S p (Messages.bindText s >>= k) Q (fun _ y => Unsent V R y) x := by
  unfold Messages.bindText
  cases encode s with
  | none => exact Safe.raise fun y hy => hx.env h hy
  | some t => exact hk t

/-! ## Creating the row -/

/-- Where `create_outbound` returns: a new row is committed, and without one nothing is. -/
def Created (V : Db → Memory → Prop) (P : Message → Db → Memory → Prop) (user : User)
    (channel : Channel) (msgId : String) (r : Message × Bool) (y : Point Db Memory) : Prop :=
  y.work = none ∧
    if r.2 then Outgoing user channel msgId r.1 ∧ P r.1 y.db y.mem else V y.db y.mem

/-- The INSERT with its commit: the row is published, or the flush is refused. -/
theorem safe_insertOutbound (h : Transaction S p conn user msgId V R P) (row : Message)
    (hrow : Outgoing user channel msgId row) (hx : Unsent V R x) {e : Exn} {t : Label} :
    Safe S p (do
        flushOr e (fun db => db.insertMessage row) t
        commit
        return (row, true))
      (Created V P user channel msgId) (fun _ y => Unsent V R y) x := by
  refine safe_flushOr (fun y s hy _ hs => ?_) fun y z hy _ _ hz => ?_
  · have hview : R y.db y.view := (hx.env h hy).2
    refine Safe.commit fun z hz _ => ?_
    have hzs : z.view = s := hz.view_eq rfl
    have hzd : z.db = y.db := hz.db_eq rfl
    have hvz : V z.db z.mem := h.before.stable hz (hx.env h hy).1
    rw [← hzd] at hview
    obtain ⟨hallow, hp⟩ := h.commit z.db z.mem y.view s row channel hz.inv hvz hview hrow hs
    rw [← hzs] at hallow hp
    constructor
    · intro w _
      exact ⟨hallow.inv, hallow.others⟩
    · exact Safe.pure fun v hv => ⟨hv.free rfl, hrow, h.after hv hp⟩
  · have hv : V y.rolledBack.db y.rolledBack.mem := (hx.env h hy).1
    exact (Unsent.free h hv rfl).env h hz

theorem safe_createOutbound (out : Outbound) {minted : Minted}
    (h : Transaction S p conn user minted.msgId V R P) (hv : V x.db x.mem)
    (hx : x.work = none) :
    Safe S p (createOutbound user channel out minted) (Created V P user channel minted.msgId)
      (fun _ y => Unsent V R y) x := by
  refine (Unsent.free h hv hx).bindText h out.clientMsgId fun clientMsgId => ?_
  refine Safe.query fun y hy => ?_
  have hvy : V y.db y.mem := h.before.stable hy hv
  have hyw : y.work = none := hy.free hx
  cases y.view.messages.find? fun m =>
      m.channelId = channel.id && m.clientMsgId = some clientMsgId with
  | some existing => exact Safe.pure fun z hz => ⟨hz.free hyw, h.before.stable hz hvy⟩
  | none =>
      have hy0 : Unsent V R y := Unsent.free h hvy hyw
      refine Safe.andThen (hy0.safe h (uses_refuseBlockedDm user channel)) hy.inv ?_
      intro _ z hz hz0
      refine Safe.andThen (hz0.safe h (uses_recordOrigin user out minted)) hz ?_
      intro _ u _ hu0
      refine hu0.bindText h out.body fun body => ?_
      exact safe_insertOutbound h _ ⟨rfl, rfl, rfl⟩ hu0

/-! ## The session of a send -/

/-- The user could read the channel at some moment of the run. -/
def WasReadable (S : Spec ℕ Db Memory Label) (user : User) (channel : Channel) : Prop :=
  ∃ db mem, S.inv db mem ∧ db.readableChannel user.id channel.id = some channel

/-- Where the session ends: with an error frame, or with what the later steps need. -/
def Outcome (S : Spec ℕ Db Memory Label) (V : Db → Memory → Prop)
    (P : Message → Db → Memory → Prop) (user : User) (msgId : String) (r : Option Persisted)
    (y : Point Db Memory) : Prop :=
  match r with
  | none => V y.db y.mem
  | some r =>
      (WasReadable S user r.channel ∧
          ∃ db mem, S.inv db mem ∧ r.exclude = db.blockedPairUserIds user.id) ∧
        if r.created then Outgoing user r.channel msgId r.row ∧ P r.row y.db y.mem
        else V y.db y.mem

theorem Created.outcome {r : Message × Bool} (h : Transaction S p conn user msgId V R P)
    (hx : Created V P user channel msgId r x) (he : S.Env p x y) {exclude : List String}
    (hch : WasReadable S user channel)
    (hexclude : ∃ db mem, S.inv db mem ∧ exclude = db.blockedPairUserIds user.id) :
    Outcome S V P user msgId (some ⟨r.1, r.2, channel, exclude⟩) y := by
  refine ⟨⟨hch, hexclude⟩, ?_⟩
  have hr := hx.2
  cases hc : r.2 with
  | true =>
      rw [hc] at hr
      exact ⟨hr.1, h.after he hr.2⟩
  | false =>
      rw [hc] at hr
      exact h.before.stable he hr

theorem Outcome.env {r : Option Persisted} (h : Transaction S p conn user msgId V R P)
    (hx : Outcome S V P user msgId r x) (he : S.Env p x y) : Outcome S V P user msgId r y := by
  cases r with
  | none => exact h.before.stable he hx
  | some r =>
      obtain ⟨hread, hr⟩ := hx
      refine ⟨hread, ?_⟩
      cases hc : r.created with
      | true =>
          simp only [hc, if_true] at hr ⊢
          exact ⟨hr.1, h.after he hr.2⟩
      | false =>
          simp only [hc, Bool.false_eq_true, if_false] at hr ⊢
          exact h.before.stable he hr

theorem safe_refuse (f : SendFrame) (code detail : String)
    (h : Transaction S p conn user f.minted.msgId V R P) (hi : S.inv x.db x.mem)
    (hx : Unsent V R x) :
    Safe S p (refuse conn f code detail) (Outcome S V P user f.minted.msgId)
      (fun _ y => Unsent V R y) x := by
  have huses : Uses (OriginWrite user) (ErrorReply conn)
      (connSend conn (.error code detail f.clientMsgId) f.peerGone .plain) :=
    uses_connSend (.mk code detail f.clientMsgId f.peerGone)
  refine Safe.andThen (hx.safe h huses) hi ?_
  intro _ y _ hy
  exact Safe.pure fun z hz => h.before.stable hz hy.1

/-- A blocked DM send becomes an error frame; no row was written by then. -/
theorem safe_persistSend (f : SendFrame) (replyTo : Option String) (origin : Option Origin)
    (spans : Option (List MentionSpan)) (h : Transaction S p conn user f.minted.msgId V R P)
    (hch : WasReadable S user channel) (hi : S.inv x.db x.mem) (hv : V x.db x.mem)
    (hx : x.work = none) :
    Safe S p (persistSend conn user channel f replyTo origin spans)
      (Outcome S V P user f.minted.msgId) (fun _ y => Unsent V R y) x := by
  have hcreate : Safe S p
      (createOrRefuse user channel ⟨f.body, f.clientMsgId, replyTo, origin, spans⟩ f.minted)
      (fun r y => match r with
        | none => Unsent V R y
        | some r => Created V P user channel f.minted.msgId r y)
      (fun _ y => Unsent V R y) x := by
    refine Safe.handle (Safe.andThen ((safe_createOutbound _ h hv hx).mono (fun _ _ _ h => h)
      fun e y _ hy => ?_) hi fun r y _ hr => ?_) hi
    · cases e with
      | blockedDmSend => exact Safe.pure fun z hz => hy.env h hz
      | _ => exact Safe.raise fun z hz => hy.env h hz
    · exact Safe.pure fun z hz => ⟨hz.free hr.1, (hr.outcome h hz hch ⟨_, _, hz.inv, rfl⟩).2⟩
  refine Safe.andThen hcreate hi fun r y hiy hr => ?_
  cases r with
  | none => exact safe_refuse f _ _ h hiy hr
  | some r =>
      refine Safe.query fun z hz => ?_
      have hview : z.view = z.db := Point.view_of_none (hz.free hr.1)
      rw [hview]
      exact Safe.pure fun v hv => hr.outcome h (hz.trans hv) hch ⟨z.db, z.mem, hz.inv, rfl⟩

theorem safe_sendTransaction (f : SendFrame)
    (h : Transaction S p conn user f.minted.msgId V R P) (hv : V x.db x.mem)
    (hx : x.work = none) :
    Safe S p (sendTransaction conn user f) (Outcome S V P user f.minted.msgId)
      (fun _ y => Unsent V R y) x := by
  refine (Unsent.free h hv hx).bindText h f.channelId fun channelId => ?_
  refine Safe.query fun y hy => ?_
  have hy0 : Unsent V R y := (Unsent.free h hv hx).env h hy
  cases hread : y.view.readableChannel user.id channelId with
  | none => exact safe_refuse f _ _ h hy.inv hy0
  | some channel =>
      have hch : WasReadable S user channel := by
        refine ⟨y.db, y.mem, hy.inv, ?_⟩
        rw [Point.view_of_none (hy.free hx)] at hread
        rwa [(Db.mem_of_readableChannel hread).2.1]
      refine Safe.andThen ((uses_canPost user.id channel).readOnly (hy.free hx) |>.mono
        (fun _ _ _ h => h) fun _ _ _ he => hy0.env h he) hy.inv fun ok z hzi hz => ?_
      split_ifs
      · exact safe_refuse f _ _ h hzi (hy0.env h hz)
      · refine Safe.andThen ((uses_checkReplyTarget user channel f.replyTo).readOnly
          (hz.free (hy.free hx)) |>.mono (fun _ _ _ h => h)
          fun _ _ _ he => hy0.env h (hz.trans he)) hzi fun target u hui hu => ?_
        have hyu : S.Env p y u := hz.trans hu
        have hu0 : Unsent V R u := hy0.env h hyu
        match target with
        | (some (code, detail), _) => exact safe_refuse f code detail h hui hu0
        | (none, replyTo) =>
            dsimp only
            split
            · exact safe_refuse f _ _ h hui hu0
            · exact safe_refuse f _ _ h hui hu0
            · exact safe_persistSend f replyTo _ _ h hch hui hu0.1 (hyu.free (hy.free hx))

/-- The session leaves no lock; a send that fails in it has committed no row. -/
theorem safe_sendSession (f : SendFrame)
    (h : Transaction S p conn user f.minted.msgId V R P) (hi : S.inv x.db x.mem)
    (hv : V x.db x.mem) (hx : x.work = none) :
    Safe S p (sendTransaction conn user f).session
      (fun r y => y.work = none ∧ Outcome S V P user f.minted.msgId r y)
      (fun _ y => V y.db y.mem) x := by
  refine Safe.session ((safe_sendTransaction f h hv hx).mono ?_ ?_) hi
  · intro r y _ hr z hz
    have hrolled : Outcome S V P user f.minted.msgId r y.rolledBack := hr
    exact ⟨hz.free rfl, hrolled.env h hz⟩
  · intro e y _ hy z hz
    have hrolled : V y.rolledBack.db y.rolledBack.mem := hy.1
    exact h.before.stable hz hrolled

end

end AikoIsland.SendPath
