import AikoIsland.Tables
import AikoIsland.RateLimit
import AikoIsland.Footprint

/-!
# The gateway process: hub, echo store and request bodies

One worker process holds the connection registry of the hub and the echo store
in memory. A request body is a `Request` over the tables and this memory: each
`await` on the database is a statement, and the code between two awaits is one
atomic segment.

The hub keeps the registered connections with their subscription sets. `fanout`
takes its snapshot of targets in one segment and hands the frame to each; the
connections whose send raised are unregistered when the gather returns.
`disconnect_user` also works on a snapshot, one close after the other. `windows`
is the state of the rate limiter.

`admitted` (the sockets that passed the gate and have not ended), `severed` (the
users whose connections were listed for closing), `calls`, `echoes` and the
`readable` mark of a delivery are history that no code reads. `closed` is what a later receive on
that socket finds. Frame payloads beyond the row they carry are left out.
-/
namespace AikoIsland.Gateway
open Tables WriterLock RelyGuarantee Footprint

/-- Every exception that leaves a modelled function; `messageIntegrityError` is the
`IntegrityError` of a message row. -/
inductive Exn where
  | integrityError
  | messageIntegrityError
  | staleDataError
  | unicodeEncodeError
  | valueError (detail : String)
  | invalidSession
  | sessionBanned
  | http (status : ℕ) (detail : String)
  | channelNotFound (channelId : String)
  | notChannelAdmin (channelId : String)
  | notAMember (userId : String)
  | lastAdmin (channelId : String)
  | dmMembershipImmutable (channelId : String)
  | cannotDeleteSoleAdmin (channelIds : List String)
  | noRecoveryPolicy (detail : String)
  | quorumRejected (detail : String)
  | recoveryAlreadyPending (detail : String)
  | invalidJsonStructure
  | invalidRegistrationResponse
  | blockedDmSend
  | reservedDmChannel (aikoChannel : PyStr)
  | reportNotFound
  | reportAlreadyResolved
  | messageNotFound
  | retractionOrderingError (detail : String)
  | cannotBanSelf
  | cannotBanModerator
  | userNotFound
  | invalidReadPosition (channelId : PyStr) (why : String)
  | peerGone
  | targetNotFound (targetUserId : String)
  | dmKeyCollision (aikoChannel : String)
  | missingGreenlet
  | invalidRequest
  | cannotBlockSelf
  | unknownReportReason (reason : PyStr)
  | communityNotFound (communityId : String)
  | noResultFound
  | typeError (detail : String)
  | accountGone
  | handleTaken
  | handleChangeCooldown (retryAfter : ℤ)
  | invalidEmoji (detail : String)
  | reactionLimitExceeded
  | invalidAuthenticationResponse
  | credentialAlreadyRegistered
  | handleAllocationExhausted
  | raised (type : String)
  deriving DecidableEq, Repr

/-- Names for the statements that a condition on runs speaks about. -/
inductive Label where
  | plain
  | sessionWrite (userId : String) (generation : ℕ)
  | unguardedDelete (channelId userId : String)
  | membershipSweep (userId : String)
  | channelInsert (channelId aikoChannel : String)
  | messageInsert (rowId channelId clientMsgId : String)
  | readPosition (userId channelId lastRead : String) (bounded : Option String)
  | reportUpdate (reportId : String)
  | retractionInsert (targetMsgId : String)
  | ackSend (created raises : Bool)
  | membershipCommit
  | subscribeAdd (conn : ℕ) (userId : String) (channelIds : List String)
  | disconnect (userId : String)
  | communityInsert (communityId userId : String)
  | reportInsert (messageId reporterUserId : String)
  | deviceWrite (rowId : String) (now : Time)
  | keyRevoke (userId pubkey : String)
  deriving DecidableEq, Repr

/-- A frame for connections, by the row it carries. -/
inductive Frame where
  | message (msg : Message)
  | retraction (r : Retraction)
  | reaction (r : MessageReaction) (added : Bool)
  deriving DecidableEq, Repr

structure Connection where
  id : ℕ
  userId : String
  subscribed : List String := []
  deriving DecidableEq, Repr

/-- One connection that a fanout sends to; `readable` is the ACL's answer at that moment. -/
structure Delivery where
  conn : ℕ
  userId : String
  readable : Bool
  deriving DecidableEq, Repr

/-- A frame that answers one connection. -/
inductive Reply where
  | ack (clientMsgId : PyStr) (msgId : String) (createdAt : ℤ)
  | suback (fences : List (String × String))
  | error (code detail : String) (refClientMsgId : PyStr)
  deriving DecidableEq, Repr

/-- The outward calls of the process and the sends it took in, in order. -/
inductive Call where
  | fanout (channelId : String) (frame : Frame) (targets : List Delivery)
  | busSend (msgId username aikoChannel : String) (body : PyStr)
  | reply (conn : ℕ) (reply : Reply)
  | sendFrame (conn : ℕ) (userId : String)
  | push (rowId token channelId kind : String) (callId : PyStr)
  deriving DecidableEq, Repr

structure EchoKey where
  aikoChannel : PyStr
  aikoUsername : PyStr
  body : PyStr
  deriving DecidableEq, Repr

/-- One outstanding publish whose echo is still to be dropped. -/
structure EchoMark where
  key : EchoKey
  expiresAt : Time
  deriving DecidableEq, Repr

/-- A publish with what `bus.send` returned after its mark, or an echo check with its answer. -/
inductive EchoEvent where
  | published (now : Time) (key : EchoKey) (sent : Bool)
  | checked (now : Time) (aikoChannel : PyStr) (aikoUsername : Option PyStr) (body : PyStr)
      (dropped : Bool)
  deriving DecidableEq, Repr

structure Memory where
  conns : List Connection := []
  seen : List EchoMark := []
  echoes : List EchoEvent := []
  admitted : List (ℕ × String) := []
  severed : List String := []
  closed : List ℕ := []
  calls : List Call := []
  windows : RateLimit.Windows := []

abbrev Body := Request Db Memory Label Exn

/-! ## The echo store -/

/-- `_TTL_SECONDS`, in microseconds. -/
def ttl : Time := 30000000

def evict (now : Time) (seen : List EchoMark) : List EchoMark :=
  seen.filter fun m => now < m.expiresAt

def markSent (now : Time) (key : EchoKey) (seen : List EchoMark) : List EchoMark :=
  evict now seen ++ [⟨key, now + ttl⟩]

/-- The oldest pending mark of the key is consumed; without a username nothing is. -/
def isOwnEcho (now : Time) (aikoChannel : PyStr) (aikoUsername : Option PyStr) (body : PyStr)
    (seen : List EchoMark) : Bool × List EchoMark :=
  match aikoUsername with
  | none => (false, seen)
  | some name =>
      let live := evict now seen
      let key : EchoKey := ⟨aikoChannel, name, body⟩
      (live.any fun m => m.key = key, live.eraseP fun m => m.key = key)

/-! ## The hub -/

namespace Memory

def register (m : Memory) (c : Connection) : Memory :=
  { m with conns := m.conns ++ [c] }

def unregister (m : Memory) (conn : ℕ) : Memory :=
  { m with conns := m.conns.filter fun c => c.id ≠ conn }

/-- `conn.subscribed |= set(ids)`. -/
def subscribe (m : Memory) (conn : ℕ) (ids : List String) : Memory :=
  { m with conns := m.conns.map fun c =>
      if c.id = conn then { c with subscribed := c.subscribed ∪ ids } else c }

def fanoutTargets (m : Memory) (channelId : String) (excludeUserIds : List String) :
    List Connection :=
  m.conns.filter fun c => channelId ∈ c.subscribed && c.userId ∉ excludeUserIds

def log (m : Memory) (c : Call) : Memory := { m with calls := m.calls ++ [c] }

/-- The snapshot of a fanout: every target is handed the frame. -/
def fanout (db : Db) (m : Memory) (channelId : String) (frame : Frame)
    (excludeUserIds : List String) : Memory :=
  m.log (.fanout channelId frame ((m.fanoutTargets channelId excludeUserIds).map fun c =>
    ⟨c.id, c.userId, (db.readableChannel c.userId channelId).isSome⟩))

/-- Dropping connections one by one leaves those that are not listed. -/
theorem foldl_unregister (conns : List ℕ) (m : Memory) :
    conns.foldl Memory.unregister m =
      { m with conns := m.conns.filter fun c => c.id ∉ conns } := by
  induction conns generalizing m with
  | nil => simp
  | cons conn conns ih =>
      rw [List.foldl_cons, ih]
      simp [unregister, List.filter_filter, Bool.and_comm]

@[simp] theorem register_calls (m : Memory) (c : Connection) :
    (m.register c).calls = m.calls := rfl
@[simp] theorem unregister_calls (m : Memory) (conn : ℕ) :
    (m.unregister conn).calls = m.calls := rfl
@[simp] theorem subscribe_calls (m : Memory) (conn : ℕ) (ids : List String) :
    (m.subscribe conn ids).calls = m.calls := rfl
@[simp] theorem fanout_conns (db : Db) (m : Memory) (c : String) (f : Frame) (e : List String) :
    (m.fanout db c f e).conns = m.conns := rfl
@[simp] theorem log_conns (m : Memory) (c : Call) : (m.log c).conns = m.conns := rfl
@[simp] theorem log_calls (m : Memory) (c : Call) : (m.log c).calls = m.calls ++ [c] := rfl

end Memory

/-! ## Statements -/

def select {α : Type} (q : Db → α) : Body α := Request.query q

def execute {α : Type} (f : Db → Db) (q : Db → α) (t : Label) : Body α := Request.exec t f q

/-- A flush that a constraint may refuse, outside any savepoint. -/
def flush (f : Db → Option Db) (t : Label) : Body Bool := Request.attempt false t f

/-- The same inside `session.begin_nested()`. -/
def flushNested (f : Db → Option Db) (t : Label) : Body Bool := Request.attempt true t f

def commitAs (t : Label) : Body Unit := Request.commitNow t

def commit : Body Unit := commitAs .plain

def rollback : Body Unit := Request.rollbackNow

def throwExn {α : Type} (e : Exn) : Body α := .raise e

/-- A flush whose failure leaves the function: the session has rolled back by then. -/
def flushOr (e : Exn) (f : Db → Option Db) (t : Label) : Body Unit := do
  if ← flush f t then
    return ()
  else
    rollback
    throwExn e

def flushOrRaise (f : Db → Option Db) (t : Label) : Body Unit := flushOr .integrityError f t

/-- One atomic segment on the memory; its result may look at the memory it found. -/
def segment {α : Type} (g : Db → Memory → Memory) (q : Memory → α) (t : Label) : Body α :=
  Request.atomically t g fun _ m => q m

section
variable {W : Label → (Db → Option Db) → Prop} {A : Label → (Db → Memory → Memory) → Prop}

theorem uses_flushOr {e : Exn} {f : Db → Option Db} {t : Label} (h : W t f) :
    Uses W A (flushOr e f t) := by
  refine Uses.bind (Uses.attempt h) fun ok => ?_
  cases ok <;> exact trivial

theorem uses_flushOrRaise {f : Db → Option Db} {t : Label} (h : W t f) :
    Uses W A (flushOrRaise f t) :=
  uses_flushOr h

variable {π α : Type} {S : Spec π Db Memory Label} {p : π} {x : Point Db Memory}

/-- A flush that may raise: the rest runs on the flushed copy, the exception after a rollback. -/
theorem safe_flushOr {e : Exn} {f : Db → Option Db} {t : Label} {k : Unit → Body α}
    {Q : α → Point Db Memory → Prop} {E : Exn → Point Db Memory → Prop}
    (hok : ∀ y s, S.Env p x y → S.meets t y → f y.view = some s →
      Safe S p (k ()) Q E { y with work := some s })
    (hfail : ∀ y z, S.Env p x y → S.meets t y → f y.view = none → S.Env p y.rolledBack z →
      E e z) :
    Safe S p (flushOr e f t >>= k) Q E x := by
  intro y hy hm
  refine ⟨fun s hs => ⟨fun hn => absurd hn (by decide), hok y s hy hm hs⟩, fun hn => ?_⟩
  intro z hz v hv
  exact hfail y v hy hm hn (hz.rolledBack.trans hv)

theorem safe_flushOrRaise {f : Db → Option Db} {t : Label} {k : Unit → Body α}
    {Q : α → Point Db Memory → Prop} {E : Exn → Point Db Memory → Prop}
    (hok : ∀ y s, S.Env p x y → S.meets t y → f y.view = some s →
      Safe S p (k ()) Q E { y with work := some s })
    (hfail : ∀ y z, S.Env p x y → S.meets t y → f y.view = none → S.Env p y.rolledBack z →
      E .integrityError z) :
    Safe S p (flushOrRaise f t >>= k) Q E x :=
  safe_flushOr hok hfail

end

/-! ## Sending -/

/-- `conn.send(frame)`; it raises when the peer is gone. -/
def connSend (conn : ℕ) (reply : Reply) (raises : Bool) (t : Label) : Body Unit := do
  segment (fun _ m => if raises then m else m.log (.reply conn reply)) (fun _ => ()) t
  if raises then throwExn .peerGone else return ()

section
variable {π α : Type} {S : Spec π Db Memory Label} {p : π} {x : Point Db Memory}

/-- A send to one connection: the frame goes out and the rest follows, or it raises. -/
theorem safe_connSend {conn : ℕ} {reply : Reply} {raises : Bool} {t : Label} {k : Unit → Body α}
    {Q : α → Point Db Memory → Prop} {E : Exn → Point Db Memory → Prop}
    (hsend : ∀ y, S.Env p x y → S.meets t y → raises = false →
      S.Allows p y (y.acted fun _ m => m.log (.reply conn reply)) ∧
        Safe S p (k ()) Q E (y.acted fun _ m => m.log (.reply conn reply)))
    (hraise : ∀ y z, S.Env p x y → S.meets t y → raises = true → S.Env p y z → E .peerGone z) :
    Safe S p (connSend conn reply raises t >>= k) Q E x := by
  intro y hy hm
  cases raises with
  | false => exact hsend y hy hm rfl
  | true =>
      have hsame : S.Allows p y y := ⟨hy.inv, fun q _ => S.rely_refl q _ _⟩
      exact ⟨hsame, fun z hz => hraise y z hy hm rfl hz⟩

end

/-- `hub.fanout`: the snapshot with its sends, then the connections in `dead` are dropped. -/
def fanout (channelId : String) (frame : Frame) (excludeUserIds : List String)
    (dead : List ℕ) : Body Unit := do
  let targets ← segment (fun db m => m.fanout db channelId frame excludeUserIds)
    (fun m => (m.fanoutTargets channelId excludeUserIds).map (·.id)) .plain
  if targets = [] then
    return ()
  else
    segment (fun _ m => (targets.filter fun c => c ∈ dead).foldl Memory.unregister m)
      (fun _ => ()) .plain

/-- The rest of `disconnect_user` for the targets of its snapshot. -/
def closeAll : List ℕ → Body Unit
  | [] => return ()
  | conn :: targets => do
      segment (fun _ m => { m with closed := conn :: m.closed }) (fun _ => ()) .plain
      segment (fun _ m => m.unregister conn) (fun _ => ()) .plain
      closeAll targets

/-- `hub.disconnect_user`; a close that raises is swallowed. -/
def disconnectUser (userId : String) : Body Unit := do
  let targets ← segment (fun _ m => { m with severed := userId :: m.severed })
    (fun m => (m.conns.filter fun c => c.userId = userId).map (·.id)) (.disconnect userId)
  closeAll targets

/-! ## What these programs do to the memory -/

section
variable {W : Label → (Db → Option Db) → Prop} {A : Label → (Db → Memory → Memory) → Prop}

theorem uses_connSend {conn : ℕ} {reply : Reply} {raises : Bool} {t : Label}
    (h : A t fun _ m => if raises then m else m.log (.reply conn reply)) :
    Uses W A (connSend conn reply raises t) := by
  unfold connSend
  refine Uses.bind (Uses.atomically h) fun _ => ?_
  split_ifs <;> exact trivial

theorem uses_fanout {channelId : String} {frame : Frame} {exclude : List String} {dead : List ℕ}
    (hsend : A .plain fun db m => m.fanout db channelId frame exclude)
    (hdrop : ∀ conns : List ℕ, A .plain fun _ m => conns.foldl Memory.unregister m) :
    Uses W A (fanout channelId frame exclude dead) := by
  unfold fanout
  refine Uses.bind (Uses.atomically hsend) fun targets => ?_
  split_ifs
  · exact trivial
  · exact Uses.atomically (hdrop _)

theorem uses_closeAll (hclose : ∀ conn, A .plain fun _ m => { m with closed := conn :: m.closed })
    (hdrop : ∀ conn, A .plain fun _ m => m.unregister conn) (targets : List ℕ) :
    Uses W A (closeAll targets) := by
  induction targets with
  | nil => exact trivial
  | cons conn targets ih =>
      exact Uses.bind (Uses.atomically (hclose conn)) fun _ =>
        Uses.bind (Uses.atomically (hdrop conn)) fun _ => ih

end

end AikoIsland.Gateway
