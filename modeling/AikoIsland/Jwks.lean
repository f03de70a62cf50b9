import AikoIsland.JsonText

/-!
# The JWKS cache of a provider

`get_key` first looks without the lock; on a miss or a stale set it waits for the
lock, looks again, and fetches when the floor allows it. The coroutines of one
process interleave at their awaits, on the lock and on the request, so a segment
between two awaits is one step. Clock readings are arguments that never go back.

A fetch ends with a body or with an exception; the coroutine that is cancelled in
its fetch is one of the latter. What makes a key of a JWK is a parameter. A `kid`
that is no text is stored where no lookup by text finds it, and is left out.

`events` is history that no code reads.
-/
namespace AikoIsland.Jwks
open FloatingPoint JsonText OrderedDict

/-- The constructor refuses a ceiling that is not above the floor. -/
structure Settings where
  minRefreshInterval : ℕ := 30
  maxAge : ℕ := 3600
  ceiling_above_floor : minRefreshInterval < maxAge := by decide

variable {π Key : Type}

inductive Event (Key : Type) where
  | started (now : ℕ)
  | fetched (keys : List (Text × Key)) (now : ℕ)
  | returned (kid : Text) (key : Key) (now : ℕ)

/-- Where a call of `get_key` stands. -/
inductive Coroutine (Key : Type) where
  | called (kid : Text)
  | waiting (kid : Text)
  | fetching (kid : Text)
  | returned (key : Option Key)
  | raised

structure State (π Key : Type) where
  keys : List (Text × Key) := []
  fetchedAt : Option ℕ := none
  lock : Option π := none
  tasks : π → Coroutine Key
  clock : ℕ := 0
  events : List (Event Key) := []

/-! ## The refresh -/

/-- How the request ends; `raised` is an `HTTPError`, a body that is no JSON, a cancellation. -/
inductive Reply where
  | raised
  | json (body : Json)

/-- A JWK that is no object, has no `kid` or is malformed is skipped. -/
def admitKey (fromJwk : Json → Option Key) (newKeys : List (Text × Key)) (jwk : Json) :
    List (Text × Key) :=
  match jwk with
  | .obj items =>
      match get items [107, 105, 100] with
      | some (.str kid) =>
          if kid = [] then newKeys
          else
            match fromJwk jwk with
            | some key => set newKeys kid key
            | none => newKeys
      | _ => newKeys
  | _ => newKeys

/-- The new keys of a body, `none` for a `ValueError` about its shape. -/
def newKeys (fromJwk : Json → Option Key) : Json → Option (List (Text × Key))
  | .obj items =>
      match get items [107, 101, 121, 115] with
      | some (.arr keys) => some (keys.foldl (admitKey fromJwk) [])
      | _ => none
  | _ => none

/-- The keys that a reply brings, if the refresh succeeds. -/
def Reply.keys (fromJwk : Json → Option Key) : Reply → Option (List (Text × Key))
  | .raised => none
  | .json body => newKeys fromJwk body

/-! ## `get_key` -/

namespace State

def stale (s : State π Key) (settings : Settings) (now : ℕ) : Bool :=
  match s.fetchedAt with
  | none => true
  | some t => decide (settings.maxAge ≤ now - t)

def refreshAllowed (s : State π Key) (settings : Settings) (now : ℕ) : Bool :=
  match s.fetchedAt with
  | none => true
  | some t => decide (settings.minRefreshInterval ≤ now - t)

/-- The key under `kid`, unless the set is stale. -/
def fresh (s : State π Key) (settings : Settings) (kid : Text) (now : ℕ) : Option Key :=
  if s.stale settings now then none else get s.keys kid

section
variable [DecidableEq π]

def put (s : State π Key) (p : π) (t : Coroutine Key) (now : ℕ) : State π Key :=
  { s with tasks := Function.update s.tasks p t, clock := now }

/-- The call gives this key. -/
def answer (s : State π Key) (p : π) (kid : Text) (key : Option Key) (now : ℕ) : State π Key :=
  { s.put p (.returned key) now with
    events := match key with
      | some key => .returned kid key now :: s.events
      | none => s.events }

end

end State

/-- The segments; the readings are those of the clock in their order. -/
inductive Action (π : Type) where
  | look (p : π) (now : ℕ)
  | enter (p : π) (checkedAt allowedAt startedAt : ℕ)
  | finish (p : π) (reply : Reply) (now : ℕ)
  | abandon (p : π)

section
variable [DecidableEq π] (settings : Settings) (fromJwk : Json → Option Key)

/-- Before the lock. -/
def look (s : State π Key) (p : π) (kid : Text) (now : ℕ) : State π Key :=
  match s.fresh settings kid now with
  | some key => s.answer p kid (some key) now
  | none => s.put p (.waiting kid) now

/-- With the lock, up to the request. -/
def enter (s : State π Key) (p : π) (kid : Text) (checkedAt allowedAt startedAt : ℕ) :
    State π Key :=
  match s.fresh settings kid checkedAt with
  | some key => s.answer p kid (some key) checkedAt
  | none =>
      if s.refreshAllowed settings allowedAt then
        { s.put p (.fetching kid) startedAt with
          lock := some p
          events := .started startedAt :: s.events }
      else s.answer p kid (get s.keys kid) allowedAt

/-- After the request; the lock is released either way. -/
def finish (s : State π Key) (p : π) (kid : Text) (reply : Reply) (now : ℕ) : State π Key :=
  match reply.keys fromJwk with
  | none => { s.put p .raised now with lock := none }
  | some keys =>
      let s := { s with
        keys := keys
        fetchedAt := some now
        lock := none
        events := .fetched keys now :: s.events }
      s.answer p kid (get keys kid) now

/-- `none` where the segment cannot run, or the clock would go back. -/
def step (s : State π Key) : Action π → Option (State π Key)
  | .look p now =>
      match s.tasks p with
      | .called kid => if s.clock ≤ now then some (look settings s p kid now) else none
      | _ => none
  | .enter p checkedAt allowedAt startedAt =>
      match s.tasks p with
      | .waiting kid =>
          if s.lock.isNone && s.clock ≤ checkedAt && checkedAt ≤ allowedAt &&
              allowedAt ≤ startedAt then
            some (enter settings s p kid checkedAt allowedAt startedAt)
          else none
      | _ => none
  | .finish p reply now =>
      match s.tasks p with
      | .fetching kid =>
          if s.lock = some p && s.clock ≤ now then some (finish fromJwk s p kid reply now)
          else none
      | _ => none
  | .abandon p =>
      match s.tasks p with
      | .waiting _ => some (s.put p .raised s.clock)
      | _ => none

/-- The states that the segments lead to, in any order. -/
def run (s : State π Key) : List (Action π) → Option (State π Key)
  | [] => some s
  | a :: rest => (step settings fromJwk s a).bind fun s => run s rest

end

end AikoIsland.Jwks
