import AikoIsland.Calls

/-!
# Device tokens: registration

`register_device` is an upsert on the token: it inserts in a savepoint, and when
the token is taken it reassigns the row that holds it and refreshes its
`updated_at`. An omitted environment, kind or install id keeps the stored one there,
and means the island's default, `alert` or none on an insert. `unregister_device`
deletes the caller's own row.

A failed insert keeps the writer lock, so the row that the SELECT then finds is
still there at the UPDATE.
-/
namespace AikoIsland.Devices
open Tables Gateway Calls WriterLock Footprint

/-- `default_apns_environment`. -/
def defaultApnsEnvironment (apnsUseSandbox : Bool) : ApnsEnvironment :=
  if apnsUseSandbox then .sandbox else .production

structure Registration where
  userId : String
  platform : String
  token : String
  apnsEnvironment : Option ApnsEnvironment := none
  tokenKind : Option TokenKind := none
  installId : Option String := none
  deriving DecidableEq, Repr

def Registration.row (r : Registration) (apnsUseSandbox : Bool) (rowId : String) (now : Time) :
    DeviceToken where
  id := rowId
  userId := r.userId
  token := r.token
  platform := r.platform
  apnsEnvironment :=
    ApnsEnvironment.value (r.apnsEnvironment.getD (defaultApnsEnvironment apnsUseSandbox))
  tokenKind := TokenKind.value (r.tokenKind.getD .alert)
  updatedAt := now
  installId := r.installId

/-- The row after the reassignment. -/
def Registration.assign (r : Registration) (now : Time) (d : DeviceToken) : DeviceToken :=
  { d with
    userId := r.userId
    platform := r.platform
    apnsEnvironment := (r.apnsEnvironment.map ApnsEnvironment.value).getD d.apnsEnvironment
    tokenKind := (r.tokenKind.map TokenKind.value).getD d.tokenKind
    installId := r.installId.orElse fun _ => d.installId
    updatedAt := now }

/-- The flush of a reassigned row; a CHECK may refuse it. -/
def reassign (r : Registration) (existing : DeviceToken) (now : Time) (db : Db) : Option Db :=
  if Db.deviceChecks (r.assign now existing) then
    some { db with devices := db.devices.map fun d =>
      if d.id = existing.id then r.assign now d else d }
  else none

/-- `register_device`; the row id and the two clock readings are arguments. -/
def registerDevice (r : Registration) (apnsUseSandbox : Bool) (rowId : String)
    (insertedAt reassignedAt : Time) : Body DeviceToken := do
  let row := r.row apnsUseSandbox rowId insertedAt
  if ← flushNested (fun db => db.insertDevice row) (.deviceWrite rowId insertedAt) then
    commit
    return row
  else
    match ← select fun db => db.devices.find? fun d => d.token = r.token with
    | none => throwExn .integrityError
    | some existing =>
        flushOrRaise (reassign r existing reassignedAt) (.deviceWrite existing.id reassignedAt)
        commit
        return r.assign reassignedAt existing

def unregisterDevice (userId token : String) : Body Bool := do
  let rowcount ← execute
    (fun db => { db with devices := db.devices.filter fun d =>
      !(d.token = token && d.userId = userId) })
    (fun db => (db.devices.filter fun d => d.token = token && d.userId = userId).length) .plain
  commit
  return decide (0 < rowcount)

end AikoIsland.Devices
