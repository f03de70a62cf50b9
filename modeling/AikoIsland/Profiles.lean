import AikoIsland.FloatingPoint
import AikoIsland.Messages

/-!
# Changing a handle

`update_profile` is one `UPDATE ... RETURNING` on the caller's row, decided by the
row as it is and not by what the caller loaded. A different handle is a change when
the row has no stamp or the stamp is a cooldown old. A change rewrites both names
and stamps the row, except off an assigned handle; anything else leaves the handle
columns as they are. The display name comes along with a change and with the handle
the row has already.

Both names are UNIQUE. The row keeps its own index entries, so only a name that it
did not have before can clash. The refusal reports the seconds that are left, from
a second reading of the clock, in floating point.
-/
namespace AikoIsland.Profiles
open Tables Gateway Messages WriterLock FloatingPoint

/-- Microseconds in a second. -/
def microseconds : ℤ := 1000000

/-- The first and the last instant of a `datetime`. -/
def minInstant : ℤ := -62135596800 * microseconds
def maxInstant : ℤ := 253402300800 * microseconds - 1

def isWord (c : ℕ) : Bool :=
  (48 ≤ c && c ≤ 57) || (65 ≤ c && c ≤ 90) || (97 ≤ c && c ≤ 122) || c = 95

/-- `_sanitize_aiko_username`. -/
def sanitizeAikoUsername (username : PyStr) : String :=
  String.ofList (username.map fun c => if isWord c then Char.ofNat c else '_')

/-- One UPDATE: what it writes into the row it finds. -/
structure HandleUpdate where
  handle : String
  aikoUsername : String
  displayName : Option String
  cutoff : ℤ
  now : Time
  deriving DecidableEq, Repr

namespace HandleUpdate

def same (v : HandleUpdate) (u : User) : Bool := u.username = v.handle

/-- A real change that the cooldown allows. -/
def change (v : HandleUpdate) (u : User) : Bool :=
  !v.same u && match u.handleChangedAt with
    | none => true
    | some t => decide ((t : ℤ) ≤ v.cutoff)

def apply (v : HandleUpdate) (u : User) : User :=
  { u with
    username := if v.change u then v.handle else u.username
    aikoUsername := if v.change u then v.aikoUsername else u.aikoUsername
    handleChangedAt := if v.change u && !u.handleAssigned then some v.now else u.handleChangedAt
    handleAssigned := if v.change u then false else u.handleAssigned
    displayName := match v.displayName with
      | some name => if v.same u || v.change u then name else u.displayName
      | none => u.displayName }

end HandleUpdate

/-- `UPDATE users SET ... WHERE id = ?` under the two UNIQUE constraints. -/
def updateUser (userId : String) (g : User → User) (db : Db) : Option Db :=
  let clash := fun u : User => db.users.any fun x => x.id ≠ userId &&
    (((g u).username ≠ u.username && x.username = (g u).username) ||
      ((g u).aikoUsername ≠ u.aikoUsername && x.aikoUsername = (g u).aikoUsername))
  if db.users.any fun u => u.id = userId && clash u then none
  else some { db with users := db.users.map fun u => if u.id = userId then g u else u }

/-- A flush with RETURNING: what `q` reads from the result, or `none` for an `IntegrityError`. -/
def returning {α : Type} (f : Db → Option Db) (q : Db → α) : Body (Option α) :=
  Request.write false .plain f (fun db => .ret ((f db).map q)) fun _ => .ret none

/-- `ceil(cooldown_seconds - elapsed)`; an infinite difference has no ceiling. -/
def secondsLeft (cooldownSeconds : ℤ) (elapsed : ℤ) : Option ℤ :=
  match nearest (elapsed / microseconds) with
  | .finite e =>
      match nearest (cooldownSeconds - e) with
      | .finite q => some ⌈q⌉
      | _ => none
  | _ => none

/-- `max(1, min(cooldown_seconds, ceil(cooldown_seconds - elapsed)))`. -/
def retryAfter (cooldownSeconds left : ℤ) : ℤ := max 1 (min cooldownSeconds left)

structure ProfileRequest where
  handle : Option PyStr := none
  displayName : Option PyStr := none
  now : Time
  refusedAt : Time := now
  deriving DecidableEq, Repr

/-- The cooldown's refusal of the row that the UPDATE returned. -/
def refuseHandle (cooldownSeconds : ℤ) (refusedAt : Time) (row : User) : Body User :=
  match row.handleChangedAt with
  | none => throwExn (.raised "AttributeError")
  | some last =>
      match secondsLeft cooldownSeconds ((refusedAt : ℤ) - last) with
      | none => throwExn (.raised "OverflowError")
      | some left => throwExn (.handleChangeCooldown (retryAfter cooldownSeconds left))

/-- The statement, its commit and the outcomes read from the returned row. -/
def writeProfile (userId : String) (g : User → User) (refused : User → Bool)
    (refuse : User → Body User) : Body User := do
  match ← returning (updateUser userId g) fun db => db.userById userId with
  | none =>
      rollback
      throwExn .handleTaken
  | some row =>
      commit
      match row with
      | none => throwExn .accountGone
      | some u => if refused u then refuse u else return u

/-- `update_profile` for the account with this id. -/
def updateProfile (userId : String) (cooldownSeconds : ℤ) (r : ProfileRequest) : Body User :=
  match r.handle with
  | none =>
      match r.displayName with
      | none => throwExn (.valueError "update_profile requires handle and/or display_name")
      | some name => do
          let name ← bindText name
          writeProfile userId (fun u => { u with displayName := name }) (fun _ => false) pure
  | some handle => do
      let cutoff : ℤ := r.now - cooldownSeconds * microseconds
      if cutoff < minInstant ∨ maxInstant < cutoff then
        throwExn (.raised "OverflowError")
      else
        let name ← bindOptional r.displayName
        let text ← bindText handle
        let v : HandleUpdate := ⟨text, sanitizeAikoUsername handle, name, cutoff, r.now⟩
        writeProfile userId v.apply (fun u => u.username ≠ text)
          (refuseHandle cooldownSeconds r.refusedAt)

end AikoIsland.Profiles
