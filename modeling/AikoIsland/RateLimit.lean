import AikoIsland.OrderedDict
import AikoIsland.Tables

/-!
# The rate limiter

A fixed window for each bucket and key, in one dict kept in the order of last
use: the key that was hit moves to the end, and above the hard bound the oldest
are dropped. Instants are those of the monotonic clock, in microseconds.
-/
namespace AikoIsland.RateLimit
open Tables

structure Window where
  start : Time
  count : ℕ
  deriving DecidableEq, Repr

/-- `_MAX_KEYS`. -/
def maxKeys : ℕ := 100000

abbrev Windows := List ((String × String) × Window)

/-- The window that a hit counts in: the stored one, unless it has elapsed. -/
def windowAt (ws : Windows) (now : Time) (key : String × String) (window : Time) : Window :=
  let stored := (OrderedDict.get ws key).getD ⟨now, 0⟩
  if window ≤ now - stored.start then ⟨now, 0⟩ else stored

/-- `move_to_end`. -/
def moveToEnd (ws : Windows) (key : String × String) (w : Window) : Windows :=
  OrderedDict.pop ws key ++ [(key, w)]

/-- One request: whether it is allowed, and the seconds to wait if it is not. -/
def hit (ws : Windows) (now : Time) (bucket ip : String) (limit : ℤ) (window : Time) :
    (Bool × ℕ) × Windows :=
  let current := windowAt ws now (bucket, ip) window
  let counted : Window := ⟨current.start, current.count + 1⟩
  let moved := moveToEnd ws (bucket, ip) counted
  let kept := moved.drop (moved.length - maxKeys)
  if limit < counted.count then
    ((false, (window - (now - counted.start)) / 1000000 + 1), kept)
  else ((true, 0), kept)

/-- A hit is allowed exactly while the window it counts in has not used its limit up. -/
theorem hit_allowed {ws : Windows} {now window : Time} {bucket ip : String} {limit : ℤ} :
    (hit ws now bucket ip limit window).1.1 = true ↔
      (windowAt ws now (bucket, ip) window).count < limit := by
  unfold hit
  dsimp only
  split_ifs with h
  · constructor
    · intro hf
      cases hf
    · omega
  · constructor
    · omega
    · exact fun _ => rfl

end AikoIsland.RateLimit
