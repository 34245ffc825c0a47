import Plebiscite.Fault
import Plebiscite.Guard
import Plebiscite.Number.Rounding

/-!
# Block heights

Logical time is a block height: a safe integer from zero on, given by the host.

## Main definitions

- `Height.read`: a block height, if a value is one
- `Height.add`: a height and a duration
- `Clock`: a clock that the host moves forward
-/

namespace Plebiscite

namespace Height

/-- The block height that a value is.  Anything else is refused under the name `label`. -/
def read (label : String) (v : Value) : Except Fault Number :=
  match v with
  | .number n => if Guard.isBlockHeight v then .ok n else .error (.height label n.text)
  | v => .error (.height label v.display)

/-- The height that is `duration` blocks after `now`. -/
def add (now duration : Value) : Except Fault Number := do
  let a ← read "Block height" now
  let b ← read "Duration" duration
  let sum := a + b
  if sum.isSafeInteger then return sum else throw (.heightOverflow a b)

end Height

/-- A clock that the host moves forward. -/
structure Clock where
  height : Number
deriving DecidableEq, Repr, Inhabited

namespace Clock

/-- A clock that starts at a height. -/
def start (v : Value) : Except Fault Clock := do
  let height ← Height.read "Block height" v
  return ⟨height⟩

/-- Moves the clock to a height that is not earlier. -/
def advanceTo (c : Clock) (v : Value) : Except Fault Clock := do
  let height ← Height.read "Block height" v
  if height.lt c.height then throw (.clockBackwards c.height height)
  return ⟨height⟩

/-- Moves the clock by a number of blocks. -/
def advanceBy (c : Clock) (v : Value) : Except Fault Clock := do
  let blocks ← Height.read "Block count" v
  c.advanceTo (.number (c.height + blocks))

end Clock

end Plebiscite
