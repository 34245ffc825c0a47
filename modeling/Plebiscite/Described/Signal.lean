import Plebiscite.Fault
import Plebiscite.Signal
import Plebiscite.Threshold.Resolution
import Plebiscite.Value.Arithmetic

/-!
# Rules on described amounts

The rules of signal and of thresholds on values whose types nobody has checked.  A sum is a sum of
values, a bound is reached if it is not after the amount in the order of values, and a threshold is
described by its properties.

## Main definitions

- `Described.add`, `Described.sub`, `Described.sum`: checked arithmetic
- `Described.resolve`: the bounds in signal of a threshold in parts per million
- `Described.isWithin`: whether all bounds can be reached
-/

namespace Plebiscite.Described

/-- The sum of two amounts, refused beyond the range. -/
def add (a b : Value) : Except Fault Value :=
  let sum := a.plus b
  if (Value.integer Signal.max).before sum then .error (.signalOverflow a b) else .ok sum

/-- The difference of two amounts, refused below zero. -/
def sub (a b : Value) : Except Fault Value :=
  if a.before b then .error (.signalUnderflow a b) else .ok (a.minus b)

/-- The sum of amounts, added one after the other. -/
def sum (amounts : List Value) : Except Fault Value :=
  amounts.foldlM add (.integer 0)

/-- Parts per million of a turnout, rounded up. -/
def share (permill turnout : Value) : Value :=
  .integer (permillOfCeil permill.toWhole turnout.toWhole)

/-- The bounds in signal, for a turnout. -/
def resolve (threshold turnout : Value) : Threshold Value :=
  (Threshold.ofValue threshold).bare.map (share · turnout)

/-- Whether the turnout can reach every bound. -/
def isWithin (threshold turnout : Value) : Bool :=
  (Threshold.ofValue threshold).bounds.all (·.notAfter turnout)

end Plebiscite.Described
