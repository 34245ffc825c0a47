import Plebiscite.Guard
import Plebiscite.Signal
import Plebiscite.Value.Coercion

/-!
# Resolving thresholds

A threshold in parts per million becomes one in signal once the turnout of a vote is known: each
bound is that share of the turnout, rounded up.

## Main definitions

- `Threshold.validateSignal`, `Threshold.validatePercent`, `Rule.validate`: checks on the bounds
- `Threshold.readSignal`, `Threshold.readPercent`, `Rule.read`: the thresholds that values are
- `permillOfCeil`: a share of the turnout, rounded up
- `Threshold.resolve`: the bounds in signal
- `Threshold.isWithin`: whether all bounds can be reached
-/

namespace Plebiscite

namespace Threshold

/-- Refuses bounds that are not amounts of signal. -/
def validateSignal (t : Threshold Value) : Except Fault Unit :=
  t.bounds.forM Signal.validate

/-- Refuses a bound that is not in parts per million. -/
def validatePermill (v : Value) : Except Fault Unit :=
  if Guard.isPermill v then .ok () else .error (.percent v.display)

/-- Refuses bounds that are not in parts per million. -/
def validatePercent (t : Threshold Value) : Except Fault Unit :=
  t.bounds.forM validatePermill

/-- The threshold in signal that a value describes. -/
def readSignal (v : Value) : Except Fault (Threshold Int) := do
  let t := ofValue v
  t.validateSignal
  return t.map Value.whole

/-- The threshold in parts per million that a value describes. -/
def readPercent (v : Value) : Except Fault (Threshold Number) := do
  let t := ofValue v
  t.validatePercent
  return t.map Value.toNumber

end Threshold

/-- Whether a value is the word for bounds in signal; bounds under any other word are parts per
million. -/
def Rule.isSignalUnit : Value → Bool
  | .text s => s == "signal"
  | _ => false

/-- The rule that a value describes. -/
def Rule.read (v : Value) : Except Fault Rule :=
  if isSignalUnit (v.get "kind") then .signal <$> Threshold.readSignal (v.get "threshold")
  else .percent <$> Threshold.readPercent (v.get "threshold")

/-- Refuses a rule whose bounds are not of its unit. -/
def Rule.validate : Rule → Except Fault Unit
  | .signal t => (t.map Value.integer).validateSignal
  | .percent t => (t.map Value.number).validatePercent

/-- `permill` parts per million of a turnout, rounded up. -/
def permillOfCeil (permill turnout : Int) : Int :=
  (permill * turnout + (Guard.permillMax : Int) - 1).tdiv Guard.permillMax

namespace Threshold

/-- The bounds in signal, for a turnout. -/
def resolve (t : Threshold Number) (turnout : Int) : Threshold Int :=
  t.bare.map fun permill => permillOfCeil permill.toInt turnout

/-- Whether the turnout can reach every bound. -/
def isWithin (t : Threshold Int) (turnout : Int) : Bool :=
  t.bounds.all (· ≤ turnout)

end Threshold

end Plebiscite
