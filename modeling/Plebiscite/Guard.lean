import Plebiscite.Electorate
import Plebiscite.Stance
import Plebiscite.Value.Basic

/-!
# Guards

Tests on values of unknown shape: whether a value is one of the things that votes are made of.

## Main definitions

- `Guard.isStance`, `Guard.isOutcome`, `Guard.isPermill`, `Guard.isBlockHeight`: single values
- `Guard.isElectorate`, `Guard.isSignalThreshold`, `Guard.isPercentThreshold`, `Guard.isRule`:
  structured values
-/

namespace Plebiscite.Guard

/-- The parts per million in a whole. -/
def permillMax : Nat :=
  1000000

/-- A word for a stance. -/
def isStance : Value → Bool
  | .text s => (Stance.ofText? s).isSome
  | _ => false

/-- A word for an outcome. -/
def isOutcome : Value → Bool
  | .text s => (Outcome.ofText? s).isSome
  | _ => false

/-- A whole number of parts per million. -/
def isPermill : Value → Bool
  | .number n => n.isInteger && Number.le 0 n && n.le (Number.ofInt permillMax)
  | _ => false

/-- A block height: a safe integer from zero on. -/
def isBlockHeight : Value → Bool
  | .number n => n.isSafeInteger && Number.le 0 n
  | _ => false

/-- A word for a minting mode. -/
def isMintMode : Value → Bool
  | .text s => (MintMode.ofText? s).isSome
  | _ => false

/-- A text that is not empty. -/
def isIdentifier : Value → Bool
  | .text s => !s.isEmpty
  | _ => false

/-- A minting mode with the identifier of an organization. -/
def isElectorate (v : Value) : Bool :=
  v.isStructured && isMintMode (v.get "kind") && isIdentifier (v.get "orgId")

/-- A bound in favor and, if present, one against. -/
def isThreshold (isBound : Value → Bool) (v : Value) : Bool :=
  v.isStructured && isBound (v.get "inFavor") &&
    ((v.get "against").isAbsent || isBound (v.get "against"))

/-- A whole number from zero on. -/
def isNatural : Value → Bool
  | .integer n => decide (0 ≤ n)
  | _ => false

/-- A threshold in signal. -/
def isSignalThreshold : Value → Bool :=
  isThreshold isNatural

/-- A threshold in parts per million. -/
def isPercentThreshold : Value → Bool :=
  isThreshold isPermill

/-- A threshold with the word for its unit. -/
def isRule (v : Value) : Bool :=
  match v.get "kind" with
  | .text "signal" => isSignalThreshold (v.get "threshold")
  | .text "percent" => isPercentThreshold (v.get "threshold")
  | _ => false

end Plebiscite.Guard
