/-!
# Numbers

Double-precision numbers as exact values: a finite number is a rational, beside the two infinities
and the value that is not a number.  The two zeros are one value, because nothing in the library
tells them apart.

## Main definitions

- `Number`: the values
- `Number.lt`, `Number.le`: comparison, false as soon as one side is not a number
- `Number.precedes`: the order in which identifiers are listed
- `Number.isInteger`, `Number.isSafeInteger`: the integers, and those below `2 ^ 53` in magnitude
-/

namespace Plebiscite

/-- A double-precision number, held exactly. -/
inductive Number where
  /-- The result of an operation that has none. -/
  | nan
  | infinite (negative : Bool)
  | finite (value : Rat)
deriving DecidableEq, Repr

namespace Number

/-- The number equal to an integer.  Only used for integers that a double holds exactly. -/
def ofInt (n : Int) : Number :=
  .finite n

instance (n : Nat) : OfNat Number n := ⟨ofInt n⟩

instance : Inhabited Number := ⟨0⟩

/-- The largest integer up to which all integers are doubles: `2 ^ 53 - 1`. -/
def maxSafe : Nat :=
  9007199254740991

/-! ## Comparison -/

/-- Strictly smaller.  Nothing compares with a value that is not a number. -/
def lt : Number → Number → Bool
  | .nan, _ => false
  | _, .nan => false
  | .finite a, .finite b => decide (a < b)
  | .finite _, .infinite negative => !negative
  | .infinite negative, .finite _ => negative
  | .infinite a, .infinite b => a && !b

/-- Smaller or equal. -/
def le : Number → Number → Bool
  | .nan, _ => false
  | a, b => a.lt b || decide (a = b)

/-- The listing order of identifiers: ascending, and a value that is not a number last. -/
def precedes : Number → Number → Bool
  | .nan, _ => false
  | _, .nan => true
  | a, b => a.lt b

/-! ## Integers -/

/-- Finite and whole. -/
def isInteger : Number → Bool
  | .finite q => q.den == 1
  | _ => false

/-- A whole number that, with all its smaller neighbours, a double holds exactly. -/
def isSafeInteger : Number → Bool
  | .finite q => q.den == 1 && decide (q.num.natAbs ≤ maxSafe)
  | _ => false

/-- The integer part of a finite number, toward zero. -/
def toInt : Number → Int
  | .finite q => q.num.tdiv q.den
  | _ => 0

end Number

end Plebiscite
