import Plebiscite.Fault
import Plebiscite.Value.Basic

/-!
# Signal

Signal is the voting power that a vote mints: a whole number below `2 ^ 128`.  Sums and
differences that leave the range are refused, never wrapped.

## Main definitions

- `Signal.max`: the largest amount
- `Signal.ofValue?`: an amount, if a value is one
- `Signal.parse`, `Signal.format`: the decimal text of an amount
- `Signal.add`, `Signal.sub`: checked arithmetic
- `Signal.total`: the sum without a bound
-/

namespace Plebiscite.Signal

/-- The largest amount of signal: `2 ^ 128 - 1`. -/
def max : Int :=
  340282366920938463463374607431768211455

/-- Whether a whole number is an amount of signal. -/
def inRange (n : Int) : Bool :=
  decide (0 ≤ n ∧ n ≤ max)

/-- The amount that a value is, if it is a whole number in range. -/
def ofValue? : Value → Option Int
  | .integer n => if inRange n then some n else none
  | _ => none

/-- Refuses a value that is not an amount of signal. -/
def validate (v : Value) : Except Fault Unit :=
  match ofValue? v with
  | some _ => .ok ()
  | none => .error (.signal (.outOfRange v.display))

/-! ## Text -/

/-- Whether a character is one of the ten digits. -/
def isDigit (c : Char) : Bool :=
  decide (48 ≤ c.toNat ∧ c.toNat ≤ 57)

/-- Whether a text is a nonempty run of digits. -/
def isNumeral (s : String) : Bool :=
  !s.isEmpty && s.toList.all isDigit

/-- The number that a run of digits spells. -/
def numeralValue (cs : List Char) : Nat :=
  cs.foldl (fun n c => n * 10 + (c.toNat - 48)) 0

/-- Reads an amount of signal from its decimal text; leading zeros do not matter. -/
def parse (v : Value) : Except SignalFault Int :=
  match v with
  | .text s =>
    if isNumeral s then
      let n : Int := numeralValue s.toList
      if inRange n then .ok n else .error (.outOfRange (toString n))
    else .error (.malformed s)
  | v => .error (.malformed v.display)

/-- The decimal text of an amount. -/
def format (n : Int) : String :=
  toString n

/-! ## Arithmetic -/

/-- The sum of two amounts, refused beyond the range. -/
def add (a b : Int) : Except Fault Int :=
  if max < a + b then .error (.signalOverflow (.integer a) (.integer b)) else .ok (a + b)

/-- The difference of two amounts, refused below zero. -/
def sub (a b : Int) : Except Fault Int :=
  if a < b then .error (.signalUnderflow (.integer a) (.integer b)) else .ok (a - b)

/-- The sum of whole numbers, in range or not. -/
def total (ns : List Int) : Int :=
  ns.foldr (· + ·) 0

end Plebiscite.Signal
