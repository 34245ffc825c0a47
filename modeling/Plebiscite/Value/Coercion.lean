import Plebiscite.Number.Numeral
import Plebiscite.Units
import Plebiscite.Value.Basic

/-!
# What a value is taken for

Where a number or a truth value is wanted and something else is given, the value is taken for one.
Values of any two types can be compared: texts with texts by their code units, and all else as
numbers.  Beside a whole number of any size a text is a number only if it spells a whole one.
A value that is not a number stands in no order to any other.

## Main definitions

- `Value.toNumber`, `Value.toWhole`: the number and the whole number that a value is taken for
- `Value.isTruthy`: the truth value that it is taken for
- `Value.before`, `Value.notAfter`: the order of values
-/

namespace Plebiscite.Value

/-- The number that a value is taken for. -/
def toNumber : Value → Number
  | .absent => .nan
  | .null => 0
  | .bool true => 1
  | .bool false => 0
  | .number n => n
  | .integer n => Number.ofRat n
  | .text s => Number.ofText s
  | .array vs => Number.ofText (Value.array vs).display
  | .object _ => .nan

/-- The truth value that a value is taken for.  Nothing, zero and the empty text are false. -/
def isTruthy : Value → Bool
  | .absent => false
  | .null => false
  | .bool b => b
  | .number .nan => false
  | .number n => decide (n ≠ 0)
  | .integer n => decide (n ≠ 0)
  | .text s => !s.isEmpty
  | .array _ => true
  | .object _ => true

/-- The text that a value is taken for beside another text, if it is not a plain truth value or
number. -/
def wording? : Value → Option String
  | .text s => some s
  | .array vs => some (Value.array vs).display
  | .object fs => some (Value.object fs).display
  | _ => none

/-- The whole number that a text spells, unrounded. -/
def spelledWhole? (s : String) : Option Int :=
  Numeral.integer? (Numeral.trim s.toList)

/-- The whole number that a value is taken for, unrounded.  What stands for none is taken for
zero. -/
def toWhole : Value → Int
  | .integer n => n
  | v =>
    match v.wording? with
    | some s => (spelledWhole? s).getD 0
    | none => v.toNumber.toInt

/-! ## Order -/

/-- The number that a value is compared as with `other`; a whole number is not rounded. -/
def comparedNumber (other : Value) : Value → Number
  | .integer n => .finite n
  | v =>
    match other, v.wording? with
    | .integer _, some s => ((spelledWhole? s).map fun n => Number.finite n).getD .nan
    | _, _ => v.toNumber

/-- Strictly earlier in the order of values. -/
def before (a b : Value) : Bool :=
  match a.wording?, b.wording? with
  | some s, some t => Units.before s t
  | _, _ => (comparedNumber b a).lt (comparedNumber a b)

/-- Earlier in the order of values or at the same place. -/
def notAfter (a b : Value) : Bool :=
  match a.wording?, b.wording? with
  | some s, some t => Units.notAfter s t
  | _, _ => (comparedNumber b a).le (comparedNumber a b)

end Plebiscite.Value
