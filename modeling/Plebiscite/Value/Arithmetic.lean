import Plebiscite.Number.Rounding
import Plebiscite.Value.Coercion

/-!
# Sums and differences of values

Values of any types can be added and subtracted.  Whole numbers stay whole.  A sum with a text, a
sequence or an object in it is the text of both sides, one behind the other; all else is taken for
numbers.

## Main definitions

- `Value.plus`, `Value.minus`: the sum and the difference of two values
-/

namespace Plebiscite.Value

/-- The sum of two values. -/
def plus (a b : Value) : Value :=
  match a, b with
  | .integer m, .integer n => .integer (m + n)
  | a, b =>
    if a.wording?.isSome || b.wording?.isSome then .text (a.display ++ b.display)
    else .number (a.toNumber + b.toNumber)

/-- The difference of two values. -/
def minus (a b : Value) : Value :=
  match a, b with
  | .integer m, .integer n => .integer (m - n)
  | a, b => .number (a.toNumber.sub b.toNumber)

end Plebiscite.Value
