import Plebiscite.Number.Rounding

/-!
# Number text

A number is written with the fewest decimal digits that round back to it; of several such
decimals the nearest is taken, and of two equally near the even one.  Magnitudes from `10 ^ -6` up
to `10 ^ 21` are written positionally, others with an exponent.

## Main definitions

- `Decimal`: digits and a power of ten
- `Decimal.shortest`: the shortest decimal that rounds back to a positive double
- `Decimal.text`: its spelling
- `Number.text`: the spelling of any number
-/

namespace Plebiscite

/-- The decimal `digits * 10 ^ exponent`. -/
structure Decimal where
  /-- The significant digits, as one number. -/
  digits : Nat
  /-- The power of ten of the last digit. -/
  exponent : Int
deriving DecidableEq, Repr

namespace Decimal

open Rounding Number

/-- The value of a decimal. -/
def value (d : Decimal) : Rat :=
  (d.digits : Rat) * powerOfTen d.exponent

/-- The reals that round to one double: the ends, and whether they belong to it. -/
structure Cell where
  low : Rat
  high : Rat
  /-- The ends round to the double as well. -/
  closed : Bool

/-- Membership in a cell. -/
def Cell.contains (c : Cell) (q : Rat) : Bool :=
  if c.closed then decide (c.low ≤ q ∧ q ≤ c.high) else decide (c.low < q ∧ q < c.high)

/-- The cell of a positive double.  The neighbour below a power of two is half as far away, except
at the smallest exponent. -/
def cell (q : Rat) : Cell :=
  let n := q.num.natAbs
  let e := lastPlace n q.den
  let m := significand n q.den
  let below := if m = Nat.pow 2 52 ∧ -1074 < e then scale 1 (e - 2) else scale 1 (e - 1)
  ⟨q - below, q + scale 1 (e - 1), m % 2 == 0⟩

/-- The number of digits before the decimal point of a positive rational; negative when zeros
follow the point. -/
def pointPosition (q : Rat) : Int :=
  let k : Int := (Nat.toDigits 10 q.num.natAbs).length - (Nat.toDigits 10 q.den).length
  if powerOfTen k ≤ q then k + 1 else k

/-- The decimal in the cell of `q` that has its last digit at `10 ^ exponent` and is nearest to
`q`, if one of the two neighbours of `q` on that grid lies in the cell. -/
def onGrid (c : Cell) (q : Rat) (exponent : Int) : Option Decimal :=
  let below : Nat := (q / powerOfTen exponent).floor.toNat
  let low : Decimal := ⟨below, exponent⟩
  let high : Decimal := ⟨below + 1, exponent⟩
  -- If any point of the grid lies in the cell, so does one of the two neighbours of `q`.
  match c.contains low.value, c.contains high.value with
  | true, true =>
    if q - low.value < high.value - q then some low
    else if high.value - q < q - low.value then some high
    else if below % 2 = 0 then some low else some high
  | true, false => some low
  | false, true => some high
  | false, false => none

/-- The decimals with at most `places` digits, fewest first. -/
def search (c : Cell) (q : Rat) (point : Int) (places : Nat) : Nat → Option Decimal
  | 0 => none
  | fuel + 1 =>
    match onGrid c q (point - places) with
    | some d => some d
    | none => search c q point (places + 1) fuel

/-- Moves trailing zeros of the digits into the exponent. -/
def trim (d : Decimal) : Nat → Decimal
  | 0 => d
  | fuel + 1 =>
    if d.digits % 10 = 0 ∧ d.digits ≠ 0 then trim ⟨d.digits / 10, d.exponent + 1⟩ fuel else d

/-- The shortest decimal that rounds back to a positive double; seventeen digits always do. -/
def shortest (q : Rat) : Decimal :=
  match search (cell q) q (pointPosition q) 1 17 with
  | some d => trim d 20
  | none => ⟨q.floor.toNat, 0⟩

/-- The spelling of a decimal. -/
def text (d : Decimal) : String :=
  let digits := Nat.toDigits 10 d.digits
  let count : Int := digits.length
  let point := count + d.exponent
  if count ≤ point ∧ point ≤ 21 then
    String.ofList (digits ++ List.replicate (point - count).toNat '0')
  else if 0 < point ∧ point ≤ 21 then
    String.ofList (digits.take point.toNat ++ '.' :: digits.drop point.toNat)
  else if -6 < point ∧ point ≤ 0 then
    String.ofList ('0' :: '.' :: List.replicate (-point).toNat '0' ++ digits)
  else
    let power := point - 1
    let tail := if digits.length = 1 then [] else '.' :: digits.drop 1
    let sign := if power < 0 then '-' else '+'
    String.ofList (digits.take 1 ++ tail ++ 'e' :: sign :: Nat.toDigits 10 power.natAbs)

end Decimal

namespace Number

/-- The spelling of a finite number.  Integers that doubles hold exactly are written in full. -/
def finiteText (q : Rat) : String :=
  if q.den = 1 ∧ q.num.natAbs ≤ maxSafe then toString q.num
  else if q.num < 0 then "-" ++ (Decimal.shortest (-q)).text
  else (Decimal.shortest q).text

/-- The spelling of a number. -/
def text : Number → String
  | .nan => "NaN"
  | .infinite true => "-Infinity"
  | .infinite false => "Infinity"
  | .finite q => finiteText q

end Number

end Plebiscite
