import Plebiscite.Number.Basic

/-!
# Rounding to double precision

The double nearest to a rational, ties to the even significand.  A finite double is `m * 2 ^ e`
with `m < 2 ^ 53` and `-1074 ≤ e`; a value that rounds to `2 ^ 1024` or beyond is infinite.

## Main definitions

- `Number.ofRat`: the nearest double
- `Number.add`, `Number.sub`: the sum and the difference of two numbers, rounded once
- `Number.ofDecimal`: the double nearest to a decimal
-/

namespace Plebiscite

namespace Rounding

/-- The integer nearest to `n / d`, ties to even. -/
def halfEven (n d : Nat) : Nat :=
  let q := n / d
  let r := n % d
  if 2 * r < d then q else if d < 2 * r then q + 1 else q + q % 2

/-- `m * 2 ^ e`. -/
def scale (m : Nat) (e : Int) : Rat :=
  if 0 ≤ e then ((m * Nat.pow 2 e.toNat : Nat) : Rat) else mkRat m (Nat.pow 2 (-e).toNat)

/-- The exponent of the largest power of two that is at most `n / d`. -/
def binade (n d : Nat) : Int :=
  let k : Int := (Nat.log2 n : Int) - (Nat.log2 d : Int)
  -- The quotient of the leading bits is one too large when the rest of `n` is the smaller one.
  if d * Nat.pow 2 k.toNat ≤ n * Nat.pow 2 (-k).toNat then k else k - 1

/-- The exponent of the last binary place that a double near `n / d` keeps. -/
def lastPlace (n d : Nat) : Int :=
  max (binade n d - 52) (-1074)

/-- `n / d` in units of its last place, ties to even. -/
def significand (n d : Nat) : Nat :=
  let e := lastPlace n d
  halfEven (n * Nat.pow 2 (-e).toNat) (d * Nat.pow 2 e.toNat)

end Rounding

namespace Number

open Rounding

/-- The double nearest to a rational. -/
def ofRat (q : Rat) : Number :=
  if q.num = 0 then .finite 0
  else
    let n := q.num.natAbs
    let magnitude := scale (significand n q.den) (lastPlace n q.den)
    -- Rounding may have carried into the next binade, so the range is checked last.
    if scale 1 1024 ≤ magnitude then .infinite (decide (q.num < 0))
    else if q.num < 0 then .finite (-magnitude) else .finite magnitude

/-- The sum of two numbers: exact, then rounded. -/
def add : Number → Number → Number
  | .finite a, .finite b => ofRat (a + b)
  | .nan, _ => .nan
  | _, .nan => .nan
  | .infinite a, .infinite b => if a = b then .infinite a else .nan
  | .infinite a, .finite _ => .infinite a
  | .finite _, .infinite b => .infinite b

instance : Add Number := ⟨add⟩

/-- The opposite of a number. -/
def neg : Number → Number
  | .nan => .nan
  | .infinite negative => .infinite (!negative)
  | .finite q => .finite (-q)

/-- The difference of two numbers: exact, then rounded. -/
def sub (a b : Number) : Number :=
  a + b.neg

/-- `10 ^ e`. -/
def powerOfTen (e : Int) : Rat :=
  if 0 ≤ e then (Nat.pow 10 e.toNat : Rat) else mkRat 1 (Nat.pow 10 (-e).toNat)

/-- The double nearest to `coefficient * 10 ^ exponent`.  Decimals that are far outside the range
of doubles are decided by their size alone. -/
def ofDecimal (negative : Bool) (coefficient : Nat) (exponent : Int) : Number :=
  let places : Int := (Nat.toDigits 10 coefficient).length + exponent
  if coefficient = 0 then 0
  else if 400 < places then .infinite negative
  else if places < -400 then 0
  else
    let magnitude : Rat := (coefficient : Rat) * powerOfTen exponent
    ofRat (if negative then -magnitude else magnitude)

end Number

end Plebiscite
