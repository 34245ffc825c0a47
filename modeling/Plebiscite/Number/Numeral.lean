import Plebiscite.Number.Rounding

/-!
# Numerals

Reads a number from text, as a setting in the environment is read: blanks around the numeral do
not count, nothing at all is zero, and a text that is no numeral is not a number.  A numeral is a
signed decimal with an optional point and exponent, a signed `Infinity`, or an unsigned whole
number in base two, eight or sixteen after `0b`, `0o` or `0x`.

## Main definitions

- `Number.ofText`: the number that a text spells
- `Numeral.integer?`: the whole number that it spells, unrounded
-/

namespace Plebiscite

namespace Numeral

/-- The blanks that may surround a numeral: the space separators, the line ends and the marks that
count as blank. -/
def isBlank (c : Char) : Bool :=
  let n := c.toNat
  (9 ≤ n && n ≤ 13) || n == 0x20 || n == 0xA0 || n == 0x1680 || (0x2000 ≤ n && n ≤ 0x200A) ||
    n == 0x2028 || n == 0x2029 || n == 0x202F || n == 0x205F || n == 0x3000 || n == 0xFEFF

/-- Without the blanks at both ends. -/
def trim (cs : List Char) : List Char :=
  ((cs.dropWhile isBlank).reverse.dropWhile isBlank).reverse

/-- The value of one digit in bases up to sixteen, in either case. -/
def digit? (c : Char) : Option Nat :=
  let n := c.toNat
  if 48 ≤ n ∧ n ≤ 57 then some (n - 48)
  else if 97 ≤ n ∧ n ≤ 102 then some (n - 87)
  else if 65 ≤ n ∧ n ≤ 70 then some (n - 55)
  else none

/-- The value of a digit of the given base. -/
def digitBelow? (base : Nat) (c : Char) : Option Nat :=
  (digit? c).filter (· < base)

/-- The digits at the front, as value and count, and the rest. -/
structure Run where
  value : Nat
  count : Nat
  rest : List Char

/-- Reads decimal digits onto a value and a count. -/
def decimalRun (value count : Nat) : List Char → Run
  | [] => ⟨value, count, []⟩
  | c :: cs =>
    match digitBelow? 10 c with
    | some d => decimalRun (value * 10 + d) (count + 1) cs
    | none => ⟨value, count, c :: cs⟩

/-- The value of a nonempty run of digits in a base, if there is nothing else. -/
def whole? (base : Nat) : List Char → Option Nat
  | [] => none
  | cs => cs.foldl (fun acc c => do
      let value ← acc
      let d ← digitBelow? base c
      return value * base + d) (some 0)

/-- Takes a sign off the front: whether it was a minus, and the rest. -/
def takeSign : List Char → Bool × List Char
  | '-' :: cs => (true, cs)
  | '+' :: cs => (false, cs)
  | cs => (false, cs)

/-- A signed whole number. -/
def signedWhole? (cs : List Char) : Option Int :=
  let (negative, digits) := takeSign cs
  (whole? 10 digits).map fun n => if negative then -(n : Int) else n

/-- The power of ten that an exponent part spells; nothing left to read is the power zero. -/
def exponent? : List Char → Option Int
  | [] => some 0
  | c :: cs => if c = 'e' ∨ c = 'E' then signedWhole? cs else none

/-- An unsigned decimal: digits, optionally a point among or around them, optionally an
exponent. -/
def decimal? (negative : Bool) (cs : List Char) : Option Number :=
  let front := decimalRun 0 0 cs
  let back := match front.rest with
    | '.' :: rest => decimalRun front.value 0 rest
    | rest => ⟨front.value, 0, rest⟩
  if front.count + back.count = 0 then none
  else (exponent? back.rest).map fun power =>
    Number.ofDecimal negative back.value (power - back.count)

/-- A signed decimal or infinity. -/
def signed? (cs : List Char) : Option Number :=
  let (negative, digits) := takeSign cs
  if digits = "Infinity".toList then some (.infinite negative) else decimal? negative digits

/-- The base that a letter after a leading zero stands for. -/
def base? (c : Char) : Option Nat :=
  if c = 'x' ∨ c = 'X' then some 16
  else if c = 'o' ∨ c = 'O' then some 8
  else if c = 'b' ∨ c = 'B' then some 2
  else none

/-- The number that a trimmed text spells. -/
def read? : List Char → Option Number
  | [] => some 0
  | '0' :: c :: cs =>
    match base? c with
    | some base => (whole? base cs).map fun n => Number.ofRat n
    | none => signed? ('0' :: c :: cs)
  | cs => signed? cs

/-- The whole number that a trimmed text spells, if it does so without a point or an exponent. -/
def integer? : List Char → Option Int
  | [] => some 0
  | '0' :: c :: cs =>
    match base? c with
    | some base => (whole? base cs).map fun n => (n : Int)
    | none => signedWhole? ('0' :: c :: cs)
  | cs => signedWhole? cs

end Numeral

/-- The number that a text spells, blanks around it aside. -/
def Number.ofText (s : String) : Number :=
  (Numeral.read? (Numeral.trim s.toList)).getD .nan

end Plebiscite
