/-!
# Text in 16-bit units

Lengths count 16-bit code units, and text is ordered by them: a character outside the basic
plane is a pair of surrogates and so sorts before the last characters of that plane.

## Main definitions

- `Units.ofText`: the code units of a text
- `Units.before`, `Units.notAfter`: the order by code units
-/

namespace Plebiscite.Units

/-- The code units of one character. -/
def ofChar (c : Char) : List Nat :=
  if c.toNat < 0x10000 then [c.toNat]
  else [0xD800 + (c.toNat - 0x10000) / 0x400, 0xDC00 + (c.toNat - 0x10000) % 0x400]

/-- The code units of a text. -/
def ofText (s : String) : List Nat :=
  s.toList.flatMap ofChar

/-- The number of code units of a text. -/
def length (s : String) : Nat :=
  (ofText s).length

/-- Strictly earlier in the order by code units. -/
def before (a b : String) : Bool :=
  decide (ofText a < ofText b)

/-- Earlier or equal in the order by code units. -/
def notAfter (a b : String) : Bool :=
  !before b a

end Plebiscite.Units
