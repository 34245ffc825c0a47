import Plebiscite.Units
import Plebiscite.Value.Basic

/-!
# Canonical text of a value

The one text of a value that digests are taken of: no blanks, properties in the order of the code
units of their names, properties without a value left out, numbers in their shortest form, and
only the characters escaped that must be.

An object with a property `toJSON` claims a form of its own, and so it is written as it stands,
with all that it holds: its properties keep the order in which they are listed.

## Main definitions

- `Canonical.quote`: a text in quotation marks
- `Canonical.plainChars`: the characters of the text that keeps the order of properties
- `Canonical.chars`: the characters of the canonical text
- `Value.canonical`: the canonical text
-/

namespace Plebiscite

namespace Canonical

/-- One hexadecimal digit. -/
def hexDigit (n : Nat) : Char :=
  Nat.digitChar (n % 16)

/-- One character of a quoted text.  Control characters without a short form are written by
number. -/
def escape (c : Char) : List Char :=
  if c = '"' then ['\\', '"']
  else if c = '\\' then ['\\', '\\']
  else if c.toNat = 8 then ['\\', 'b']
  else if c.toNat = 9 then ['\\', 't']
  else if c.toNat = 10 then ['\\', 'n']
  else if c.toNat = 12 then ['\\', 'f']
  else if c.toNat = 13 then ['\\', 'r']
  else if c.toNat < 32 then ['\\', 'u', '0', '0', hexDigit (c.toNat / 16), hexDigit c.toNat]
  else [c]

/-- A text in quotation marks. -/
def quote (s : String) : List Char :=
  '"' :: s.toList.flatMap escape ++ ['"']

/-- The text of a number; those that are not finite have none of their own. -/
def number : Number → List Char
  | .finite q => (Number.finiteText q).toList
  | _ => "null".toList

/-- The parts of a sequence with commas between them. -/
def commaSeparated : List (List Char) → List Char
  | [] => []
  | [part] => part
  | part :: parts => part ++ ',' :: commaSeparated parts

/-- A property with the text of its value. -/
structure Property where
  name : String
  body : List Char

/-- The text of a property. -/
def Property.chars (p : Property) : List Char :=
  quote p.name ++ ':' :: p.body

/-- Properties in the order of their names. -/
def sorted (ps : List Property) : List Property :=
  ps.mergeSort fun a b => Units.notAfter a.name b.name

/-- The text of properties in the order given. -/
def braced (ps : List Property) : List Char :=
  '\x7b' :: commaSeparated (ps.map Property.chars) ++ ['\x7d']

/-- The text of the elements of a sequence. -/
def bracketed (items : List (List Char)) : List Char :=
  '[' :: commaSeparated items ++ [']']

/-! ## Texts that keep the order -/

mutual

/-- The characters of a value whose properties keep their order. -/
def plainChars : Value → List Char
  | .absent => "null".toList
  | .null => "null".toList
  | .bool true => "true".toList
  | .bool false => "false".toList
  | .number n => number n
  | .integer n => (toString n).toList
  | .text s => quote s
  | .array vs => bracketed (plainItems vs)
  | .object fs => braced (plainProperties fs)

/-- The texts of the elements of a sequence. -/
def plainItems : List Value → List (List Char)
  | [] => []
  | v :: vs => plainChars v :: plainItems vs

/-- The properties that have a value, with their texts. -/
def plainProperties : List (String × Value) → List Property
  | [] => []
  | (_, .absent) :: fs => plainProperties fs
  | (name, v) :: fs => ⟨name, plainChars v⟩ :: plainProperties fs

end

/-! ## Canonical texts -/

/-- Whether an object with the given properties claims a form of its own. -/
def hasOwnForm (fields : List (String × Value)) : Bool :=
  (((Value.object fields).get "toJSON").given?).isSome

mutual

/-- The characters of the canonical text. -/
def chars : Value → List Char
  | .absent => "null".toList
  | .null => "null".toList
  | .bool true => "true".toList
  | .bool false => "false".toList
  | .number n => number n
  | .integer n => (toString n).toList
  | .text s => quote s
  | .array vs => bracketed (itemChars vs)
  | .object fs =>
    if hasOwnForm fs then plainChars (.object fs) else braced (sorted (properties fs))

/-- The canonical texts of the elements of a sequence. -/
def itemChars : List Value → List (List Char)
  | [] => []
  | v :: vs => chars v :: itemChars vs

/-- The properties that have a value, with their canonical texts. -/
def properties : List (String × Value) → List Property
  | [] => []
  | (_, .absent) :: fs => properties fs
  | (name, v) :: fs => ⟨name, chars v⟩ :: properties fs

end

end Canonical

/-- The canonical text of a value.  Where nothing was given it is the word for that. -/
def Value.canonical (v : Value) : String :=
  match v with
  | .absent => v.display
  | v => String.ofList (Canonical.chars v)

end Plebiscite
