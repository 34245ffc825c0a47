import Plebiscite.Number.Shortest

/-!
# Values

What a caller may hand in: a tree of plain values whose shape nobody has checked yet.  Amounts of
signal are whole numbers of any size and differ from numbers of double precision; a missing
property and one without a value are the same.

## Main definitions

- `Value`: the values
- `Value.get`, `Value.items`, `Value.entries`: what a value is made of
- `Value.ofFields`: an object with its properties in the order in which they are listed
- `Value.amend`: the parts of a value as an object, with some of them replaced
- `Value.display`: the text by which a message names a value
-/

namespace Plebiscite

/-- A value of unknown shape. -/
inductive Value where
  /-- Nothing was given. -/
  | absent
  /-- Explicitly nothing. -/
  | null
  | bool (b : Bool)
  /-- A number of double precision. -/
  | number (n : Number)
  /-- A whole number of any size. -/
  | integer (n : Int)
  | text (s : String)
  | array (items : List Value)
  /-- Named properties, in the order in which they were given. -/
  | object (fields : List (String × Value))
deriving Repr, Inhabited

namespace Value

/-- The text of an optional value, or nothing. -/
def ofText? : Option String → Value
  | some s => .text s
  | none => .absent

/-- The number of an optional value, or nothing. -/
def ofNumber? : Option Number → Value
  | some n => .number n
  | none => .absent

/-- A text, if the value is one. -/
def text? : Value → Option String
  | .text s => some s
  | _ => none

/-- A number, if the value is one. -/
def number? : Value → Option Number
  | .number n => some n
  | _ => none

/-- The whole number that a value is; other values count as zero. -/
def whole : Value → Int
  | .integer n => n
  | _ => 0

/-- Whether nothing was given. -/
def isAbsent : Value → Bool
  | .absent => true
  | _ => false

/-- A value, or nothing if it is absent. -/
def present? : Value → Option Value
  | .absent => none
  | v => some v

/-- A value, or nothing if it is absent or explicitly nothing. -/
def given? : Value → Option Value
  | .absent => none
  | .null => none
  | v => some v

/-- Whether a value is an object or a sequence. -/
def isStructured : Value → Bool
  | .array _ => true
  | .object _ => true
  | _ => false

/-! ## Parts -/

/-- The elements of a sequence and the characters of a text; other values have none. -/
def items : Value → List Value
  | .array vs => vs
  | .text s => s.toList.map fun c => .text (String.ofList [c])
  | _ => []

/-- The properties of an object; other values have none. -/
def fields : Value → List (String × Value)
  | .object fs => fs
  | _ => []

/-- A property of an object, nothing if it is missing or the value is no object. -/
def get (v : Value) (name : String) : Value :=
  (v.fields.lookup name).getD .absent

/-- The parts of a value by name; those of a sequence and of a text are named by their places. -/
def entries : Value → List (String × Value)
  | .object fs => fs
  | v => v.items.mapIdx fun place item => (toString place, item)

/-- The place that a name stands for: a decimal number below `2 ^ 32 - 1` without leading
zeros. -/
def place? (name : String) : Option Nat :=
  match name.toNat? with
  | some n => if toString n = name ∧ n < 4294967295 then some n else none
  | none => none

/-- Properties in the order in which they are listed: first those that are named by places, in
ascending order, then all others as they were given. -/
def listed (fields : List (String × Value)) : List (String × Value) :=
  let placed := fields.filterMap fun field => (place? field.1).map fun place => (place, field)
  (placed.mergeSort fun a b => a.1 ≤ b.1).map (·.2) ++
    fields.filter fun field => (place? field.1).isNone

/-- The object with the given properties. -/
def ofFields (fields : List (String × Value)) : Value :=
  .object (listed fields)

/-- Properties with one of them given a value: it keeps its place, or comes last if it is new. -/
def put (name : String) (v : Value) : List (String × Value) → List (String × Value)
  | [] => [(name, v)]
  | field :: rest => if field.1 = name then (name, v) :: rest else field :: put name v rest

/-- The parts of a value as an object of its own, with the given properties in place of its own. -/
def amend (v : Value) (changes : List (String × Value)) : Value :=
  .object (changes.foldl (fun fields change => put change.1 change.2 fields) v.entries)

/-! ## Display -/

mutual

/-- The text by which a message names a value. -/
def display : Value → String
  | .absent => "undefined"
  | .null => "null"
  | .bool true => "true"
  | .bool false => "false"
  | .number n => n.text
  | .integer n => toString n
  | .text s => s
  | .array vs => ",".intercalate (displayItems vs)
  | .object _ => "[object Object]"

/-- The texts of the elements of a sequence; an absent element has none. -/
def displayItems : List Value → List String
  | [] => []
  | .absent :: vs => "" :: displayItems vs
  | .null :: vs => "" :: displayItems vs
  | v :: vs => v.display :: displayItems vs

end

end Value

end Plebiscite
