import Plebiscite.Journal
import Plebiscite.Number.Rounding
import Plebiscite.Units

/-!
# Journal lines as they are written down

A line is written down with the values that every reader of such lines knows: texts, truth values
and finite numbers.  A number that is not finite becomes explicitly nothing, and a whole number of
any size the nearest number.

A value in which there are whole numbers of any size is abridged: what lies too deep in it is only
named, and of many elements or properties only the first are written.

## Main definitions

- `Journal.written`: a value as it is written down
- `Journal.Line.toValue`: a line as it is written down
-/

namespace Plebiscite

namespace Journal

/-! ## What is abridged -/

mutual

/-- Whether there are whole numbers of any size in a value. -/
def hasInteger : Value → Bool
  | .integer _ => true
  | .array vs => itemsHaveInteger vs
  | .object fs => fieldsHaveInteger fs
  | _ => false

/-- Whether there are any in the elements of a sequence. -/
def itemsHaveInteger : List Value → Bool
  | [] => false
  | v :: vs => hasInteger v || itemsHaveInteger vs

/-- Whether there are any in the properties of an object. -/
def fieldsHaveInteger : List (String × Value) → Bool
  | [] => false
  | (_, v) :: fs => hasInteger v || fieldsHaveInteger fs

end

/-- So many sequences and objects are written inside each other. -/
def depthLimit : Nat :=
  5

/-- So many elements or properties are written side by side. -/
def breadthLimit : Nat :=
  100

/-- The note on what is not written. -/
def omission (count : Nat) : String :=
  if count = 1 then "1 item not stringified" else s!"{count} items not stringified"

/-- The elements that are written.  The first one beyond the limit goes without a note. -/
def shownItems (vs : List Value) : List Value :=
  let unnoted := breadthLimit + 1
  vs.take breadthLimit ++
    if unnoted < vs.length then [.text s!"... {omission (vs.length - unnoted)}"] else []

/-- The properties that are written: if there are too many, the first in the order of names. -/
def shownFields (fs : List (String × Value)) : List (String × Value) :=
  if fs.length ≤ breadthLimit then fs
  else
    let sorted := fs.mergeSort fun a b => Units.notAfter a.1 b.1
    Value.put "..." (.text (omission (fs.length - breadthLimit))) (sorted.take breadthLimit)

/-! ## Writing -/

mutual

/-- A value as it is written down inside so many others, in full or abridged. -/
def writtenAt (full : Bool) (depth : Nat) : Value → Value
  | .number .nan => .null
  | .number (.infinite _) => .null
  | .integer n => .number (Number.ofRat n)
  | .array vs =>
    if full || vs.isEmpty then .array (writtenItems full (depth + 1) vs)
    else if depthLimit ≤ depth then .text "[Array]"
    else .array (shownItems (writtenItems full (depth + 1) vs))
  | .object fs =>
    if full || fs.isEmpty then .object (writtenFields full (depth + 1) fs)
    else if depthLimit ≤ depth then .text "[Object]"
    else .object (shownFields (writtenFields full (depth + 1) fs))
  | v => v

/-- The elements of a sequence as they are written down; an absent one keeps its place. -/
def writtenItems (full : Bool) (depth : Nat) : List Value → List Value
  | [] => []
  | .absent :: vs => .null :: writtenItems full depth vs
  | v :: vs => writtenAt full depth v :: writtenItems full depth vs

/-- Properties as they are written down. -/
def writtenFields (full : Bool) (depth : Nat) : List (String × Value) → List (String × Value)
  | [] => []
  | (name, v) :: fs => (name, writtenAt full depth v) :: writtenFields full depth fs

end

/-- A value as it is written down. -/
def written (v : Value) : Value :=
  writtenAt (!hasInteger v) 0 v

/-- A line as it is written down. -/
def Line.toValue (line : Line) : Value :=
  .object
    (("level", .number (Number.ofInt line.level.severity)) :: ("msg", .text line.message) ::
      line.fields.map fun field => (field.1, written field.2))

end Journal

end Plebiscite
