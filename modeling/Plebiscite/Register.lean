import Plebiscite.Arrangement
import Plebiscite.Identifier
import Plebiscite.Threshold.Resolution

/-!
# The threshold register

Rules that are kept for later votes.  An entry is never changed or removed; changing a rule means
registering another.  Entries are kept in the order in which they came in, and listed in the order
of their identifiers.

## Main definitions

- `Registration`: a rule kept for an electorate
- `Register`: the entries and the counter of identifiers
- `Register.register`, `Register.restore`: the two ways to add an entry
- `Register.resolve`: the entry with an identifier
- `Register.listed`: all entries in order
-/

namespace Plebiscite

/-- A rule that is kept for the votes of an electorate. -/
structure Registration where
  /-- The identifier: a number, unless it was handed in or counted from something else. -/
  id : Value
  electorate : Electorate
  rule : Rule
deriving DecidableEq, Repr, Inhabited

/-- The rules that are kept. -/
structure Register where
  /-- The last identifier given out, or whatever was handed in as one. -/
  counter : Value
  /-- The entries, in the order in which they came in. -/
  entries : List Registration
deriving DecidableEq, Repr, Inhabited

namespace Register

/-- No entries yet. -/
def empty : Register :=
  ⟨.number 0, []⟩

/-- The entry with an identifier. -/
def get? (r : Register) (id : Value) : Option Registration :=
  r.entries.find? (·.id.same id)

/-- Whether an identifier is in use. -/
def contains (r : Register) (id : Value) : Bool :=
  (r.get? id).isSome

/-- The entry with an identifier, refused if there is none. -/
def resolve (r : Register) (id : Value) : Except Fault Registration :=
  match r.get? id with
  | some entry => .ok entry
  | none => .error (.unknownThreshold id)

/-- Whether the identifier of an entry is a number that others can be compared with. -/
def isNumbered (entry : Registration) : Bool :=
  entry.id.number?.any fun n => decide (n ≠ .nan)

/-- All entries in the order of the numbers that their identifiers are taken for. -/
def listed (r : Register) : List Registration :=
  Arrangement.arrange isNumbered (fun a b => a.id.toNumber.lt b.id.toNumber) r.entries

/-- The number of entries. -/
def count (r : Register) : Nat :=
  r.entries.length

/-- Adds an entry. -/
def insert (r : Register) (entry : Registration) : Register :=
  { r with entries := r.entries ++ [entry] }

/-- Keeps a new rule under the next free identifier up to the ceiling. -/
def register (r : Register) (ceiling : Value) (electorate : Electorate) (rule : Rule) :
    Except Fault (Registration × Register) := do
  rule.validate
  let id ← Identifier.nextOf r.counter ceiling r.contains
  let entry : Registration := ⟨id, electorate.copy, rule⟩
  return (entry, { r.insert entry with counter := id })

/-- Keeps a rule under the identifier that it had before.  Whether the rule could be read matters
only if the identifier is free. -/
def restore (r : Register) (id : Value) (electorate : Electorate) (rule : Except Fault Rule) :
    Except Fault Register := do
  if r.contains id then throw (.snapshot (.repeatedThreshold id))
  let rule ← rule
  rule.validate
  return r.insert ⟨id, electorate.copy, rule⟩

end Register

end Plebiscite
