import Plebiscite.Value.Equality

/-!
# Indexes

An index gives values to keys, which may be of any type.  Keys are listed in the order in which
they came in: a value that is replaced keeps its place, and a key that was dropped comes in anew.
A key is found by the same key only, so what is kept under a sequence or an object is listed and
never found.

## Main definitions

- `Index`: keys with values
- `Index.get?`, `Index.put`, `Index.drop`: look up, add or replace, remove
-/

namespace Plebiscite

/-- Keys with values. -/
abbrev Index (α : Type) : Type := List (Value × α)

namespace Index

variable {α : Type}

/-- The value of a key. -/
def get? (index : Index α) (key : Value) : Option α :=
  (index.find? fun entry => entry.1.same key).map (·.2)

/-- Whether a key has a value. -/
def contains (index : Index α) (key : Value) : Bool :=
  (get? index key).isSome

/-- Gives a key a value. -/
def put (key : Value) (value : α) : Index α → Index α
  | [] => [(key, value)]
  | entry :: rest => if entry.1.same key then (key, value) :: rest else entry :: put key value rest

/-- Removes a key. -/
def drop (key : Value) (index : Index α) : Index α :=
  index.filter fun entry => !entry.1.same key

end Index

end Plebiscite
