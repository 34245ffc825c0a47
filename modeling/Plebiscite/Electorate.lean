import Plebiscite.Value.Equality

/-!
# Electorates

An electorate is an organization together with the way in which its members are given signal.  It
is described by a value: `kind` holds the word for the way, `orgId` the organization, and whatever
else the description says is kept with it.

## Main definitions

- `MintMode`: one unit a member, or as much as the member's stake
- `Electorate`: an electorate by its description, with `Electorate.of` for a plain one
- `Electorate.mode?`, `Electorate.org`: what the description says
-/

namespace Plebiscite

/-- How signal is shared out among the members of an organization. -/
inductive MintMode where
  /-- One unit for each member. -/
  | equal
  /-- As much as each member's stake. -/
  | weighted
deriving DecidableEq, Repr, Inhabited

namespace MintMode

/-- Both modes, in the order in which they are listed to callers. -/
def all : List MintMode :=
  [.equal, .weighted]

/-- The word for a mode. -/
def text : MintMode → String
  | .equal => "equal"
  | .weighted => "weighted"

/-- The mode that a word names. -/
def ofText? (s : String) : Option MintMode :=
  all.find? (·.text == s)

end MintMode

/-- An organization and the way in which its members are given signal. -/
structure Electorate where
  description : Value
deriving DecidableEq, Repr, Inhabited

namespace Electorate

/-- The electorate of an organization in a mode. -/
def of (mode : MintMode) (org : String) : Electorate :=
  ⟨.object [("kind", .text mode.text), ("orgId", .text org)]⟩

/-- The word for the mode, whatever was given as one. -/
def kind (e : Electorate) : Value :=
  e.description.get "kind"

/-- The mode, if it is known. -/
def mode? (e : Electorate) : Option MintMode :=
  e.kind.text?.bind MintMode.ofText?

/-- The identifier of the organization, whatever was given as one. -/
def org (e : Electorate) : Value :=
  e.description.get "orgId"

/-- The electorate with a description of its own, part by part the same. -/
def copy (e : Electorate) : Electorate :=
  ⟨.object e.description.entries⟩

end Electorate

end Plebiscite
