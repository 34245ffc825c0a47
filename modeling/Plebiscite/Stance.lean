import Plebiscite.Value.Equality

/-!
# Stances and outcomes

A ledger takes ballots of any stance, also of one that nobody has heard of.  Such a stance is kept
as it was given and counts for neither side.

## Main definitions

- `Stance`: what a member currently says about a vote
- `Outcome`: what a vote currently amounts to
-/

namespace Plebiscite

/-- A member's position on a vote. -/
inductive Stance where
  /-- No ballot was cast. -/
  | uninitialized
  | inFavor
  | against
  /-- Cast, for neither side. -/
  | abstain
  /-- Any other position. -/
  | other (given : Value)
deriving DecidableEq, Repr, Inhabited

namespace Stance

/-- The four known stances, in the order in which they are listed to callers. -/
def all : List Stance :=
  [.uninitialized, .inFavor, .against, .abstain]

/-- The word for a stance. -/
def text : Stance → String
  | .uninitialized => "uninitialized"
  | .inFavor => "in_favor"
  | .against => "against"
  | .abstain => "abstain"
  | .other given => given.display

/-- The known stance that a word names. -/
def ofText? (s : String) : Option Stance :=
  all.find? (·.text == s)

/-- The stance that a value stands for. -/
def ofValue (v : Value) : Stance :=
  (v.text?.bind ofText?).getD (.other v)

/-- The value that stands for a stance. -/
def toValue : Stance → Value
  | .other given => given
  | stance => .text stance.text

/-- Whether a stance is the same as another one.  What is not a number is never the same. -/
def repeats : Stance → Stance → Bool
  | .other (.number .nan), _ => false
  | .other given, .other wanted => given.same wanted
  | a, b => decide (a = b)

/-- Whether ballots of this stance count toward one of the two sides. -/
def isSided : Stance → Bool
  | .inFavor => true
  | .against => true
  | _ => false

end Stance

/-- What the tallies of a vote amount to. -/
inductive Outcome where
  | rejected
  /-- Neither bound is met. -/
  | pending
  | approved
deriving DecidableEq, Repr, Inhabited

namespace Outcome

/-- All outcomes. -/
def all : List Outcome :=
  [.rejected, .pending, .approved]

/-- The word for an outcome. -/
def text : Outcome → String
  | .rejected => "rejected"
  | .pending => "pending"
  | .approved => "approved"

/-- The outcome that a word names. -/
def ofText? (s : String) : Option Outcome :=
  all.find? (·.text == s)

end Outcome

end Plebiscite
