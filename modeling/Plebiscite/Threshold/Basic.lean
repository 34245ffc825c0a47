import Plebiscite.Value.Equality

/-!
# Thresholds

## Main definitions

- `Threshold`: the bound that approves a vote and the optional bound that rejects it
- `Threshold.ofValue`, `Threshold.toValue`: a threshold as one value
- `Rule`: a threshold in signal, or in parts per million of the turnout
-/

namespace Plebiscite

/-- The bounds of a vote, in some unit. -/
structure Threshold (α : Type) where
  /-- From this much in favor on, the vote is approved. -/
  inFavor : α
  /-- From this much against on, the vote is rejected. -/
  against : Option α
  /-- What else was said with the bounds; it is kept and has no effect. -/
  remarks : List (String × Value) := []
deriving DecidableEq, Repr, Inhabited

namespace Threshold

variable {α β : Type}

/-- The bounds in another unit. -/
def map (f : α → β) (t : Threshold α) : Threshold β :=
  ⟨f t.inFavor, t.against.map f, t.remarks⟩

/-- The bounds alone. -/
def bare (t : Threshold α) : Threshold α :=
  { t with remarks := [] }

/-- The bounds that are present, the approving one first. -/
def bounds (t : Threshold α) : List α :=
  t.inFavor :: t.against.toList

/-- The threshold that a value describes. -/
def ofValue (v : Value) : Threshold Value :=
  { inFavor := v.get "inFavor"
    against := (v.get "against").present?
    remarks := v.fields.filter fun field => field.1 ≠ "inFavor" ∧ field.1 ≠ "against" }

/-- The value that describes a threshold. -/
def toValue (t : Threshold Value) : Value :=
  .object (("inFavor", t.inFavor) :: ("against", t.against.getD .absent) :: t.remarks)

end Threshold

/-- A threshold that can be kept for later votes. -/
inductive Rule where
  /-- Absolute amounts of signal. -/
  | signal (threshold : Threshold Int)
  /-- Parts per million of the turnout, resolved when a vote is opened. -/
  | percent (threshold : Threshold Number)
deriving DecidableEq, Repr, Inhabited

/-- The word for the unit of a rule. -/
def Rule.unit : Rule → String
  | .signal _ => "signal"
  | .percent _ => "percent"

end Plebiscite
