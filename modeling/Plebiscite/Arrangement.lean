import Plebiscite.Arrangement.Run
import Plebiscite.Arrangement.Weave

/-!
# Arranging

Lists are put in ascending order by a comparison that may leave some elements incomparable, as
numbers are with a value that is not a number.  Of *plain* elements every two compare; a list of
such elements has one ascending order in which equal elements keep their places, and that is the
result.  If there are others in the list, the result depends on how the work is done, which is
therefore fixed: the list is cut into runs, and neighbouring runs are merged so that their lengths
stay balanced.

## Main definitions

- `Arrangement.Pending`: the runs that are still to be merged
- `Arrangement.byRuns`: the list in ascending order, by its runs
- `Arrangement.arrange`: the list in ascending order
-/

namespace Plebiscite.Arrangement

variable {α : Type}

/-- Runs that are still to be merged. -/
structure Pending (α : Type) where
  /-- The runs, last one first. -/
  stack : List (List α)
  /-- How often a run has to win before its leading parts are looked for. -/
  patience : Nat

namespace Pending

/-- Merges the last two runs. -/
def mergeLast (before : α → α → Bool) (p : Pending α) : Pending α :=
  match p.stack with
  | z :: y :: rest =>
    let (merged, patience) := merge before p.patience y z
    ⟨merged :: rest, patience⟩
  | _ => p

/-- Merges the two runs before the last one. -/
def mergeBeforeLast (before : α → α → Bool) (p : Pending α) : Pending α :=
  match p.stack with
  | z :: rest =>
    let next := mergeLast before { p with stack := rest }
    { next with stack := z :: next.stack }
  | [] => p

/-- Merges the shorter one of the last run and the third last run with the one between them. -/
def mergeShorter (before : α → α → Bool) (p : Pending α) : Pending α :=
  match p.stack with
  | z :: _ :: x :: _ =>
    if x.length < z.length then p.mergeBeforeLast before else p.mergeLast before
  | _ => p.mergeLast before

/-- Whether a run is longer than the two after it together, if there are so many. -/
def outweighs : List (List α) → Bool
  | z :: y :: x :: _ => decide (y.length + z.length < x.length)
  | _ => true

/-- Merges runs until each is longer than the next and than the next two together. -/
def balance (before : α → α → Bool) : Nat → Pending α → Pending α
  | 0, p => p
  | fuel + 1, p =>
    match p.stack with
    | z :: y :: _ =>
      if !outweighs p.stack || !outweighs p.stack.tail then
        balance before fuel (p.mergeShorter before)
      else if y.length ≤ z.length then balance before fuel (p.mergeLast before)
      else p
    | _ => p

/-- Adds the next run of the list. -/
def push (before : α → α → Bool) (p : Pending α) (run : List α) : Pending α :=
  balance before p.stack.length { p with stack := run :: p.stack }

/-- Merges all runs. -/
def mergeAll (before : α → α → Bool) : Nat → Pending α → List α
  | 0, p => p.stack.reverse.flatten
  | fuel + 1, p =>
    match p.stack with
    | [] => []
    | [run] => run
    | _ => mergeAll before fuel (p.mergeShorter before)

end Pending

/-- The list in ascending order, by its runs. -/
def byRuns (before : α → α → Bool) (l : List α) : List α :=
  let pending := (runs before l).foldl (Pending.push before) ⟨[], Manner.worthwhile⟩
  pending.mergeAll before pending.stack.length

/-- The list in ascending order. -/
def arrange (isPlain : α → Bool) (before : α → α → Bool) (l : List α) : List α :=
  if l.all isPlain then l.mergeSort fun a b => !before b a else byRuns before l

end Plebiscite.Arrangement
