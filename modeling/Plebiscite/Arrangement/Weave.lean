/-!
# Weaving two runs

Two ascending runs that follow each other are merged by moving elements of either into one list.
The shorter run is set aside, so the merge goes from the front if the earlier run is the shorter
one, and from the back otherwise.

Elements are moved one by one until one run has won some number of times in a row.  From then on
whole leading parts are moved, as long as these are long enough.  How long a run has to win is
adapted on the way and carried on from one merge to the next.

## Main definitions

- `Arrangement.lead`: the length of the leading part of a list that passes a test
- `Arrangement.Weave`: a merge on its way
- `Arrangement.merge`: two runs merged
-/

namespace Plebiscite.Arrangement

variable {α : Type}

/-! ## Leading parts -/

/-- Whether the element at a place passes a test. -/
def passes (test : α → Bool) (l : List α) (place : Nat) : Bool :=
  l[place]?.any test

/-- Strides along a list as long as the element at `place` passes, each time twice as far as before.
Gives the last place that passed and the one that did not, or the end. -/
def stride (test : α → Bool) (l : List α) : (fuel passed place : Nat) → Nat × Nat
  | 0, passed, _ => (passed, l.length)
  | fuel + 1, passed, place =>
    if l.length ≤ place then (passed, l.length)
    else if passes test l place then stride test l fuel place (2 * place + 1)
    else (passed, place)

/-- Halves the places from `low` to `high` until one is left.  From the back the middle is the
earlier of two. -/
def halve (test : α → Bool) (fromBack : Bool) (l : List α) : (fuel low high : Nat) → Nat
  | 0, low, _ => low
  | fuel + 1, low, high =>
    if high ≤ low then low
    else
      let middle := low + (high - low - (if fromBack then 1 else 0)) / 2
      if passes test l middle then halve test fromBack l fuel (middle + 1) high
      else halve test fromBack l fuel low middle

/-- The length of the leading part of a list that passes a test, if nothing after that part
does. -/
def lead (test : α → Bool) (fromBack : Bool) (l : List α) : Nat :=
  if passes test l 0 then
    let (passed, failed) := stride test l l.length 0 1
    halve test fromBack l l.length (passed + 1) failed
  else 0

/-! ## Weaves -/

/-- A merge on its way.  From the back all lists are reversed. -/
structure Weave (α : Type) where
  /-- What was moved so far, latest first. -/
  moved : List α
  /-- What is left of the shorter run. -/
  short : List α
  /-- What is left of the longer run. -/
  long : List α

namespace Weave

/-- Whether what is left follows without a comparison. -/
def isOver (w : Weave α) : Bool :=
  decide (w.short.length ≤ 1) || w.long.isEmpty

/-- Moves elements of the shorter run. -/
def moveShort (n : Nat) (w : Weave α) : Weave α :=
  if w.isOver then w
  else ⟨(w.short.take n).reverse ++ w.moved, w.short.drop n, w.long⟩

/-- Moves elements of the longer run. -/
def moveLong (n : Nat) (w : Weave α) : Weave α :=
  if w.isOver then w
  else ⟨(w.long.take n).reverse ++ w.moved, w.short, w.long.drop n⟩

/-- All elements, what was moved first. -/
def toList (w : Weave α) : List α :=
  w.moved.reverse ++ w.long ++ w.short

end Weave

/-- How a merge goes. -/
structure Manner (α : Type) where
  /-- Whether an element of the longer run goes before one of the shorter run. -/
  longFirst : (short long : α) → Bool
  /-- Whether the merge goes from the back. -/
  fromBack : Bool

namespace Manner

/-- How many elements of the shorter run go before all of the longer run. -/
def shortLead (m : Manner α) (w : Weave α) : Nat :=
  match w.long with
  | [] => 0
  | b :: _ => lead (fun a => !m.longFirst a b) m.fromBack w.short

/-- How many elements of the longer run go before all of the shorter run. -/
def longLead (m : Manner α) (w : Weave α) : Nat :=
  match w.short with
  | [] => 0
  | a :: _ => lead (fun b => m.longFirst a b) m.fromBack w.long

/-- The number of elements that a leading part must have to be worth looking for. -/
def worthwhile : Nat :=
  7

/-- Moves elements one by one until one run has won `patience` times in a row. -/
def moveSingly (m : Manner α) (patience : Nat) :
    (fuel shortWins longWins : Nat) → Weave α → Weave α
  | 0, _, _, w => w
  | fuel + 1, shortWins, longWins, w =>
    if w.isOver || decide (patience ≤ shortWins) || decide (patience ≤ longWins) then w
    else
      match w.short, w.long with
      | a :: _, b :: _ =>
        if m.longFirst a b then moveSingly m patience fuel 0 (longWins + 1) (w.moveLong 1)
        else moveSingly m patience fuel (shortWins + 1) 0 (w.moveShort 1)
      | _, _ => w

/-- Moves the leading parts of both runs, each with the element that stopped it.  Also says whether
this was worthwhile. -/
def moveLeads (m : Manner α) (w : Weave α) : Weave α × Bool :=
  if m.fromBack then
    let long := m.longLead w
    let w := (w.moveLong long).moveShort 1
    let short := m.shortLead w
    ((w.moveShort short).moveLong 1, decide (worthwhile ≤ short ∨ worthwhile ≤ long))
  else
    let short := m.shortLead w
    let w := (w.moveShort short).moveLong 1
    let long := m.longLead w
    ((w.moveLong long).moveShort 1, decide (worthwhile ≤ short ∨ worthwhile ≤ long))

/-- Moves leading parts as long as it is worthwhile.  Every further time it takes one win less to
come back here, and one more once it was not worthwhile. -/
def moveAllLeads (m : Manner α) : (fuel patience : Nat) → Weave α → Weave α × Nat
  | 0, patience, w => (w, patience)
  | fuel + 1, patience, w =>
    let (w, again) := m.moveLeads w
    if w.isOver then (w, patience)
    else if again then moveAllLeads m fuel (max 1 (patience - 1)) w
    else (w, patience + 1)

/-- Moves elements until the merge is over, in turns one by one and by leading parts. -/
def weave (m : Manner α) : (fuel patience : Nat) → Weave α → Weave α × Nat
  | 0, patience, w => (w, patience)
  | fuel + 1, patience, w =>
    let w := m.moveSingly patience (w.short.length + w.long.length) 0 0 w
    if w.isOver then (w, patience)
    else
      let (w, patience) := m.moveAllLeads (w.short.length + w.long.length) patience w
      if w.isOver then (w, patience) else weave m fuel patience w

/-- Merges two runs, the first element of the longer one first. -/
def merge (m : Manner α) (patience : Nat) (short long : List α) : List α × Nat :=
  let (w, patience) := m.weave (short.length + long.length) patience
    (Weave.moveLong 1 ⟨[], short, long⟩)
  (w.toList, patience)

end Manner

/-! ## Merging -/

/-- Merges two runs of which the earlier one starts after the first element of the later one, and
the later one ends before the last element of the earlier one. -/
def mergeOverlap (before : α → α → Bool) (patience : Nat) (a b : List α) : List α × Nat :=
  if a.length ≤ b.length then
    Manner.merge ⟨fun x y => before y x, false⟩ patience a b
  else
    let (l, patience) := Manner.merge ⟨fun y x => before y x, true⟩ patience b.reverse a.reverse
    (l.reverse, patience)

/-- Merges two runs that follow each other.  What is in place already is not touched: the elements
of the first that are not after the start of the second, and those of the second that are not
before the end of the first. -/
def merge (before : α → α → Bool) (patience : Nat) (a b : List α) : List α × Nat :=
  match b with
  | [] => (a, patience)
  | start :: _ =>
    let settled := lead (fun x => !before start x) false a
    let a' := a.drop settled
    match a'.getLast? with
    | none => (a ++ b, patience)
    | some last =>
      let unsettled := b.length - lead (fun x => !before x last) true b.reverse
      let (middle, patience) := mergeOverlap before patience a' (b.take unsettled)
      (a.take settled ++ middle ++ b.drop unsettled, patience)

end Plebiscite.Arrangement
