/-!
# Runs

A list is cut into ascending runs from front to back.  A run is what goes on in one direction, as
far as it does; a short one is filled up with the elements that follow, each placed by halving.

## Main definitions

- `Arrangement.leadingRun`: the run that a list starts with, and what follows it
- `Arrangement.place`: an element placed in an ascending list by halving
- `Arrangement.leastRun`: the least length of the runs of a list
- `Arrangement.runs`: the runs of a list
-/

namespace Plebiscite.Arrangement

variable {α : Type}

/-- The elements that go on in one direction after `last`, and what follows them. -/
def run (goesOn : α → α → Bool) (last : α) : List α → List α × List α
  | [] => ([], [])
  | a :: rest =>
    if goesOn last a then
      let (more, left) := run goesOn a rest
      (a :: more, left)
    else ([], a :: rest)

/-- The run that a list starts with, in ascending order, and what follows it.  A run descends
strictly or never descends. -/
def leadingRun (before : α → α → Bool) : List α → List α × List α
  | [] => ([], [])
  | [a] => ([a], [])
  | a :: b :: rest =>
    if before b a then
      let (more, left) := run (fun last next => before next last) b rest
      ((a :: b :: more).reverse, left)
    else
      let (more, left) := run (fun last next => !before next last) b rest
      (a :: b :: more, left)

/-- Places an element in an ascending list of at most `fuel` elements: it goes into the half before
the middle element if it is before that element, and into the half after it otherwise. -/
def placeWithin (before : α → α → Bool) (x : α) : Nat → List α → List α
  | 0, l => x :: l
  | fuel + 1, l =>
    let middle := l.length / 2
    match l.drop middle with
    | [] => [x]
    | a :: rest =>
      if before x a then placeWithin before x fuel (l.take middle) ++ a :: rest
      else l.take middle ++ a :: placeWithin before x fuel rest

/-- Places an element in an ascending list. -/
def place (before : α → α → Bool) (l : List α) (x : α) : List α :=
  placeWithin before x l.length l

/-- The least length of a run in a list of `n` elements: all of them if they are fewer than 64, and
else the leading six bits of their number, one more if any of the other bits is set. -/
def leastRun (n : Nat) : Nat :=
  halved n 0
where
  /-- Drops the last bit of `n` until it is below 64; `dropped` is 1 once a set bit was dropped. -/
  halved (n dropped : Nat) : Nat :=
    if n < 64 then n + dropped
    else halved (n / 2) (if n % 2 = 1 then 1 else dropped)
  termination_by n
  decreasing_by omega

/-- The first run of a list, of at least the given length unless the list is shorter, and what
follows it. -/
def filledRun (before : α → α → Bool) (least : Nat) (l : List α) : List α × List α :=
  let (start, rest) := leadingRun before l
  let missing := least - start.length
  ((rest.take missing).foldl (place before) start, rest.drop missing)

/-- The runs of a list that is cut at most `fuel` times. -/
def runsWithin (before : α → α → Bool) (least : Nat) : Nat → List α → List (List α)
  | 0, _ => []
  | _, [] => []
  | fuel + 1, l =>
    let (first, rest) := filledRun before least l
    first :: runsWithin before least fuel rest

/-- The runs of a list. -/
def runs (before : α → α → Bool) (l : List α) : List (List α) :=
  runsWithin before (leastRun l.length) l.length l

end Plebiscite.Arrangement
