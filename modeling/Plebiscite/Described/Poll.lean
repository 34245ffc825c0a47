import Plebiscite.Described.Signal
import Plebiscite.Poll

/-!
# Rules on described polls and ballots

The rules of polls and ballots on values whose types nobody has checked.  A poll is described by
the properties `topic`, `totalPossibleTurnout`, `threshold`, `inFavor`, `against`, `initialized`
and `ends`, a ballot by `magnitude`, `direction`, `justification` and `stale`.  What a rule does
not change is kept as it was given, with all that was said besides.

## Main definitions

- `Described.createPoll`, `Described.mintBallot`: new ones
- `Described.change`, `Described.counted`, `Described.markStale`: rules on ballots
- `Described.transfer`, `Described.outcome`: tallies
- `Described.isPastEnd`, `Described.extend`, `Described.retitle`: time and topic
-/

namespace Plebiscite.Described

/-! ## Ballots -/

/-- The ballot that a member is given at minting. -/
def mintBallot (magnitude : Value) : Value :=
  .object
    [("magnitude", magnitude), ("direction", Stance.uninitialized.toValue),
     ("justification", .absent)]

/-- The stance of a ballot. -/
def stance (ballot : Value) : Stance :=
  .ofValue (ballot.get "direction")

/-- Whether a ballot is marked as stale. -/
def isStale (ballot : Value) : Bool :=
  decide (ballot.get "stale" = .bool true)

/-- The stance that a ballot is counted under; a stale ballot is counted as not cast. -/
def counted (ballot : Value) : Stance :=
  if isStale ballot then .uninitialized else stance ballot

/-- Stops counting a ballot and keeps its stance. -/
def markStale (ballot : Value) : Value :=
  if isStale ballot || !(stance ballot).isSided then ballot
  else ballot.amend [("stale", .bool true)]

/-- The ballot with a new stance.  Casting a counted stance again is refused. -/
def change (ballot : Value) (wanted : Stance) (justification : Value) : Except Fault Value :=
  if (stance ballot).repeats wanted && !isStale ballot then .error (.unchanged wanted)
  else .ok (.object
    [("magnitude", ballot.get "magnitude"), ("direction", wanted.toValue),
     ("justification", justification)])

/-! ## Polls -/

/-- A new poll, with nothing counted yet. -/
def createPoll (topic turnout threshold initialized ends : Value) : Value :=
  .object
    [("topic", topic), ("totalPossibleTurnout", turnout), ("threshold", threshold.amend []),
     ("inFavor", .integer 0), ("against", .integer 0), ("initialized", initialized),
     ("ends", ends)]

/-- Two tallies. -/
structure Tallies where
  inFavor : Value
  against : Value

/-- Takes a ballot out of the side that it is counted on. -/
def Tallies.remove (t : Tallies) (magnitude : Value) (held wanted : Stance) :
    Except Fault Tallies :=
  match held with
  | .inFavor => do
    if t.inFavor.before magnitude then throw (.brokenTally held wanted)
    let inFavor ← sub t.inFavor magnitude
    return { t with inFavor }
  | .against => do
    if t.against.before magnitude then throw (.brokenTally held wanted)
    let against ← sub t.against magnitude
    return { t with against }
  | _ => .ok t

/-- Puts a ballot on the side of its stance. -/
def Tallies.count (t : Tallies) (magnitude : Value) (wanted : Stance) : Except Fault Tallies :=
  match wanted with
  | .inFavor => do
    let inFavor ← add t.inFavor magnitude
    return { t with inFavor }
  | .against => do
    let against ← add t.against magnitude
    return { t with against }
  | _ => .ok t

/-- Moves a ballot from the stance that it is counted under to another. -/
def transfer (poll magnitude : Value) (held wanted : Stance) : Except Fault Value := do
  if wanted = .uninitialized then throw (.withdrawal held)
  let tallies : Tallies := ⟨poll.get "inFavor", poll.get "against"⟩
  let removed ← tallies.remove magnitude held wanted
  let next ← removed.count magnitude wanted
  if (poll.get "totalPossibleTurnout").before (next.inFavor.plus next.against) then
    throw (.brokenTally held wanted)
  return poll.amend [("inFavor", next.inFavor), ("against", next.against)]

/-- What the tallies amount to.  A bound against that is met rejects the vote, whatever is in
favor. -/
def outcome (poll : Value) : Outcome :=
  let threshold := Threshold.ofValue (poll.get "threshold")
  if threshold.against.any (·.notAfter (poll.get "against")) then .rejected
  else if threshold.inFavor.notAfter (poll.get "inFavor") then .approved
  else .pending

/-- Whether a vote is over. -/
def isPastEnd (poll now : Value) : Bool :=
  (poll.get "ends").present?.any (·.before now)

/-- Moves the end to a height that is later.  A vote without an end keeps none. -/
def extend (poll candidate : Value) : Value :=
  match (poll.get "ends").present? with
  | none => poll
  | some ends => if candidate.notAfter ends then poll else poll.amend [("ends", candidate)]

/-- Replaces the topic, clearing the tallies if asked to. -/
def retitle (poll topic : Value) (clear : Bool) : Value :=
  poll.amend (("topic", topic) ::
    if clear then [("inFavor", .integer 0), ("against", .integer 0)] else [])

end Plebiscite.Described
