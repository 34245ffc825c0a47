import Plebiscite.Fault
import Plebiscite.Signal

/-!
# Polls and ballots

A poll is the aggregate of one vote: its topic, the signal minted for it, its bounds, the running
tallies and its time.  A ballot is what one member holds of it.  The steps here are pure; the
block height is always given.

A ballot that was counted when the tallies were cleared may be kept as *stale*: it keeps its
stance and counts for neither side until it is cast again.

## Main definitions

- `Poll`, `Ballot`: the two kinds of state
- `Ballot.change`: a ballot with another stance
- `Poll.transfer`: the tallies after a ballot moved
- `Poll.outcome`: what the tallies amount to
- `Poll.endedBy?`, `Poll.extend`, `Poll.retitle`: time and topic
-/

namespace Plebiscite

/-- The aggregate of one vote. -/
structure Poll where
  /-- What is voted on: a reference that nobody looks into. -/
  topic : Value
  /-- All signal minted for the vote. -/
  turnout : Int
  threshold : Threshold Int
  /-- The signal of the ballots in favor. -/
  inFavor : Int
  /-- The signal of the ballots against. -/
  against : Int
  initialized : Number
  /-- The last height at which ballots are taken, if the vote ends. -/
  ends : Option Number
deriving DecidableEq, Repr, Inhabited

/-- What one member holds of a vote. -/
structure Ballot where
  /-- The signal minted to the member. -/
  magnitude : Int
  stance : Stance
  /-- Why the member holds it: a reference that nobody looks into. -/
  justification : Value
  /-- Kept from before the tallies were cleared, and not counted since. -/
  stale : Bool
deriving DecidableEq, Repr, Inhabited

/-! ## Ballots -/

namespace Ballot

/-- The ballot that a member is given at minting. -/
def mint (magnitude : Int) : Ballot :=
  ⟨magnitude, .uninitialized, .absent, false⟩

/-- The stance that the ballot is counted under; a stale ballot is counted as not cast. -/
def counted (b : Ballot) : Stance :=
  if b.stale then .uninitialized else b.stance

/-- Stops counting a ballot and keeps its stance. -/
def markStale (b : Ballot) : Ballot :=
  if b.stance.isSided then { b with stale := true } else b

/-- The ballot with a new stance.  Casting a counted stance again is refused; casting a stale one
again is not. -/
def change (b : Ballot) (stance : Stance) (justification : Value) : Except Fault Ballot :=
  if b.stance.repeats stance && !b.stale then .error (.unchanged stance)
  else .ok ⟨b.magnitude, stance, justification, false⟩

end Ballot

/-! ## Polls -/

namespace Poll

/-- A new poll, with nothing counted yet. -/
def create (topic : Value) (turnout : Int) (threshold : Threshold Int)
    (initialized : Number) (ends : Option Number) : Poll :=
  ⟨topic, turnout, threshold, 0, 0, initialized, ends⟩

/-- Takes a ballot out of the side that it is counted on. -/
def remove (p : Poll) (magnitude : Int) (held wanted : Stance) : Except Fault Poll :=
  match held with
  | .inFavor => do
    if p.inFavor < magnitude then throw (.brokenTally held wanted)
    let inFavor ← Signal.sub p.inFavor magnitude
    return { p with inFavor }
  | .against => do
    if p.against < magnitude then throw (.brokenTally held wanted)
    let against ← Signal.sub p.against magnitude
    return { p with against }
  | _ => .ok p

/-- Puts a ballot on the side of its stance. -/
def count (p : Poll) (magnitude : Int) (wanted : Stance) : Except Fault Poll :=
  match wanted with
  | .inFavor => do
    let inFavor ← Signal.add p.inFavor magnitude
    return { p with inFavor }
  | .against => do
    let against ← Signal.add p.against magnitude
    return { p with against }
  | _ => .ok p

/-- Moves a ballot from the stance that it is counted under to another.  A ballot cannot be
withdrawn, and the tallies together stay within the turnout. -/
def transfer (p : Poll) (magnitude : Int) (held wanted : Stance) : Except Fault Poll := do
  if wanted = .uninitialized then throw (.withdrawal held)
  -- The old side is left before the new one is joined, so a recast never counts twice.
  let removed ← p.remove magnitude held wanted
  let next ← removed.count magnitude wanted
  if p.turnout < next.inFavor + next.against then throw (.brokenTally held wanted)
  return next

/-- What the tallies amount to.  A bound against that is met rejects the vote, whatever is in
favor. -/
def outcome (p : Poll) : Outcome :=
  if p.threshold.against.any (· ≤ p.against) then .rejected
  else if p.threshold.inFavor ≤ p.inFavor then .approved
  else .pending

/-- The end of the vote, if that is before `now`.  At its last height a vote still takes
ballots. -/
def endedBy? (p : Poll) (now : Number) : Option Number :=
  p.ends.filter fun ends => ends.lt now

/-- Whether the vote is over. -/
def isPastEnd (p : Poll) (now : Number) : Bool :=
  (p.endedBy? now).isSome

/-- Moves the end to a height that is later.  A vote without an end keeps none. -/
def extend (p : Poll) (candidate : Number) : Poll :=
  match p.ends with
  | none => p
  | some ends => if candidate.le ends then p else { p with ends := some candidate }

/-- Replaces the topic, clearing the tallies if asked to. -/
def retitle (p : Poll) (topic : Value) (clear : Bool) : Poll :=
  if clear then { p with topic, inFavor := 0, against := 0 } else { p with topic }

end Poll

end Plebiscite
