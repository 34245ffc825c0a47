import Plebiscite.Register
import Plebiscite.Snapshot.Basic

/-!
# Storing described state

The stored forms of polls, ballots and thresholds whose properties nobody has checked.  An amount
of signal is stored as its text, whatever it is.

## Main definitions

- `Described.storedThreshold`, `Described.storedRegistration`, `Described.storedPoll`,
  `Described.storedBallot`: the stored forms
-/

namespace Plebiscite.Described

/-- An amount in stored form. -/
def storedAmount (amount : Value) : Value :=
  .text amount.display

/-- The stored form of a threshold in signal.  Only the bounds are stored. -/
def storedThreshold (threshold : Value) : Threshold Value :=
  (Threshold.ofValue threshold).bare.map storedAmount

/-- The stored form of a threshold that is kept for later votes. -/
def storedRegistration (entry : Value) : Snapshot.ThresholdEntry :=
  let rule := entry.get "rule"
  let threshold := rule.get "threshold"
  let electorate := (Electorate.mk (entry.get "org")).copy
  if Rule.isSignalUnit (rule.get "kind") then
    ⟨entry.get "id", electorate, .text "signal", storedThreshold threshold⟩
  else ⟨entry.get "id", electorate, .text "percent", (Threshold.ofValue threshold).bare⟩

/-- The stored form of a poll. -/
def storedPoll (id poll : Value) : Snapshot.VoteEntry :=
  { id
    topic := poll.get "topic"
    turnout := storedAmount (poll.get "totalPossibleTurnout")
    threshold := storedThreshold (poll.get "threshold")
    inFavor := storedAmount (poll.get "inFavor")
    against := storedAmount (poll.get "against")
    initialized := poll.get "initialized"
    ends := (poll.get "ends").present? }

/-- The stored form of a ballot. -/
def storedBallot (voteId member ballot : Value) : Snapshot.RecordEntry :=
  { voteId
    member
    magnitude := storedAmount (ballot.get "magnitude")
    stance := ballot.get "direction"
    justification := ballot.get "justification"
    stale := if ballot.get "stale" = .bool true then some (.bool true) else none }

end Plebiscite.Described
