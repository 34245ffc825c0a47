import Plebiscite.Poll
import Plebiscite.Register
import Plebiscite.Snapshot.Basic

/-!
# Writing entries of a snapshot

## Main definitions

- `Snapshot.ofRegistration`, `Snapshot.ofPoll`, `Snapshot.ofBallot`: the entries
-/

namespace Plebiscite.Snapshot

/-- An amount of signal in stored form. -/
def ofAmount (n : Int) : Value :=
  .text (Signal.format n)

/-- The stored form of a threshold in signal.  Only the bounds are stored. -/
def ofThreshold (t : Threshold Int) : Threshold Value :=
  t.bare.map ofAmount

/-- The stored bounds of a rule. -/
def ofRule : Rule → Threshold Value
  | .signal t => ofThreshold t
  | .percent t => t.bare.map Value.number

/-- The stored form of a threshold. -/
def ofRegistration (r : Registration) : ThresholdEntry :=
  ⟨r.id, r.electorate.copy, .text r.rule.unit, ofRule r.rule⟩

/-- The stored form of a poll. -/
def ofPoll (id : Number) (p : Poll) : VoteEntry :=
  { id := .number id
    topic := p.topic
    turnout := ofAmount p.turnout
    threshold := ofThreshold p.threshold
    inFavor := ofAmount p.inFavor
    against := ofAmount p.against
    initialized := .number p.initialized
    ends := p.ends.map Value.number }

/-- The stored form of a ballot. -/
def ofBallot (voteId : Number) (member : Value) (b : Ballot) : RecordEntry :=
  { voteId := .number voteId
    member
    magnitude := ofAmount b.magnitude
    stance := b.stance.toValue
    justification := b.justification
    stale := if b.stale then some (.bool true) else none }

end Plebiscite.Snapshot
