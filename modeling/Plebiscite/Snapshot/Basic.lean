import Plebiscite.Electorate
import Plebiscite.Threshold.Basic

/-!
# Snapshots

A snapshot is the stored form of a ledger: three counters, and the thresholds, votes and records
in order.  Amounts of signal are decimal texts.  Because a snapshot may come from anywhere, every
field that is checked on the way back in holds a value of unknown shape; a snapshot that the
ledger writes holds only values of the right shape.

## Main definitions

- `Snapshot`, with `Snapshot.ThresholdEntry`, `Snapshot.VoteEntry`, `Snapshot.RecordEntry`
- `Snapshot.ofValue`, `Snapshot.toValue`: a snapshot as one value
-/

namespace Plebiscite

namespace Snapshot

/-- A stored threshold. -/
structure ThresholdEntry where
  id : Value
  electorate : Electorate
  /-- The word for the unit of the bounds. -/
  kind : Value
  threshold : Threshold Value

/-- The stored aggregate of a vote. -/
structure VoteEntry where
  id : Value
  topic : Value
  turnout : Value
  threshold : Threshold Value
  inFavor : Value
  against : Value
  initialized : Value
  /-- The last height at which ballots are taken, if the vote ends. -/
  ends : Option Value

/-- The stored ballot of a member. -/
structure RecordEntry where
  voteId : Value
  member : Value
  magnitude : Value
  stance : Value
  justification : Value
  /-- Whether the ballot is stale; absent means that it is not. -/
  stale : Option Value

end Snapshot

/-- The stored form of a ledger. -/
structure Snapshot where
  version : Value
  /-- The counters by name, in the order in which they are listed. -/
  counters : List (String × Value)
  thresholds : List Snapshot.ThresholdEntry
  votes : List Snapshot.VoteEntry
  records : List Snapshot.RecordEntry

namespace Snapshot

/-! ## From a value -/

/-- The stored threshold that a value holds. -/
def ThresholdEntry.ofValue (v : Value) : ThresholdEntry :=
  let rule := v.get "rule"
  ⟨v.get "id", ⟨v.get "org"⟩, rule.get "kind", .ofValue (rule.get "threshold")⟩

/-- The stored vote that a value holds. -/
def VoteEntry.ofValue (v : Value) : VoteEntry :=
  { id := v.get "id"
    topic := v.get "topic"
    turnout := v.get "totalPossibleTurnout"
    threshold := .ofValue (v.get "threshold")
    inFavor := v.get "inFavor"
    against := v.get "against"
    initialized := v.get "initialized"
    ends := (v.get "ends").present? }

/-- The stored record that a value holds. -/
def RecordEntry.ofValue (v : Value) : RecordEntry :=
  { voteId := v.get "voteId"
    member := v.get "member"
    magnitude := v.get "magnitude"
    stance := v.get "direction"
    justification := v.get "justification"
    stale := (v.get "stale").present? }

/-- The snapshot that a value holds. -/
def ofValue (v : Value) : Snapshot :=
  { version := v.get "version"
    counters := (v.get "counters").entries
    thresholds := (v.get "thresholds").items.map ThresholdEntry.ofValue
    votes := (v.get "votes").items.map VoteEntry.ofValue
    records := (v.get "records").items.map RecordEntry.ofValue }

/-! ## To a value -/

/-- A stored threshold as a value. -/
def ThresholdEntry.toValue (e : ThresholdEntry) : Value :=
  .object
    [("id", e.id),
     ("org", e.electorate.description),
     ("rule", .object [("kind", e.kind), ("threshold", e.threshold.toValue)])]

/-- A stored vote as a value. -/
def VoteEntry.toValue (e : VoteEntry) : Value :=
  .object
    [("id", e.id),
     ("topic", e.topic),
     ("totalPossibleTurnout", e.turnout),
     ("threshold", e.threshold.toValue),
     ("inFavor", e.inFavor),
     ("against", e.against),
     ("initialized", e.initialized),
     ("ends", e.ends.getD .absent)]

/-- A stored record as a value. -/
def RecordEntry.toValue (e : RecordEntry) : Value :=
  .object
    [("voteId", e.voteId),
     ("member", e.member),
     ("magnitude", e.magnitude),
     ("direction", e.stance),
     ("justification", e.justification),
     ("stale", e.stale.getD .absent)]

/-- A snapshot as a value. -/
def toValue (s : Snapshot) : Value :=
  .object
    [("version", s.version),
     ("counters", .object s.counters),
     ("thresholds", .array (s.thresholds.map ThresholdEntry.toValue)),
     ("votes", .array (s.votes.map VoteEntry.toValue)),
     ("records", .array (s.records.map RecordEntry.toValue))]

end Snapshot

end Plebiscite
