import Plebiscite.Digest.Sha256
import Plebiscite.Ledger.Basic
import Plebiscite.Snapshot.Reader
import Plebiscite.Snapshot.Writer
import Plebiscite.Value.Canonical

/-!
# Storing and restoring a ledger

A snapshot of a ledger depends on its state alone.  Restoring checks a snapshot completely: the
shape of every entry, that identifiers and records are not repeated, that every record belongs to
a vote, and that in each vote the ballots add up to the turnout and to the tallies.

## Main definitions

- `Ledger.snapshot`: the stored form of a ledger
- `Ledger.stateHash`: the digest of its canonical text
- `Ledger.restore`: the ledger that a snapshot stores
-/

namespace Plebiscite

/-- The digest of the canonical text of a value. -/
def Value.digest (v : Value) : String :=
  Sha256.hex v.canonical

namespace Ledger

/-! ## Storing -/

/-- The counters by name; one that was never set is listed without a value. -/
def counters (l : Ledger) : List (String × Value) :=
  [("voteId", .ofNumber? l.lastVote),
   ("thresholdId", l.register.counter),
   ("openVotes", .ofNumber? l.openVotes)]

/-- The stored records of a vote. -/
def recordsOf (vote : Vote) : List Snapshot.RecordEntry :=
  vote.seats.map fun seat => Snapshot.ofBallot vote.id seat.member seat.ballot

/-- The stored form of a ledger. -/
def snapshot (l : Ledger) : Snapshot :=
  { version := .number 1
    counters := l.counters
    thresholds := l.register.listed.map Snapshot.ofRegistration
    votes := l.votes.map fun vote => Snapshot.ofPoll vote.id vote.poll
    records := l.votes.flatMap recordsOf }

/-- The digest of the canonical text of the stored form. -/
def stateHash (l : Ledger) : String :=
  l.snapshot.toValue.digest

/-! ## Restoring -/

/-- A stored record that was read. -/
structure ReadRecord where
  voteId : Number
  seat : Seat
deriving DecidableEq, Repr, Inhabited

/-- Refuses a counter that is not a count. -/
def checkCounter (counter : String × Value) : Except Fault Unit :=
  match counter.2 with
  | .number n =>
    if n.isSafeInteger && Number.le 0 n then .ok ()
    else Snapshot.refuse (.counter counter.1)
  | _ => Snapshot.refuse (.counter counter.1)

/-- The counter of a name, absent if it is not there. -/
def counterOf (s : Snapshot) (name : String) : Value :=
  (s.counters.lookup name).getD .absent

/-- Adds a stored threshold to those read before. -/
def restoreThreshold (r : Register) (e : Snapshot.ThresholdEntry) : Except Fault Register := do
  let entry ← Snapshot.readRegistration e
  r.restore entry.id entry.electorate (.ok entry.rule)

/-- The poll of an identifier among those read so far. -/
def pollOf (polls : List (Number × Poll)) (v : Value) : Option (Number × Poll) :=
  match v with
  | .number n => polls.find? (·.1 = n)
  | _ => none

/-- Adds a stored vote to those read before. -/
def restorePoll (polls : List (Number × Poll)) (e : Snapshot.VoteEntry) :
    Except Fault (List (Number × Poll)) := do
  -- A repeated identifier is found by its value, before the entry is read.
  if let some (id, _) := pollOf polls e.id then Snapshot.refuse (.repeatedVote id)
  let (id, poll) ← Snapshot.readPoll e
  if poll.turnout < poll.inFavor + poll.against then Snapshot.refuse (.excessTallies id)
  if !poll.threshold.isWithin poll.turnout then Snapshot.refuse (.excessThreshold id)
  return polls ++ [(id, poll)]

/-- Adds a stored record to those read before. -/
def restoreRecord (polls : List (Number × Poll)) (records : List ReadRecord)
    (e : Snapshot.RecordEntry) : Except Fault (List ReadRecord) := do
  let name := e.member.display
  let some (id, _) := pollOf polls e.voteId
    | Snapshot.refuse (.strayRecord name e.voteId.display)
  if records.any fun r => r.voteId = id ∧ r.seat.name = name then
    Snapshot.refuse (.repeatedRecord id name)
  let ballot ← Snapshot.readBallot e
  return records ++ [⟨id, ⟨e.member, ballot⟩⟩]

/-- The signal that all seats hold. -/
def mintedOf (seats : List Seat) : Int :=
  Signal.total (seats.map (·.ballot.magnitude))

/-- The signal of the seats that are counted under a stance. -/
def countedOf (stance : Stance) (seats : List Seat) : Int :=
  mintedOf (seats.filter fun seat => seat.ballot.counted = stance)

/-- Seats in the order of their members; those of no member come last. -/
def seated (seats : List Seat) : List Seat :=
  let (absent, present) := seats.partition (·.member.isAbsent)
  Arrangement.arrange (Plan.isNamed ·.member) (fun a b => a.member.before b.member) present ++
    absent

/-- The vote that a poll and the records of all votes make, if the ballots add up. -/
def assemble (records : List ReadRecord) (id : Number) (poll : Poll) : Except Fault Vote := do
  let seats := seated ((records.filter (·.voteId = id)).map (·.seat))
  let minted := mintedOf seats
  -- Too much or too little signal is reported before wrong tallies.
  if minted ≠ poll.turnout then Snapshot.refuse (.issuance id minted poll.turnout)
  let inFavor := countedOf .inFavor seats
  let against := countedOf .against seats
  if inFavor ≠ poll.inFavor ∨ against ≠ poll.against then
    Snapshot.refuse (.tallies id poll.inFavor poll.against inFavor against)
  return ⟨id, poll, poll.turnout, seats⟩

/-- Refuses a version that is not known. -/
def checkVersion (v : Value) : Except Fault Unit :=
  match v with
  | .number n => if n = 1 then .ok () else Snapshot.refuse (.version n.text)
  | v => Snapshot.refuse (.version v.display)

/-- The ledger that a snapshot stores, under the given options. -/
def restore (o : Options) (s : Snapshot) : Except Fault Ledger := do
  -- An unknown version is refused whatever the options are.
  checkVersion s.version
  let settings ← o.settings
  s.counters.forM checkCounter
  let register ← s.thresholds.foldlM restoreThreshold .empty
  let polls ← s.votes.foldlM restorePoll []
  let records ← s.records.foldlM (restoreRecord polls) []
  -- Votes are weighed in the order in which they are stored, and sorted after that.
  let votes ← polls.mapM fun (id, poll) => assemble records id poll
  return {
    settings
    register := { register with counter := counterOf s "thresholdId" }
    votes := votes.foldl insertVote []
    lastVote := (counterOf s "voteId").number?
    openVotes := (counterOf s "openVotes").number? }

end Ledger

end Plebiscite
