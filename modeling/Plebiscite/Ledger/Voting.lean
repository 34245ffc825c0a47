import Plebiscite.Ledger.Basic

/-!
# Voting

## Main definitions

- `Ledger.applyVote`: a member casts a ballot or changes it
- `Ledger.extendVote`: the end of a vote moves later
- `Ledger.updateTopic`: a vote gets another topic, and its tallies may be cleared
-/

namespace Plebiscite.Ledger

/-- What an accepted ballot did. -/
structure Receipt where
  voteId : Number
  voter : Value
  /-- The stance before. -/
  previous : Stance
  /-- The ballot now. -/
  ballot : Ballot
  poll : Poll
deriving DecidableEq, Repr, Inhabited

/-- Casts or changes the ballot of a member.  The vote must exist and not be over, the member must
hold signal in it, and the ballot must change. -/
def applyVote (env : Environment) (id voter : Value) (stance : Stance) (justification : Value) :
    Step Receipt := do
  let ledger ← get
  let vote ← check (ledger.require id)
  let now ← check env.height
  if let some ends := vote.poll.endedBy? now then throw (.ended vote.id ends)
  -- Members are known by name, whatever the voter was given as.
  let name := voter.display
  let some previous := vote.ballot? name | throw (.noSignal voter vote.id)
  -- Both the ballot and the tallies are computed before either is written.
  let ballot ← check (previous.change stance justification)
  let poll ← check (vote.poll.transfer previous.magnitude previous.counted stance)
  writeBallot vote.id name ballot
  writePoll vote.id poll
  return ⟨vote.id, voter, previous.stance, ballot, poll⟩

/-- Moves the end of a vote to `additional` blocks from now, if that is later. -/
def extendVote (env : Environment) (id additional : Value) : Step Poll := do
  let ledger ← get
  let vote ← check (ledger.require id)
  let now ← check env.height
  -- The height is checked also for a vote that has no end to move.
  let candidate ← check (Height.add (.number now) additional)
  let poll := vote.poll.extend candidate
  writePoll vote.id poll
  return poll

/-- Replaces the topic of a vote.  With `clear` the tallies start from nothing, and the ballots
are reset as the settings say; the signal stays as it was minted. -/
def updateTopic (id topic : Value) (clear : Bool) : Step Poll := do
  let ledger ← get
  let vote ← check (ledger.require id)
  let poll := vote.poll.retitle topic clear
  if clear then
    vote.seats.forM fun seat =>
      writeBallot vote.id seat.name (ledger.settings.policy.reset seat.ballot)
  writePoll vote.id poll
  return poll

end Plebiscite.Ledger
