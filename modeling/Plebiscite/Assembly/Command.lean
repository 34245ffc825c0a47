import Plebiscite.Assembly.Basic
import Plebiscite.Form.Command
import Plebiscite.Ledger.Command

/-!
# Commands of the assembly

Every command reads its form first, then checks the authority of the caller, then acts on the
ledger, and only then records the event and writes to the journal.  Casting a ballot needs no
authority; every member with signal may do it.

## Main definitions

- `Assembly.registerThreshold`, `Assembly.openVote`, `Assembly.openPercentVote`,
  `Assembly.invokeThreshold`, `Assembly.submitVote`, `Assembly.extendVote`,
  `Assembly.updateTopic`: the commands
- `Assembly.Command`, `Assembly.perform`: the commands as data
-/

open Plebiscite.Assembly.Action

namespace Plebiscite.Assembly

/-- Keeps a rule for later votes. -/
def registerThreshold (host : Host) (caller : Value) (payload : Value) : Step Registration :=
  run "registerThreshold" ("caller", caller) do
    let command ← accept (Form.registerThreshold payload)
    note fun s => { s with org := command.electorate.org }
    authorize host command.electorate.org caller .registerThresholds
    let entry ← onLedger (Ledger.registerThreshold command.electorate command.rule)
    record (.thresholdSet entry.id entry.electorate caller host.now)
    inform "Threshold registered"
      [("thresholdId", entry.id), ("orgId", entry.electorate.org),
       ("rule", .text entry.rule.unit)]
    return entry

/-- Records that a vote was opened. -/
def opened (host : Host) (voteId : Number) (electorate : Electorate) (creator : Value)
    (thresholdId : Option Value) : Action Unit := do
  assign voteId electorate
  record (.voteOpened voteId electorate creator thresholdId host.now)
  let a ← assembly
  inform "Vote opened"
    [("voteId", .number voteId), ("orgId", electorate.org),
     ("mode", electorate.kind),
     ("turnout", .ofText? ((a.ledger.issuance? voteId).map Signal.format)),
     ("thresholdId", thresholdId.getD .absent)]

/-- Opens a vote with bounds in signal. -/
def openVote (host : Host) (caller : Value) (payload : Value) : Step Number :=
  run "openVote" ("caller", caller) do
    let command ← accept (Form.openVote payload)
    note fun s => { s with org := command.electorate.org }
    authorize host command.electorate.org caller .openVotes
    let voteId ← onLedger (Ledger.openVote host.environment command)
    opened host voteId command.electorate caller none
    return voteId

/-- Opens a vote with bounds in parts per million of the turnout. -/
def openPercentVote (host : Host) (caller : Value) (payload : Value) : Step Number :=
  run "openPercentVote" ("caller", caller) do
    let command ← accept (Form.openPercentVote payload)
    note fun s => { s with org := command.electorate.org }
    authorize host command.electorate.org caller .openVotes
    let voteId ← onLedger (Ledger.openPercentVote host.environment command)
    opened host voteId command.electorate caller none
    return voteId

/-- Opens a vote from a registered threshold, on behalf of its organization. -/
def invokeThreshold (host : Host) (caller : Value) (payload : Value) : Step Number :=
  run "invokeThreshold" ("caller", caller) do
    let command ← accept (Form.invokeThreshold payload)
    note fun s => { s with thresholdId := some command.thresholdId }
    let a ← assembly
    -- The organization is that of the threshold, so it must be found before authority is asked.
    let some entry := a.ledger.register.get? (.number command.thresholdId)
      | throw (.ledger (.unknownThreshold (.number command.thresholdId)))
    note fun s => { s with org := entry.electorate.org }
    authorize host entry.electorate.org caller .openVotes
    let voteId ← onLedger
      (Ledger.invokeThreshold host.environment entry.id (.ofText? command.topic)
        (.ofNumber? command.duration))
    opened host voteId entry.electorate caller (some entry.id)
    return voteId

/-- Casts or changes a ballot. -/
def submitVote (host : Host) (voter : Value) (payload : Value) : Step Ledger.Receipt :=
  run "submitVote" ("voter", voter) do
    let command ← accept (Form.submitVote payload)
    describeVote command.voteId
    let receipt ← onLedger (Ledger.applyVote host.environment (.number command.voteId) voter
      command.stance (.ofText? command.justification))
    record (.voteCast receipt.voteId voter receipt.previous receipt.ballot.stance
      receipt.ballot.justification host.now)
    let a ← assembly
    inform "Vote cast"
      [("voteId", .number receipt.voteId),
       ("orgId", ((a.electorates.get? (.number receipt.voteId)).map (·.org)).getD .absent),
       ("voter", voter), ("direction", receipt.ballot.stance.toValue),
       ("inFavor", .text (Signal.format receipt.poll.inFavor)),
       ("against", .text (Signal.format receipt.poll.against))]
    return receipt

/-- Moves the end of a vote later. -/
def extendVote (host : Host) (caller : Value) (payload : Value) : Step Poll :=
  run "extendVote" ("caller", caller) do
    let command ← accept (Form.extendVote payload)
    describeVote command.voteId
    authorizeForVote host command.voteId caller
    let poll ← onLedger (Ledger.extendVote host.environment (.number command.voteId)
      (.number command.blocks))
    record (.voteExtended command.voteId poll.ends host.now)
    inform "Vote extended"
      [("voteId", .number command.voteId), ("ends", .ofNumber? poll.ends)]
    return poll

/-- Replaces the topic of a vote. -/
def updateTopic (host : Host) (caller : Value) (payload : Value) : Step Poll :=
  run "updateTopic" ("caller", caller) do
    let command ← accept (Form.updateTopic payload)
    describeVote command.voteId
    authorizeForVote host command.voteId caller
    let poll ← onLedger
      (Ledger.updateTopic (.number command.voteId) (.text command.topic) command.clearTallies)
    record (.topicUpdated command.voteId command.topic command.clearTallies host.now)
    inform "Vote topic updated"
      [("voteId", .number command.voteId), ("clearedTallies", .bool command.clearTallies)]
    return poll

/-! ## Commands as data -/

/-- The name of a command. -/
inductive Command where
  | registerThreshold
  | openVote
  | openPercentVote
  | invokeThreshold
  | submitVote
  | extendVote
  | updateTopic
deriving DecidableEq, Repr, Inhabited

/-- Carries out a command of a caller. -/
def perform (host : Host) (command : Command) (caller : Value) (payload : Value) :
    Step Ledger.Answer :=
  match command with
  | .registerThreshold => .registered <$> registerThreshold host caller payload
  | .openVote => .opened <$> openVote host caller payload
  | .openPercentVote => .opened <$> openPercentVote host caller payload
  | .invokeThreshold => .opened <$> invokeThreshold host caller payload
  | .submitVote => .cast <$> submitVote host caller payload
  | .extendVote => .updated <$> extendVote host caller payload
  | .updateTopic => .updated <$> updateTopic host caller payload

end Plebiscite.Assembly
