import Plebiscite.Ledger.Opening
import Plebiscite.Ledger.Voting

/-!
# Commands of the ledger

The calls that may change a ledger, as data.

## Main definitions

- `Ledger.Command`, `Ledger.Answer`: the calls and what they answer
- `Ledger.perform`: carries out a command
-/

namespace Plebiscite.Ledger

/-- A call that may change the ledger. -/
inductive Command where
  | registerThreshold (electorate : Electorate) (rule : Rule)
  | openVote (request : Request Int)
  /-- Open a vote with bounds in parts per million of the turnout. -/
  | openPercentVote (request : Request Number)
  | invokeThreshold (id topic duration : Value)
  | applyVote (id voter : Value) (stance : Stance) (justification : Value)
  /-- Move the end of a vote later. -/
  | extendVote (id additional : Value)
  | updateTopic (id topic : Value) (clear : Bool)
deriving DecidableEq, Repr, Inhabited

/-- What an accepted command answers. -/
inductive Answer where
  | registered (entry : Registration)
  | opened (id : Number)
  | cast (receipt : Receipt)
  | updated (poll : Poll)
deriving DecidableEq, Repr, Inhabited

/-- Carries out a command. -/
def perform (env : Environment) : Command → Step Answer
  | .registerThreshold electorate rule => return .registered (← registerThreshold electorate rule)
  | .openVote request => return .opened (← openVote env request)
  | .openPercentVote request => return .opened (← openPercentVote env request)
  | .invokeThreshold id topic duration =>
    return .opened (← invokeThreshold env id topic duration)
  | .applyVote id voter stance justification =>
    return .cast (← applyVote env id voter stance justification)
  | .extendVote id additional => return .updated (← extendVote env id additional)
  | .updateTopic id topic clear => return .updated (← updateTopic id topic clear)

end Plebiscite.Ledger
