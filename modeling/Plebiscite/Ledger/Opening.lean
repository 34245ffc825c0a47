import Plebiscite.Ledger.Basic

/-!
# Opening votes

A vote is opened with bounds in signal, with bounds in parts per million of the turnout, or from a
threshold that was registered.  Everything is checked before anything is written: the bounds, the
clock, the duration, the membership, whether the turnout can reach the bounds, and whether an
identifier is free.

## Main definitions

- `Ledger.Request`: what a vote is opened with
- `Ledger.registerThreshold`, `Ledger.openVote`, `Ledger.openPercentVote`,
  `Ledger.invokeThreshold`: the commands
-/

namespace Plebiscite.Ledger

/-- What a vote is opened with. -/
structure Request (α : Type) where
  topic : Value
  electorate : Electorate
  threshold : Threshold α
  /-- The number of blocks until the vote ends, not yet checked; without one it does not end. -/
  duration : Value
deriving DecidableEq, Repr, Inhabited

/-- Keeps a rule for later votes. -/
def registerThreshold (electorate : Electorate) (rule : Rule) : Step Registration := do
  let ledger ← get
  let (entry, register) ← check
    (ledger.register.register (.number ledger.settings.ceiling) electorate rule)
  set { ledger with register }
  return entry

/-- The end of a vote that is opened at a height. -/
def endOf (now : Number) : Value → Except Fault (Option Number)
  | .absent => .ok none
  | duration => (Height.add (.number now) duration).map some

/-- The signal under the name of a member.  Of members with the same name the last one counts. -/
def magnitudeOf (plan : Plan) (name : String) : Int :=
  ((plan.allocations.reverse.find? (·.member.display = name)).map (·.magnitude)).getD 0

/-- The seats that a plan hands out.  Members with the same name share one ballot. -/
def seatsOf (plan : Plan) : List Seat :=
  plan.allocations.map fun a => ⟨a.member, .mint (magnitudeOf plan a.member.display)⟩

/-- Writes a new vote.  Signal is minted for an identifier at most once. -/
def mint (vote : Vote) : Step Unit := do
  let ledger ← get
  if (ledger.issuance? vote.id).isSome then throw (.alreadyMinted vote.id)
  set { ledger with votes := insertVote ledger.votes vote }

/-- Opens a vote whose bounds are known once the turnout is. -/
def openWith (env : Environment) (topic : Value) (electorate : Electorate)
    (duration : Value) (bounds : Int → Threshold Int) : Step Number := do
  let now ← check env.height
  let ends ← check (endOf now duration)
  let plan ← check (Plan.make env.stakes electorate)
  -- The bounds are final only now that the turnout is known.
  let threshold := bounds plan.total
  if !threshold.isWithin plan.total then throw (.unreachable threshold plan.total)
  let ledger ← get
  let id ← check
    (Identifier.next ledger.lastVote ledger.settings.ceiling ledger.hasVote)
  -- Everything is checked; what follows only writes.
  mint ⟨id, .create topic plan.total threshold now ends, plan.total, seatsOf plan⟩
  modify fun l => { l with lastVote := some id, openVotes := some (Counter.succ l.openVotes) }
  return id

/-- Opens a vote with bounds in signal. -/
def openVote (env : Environment) (r : Request Int) : Step Number := do
  check (r.threshold.map Value.integer).validateSignal
  openWith env r.topic r.electorate r.duration fun _ => r.threshold

/-- Opens a vote with bounds in parts per million of the turnout. -/
def openPercentVote (env : Environment) (r : Request Number) : Step Number := do
  check (r.threshold.map Value.number).validatePercent
  openWith env r.topic r.electorate r.duration r.threshold.resolve

/-- Opens a vote from a registered threshold. -/
def invokeThreshold (env : Environment) (id topic duration : Value) : Step Number := do
  let ledger ← get
  let entry ← check (ledger.register.resolve id)
  match entry.rule with
  | .signal threshold => openVote env ⟨topic, entry.electorate, threshold, duration⟩
  | .percent threshold => openPercentVote env ⟨topic, entry.electorate, threshold, duration⟩

end Plebiscite.Ledger
