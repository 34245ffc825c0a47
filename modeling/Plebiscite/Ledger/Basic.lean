import Plebiscite.Height
import Plebiscite.Mint
import Plebiscite.Poll
import Plebiscite.Register

/-!
# The vote ledger

A ledger holds votes, each with its poll and one ballot a member, the register of thresholds, and
the counters from which identifiers are given out.  Votes are listed by identifier and the seats of
a vote by member; the register alone remembers in which order its entries came in.

Commands are steps that may fail and that carry the ledger along either way: `Ledger.Step`.

## Main definitions

- `Ledger`, with `Vote` and `Seat`
- `Ledger.Settings`, `Ledger.empty`: a ledger without votes
- `Ledger.Environment`: what a command reads from outside
- `Ledger.Step`: a command in progress
- the queries `Ledger.vote?`, `Ledger.ballots`, `Ledger.ballot?`, `Ledger.ballotByKey?`,
  `Ledger.issuance?`, `Ledger.outcome`, `Ledger.isExpired`
-/

namespace Plebiscite

/-- A member with the ballot that it holds. -/
structure Seat where
  /-- The member, as it was given. -/
  member : Value
  ballot : Ballot
deriving DecidableEq, Repr, Inhabited

/-- The text by which the member of a seat is known. -/
def Seat.name (s : Seat) : String :=
  s.member.display

/-- One vote. -/
structure Vote where
  id : Number
  poll : Poll
  /-- The signal minted when the vote was opened. -/
  issued : Int
  /-- The ballots, in the order of the members. -/
  seats : List Seat
deriving DecidableEq, Repr, Inhabited

namespace Vote

/-- The ballot of the member with a name. -/
def ballot? (v : Vote) (name : String) : Option Ballot :=
  (v.seats.find? (·.name = name)).map (·.ballot)

/-- The vote with another ballot for the member with a name. -/
def setBallot (v : Vote) (name : String) (ballot : Ballot) : Vote :=
  { v with seats := v.seats.map fun seat =>
    if seat.name = name then { seat with ballot } else seat }

end Vote

/-- What becomes of the ballots of a vote when its tallies are cleared. -/
inductive ResetPolicy where
  /-- They are handed out anew. -/
  | resetBallots
  /-- They keep their stance and turn stale. -/
  | keepBallots
  /-- Any other word; they are handed out anew. -/
  | other (given : Value)
deriving DecidableEq, Repr, Inhabited

namespace ResetPolicy

/-- The two known policies, in the order in which they are listed to callers. -/
def all : List ResetPolicy :=
  [.resetBallots, .keepBallots]

/-- The word for a policy. -/
def text : ResetPolicy → String
  | .resetBallots => "reset_ballots"
  | .keepBallots => "keep_ballots"
  | .other given => given.display

/-- The known policy that a word names. -/
def ofText? (s : String) : Option ResetPolicy :=
  all.find? (·.text == s)

/-- The policy that a value stands for. -/
def ofValue (v : Value) : ResetPolicy :=
  (v.text?.bind ofText?).getD (.other v)

/-- The value that stands for a policy. -/
def toValue : ResetPolicy → Value
  | .other given => given
  | policy => .text policy.text

/-- The ballot that takes the place of one that was counted. -/
def reset (policy : ResetPolicy) (b : Ballot) : Ballot :=
  match policy with
  | .keepBallots => b.markStale
  | _ => if b.stance = .uninitialized then b else .mint b.magnitude

end ResetPolicy

/-- What the host decides for a ledger. -/
structure Ledger.Settings where
  ceiling : Number
  policy : ResetPolicy
deriving DecidableEq, Repr, Inhabited

/-- All votes, thresholds and counters. -/
structure Ledger where
  settings : Ledger.Settings
  register : Register
  /-- The votes, in the order of their identifiers. -/
  votes : List Vote
  /-- The last identifier given to a vote. -/
  lastVote : Counter
  /-- How many votes were ever opened. -/
  openVotes : Counter
deriving DecidableEq, Repr, Inhabited

namespace Ledger

/-- Inserts an element before the first one that it precedes. -/
def insertBefore {α : Type} (precedes : α → α → Bool) (a : α) : List α → List α
  | [] => [a]
  | b :: rest => if precedes a b then a :: b :: rest else b :: insertBefore precedes a rest

/-- The votes with one more in its place. -/
def insertVote (votes : List Vote) (vote : Vote) : List Vote :=
  insertBefore (fun a b => a.id.precedes b.id) vote votes

/-- What a command reads from outside the ledger. -/
structure Environment where
  /-- What the clock shows, not yet checked. -/
  now : Value
  stakes : StakeSource

/-- What the host asks for, not yet checked; anything left out has a default. -/
structure Options where
  ceiling : Value
  policy : Value
deriving DecidableEq, Repr, Inhabited

/-- Options that leave everything out. -/
def Options.none : Options :=
  ⟨.absent, .absent⟩

/-- The settings that options amount to, refused if the largest identifier is none. -/
def Options.settings (o : Options) : Except Fault Settings := do
  let ceiling ← Identifier.readCeiling
    (o.ceiling.given?.getD (.number (Number.ofInt Identifier.defaultCeiling)))
  return ⟨ceiling, (o.policy.given?.map ResetPolicy.ofValue).getD .resetBallots⟩

/-- A ledger without votes or thresholds. -/
def blank (settings : Settings) : Ledger :=
  ⟨settings, .empty, [], some 0, some 0⟩

/-- A ledger without votes or thresholds, for the given options. -/
def empty (o : Options) : Except Fault Ledger :=
  o.settings.map blank

/-! ## Queries -/

/-- The vote with an identifier. -/
def vote? (l : Ledger) (id : Number) : Option Vote :=
  l.votes.find? (·.id = id)

/-- Whether a vote exists. -/
def hasVote (l : Ledger) (id : Number) : Bool :=
  (l.vote? id).isSome

/-- The aggregate of a vote. -/
def poll? (l : Ledger) (id : Number) : Option Poll :=
  (l.vote? id).map (·.poll)

/-- The ballots of a vote, in the order of the members; none for a vote that does not exist. -/
def ballots (l : Ledger) (id : Number) : List Seat :=
  match l.vote? id with
  | some vote => vote.seats
  | none => []

/-- The ballot of a member in a vote. -/
def ballot? (l : Ledger) (id : Number) (name : String) : Option Ballot :=
  (l.vote? id).bind (·.ballot? name)

/-- The key of a ballot: the text of the vote, a colon, and the name of the member. -/
def ballotKey (id name : String) : String :=
  id ++ ":" ++ name

/-- The ballot whose key a vote and a member make, whatever these were given as. -/
def ballotByKey? (l : Ledger) (id member : Value) : Option Ballot :=
  let key := ballotKey id.display member.display
  l.votes.findSome? fun vote =>
    (vote.seats.find? fun seat => ballotKey vote.id.text seat.name = key).map (·.ballot)

/-- All signal minted for a vote. -/
def issuance? (l : Ledger) (id : Number) : Option Int :=
  (l.vote? id).map (·.issued)

/-- The vote that a value identifies, refused if there is none.  Only numbers are identifiers. -/
def require (l : Ledger) (id : Value) : Except Fault Vote :=
  match id.number?.bind l.vote? with
  | some vote => .ok vote
  | none => .error (.unknownVote id)

/-- The height that the clock shows, refused if it is none. -/
def Environment.height (env : Environment) : Except Fault Number :=
  Height.read "Block height" env.now

/-- What the tallies of a vote amount to. -/
def outcome (l : Ledger) (id : Value) : Except Fault Outcome :=
  (l.require id).map (·.poll.outcome)

/-- Whether a vote is over. -/
def isExpired (l : Ledger) (env : Environment) (id : Value) : Except Fault Bool := do
  let vote ← l.require id
  let now ← env.height
  return vote.poll.isPastEnd now

/-! ## Steps -/

/-- A command in progress: it reads and writes the ledger and may fail at any point.  After a
failure the ledger is what the command had made of it until then. -/
abbrev Step (α : Type) : Type := EStateM Fault Ledger α

/-- A check that does not touch the ledger. -/
def check {α : Type} (r : Except Fault α) : Step α := fun l =>
  match r with
  | .ok a => .ok a l
  | .error fault => .error fault l

/-- Replaces a vote, keeping its place. -/
def updateVote (l : Ledger) (id : Number) (f : Vote → Vote) : Ledger :=
  { l with votes := l.votes.map fun vote => if vote.id = id then f vote else vote }

/-- Writes the aggregate of a vote. -/
def writePoll (id : Number) (poll : Poll) : Step Unit :=
  modify fun l => l.updateVote id fun vote => { vote with poll }

/-- Writes the ballot of a member. -/
def writeBallot (id : Number) (name : String) (ballot : Ballot) : Step Unit :=
  modify fun l => l.updateVote id fun vote => vote.setBallot name ballot

end Ledger

end Plebiscite
