import Plebiscite.Assembly.Event
import Plebiscite.Assembly.Refusal
import Plebiscite.Index
import Plebiscite.Journal
import Plebiscite.Ledger.Opening
import Plebiscite.Ledger.Voting

/-!
# The assembly

An assembly gives callers access to a ledger.  It checks who may do what, records every accepted
command as an event, remembers which electorate each vote belongs to, and writes one line in its
journal for every command.

## Main definitions

- `Assembly`: the ledger with its history, its index of electorates and its journal
- `Assembly.Host`: what an assembly reads from outside
- `Assembly.Action`: the inside of a command, which also learns what the command is about
- `Assembly.Step`, `Assembly.run`: a command
- `Assembly.replay`: the history and the index rebuilt from events
-/

namespace Plebiscite

/-- A ledger with all that callers need around it. -/
structure Assembly where
  ledger : Ledger
  /-- What happened, oldest first. -/
  history : List Event
  electorates : Index Electorate
  journal : Journal
deriving Repr, Inhabited

namespace Assembly

/-- What an assembly reads from outside. -/
structure Host where
  now : Number
  /-- Who belongs to which organization. -/
  stakes : StakeSource
  /-- Whether a caller supervises an organization, unless the authority fails with a message. -/
  isSupervisor : (org caller : Value) → Except String Bool

/-- What the ledger of an assembly reads from outside. -/
def Host.environment (host : Host) : Ledger.Environment :=
  ⟨.number host.now, host.stakes⟩

/-- An assembly around a ledger, with nothing recorded. -/
def around (ledger : Ledger) (level : Journal.Level) : Assembly :=
  ⟨ledger, [], [], .empty level⟩

/-! ## The inside of a command -/

/-- What is known of the target of a command. -/
structure Subject where
  voteId : Option Number
  thresholdId : Option Number
  /-- The organization, absent until it is known. -/
  org : Value
deriving DecidableEq, Repr, Inhabited

/-- Nothing is known yet. -/
def Subject.unknown : Subject :=
  ⟨none, none, .absent⟩

/-- An assembly during a command. -/
structure Session where
  assembly : Assembly
  subject : Subject
deriving Repr, Inhabited

/-- The inside of a command: it may fail at any point, and keeps what it did and learned. -/
abbrev Action (α : Type) : Type := EStateM Refusal Session α

/-- A command on an assembly; the assembly is carried along also when it fails. -/
abbrev Step (α : Type) : Type := EStateM Refusal Assembly α

/-- The values of a subject that are known. -/
def Subject.fields (s : Subject) : List (String × Value) :=
  [("voteId", .ofNumber? s.voteId), ("thresholdId", .ofNumber? s.thresholdId),
   ("orgId", s.org)]

/-- The line for a refused command. -/
def rejection (command : String) (caller : String × Value) (subject : Subject)
    (refusal : Refusal) : Journal.Line :=
  { level := .warn
    message := command ++ " rejected"
    fields :=
      ("component", .text "governance") :: ("command", .text command) ::
        caller :: subject.fields ++
      [("code", .ofText? (refusal.code?.map Code.text)),
       ("kind", .text refusal.kind.text),
       ("err", .text refusal.message)] }

/-- Writes a line in the journal. -/
def log (a : Assembly) (line : Journal.Line) : Assembly :=
  { a with journal := a.journal.write line }

/-- Runs a command of a caller, who is named by a role.  A refusal goes into the journal. -/
def run {α : Type} (command : String) (caller : String × Value) (action : Action α) :
    Step α := fun a =>
  match action ⟨a, .unknown⟩ with
  | .ok r s => .ok r s.assembly
  | .error refusal s =>
    .error refusal (s.assembly.log (rejection command caller s.subject refusal))

namespace Action

/-- Takes a verdict on the form of a command. -/
def accept {α : Type} (verdict : Verdict α) : Action α :=
  match verdict with
  | .accepted a => pure a
  | .refused issues => throw (.invalidCommand issues)

/-- Runs a step of the ledger. -/
def onLedger {α : Type} (step : Ledger.Step α) : Action α := fun s =>
  match step s.assembly.ledger with
  | .ok a ledger => .ok a { s with assembly := { s.assembly with ledger } }
  | .error fault ledger =>
    .error (.ledger fault) { s with assembly := { s.assembly with ledger } }

/-- Notes what the command is about. -/
def note (f : Subject → Subject) : Action Unit :=
  modify fun s => { s with subject := f s.subject }

/-- The assembly as it is now. -/
def assembly : Action Assembly :=
  return (← get).assembly

/-- Records an event. -/
def record (event : Event) : Action Unit :=
  modify fun s => { s with assembly :=
    { s.assembly with history := s.assembly.history ++ [event] } }

/-- Writes a line about an accepted command. -/
def inform (message : String) (fields : List (String × Value)) : Action Unit :=
  let line : Journal.Line := ⟨.info, message, ("component", .text "governance") :: fields⟩
  modify fun s => { s with assembly := s.assembly.log line }

/-- Remembers which electorate a vote belongs to. -/
def assign (voteId : Number) (electorate : Electorate) : Action Unit :=
  modify fun s => { s with assembly :=
    { s.assembly with electorates := s.assembly.electorates.put (.number voteId) electorate } }

/-- Refuses a caller who does not supervise an organization. -/
def authorize (host : Host) (org caller : Value) (privilege : Privilege) : Action Unit :=
  match host.isSupervisor org caller with
  | .ok true => pure ()
  | .ok false => throw (.unauthorized org caller privilege)
  | .error message => throw (.authority message)

/-- Notes that the command is about a vote, and about its organization if that is on record. -/
def describeVote (voteId : Number) : Action Unit := do
  let a ← assembly
  note fun s => { s with voteId := some voteId }
  if let some electorate := a.electorates.get? (.number voteId) then
    note fun s => { s with org := electorate.org }

/-- Refuses a caller who does not supervise the organization of a vote. -/
def authorizeForVote (host : Host) (voteId : Number) (caller : Value) : Action Unit := do
  let a ← assembly
  -- A vote that does not exist is told apart from one whose history is missing.
  if !a.ledger.hasVote voteId then throw (.ledger (.unknownVote (.number voteId)))
  match a.electorates.get? (.number voteId) with
  | none => throw (.unknownElectorate voteId caller)
  | some electorate => authorize host electorate.org caller .updateVotes

end Action

/-! ## History -/

/-- The index with the electorate that an event gives a vote.  An entry handed in may say that a
vote has none. -/
def reassign (electorates : Index Electorate) (event : Event) : Index Electorate :=
  match event with
  | .voteOpened voteId electorate _ _ _ => electorates.put (.number voteId) electorate
  | .given entry =>
    if Event.kindOf? entry = some .voteOpened then
      match entry.get "org" with
      | .absent => electorates.drop (entry.get "voteId")
      | org => electorates.put (entry.get "voteId") ⟨org⟩
    else electorates
  | _ => electorates

/-- Records one event of the past. -/
def remember (a : Assembly) (event : Event) : Assembly :=
  { a with
    history := a.history ++ [event]
    electorates := reassign a.electorates event }

/-- Rebuilds the history and the index of electorates from events recorded earlier. -/
def replay (a : Assembly) (events : List Event) : Assembly :=
  events.foldl remember { a with history := [], electorates := [] }

/-- The electorate of a vote, if it is on record. -/
def electorate? (a : Assembly) (voteId : Value) : Option Electorate :=
  a.electorates.get? voteId

end Assembly

end Plebiscite
