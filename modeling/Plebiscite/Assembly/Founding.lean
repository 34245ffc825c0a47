import Plebiscite.Assembly.Basic
import Plebiscite.Form.Config
import Plebiscite.Ledger.Storage

/-!
# Founding an assembly

A host founds an assembly from its environment, with nothing or with the snapshot and the events
of an earlier one.

## Main definitions

- `Assembly.Records`: what an earlier assembly left
- `Assembly.found`: the settings and the assembly
-/

namespace Plebiscite.Assembly

/-- What an earlier assembly left. -/
structure Records where
  snapshot : Snapshot
  events : List Event
  /-- How long its history is said to be. -/
  size : Nat := events.length

/-- Why an assembly cannot be founded. -/
inductive FoundingFault where
  | config (issues : List Issue)
  | ledger (fault : Fault)
deriving DecidableEq, Repr

/-- The assembly for options, with or without records of an earlier one. -/
def begin (o : Ledger.Options) (level : Journal.Level) (records : Option Records) :
    Except Fault Assembly :=
  match records with
  | none => return around (← Ledger.empty o) level
  | some r => return (around (← Ledger.restore o r.snapshot) level).replay r.events

/-- The line that tells that an assembly is ready. -/
def ready (config : Config) (a : Assembly) (records : Option Records) : Journal.Line :=
  let replayed := match records with
    | none => 0
    | some r => r.size
  { level := .info
    message := "Governance service ready"
    fields :=
      [("topicResetPolicy", .text config.policy.text),
       ("maxId", .number config.maxId),
       ("restoredVotes", .number (Number.ofInt a.ledger.votes.length)),
       ("replayedEvents", .number (Number.ofInt replayed))] }

/-- The settings that an environment gives, and an assembly under them. -/
def found (environment : Value) (records : Option Records) :
    Except FoundingFault (Config × Assembly) :=
  match Form.config environment with
  | .refused issues => .error (.config issues)
  | .accepted config =>
    match begin ⟨.number config.maxId, config.policy.toValue⟩ config.logLevel records with
    | .error fault => .error (.ledger fault)
    | .ok a => .ok (config, a.log (ready config a records))

end Plebiscite.Assembly
