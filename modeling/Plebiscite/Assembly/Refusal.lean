import Plebiscite.Fault
import Plebiscite.Form.Basic

/-!
# Refusals

Why an assembly refuses a command: because the ledger does, or because the caller may not give it
or gave it in the wrong form.

## Main definitions

- `Privilege`: what only supervisors may do
- `Refusal`: the causes, with `Refusal.code?`, `Refusal.kind` and `Refusal.message`
-/

namespace Plebiscite

/-- What only the supervisors of an organization may do. -/
inductive Privilege where
  | registerThresholds
  | openVotes
  | updateVotes
deriving DecidableEq, Repr, Inhabited

/-- The wording of a privilege. -/
def Privilege.text : Privilege → String
  | .registerThresholds => "register thresholds"
  | .openVotes => "open votes"
  | .updateVotes => "update votes"

/-- Why an assembly refuses a command. -/
inductive Refusal where
  | ledger (fault : Fault)
  | unauthorized (org caller : Value) (privilege : Privilege)
  | invalidCommand (issues : List Issue)
  /-- Nobody recorded which organization the vote belongs to. -/
  | unknownElectorate (voteId : Number) (caller : Value)
  /-- The authority on supervisors failed. -/
  | authority (message : String)
deriving DecidableEq, Repr

namespace Refusal

/-- The code of a refusal, if it has one. -/
def code? : Refusal → Option Code
  | .ledger fault => some fault.code
  | .unauthorized _ _ _ => some .unauthorized
  | .invalidCommand _ => some .invalidCommand
  | .unknownElectorate _ _ => some .voteOrganizationUnknown
  | .authority _ => none

/-- The kind of a refusal. -/
def kind (r : Refusal) : Kind :=
  match r.code? with
  | some code => code.kind
  | none => .internal

/-- The wording of a refusal. -/
def message : Refusal → String
  | .ledger fault => fault.message
  | .unauthorized org caller privilege =>
    s!"\"{caller.display}\" is not authorized to {privilege.text} " ++
      s!"for organization \"{org.display}\""
  | .invalidCommand _ => "Command validation failed"
  | .unknownElectorate voteId _ =>
    s!"No organization on record for vote {voteId.text}; replay its event history first"
  | .authority message => message

end Refusal

end Plebiscite
