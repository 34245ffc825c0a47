import Plebiscite.Index
import Plebiscite.Mint
import Plebiscite.Value.Arithmetic

/-!
# The roster

The roster keeps organizations: who supervises each, and which members it has with what stake.  It
serves as the source of stakes and as the authority on supervisors.  Members are listed in the
order in which they joined.  Organizations, supervisors and members are known by whatever value
names them.

## Main definitions

- `Organization`, `Roster`: the state
- `Roster.createOrganization`, `Roster.addSupervisor`, `Roster.setStake`, `Roster.removeMember`:
  changes
- `Roster.members?`, `Roster.holdings?`, `Roster.isSupervisor`: answers
- `Roster.stakeSource`: the roster as a source of stakes
-/

namespace Plebiscite

/-- One organization. -/
structure Organization where
  supervisors : List Value
  /-- Its members with their stakes, as these were given. -/
  stakes : Index Value
deriving DecidableEq, Repr, Inhabited

/-- All organizations. -/
structure Roster where
  organizations : Index Organization
deriving DecidableEq, Repr, Inhabited

/-- Why the roster refuses a change. -/
inductive RosterFault where
  | exists (org : Value)
  | unknown (org : Value)
  | notMember (member : Value)
  | negativeStake (stake : Value)
deriving DecidableEq, Repr

/-- The wording of a fault. -/
def RosterFault.message : RosterFault → String
  | .exists org => s!"Organization already exists: {org.display}"
  | .unknown org => s!"Organization not found: {org.display}"
  | .notMember member => s!"Member not found: {member.display}"
  | .negativeStake stake => s!"Stake must be >= 0, got {stake.display}"

namespace Roster

/-- No organizations. -/
def empty : Roster :=
  ⟨[]⟩

/-- The organization with an identifier. -/
def get? (r : Roster) (org : Value) : Option Organization :=
  r.organizations.get? org

/-- The organization with an identifier, refused if there is none. -/
def require (r : Roster) (org : Value) : Except RosterFault Organization :=
  match r.get? org with
  | some organization => .ok organization
  | none => .error (.unknown org)

/-- Writes an organization. -/
def put (r : Roster) (org : Value) (organization : Organization) : Roster :=
  ⟨r.organizations.put org organization⟩

/-! ## Changes -/

/-- Creates an organization with its first supervisor. -/
def createOrganization (r : Roster) (org supervisor : Value) : Except RosterFault Roster :=
  if (r.get? org).isSome then .error (.exists org)
  else .ok (r.put org ⟨[supervisor], []⟩)

/-- Adds a supervisor. -/
def addSupervisor (r : Roster) (org supervisor : Value) : Except RosterFault Roster := do
  let organization ← r.require org
  if supervisor.isAmong organization.supervisors then return r
  return r.put org { organization with supervisors := organization.supervisors ++ [supervisor] }

/-- Adds a member, or replaces the stake of one.  All that is asked of a stake is that it is not
below zero. -/
def setStake (r : Roster) (org member stake : Value) : Except RosterFault Roster := do
  if stake.before (.integer 0) then throw (.negativeStake stake)
  let organization ← r.require org
  return r.put org { organization with stakes := organization.stakes.put member stake }

/-- Removes a member. -/
def removeMember (r : Roster) (org member : Value) : Except RosterFault Roster := do
  let organization ← r.require org
  if !organization.stakes.contains member then throw (.notMember member)
  return r.put org { organization with stakes := organization.stakes.drop member }

/-! ## Answers -/

/-- Whether an organization exists. -/
def hasOrganization (r : Roster) (org : Value) : Bool :=
  (r.get? org).isSome

/-- The members of an organization. -/
def members? (r : Roster) (org : Value) : Option (List Value) :=
  (r.get? org).map fun organization => organization.stakes.map (·.1)

/-- The sum of stakes. -/
def totalStake (stakes : List Value) : Value :=
  stakes.foldl Value.plus (.integer 0)

/-- The members of an organization with their stakes, and the sum of these. -/
def holdings? (r : Roster) (org : Value) : Option WeightedGroup :=
  (r.get? org).map fun organization =>
    { total := totalStake (organization.stakes.map (·.2))
      holdings := organization.stakes.map fun (member, stake) => ⟨member, stake⟩ }

/-- Whether a caller supervises an organization. -/
def isSupervisor (r : Roster) (org caller : Value) : Bool :=
  match r.get? org with
  | some organization => caller.isAmong organization.supervisors
  | none => false

/-- The roster as a source of stakes. -/
def stakeSource (r : Roster) : StakeSource where
  group? := r.members?
  stakes? := r.holdings?

end Roster

end Plebiscite
