import Plebiscite.Arrangement
import Plebiscite.Signal
import Plebiscite.Value.Coercion

/-!
# Minting

A vote opens by minting signal: every member of the electorate is given a fixed amount, one unit
each or as much as the member's stake.  A plan says who is given how much; making one reads the
membership and changes nothing.  Members are texts as a rule, but whatever a source of stakes
reports as a member is one.

## Main definitions

- `StakeSource`: who belongs to an organization, and with what stake
- `Plan`: how much signal each member is given
- `Plan.make?`, `Plan.make`: the plan for an electorate
-/

namespace Plebiscite

/-- A member and the stake reported for it. -/
structure Holding where
  member : Value
  /-- The stake, not yet checked. -/
  stake : Value

/-- The reported stakes of an organization. -/
structure WeightedGroup where
  /-- The reported sum of the stakes, not yet checked. -/
  total : Value
  holdings : List Holding

/-- Reports who belongs to an organization, and with what stake; nothing for an organization that
it does not know. -/
structure StakeSource where
  /-- The members; one that is listed again counts once. -/
  group? : Value → Option (List Value)
  stakes? : Value → Option WeightedGroup

/-- The signal that one member is given. -/
structure Allocation where
  member : Value
  magnitude : Int
deriving DecidableEq, Repr

/-- The signal to be minted for one vote. -/
structure Plan where
  electorate : Electorate
  /-- All of it. -/
  total : Int
  /-- The share of each member, in the order of the members. -/
  allocations : List Allocation
deriving DecidableEq, Repr

namespace Plan

/-- Whether a member is a text. -/
def isNamed (member : Value) : Bool :=
  member.text?.isSome

/-- Members in their order; one that is absent comes last. -/
def ordered (members : List Value) : List Value :=
  let (absent, present) := members.partition (·.isAbsent)
  Arrangement.arrange isNamed Value.before present ++ absent

/-- One unit for each member. -/
def makeEqual (source : StakeSource) (electorate : Electorate) : Except Fault Plan :=
  match source.group? electorate.org with
  | none => .error (.unknownGroup electorate.org)
  | some members =>
    let allocations := (ordered (members.eraseDupsBy Value.same)).map fun member => ⟨member, 1⟩
    .ok ⟨electorate, allocations.length, allocations⟩

/-- Allocations in the order of their members. -/
def sorted (allocations : List Allocation) : List Allocation :=
  Arrangement.arrange (isNamed ·.member) (fun a b => a.member.before b.member) allocations

/-- Checks holdings in order, with the members seen and the sum reached so far.  Gives the
allocations and the sum of all stakes. -/
def collect (org : Value) (seen : List Value) (sum : Int) :
    List Holding → Except Fault (List Allocation × Int)
  | [] => .ok ([], sum)
  | h :: rest => do
    -- A repeated member is refused before its stake is looked at.
    if h.member.isAmong seen then throw (.membership org (.repeated h.member.display))
    match Signal.ofValue? h.stake with
    | none => throw (.membership org (.stake h.member.display h.stake.display))
    | some stake =>
      let next ← Signal.add sum stake
      let (allocations, total) ← collect org (h.member :: seen) next rest
      return (⟨h.member, stake⟩ :: allocations, total)

/-- Whether a reported total is a given whole number. -/
def reports (sum : Int) : Value → Bool
  | .integer n => n == sum
  | _ => false

/-- As much as each member's stake. -/
def makeWeighted (source : StakeSource) (electorate : Electorate) : Except Fault Plan :=
  match source.stakes? electorate.org with
  | none => .error (.unknownStakes electorate.org)
  | some group => do
    let (allocations, sum) ← collect electorate.org [] 0 group.holdings
    if !reports sum group.total then
      throw (.membership electorate.org (.total group.total.display sum))
    return ⟨electorate, sum, sorted allocations⟩

/-- The plan for an electorate; there is none if its mode is not known. -/
def make? (source : StakeSource) (electorate : Electorate) : Option (Except Fault Plan) :=
  electorate.mode?.map fun
    | .equal => makeEqual source electorate
    | .weighted => makeWeighted source electorate

/-- The plan for an electorate.  An electorate of no known mode has no members. -/
def make (source : StakeSource) (electorate : Electorate) : Except Fault Plan :=
  (make? source electorate).getD (.error (.unknownGroup electorate.org))

end Plan

end Plebiscite
