import Plebiscite.Height
import Plebiscite.Poll
import Plebiscite.Register
import Plebiscite.Snapshot.Basic

/-!
# Reading entries of a snapshot

Every entry is checked field by field; the first fault is the one reported.

## Main definitions

- `Snapshot.readThreshold`: bounds in signal
- `Snapshot.readRegistration`, `Snapshot.readPoll`, `Snapshot.readBallot`: the entries
-/

namespace Plebiscite.Snapshot

/-- Reports a fault of the snapshot. -/
def refuse {α : Type} (cause : SnapshotFault) : Except Fault α :=
  .error (.snapshot cause)

/-- A positive safe integer. -/
def readId (subject : String) (v : Value) : Except Fault Number :=
  match v with
  | .number n =>
    if n.isSafeInteger && Number.le 1 n then .ok n else refuse (.identifier subject n.text)
  | v => refuse (.identifier subject v.display)

/-- An amount of signal. -/
def readAmount (field : String) (v : Value) : Except Fault Int :=
  match Signal.parse v with
  | .ok n => .ok n
  | .error cause => refuse (.amount field cause)

/-- Bounds in signal, and nothing else. -/
def readThreshold (field : String) (t : Threshold Value) : Except Fault (Threshold Int) := do
  let inFavor ← readAmount (field ++ ".inFavor") t.inFavor
  match t.against with
  | none => return { inFavor, against := none }
  | some v =>
    let against ← readAmount (field ++ ".against") v
    return { inFavor, against := some against }

/-- A number of parts per million. -/
def permill? : Value → Option Number
  | .number n => if Guard.isPermill (.number n) then some n else none
  | _ => none

/-- Bounds in parts per million, with what else was said. -/
def percent? (t : Threshold Value) : Option (Threshold Number) :=
  match permill? t.inFavor, t.against with
  | none, _ => none
  | some inFavor, none => some ⟨inFavor, none, t.remarks⟩
  | some inFavor, some v => (permill? v).map fun against => ⟨inFavor, some against, t.remarks⟩

/-- A stored threshold. -/
def readRegistration (e : ThresholdEntry) : Except Fault Registration := do
  let id ← readId "threshold id" e.id
  if !Guard.isElectorate e.electorate.description then refuse (.electorate id)
  if Rule.isSignalUnit e.kind then
    let threshold ← readThreshold s!"threshold {id.text}" e.threshold
    return ⟨.number id, e.electorate.copy, .signal threshold⟩
  let some threshold := percent? e.threshold | refuse (.percent id)
  return ⟨.number id, e.electorate.copy, .percent threshold⟩

/-- A stored height, if it is one. -/
def height? : Value → Option Number
  | .number n => if Guard.isBlockHeight (.number n) then some n else none
  | _ => none

/-- The identifier and the poll of a stored vote. -/
def readPoll (e : VoteEntry) : Except Fault (Number × Poll) := do
  let id ← readId "vote id" e.id
  let field := s!"vote {id.text}"
  let some initialized := height? e.initialized | refuse (.openingHeight id)
  let ends ← match e.ends with
    | none => pure none
    | some v => match height? v with
      | some ends => pure (some ends)
      | none => refuse (.endHeight id)
  let turnout ← readAmount (field ++ ".totalPossibleTurnout") e.turnout
  let threshold ← readThreshold (field ++ ".threshold") e.threshold
  let inFavor ← readAmount (field ++ ".inFavor") e.inFavor
  let against ← readAmount (field ++ ".against") e.against
  return (id, ⟨e.topic, turnout, threshold, inFavor, against, initialized, ends⟩)

/-- The known stance that a value names. -/
def stance? : Value → Option Stance
  | .text s => Stance.ofText? s
  | _ => none

/-- The truth value of an optional flag; an absent one is false. -/
def flag? : Option Value → Option Bool
  | none => some false
  | some (.bool b) => some b
  | some _ => none

/-- The ballot of a stored record. -/
def readBallot (e : RecordEntry) : Except Fault Ballot := do
  let id ← readId "record vote id" e.voteId
  let member := e.member.display
  let some stance := stance? e.stance | refuse (.stance id member e.stance.display)
  let some stale := flag? e.stale | refuse (.staleFlag id member)
  if stale && !stance.isSided then refuse (.staleStance id member)
  let magnitude ← readAmount s!"record {id.text}/{member}.magnitude" e.magnitude
  return ⟨magnitude, stance, e.justification, stale⟩

end Plebiscite.Snapshot
