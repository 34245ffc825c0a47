import Plebiscite.Form.Basic
import Plebiscite.Guard
import Plebiscite.Ledger.Opening
import Plebiscite.Signal

/-!
# Forms of the commands

What callers hand in for each command.  Amounts of signal are decimal texts of any size; whether
they are in range is for the ledger to say.

## Main definitions

- `Form.signal`, `Form.permill`, `Form.blocks`, `Form.cid`, `Form.electorate`, `Form.rule`: parts
- `Form.registerThreshold`, `Form.openVote`, `Form.openPercentVote`, `Form.invokeThreshold`,
  `Form.submitVote`, `Form.extendVote`, `Form.updateTopic`: whole commands
-/

namespace Plebiscite

/-- A rule to keep for an electorate. -/
structure RegisterThreshold where
  electorate : Electorate
  rule : Rule
deriving DecidableEq, Repr, Inhabited

/-- A vote to open from a registered threshold. -/
structure InvokeThreshold where
  thresholdId : Number
  topic : Option String
  duration : Option Number
deriving DecidableEq, Repr, Inhabited

/-- A ballot to cast. -/
structure SubmitVote where
  voteId : Number
  stance : Stance
  justification : Option String
deriving DecidableEq, Repr, Inhabited

/-- A vote to extend. -/
structure ExtendVote where
  voteId : Number
  /-- The number of blocks from now. -/
  blocks : Number
deriving DecidableEq, Repr, Inhabited

/-- A topic to replace. -/
structure UpdateTopic where
  voteId : Number
  topic : String
  clearTallies : Bool
deriving DecidableEq, Repr, Inhabited

namespace Form

/-! ## Parts -/

/-- An amount of signal as a decimal text. -/
def signal : Form Int := fun v =>
  (fun s => (Signal.numeralValue s.toList : Int)) <$>
    text [.pattern Signal.isNumeral "Signal must be a non-negative decimal integer"] v

/-- Parts per million. -/
def permill : Form Number :=
  number [.whole, .atLeast 0, .atMost Guard.permillMax]

/-- A number of blocks. -/
def blocks : Form Number :=
  number [.whole, .atLeast 0, .atMost Number.maxSafe]

/-- The identifier of a vote or threshold. -/
def identifier : Form Number :=
  number [.whole, .atLeast 1]

/-- A reference to content. -/
def cid : Form String :=
  text [.atLeast 1, .atMost 512]

/-- A minting mode with an organization. -/
def electorate : Form Electorate :=
  tagged MintMode.all MintMode.text fun mode v =>
    Electorate.of mode <$> field v "orgId" (text [.atLeast 1])

/-- Bounds whose values have a form. -/
def threshold {α : Type} (bound : Form α) : Form (Threshold α) :=
  object fun v =>
    (fun inFavor against => { inFavor, against }) <$>
      field v "inFavor" bound <*> field v "against" (optional bound)

/-- The units of a rule, in the order in which they are listed to callers. -/
inductive RuleUnit where
  | signal
  | percent
deriving DecidableEq, Repr

/-- The word for a unit. -/
def RuleUnit.text : RuleUnit → String
  | .signal => "signal"
  | .percent => "percent"

/-- A threshold under the word for its unit. -/
def rule : Form Rule :=
  tagged [RuleUnit.signal, RuleUnit.percent] RuleUnit.text fun unit v =>
    match unit with
    | .signal => Rule.signal <$> field v "threshold" (threshold signal)
    | .percent => Rule.percent <$> field v "threshold" (threshold permill)

/-! ## Commands -/

/-- Keep a rule for later votes. -/
def registerThreshold : Form RegisterThreshold :=
  object fun v => RegisterThreshold.mk <$> field v "org" electorate <*> field v "rule" rule

/-- Open a vote with bounds of some form. -/
def request {α : Type} (bound : Form α) : Form (Ledger.Request α) :=
  object fun v =>
    (fun topic electorate threshold duration =>
        ⟨.ofText? topic, electorate, threshold, .ofNumber? duration⟩) <$>
      field v "topic" (optional cid) <*> field v "org" electorate <*>
      field v "threshold" (threshold bound) <*> field v "duration" (optional blocks)

/-- Open a vote with bounds in signal. -/
def openVote : Form (Ledger.Request Int) :=
  request signal

/-- Open a vote with bounds in parts per million of the turnout. -/
def openPercentVote : Form (Ledger.Request Number) :=
  request permill

/-- Open a vote from a registered threshold. -/
def invokeThreshold : Form InvokeThreshold :=
  object fun v =>
    InvokeThreshold.mk <$> field v "thresholdId" identifier <*>
      field v "topic" (optional cid) <*> field v "duration" (optional blocks)

/-- Cast or change a ballot. -/
def submitVote : Form SubmitVote :=
  object fun v =>
    SubmitVote.mk <$> field v "voteId" identifier <*>
      field v "direction" (word Stance.all Stance.text) <*>
      field v "justification" (optional cid)

/-- Move the end of a vote later. -/
def extendVote : Form ExtendVote :=
  object fun v => ExtendVote.mk <$> field v "voteId" identifier <*> field v "blocks" blocks

/-- Replace the topic of a vote. -/
def updateTopic : Form UpdateTopic :=
  object fun v =>
    UpdateTopic.mk <$> field v "voteId" identifier <*> field v "topic" cid <*>
      field v "clearTallies" (withDefault false truth)

end Form

end Plebiscite
