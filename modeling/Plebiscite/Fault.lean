import Plebiscite.Electorate
import Plebiscite.Number.Shortest
import Plebiscite.Stance
import Plebiscite.Threshold.Basic

/-!
# Faults

Why the ledger refuses a call.  Each fault keeps what its message names; codes group faults for
callers that branch on them, and kinds group codes.

## Main definitions

- `Kind`: what sort of rejection it is
- `Code`: the stable code of a rejection
- `Fault`: the causes, with `Fault.code` and `Fault.message`
-/

namespace Plebiscite

/-- The sort of a rejection. -/
inductive Kind where
  | authorization
  | validation
  | notFound
  | temporal
  | bounds
  | noOp
  | unsupportedTransition
  | membershipUnavailable
  | internal
deriving DecidableEq, Repr, Inhabited

/-- The word for a kind. -/
def Kind.text : Kind → String
  | .authorization => "authorization"
  | .validation => "validation"
  | .notFound => "not_found"
  | .temporal => "temporal"
  | .bounds => "bounds"
  | .noOp => "no_op"
  | .unsupportedTransition => "unsupported_transition"
  | .membershipUnavailable => "membership_unavailable"
  | .internal => "internal"

/-- The code of a rejection. -/
inductive Code where
  | unauthorized
  | invalidCommand
  | voteOrganizationUnknown
  | voteStateNotFound
  | thresholdNotFound
  | noSignalForVoter
  | voteExpired
  | thresholdExceedsBounds
  | noChange
  | unsupportedTransition
  | groupMembershipUnavailable
  | weightedMembershipUnavailable
  | invalidMembership
  | signalAlreadyMinted
  | signalOverflow
  | signalUnderflow
  | invalidSignal
  | invalidPercent
  | invalidBlockHeight
  | blockHeightOverflow
  | idSpaceExhausted
  | invalidSnapshot
deriving DecidableEq, Repr, Inhabited

namespace Code

/-- All codes. -/
def all : List Code :=
  [.unauthorized, .invalidCommand, .voteOrganizationUnknown, .voteStateNotFound,
   .thresholdNotFound, .noSignalForVoter, .voteExpired, .thresholdExceedsBounds, .noChange,
   .unsupportedTransition, .groupMembershipUnavailable, .weightedMembershipUnavailable,
   .invalidMembership, .signalAlreadyMinted, .signalOverflow, .signalUnderflow, .invalidSignal,
   .invalidPercent, .invalidBlockHeight, .blockHeightOverflow, .idSpaceExhausted, .invalidSnapshot]

/-- The spelling of a code. -/
def text : Code → String
  | .unauthorized => "UNAUTHORIZED"
  | .invalidCommand => "INVALID_COMMAND"
  | .voteOrganizationUnknown => "VOTE_ORGANIZATION_UNKNOWN"
  | .voteStateNotFound => "VOTE_STATE_NOT_FOUND"
  | .thresholdNotFound => "THRESHOLD_NOT_FOUND"
  | .noSignalForVoter => "NO_SIGNAL_FOR_VOTER"
  | .voteExpired => "VOTE_EXPIRED"
  | .thresholdExceedsBounds => "THRESHOLD_EXCEEDS_BOUNDS"
  | .noChange => "NO_CHANGE"
  | .unsupportedTransition => "UNSUPPORTED_TRANSITION"
  | .groupMembershipUnavailable => "GROUP_MEMBERSHIP_UNAVAILABLE"
  | .weightedMembershipUnavailable => "WEIGHTED_MEMBERSHIP_UNAVAILABLE"
  | .invalidMembership => "INVALID_MEMBERSHIP"
  | .signalAlreadyMinted => "SIGNAL_ALREADY_MINTED"
  | .signalOverflow => "SIGNAL_OVERFLOW"
  | .signalUnderflow => "SIGNAL_UNDERFLOW"
  | .invalidSignal => "INVALID_SIGNAL"
  | .invalidPercent => "INVALID_PERCENT"
  | .invalidBlockHeight => "INVALID_BLOCK_HEIGHT"
  | .blockHeightOverflow => "BLOCK_HEIGHT_OVERFLOW"
  | .idSpaceExhausted => "ID_SPACE_EXHAUSTED"
  | .invalidSnapshot => "INVALID_SNAPSHOT"

/-- The code that is spelled so. -/
def ofText? (s : String) : Option Code :=
  all.find? (·.text == s)

/-- The kind of rejection that a code stands for. -/
def kind : Code → Kind
  | .unauthorized => .authorization
  | .invalidCommand => .validation
  | .voteOrganizationUnknown => .notFound
  | .voteStateNotFound => .notFound
  | .thresholdNotFound => .notFound
  | .noSignalForVoter => .notFound
  | .voteExpired => .temporal
  | .thresholdExceedsBounds => .bounds
  | .noChange => .noOp
  | .unsupportedTransition => .unsupportedTransition
  | .groupMembershipUnavailable => .membershipUnavailable
  | .weightedMembershipUnavailable => .membershipUnavailable
  | .invalidMembership => .membershipUnavailable
  | .signalAlreadyMinted => .internal
  | .signalOverflow => .bounds
  | .signalUnderflow => .bounds
  | .invalidSignal => .validation
  | .invalidPercent => .validation
  | .invalidBlockHeight => .validation
  | .blockHeightOverflow => .bounds
  | .idSpaceExhausted => .bounds
  | .invalidSnapshot => .validation

end Code

/-! ## Causes -/

/-- Why something is not an amount of signal. -/
inductive SignalFault where
  /-- Not written as a decimal number. -/
  | malformed (got : String)
  | outOfRange (got : String)
deriving DecidableEq, Repr

/-- The wording of a fault in an amount. -/
def SignalFault.message : SignalFault → String
  | .malformed got => s!"Invalid signal: \"{got}\""
  | .outOfRange got => s!"Signal must be an integer in [0, 2^128 - 1], got: {got}"

/-- What is wrong with a weighted membership. -/
inductive MembershipFault where
  | repeated (member : String)
  | stake (member got : String)
  /-- The reported total is not the sum of the stakes. -/
  | total (reported : String) (sum : Int)
deriving DecidableEq, Repr

/-- The wording of a fault in a membership. -/
def MembershipFault.message : MembershipFault → String
  | .repeated member => s!"member \"{member}\" listed twice"
  | .stake member got => s!"member \"{member}\" has invalid stake {got}"
  | .total reported sum => s!"reported total {reported} does not equal sum of stakes {sum}"

/-- What is wrong with a snapshot. -/
inductive SnapshotFault where
  | version (got : String)
  | counter (name : String)
  | identifier (subject got : String)
  /-- A threshold names no electorate. -/
  | electorate (threshold : Number)
  /-- The bounds of a threshold are not parts per million. -/
  | percent (threshold : Number)
  | repeatedThreshold (threshold : Value)
  | amount (field : String) (cause : SignalFault)
  | repeatedVote (vote : Number)
  | openingHeight (vote : Number)
  | endHeight (vote : Number)
  | excessTallies (vote : Number)
  | excessThreshold (vote : Number)
  /-- A record belongs to no vote. -/
  | strayRecord (member vote : String)
  /-- A member has two records for one vote. -/
  | repeatedRecord (vote : Number) (member : String)
  | stance (vote : Number) (member got : String)
  | staleFlag (vote : Number) (member : String)
  /-- A record is stale that was never counted. -/
  | staleStance (vote : Number) (member : String)
  /-- The records of a vote hold more or less than its turnout. -/
  | issuance (vote : Number) (minted turnout : Int)
  /-- The tallies of a vote are not the sums of its ballots. -/
  | tallies (vote : Number) (inFavor against countedInFavor countedAgainst : Int)
deriving DecidableEq, Repr

/-- The wording of a fault in a snapshot. -/
def SnapshotFault.message : SnapshotFault → String
  | .version got => s!"Unsupported snapshot version: {got}"
  | .counter name => s!"Counter \"{name}\" must be a non-negative integer"
  | .identifier subject got => s!"{subject} must be a positive integer, got: {got}"
  | .electorate threshold => s!"threshold {threshold.text}: invalid organization"
  | .percent threshold => s!"threshold {threshold.text}: invalid percent threshold"
  | .repeatedThreshold threshold => s!"Duplicate threshold id: {threshold.display}"
  | .amount field cause => s!"{field}: {cause.message}"
  | .repeatedVote vote => s!"Duplicate vote id: {vote.text}"
  | .openingHeight vote => s!"vote {vote.text}: invalid initialized height"
  | .endHeight vote => s!"vote {vote.text}: invalid end height"
  | .excessTallies vote => s!"Vote {vote.text}: tallies exceed turnout"
  | .excessThreshold vote => s!"Vote {vote.text}: threshold exceeds turnout"
  | .strayRecord member vote => s!"Record for \"{member}\" references unknown vote {vote}"
  | .repeatedRecord vote member => s!"Duplicate record: {vote.text}:{member}"
  | .stance vote member got => s!"record {vote.text}/{member}: invalid direction \"{got}\""
  | .staleFlag vote member => s!"record {vote.text}/{member}: invalid stale flag"
  | .staleStance vote member =>
    s!"record {vote.text}/{member}: only in_favor and against ballots can be stale"
  | .issuance vote minted turnout =>
    s!"Vote {vote.text}: records hold {minted} signal, turnout is {turnout}"
  | .tallies vote inFavor against countedInFavor countedAgainst =>
    s!"Vote {vote.text}: tallies {inFavor}/{against} do not match counted ballots " ++
      s!"{countedInFavor}/{countedAgainst}"

/-- Why the ledger refuses a call. -/
inductive Fault where
  | unknownVote (vote : Value)
  | unknownThreshold (threshold : Value)
  /-- The voter was given no signal for the vote. -/
  | noSignal (voter : Value) (vote : Number)
  /-- The vote ended at an earlier block. -/
  | ended (vote ends : Number)
  /-- A bound is more than all signal minted for the vote. -/
  | unreachable (threshold : Threshold Int) (turnout : Int)
  /-- The ballot already says so. -/
  | unchanged (stance : Stance)
  /-- A cast ballot cannot be withdrawn. -/
  | withdrawal (held : Stance)
  /-- The tallies cannot be moved this way. -/
  | brokenTally (held wanted : Stance)
  | unknownGroup (org : Value)
  | unknownStakes (org : Value)
  /-- The stakes of an organization are not consistent. -/
  | membership (org : Value) (cause : MembershipFault)
  | alreadyMinted (vote : Number)
  | signalOverflow (a b : Value)
  | signalUnderflow (a b : Value)
  | signal (cause : SignalFault)
  | percent (got : String)
  | height (label got : String)
  | clockBackwards (now target : Number)
  | heightOverflow (now duration : Number)
  | identifierCeiling (got : String)
  | noFreeIdentifier (ceiling : Value)
  | snapshot (cause : SnapshotFault)
deriving DecidableEq, Repr

namespace Fault

/-- The code of a fault. -/
def code : Fault → Code
  | .unknownVote _ => .voteStateNotFound
  | .unknownThreshold _ => .thresholdNotFound
  | .noSignal _ _ => .noSignalForVoter
  | .ended _ _ => .voteExpired
  | .unreachable _ _ => .thresholdExceedsBounds
  | .unchanged _ => .noChange
  | .withdrawal _ => .unsupportedTransition
  | .brokenTally _ _ => .unsupportedTransition
  | .unknownGroup _ => .groupMembershipUnavailable
  | .unknownStakes _ => .weightedMembershipUnavailable
  | .membership _ _ => .invalidMembership
  | .alreadyMinted _ => .signalAlreadyMinted
  | .signalOverflow _ _ => .signalOverflow
  | .signalUnderflow _ _ => .signalUnderflow
  | .signal _ => .invalidSignal
  | .percent _ => .invalidPercent
  | .height _ _ => .invalidBlockHeight
  | .clockBackwards _ _ => .invalidBlockHeight
  | .heightOverflow _ _ => .blockHeightOverflow
  | .identifierCeiling _ => .idSpaceExhausted
  | .noFreeIdentifier _ => .idSpaceExhausted
  | .snapshot _ => .invalidSnapshot

/-- The bounds of a threshold as a message lists them. -/
def boundsText (t : Threshold Int) : String :=
  match t.against with
  | some against => s!"in favor {t.inFavor}, against {against}"
  | none => s!"in favor {t.inFavor}"

/-- The wording of a fault. -/
def message : Fault → String
  | .unknownVote vote => s!"No vote state for vote {vote.display}"
  | .unknownThreshold threshold => s!"Unknown threshold: {threshold.display}"
  | .noSignal voter vote => s!"No signal minted for \"{voter.display}\" in vote {vote.text}"
  | .ended vote ends =>
    s!"Vote {vote.text} ended at block {ends.text}; votes are no longer accepted"
  | .unreachable threshold turnout =>
    s!"Threshold ({boundsText threshold}) exceeds minted turnout {turnout}"
  | .unchanged stance => s!"Vote direction is already \"{stance.text}\""
  | .withdrawal held => s!"Cannot change a vote from \"{held.text}\" back to \"uninitialized\""
  | .brokenTally held wanted =>
    s!"Changing a vote from \"{held.text}\" to \"{wanted.text}\" would leave the tally " ++
      "structurally invalid"
  | .unknownGroup org =>
    s!"Cannot mint equal signal: no group membership for organization \"{org.display}\""
  | .unknownStakes org =>
    s!"Cannot mint weighted signal: no weighted membership for organization \"{org.display}\""
  | .membership org cause =>
    s!"Invalid weighted membership for organization \"{org.display}\": {cause.message}"
  | .alreadyMinted vote => s!"Signal already minted for vote {vote.text}"
  | .signalOverflow a b => s!"Signal overflow: {a.display} + {b.display}"
  | .signalUnderflow a b => s!"Signal underflow: {a.display} - {b.display}"
  | .signal cause => cause.message
  | .percent got => s!"Percent threshold must be an integer permill in [0, 1000000], got: {got}"
  | .height label got => s!"{label} must be a non-negative safe integer, got: {got}"
  | .clockBackwards now target =>
    s!"Cannot move clock backwards from {now.text} to {target.text}"
  | .heightOverflow now duration => s!"Block height overflow: {now.text} + {duration.text}"
  | .identifierCeiling got => s!"maxId must be a positive safe integer, got: {got}"
  | .noFreeIdentifier ceiling => s!"No free id in [1, {ceiling.display}]"
  | .snapshot cause => cause.message

/-- The kind of rejection that a fault is. -/
def kind (f : Fault) : Kind :=
  f.code.kind

end Fault

end Plebiscite
