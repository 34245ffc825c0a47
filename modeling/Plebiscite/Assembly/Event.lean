import Plebiscite.Electorate
import Plebiscite.Stance

/-!
# Events

Every accepted command is recorded as one event, with the height at which it was accepted.  An
event that somebody hands in is taken as it is, whatever its form.

## Main definitions

- `Event`: the events
- `Event.Kind`: their kinds
- `Event.toValue`: an event as one value
-/

namespace Plebiscite

/-- The kind of an event. -/
inductive Event.Kind where
  | thresholdSet
  | voteOpened
  | voteCast
  | voteExtended
  | topicUpdated
deriving DecidableEq, Repr, Inhabited

namespace Event.Kind

/-- All kinds. -/
def all : List Event.Kind :=
  [.thresholdSet, .voteOpened, .voteCast, .voteExtended, .topicUpdated]

/-- The word for a kind. -/
def text : Event.Kind → String
  | .thresholdSet => "threshold_set"
  | .voteOpened => "vote_opened"
  | .voteCast => "vote_cast"
  | .voteExtended => "vote_extended"
  | .topicUpdated => "topic_updated"

/-- The kind that a word names. -/
def ofText? (s : String) : Option Event.Kind :=
  all.find? (·.text == s)

end Event.Kind

/-- What happened when a command was accepted. -/
inductive Event where
  | thresholdSet (thresholdId : Value) (electorate : Electorate) (setter : Value)
      (height : Number)
  | voteOpened (voteId : Number) (electorate : Electorate) (creator : Value)
      (thresholdId : Option Value) (height : Number)
  | voteCast (voteId : Number) (voter : Value) (previous stance : Stance)
      (justification : Value) (height : Number)
  | voteExtended (voteId : Number) (ends : Option Number) (height : Number)
  | topicUpdated (voteId : Number) (topic : String) (clearedTallies : Bool) (height : Number)
  /-- An event that was handed in. -/
  | given (entry : Value)
deriving DecidableEq, Repr

namespace Event

/-- The kind that an entry says it is of, if it says so. -/
def kindOf? (entry : Value) : Option Event.Kind :=
  (entry.get "type").text?.bind Kind.ofText?

/-- The kind of an event, if it has one. -/
def kind? : Event → Option Event.Kind
  | .thresholdSet .. => some .thresholdSet
  | .voteOpened .. => some .voteOpened
  | .voteCast .. => some .voteCast
  | .voteExtended .. => some .voteExtended
  | .topicUpdated .. => some .topicUpdated
  | .given entry => kindOf? entry

/-- The height at which it happened, if that is known. -/
def height? : Event → Option Number
  | .thresholdSet _ _ _ height => some height
  | .voteOpened _ _ _ _ height => some height
  | .voteCast _ _ _ _ _ height => some height
  | .voteExtended _ _ height => some height
  | .topicUpdated _ _ _ height => some height
  | .given entry => (entry.get "height").number?

/-- An event as a value. -/
def toValue : Event → Value
  | .thresholdSet thresholdId electorate setter height =>
    .object
      [("type", .text Kind.thresholdSet.text), ("thresholdId", thresholdId),
       ("org", electorate.description), ("setter", setter), ("height", .number height)]
  | .voteOpened voteId electorate creator thresholdId height =>
    .object
      [("type", .text Kind.voteOpened.text), ("voteId", .number voteId),
       ("org", electorate.description), ("creator", creator),
       ("thresholdId", thresholdId.getD .absent), ("height", .number height)]
  | .voteCast voteId voter previous stance justification height =>
    .object
      [("type", .text Kind.voteCast.text), ("voteId", .number voteId), ("voter", voter),
       ("previous", previous.toValue), ("direction", stance.toValue),
       ("justification", justification), ("height", .number height)]
  | .voteExtended voteId ends height =>
    .object
      [("type", .text Kind.voteExtended.text), ("voteId", .number voteId),
       ("ends", .ofNumber? ends), ("height", .number height)]
  | .topicUpdated voteId topic clearedTallies height =>
    .object
      [("type", .text Kind.topicUpdated.text), ("voteId", .number voteId),
       ("topic", .text topic), ("clearedTallies", .bool clearedTallies),
       ("height", .number height)]
  | .given entry => entry

end Event

end Plebiscite
