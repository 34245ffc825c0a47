import Plebiscite.Form.Basic
import Plebiscite.Identifier
import Plebiscite.Journal
import Plebiscite.Ledger.Basic
import Plebiscite.Value.Coercion

/-!
# Configuration

The settings of a host, read from its environment.  All of them have defaults; the largest
identifier is made a number first, whatever it was given as.

## Main definitions

- `Config`: the settings
- `Form.config`: the form of the environment
-/

namespace Plebiscite

/-- The stage at which a host runs. -/
inductive Stage where
  | development
  | production
  | test
deriving DecidableEq, Repr, Inhabited

namespace Stage

/-- All stages, in the order in which they are listed to callers. -/
def all : List Stage :=
  [.development, .production, .test]

/-- The word for a stage. -/
def text : Stage → String
  | .development => "development"
  | .production => "production"
  | .test => "test"

end Stage

/-- The settings of a host. -/
structure Config where
  logLevel : Journal.Level
  stage : Stage
  policy : ResetPolicy
  maxId : Number
deriving DecidableEq, Repr, Inhabited

namespace Form

/-- A form of the number that a value is taken for. -/
def coerced {α : Type} (form : Form α) : Form α := fun v =>
  form (.number v.toNumber)

/-- The largest identifier. -/
def maxId : Form Number :=
  coerced (number [.whole, .atLeast 1, .atMost Number.maxSafe])

/-- The settings of a host. -/
def config : Form Config :=
  object fun v =>
    Config.mk <$>
      field v "LOG_LEVEL" (withDefault .info (word Journal.Level.all Journal.Level.text)) <*>
      field v "NODE_ENV" (withDefault .development (word Stage.all Stage.text)) <*>
      field v "TOPIC_RESET_POLICY"
        (withDefault .resetBallots (word ResetPolicy.all ResetPolicy.text)) <*>
      field v "MAX_ID" (withDefault (Number.ofInt Identifier.defaultCeiling) maxId)

end Form

end Plebiscite
