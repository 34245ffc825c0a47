import Plebiscite.Value.Basic

/-!
# The journal

Lines that tell an operator what happened, each with a level, a message and named values.  Lines
below the level of the journal are not kept.

## Main definitions

- `Journal.Level`: how grave a line is
- `Journal.Line`: one line
- `Journal.write`: a journal with one more line
-/

namespace Plebiscite

namespace Journal

/-- How grave a line is, or which lines a journal keeps. -/
inductive Level where
  | fatal
  | error
  | warn
  | info
  | debug
  | trace
  /-- Keeps no line. -/
  | silent
deriving DecidableEq, Repr, Inhabited

namespace Level

/-- All levels, in the order in which they are listed to callers. -/
def all : List Level :=
  [.fatal, .error, .warn, .info, .debug, .trace, .silent]

/-- The word for a level. -/
def text : Level → String
  | .fatal => "fatal"
  | .error => "error"
  | .warn => "warn"
  | .info => "info"
  | .debug => "debug"
  | .trace => "trace"
  | .silent => "silent"

/-- The number of a level; graver lines have greater numbers, and no line is as grave as
`silent`. -/
def severity : Level → Nat
  | .trace => 10
  | .debug => 20
  | .info => 30
  | .warn => 40
  | .error => 50
  | .fatal => 60
  | .silent => 100

/-- The number that names a level; the one of `silent` is infinite. -/
def number : Level → Number
  | .silent => .infinite false
  | level => Number.ofInt level.severity

/-- Whether a value names a level, by its number or by its word.  The word may be written in a
sequence; written plainly it may have capital letters, unless it is `silent`. -/
def isNamedBy (v : Value) (level : Level) : Bool :=
  match v with
  | .number n => decide (n = level.number)
  | .text s => level.text == s || (level ≠ .silent && level.text == s.toLower)
  | .array vs => level.text == (Value.array vs).display
  | _ => false

/-- The level that a value names, or why it names none. -/
def read (v : Value) : Except String Level :=
  match all.find? (isNamedBy v) with
  | some level => .ok level
  | none => .error s!"default level:{v.display} must be included in custom levels"

end Level

/-- One line. -/
structure Line where
  level : Level
  message : String
  /-- The values that belong to it; those that are absent are left out. -/
  fields : List (String × Value)
deriving Repr, Inhabited

end Journal

/-- The lines kept so far. -/
structure Journal where
  /-- The least grave lines that are kept. -/
  level : Journal.Level
  /-- The lines, oldest first. -/
  lines : List Journal.Line
deriving Repr, Inhabited

namespace Journal

/-- A journal without lines. -/
def empty (level : Level) : Journal :=
  ⟨level, []⟩

/-- Keeps a line if it is grave enough. -/
def write (j : Journal) (line : Line) : Journal :=
  if j.level.severity ≤ line.level.severity then { j with lines := j.lines ++ [line] } else j

end Journal

end Plebiscite
