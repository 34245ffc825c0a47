import Plebiscite.Units
import Plebiscite.Value.Basic

/-!
# Forms

A form reads a value of unknown shape.  It either accepts the value, giving what was read, or
refuses it with every issue that it found, each under the path of the property at fault.  Fields
are read in order and all of them are read, so issues are listed in the order of the fields.

## Main definitions

- `Issue`: what is wrong, and where
- `Verdict`: something read, or issues; an `Applicative` that collects issues
- `Form`: a reader with a verdict, with `Form.number`, `Form.text`, `Form.truth`, `Form.word`,
  `Form.optional`, `Form.withDefault`, `Form.object` and `Form.field`
-/

namespace Plebiscite

/-- What is wrong with a value. -/
inductive Issue.Cause where
  | missing
  | wrongType (expected received : String)
  | notWhole
  | tooSmall (bound : Nat)
  | tooBig (bound : Nat)
  | tooShort (bound : Nat)
  | tooLong (bound : Nat)
  | pattern (message : String)
  /-- The text is none of the words allowed. -/
  | wrongWord (words : List String) (got : String)
  /-- The tag of a union is none of the words allowed. -/
  | wrongTag (words : List String)
deriving DecidableEq, Repr

/-- What is wrong with a value, and under which property. -/
structure Issue where
  /-- The names that lead to the value. -/
  path : List String
  cause : Issue.Cause
deriving DecidableEq, Repr

namespace Issue

/-- Words in single quotation marks with bars between them. -/
def alternatives (words : List String) : String :=
  " | ".intercalate (words.map fun word => "'" ++ word ++ "'")

/-- The code of a cause. -/
def Cause.code : Cause → String
  | .missing => "invalid_type"
  | .wrongType _ _ => "invalid_type"
  | .notWhole => "invalid_type"
  | .tooSmall _ => "too_small"
  | .tooBig _ => "too_big"
  | .tooShort _ => "too_small"
  | .tooLong _ => "too_big"
  | .pattern _ => "invalid_string"
  | .wrongWord _ _ => "invalid_enum_value"
  | .wrongTag _ => "invalid_union_discriminator"

/-- The wording of a cause. -/
def Cause.message : Cause → String
  | .missing => "Required"
  | .wrongType expected received => s!"Expected {expected}, received {received}"
  | .notWhole => "Expected integer, received float"
  | .tooSmall bound => s!"Number must be greater than or equal to {bound}"
  | .tooBig bound => s!"Number must be less than or equal to {bound}"
  | .tooShort bound => s!"String must contain at least {bound} character(s)"
  | .tooLong bound => s!"String must contain at most {bound} character(s)"
  | .pattern message => message
  | .wrongWord words got =>
    s!"Invalid enum value. Expected {alternatives words}, received '" ++ got ++ "'"
  | .wrongTag words => s!"Invalid discriminator value. Expected {alternatives words}"

/-- The path in one text. -/
def location (i : Issue) : String :=
  ".".intercalate i.path

end Issue

/-! ## Verdicts -/

/-- Something read, or every issue found. -/
inductive Verdict (α : Type) where
  | accepted (a : α)
  | refused (issues : List Issue)
deriving DecidableEq, Repr

namespace Verdict

variable {α β : Type}

/-- Applies what was read first to what was read second, collecting the issues of both. -/
def ap (f : Verdict (α → β)) (x : Verdict α) : Verdict β :=
  match f, x with
  | .accepted f, .accepted a => .accepted (f a)
  | .accepted _, .refused issues => .refused issues
  | .refused issues, .accepted _ => .refused issues
  | .refused issues, .refused more => .refused (issues ++ more)

instance : Applicative Verdict where
  pure := .accepted
  seq f x := f.ap (x ())

/-- Puts the issues under a property. -/
def under (name : String) : Verdict α → Verdict α
  | .accepted a => .accepted a
  | .refused issues => .refused (issues.map fun i => { i with path := name :: i.path })

/-- A single issue with the value itself. -/
def fail (cause : Issue.Cause) : Verdict α :=
  .refused [⟨[], cause⟩]

/-- Accepts `a` unless there are causes against it. -/
def weigh (causes : List Issue.Cause) (a : α) : Verdict α :=
  match causes with
  | [] => .accepted a
  | causes => .refused (causes.map fun cause => ⟨[], cause⟩)

end Verdict

/-! ## Forms -/

/-- The name of the type of a value. -/
def Value.typeName : Value → String
  | .absent => "undefined"
  | .null => "null"
  | .bool _ => "boolean"
  | .number .nan => "nan"
  | .number _ => "number"
  | .integer _ => "bigint"
  | .text _ => "string"
  | .array _ => "array"
  | .object _ => "object"

/-- A reader of values of unknown shape. -/
abbrev Form (α : Type) : Type := Value → Verdict α

namespace Form

variable {α β : Type}

/-- Refuses a value that is not of the expected type. -/
def mismatch (expected : String) (v : Value) : Verdict α :=
  match v with
  | .absent => .fail .missing
  | v => .fail (.wrongType expected v.typeName)

/-- A condition on a number. -/
inductive NumberRule where
  | whole
  | atLeast (bound : Nat)
  | atMost (bound : Nat)
deriving DecidableEq, Repr

/-- What a condition has against a number. -/
def NumberRule.objection (n : Number) : NumberRule → Option Issue.Cause
  | .whole => if n.isInteger then none else some .notWhole
  | .atLeast bound => if n.lt (Number.ofInt bound) then some (.tooSmall bound) else none
  | .atMost bound => if (Number.ofInt bound).lt n then some (.tooBig bound) else none

/-- A number under conditions; every condition that fails is an issue. -/
def number (rules : List NumberRule) : Form Number := fun v =>
  match v with
  | .number .nan => mismatch "number" v
  | .number n => .weigh (rules.filterMap (·.objection n)) n
  | v => mismatch "number" v

/-- A condition on a text. -/
inductive TextRule where
  /-- It has so many code units or more. -/
  | atLeast (bound : Nat)
  /-- It has so many code units or fewer. -/
  | atMost (bound : Nat)
  | pattern (test : String → Bool) (message : String)

/-- What a condition has against a text. -/
def TextRule.objection (s : String) : TextRule → Option Issue.Cause
  | .atLeast bound => if Units.length s < bound then some (.tooShort bound) else none
  | .atMost bound => if bound < Units.length s then some (.tooLong bound) else none
  | .pattern test message => if test s then none else some (.pattern message)

/-- A text under conditions; every condition that fails is an issue. -/
def text (rules : List TextRule) : Form String := fun v =>
  match v with
  | .text s => .weigh (rules.filterMap (·.objection s)) s
  | v => mismatch "string" v

/-- A truth value. -/
def truth : Form Bool := fun v =>
  match v with
  | .bool b => .accepted b
  | v => mismatch "boolean" v

/-- One of several words. -/
def word (all : List α) (spelling : α → String) : Form α := fun v =>
  match v with
  | .text s =>
    match all.find? (spelling · == s) with
    | some a => .accepted a
    | none => .fail (.wrongWord (all.map spelling) s)
  | v => mismatch (Issue.alternatives (all.map spelling)) v

/-- A value that may be absent. -/
def optional (form : Form α) : Form (Option α) := fun v =>
  match v with
  | .absent => .accepted none
  | v => some <$> form v

/-- A value that stands for itself when absent. -/
def withDefault (default : α) (form : Form α) : Form α := fun v =>
  match v with
  | .absent => .accepted default
  | v => form v

/-- An object, read by its properties; properties that nobody reads do not matter. -/
def object (read : Value → Verdict α) : Form α := fun v =>
  match v with
  | .object _ => read v
  | v => mismatch "object" v

/-- A property of an object. -/
def field (v : Value) (name : String) (form : Form α) : Verdict α :=
  (form (v.get name)).under name

/-- An object whose other properties depend on the word under `kind`. -/
def tagged (all : List α) (spelling : α → String) (read : α → Value → Verdict β) : Form β :=
  object fun v =>
    match v.get "kind" with
    | .text s =>
      match all.find? (spelling · == s) with
      | some tag => read tag v
      | none => (Verdict.fail (.wrongTag (all.map spelling))).under "kind"
    | _ => (Verdict.fail (.wrongTag (all.map spelling))).under "kind"

end Form

end Plebiscite
