import Plebiscite.Value.Basic

/-!
# Equality of values

Two values are equal if they are built in the same way.  They are the same one only if, besides,
they are not structured: sequences and objects are told apart even if they are built alike.

## Main definitions

- `Value.decEq`: a decision whether two values are equal
- `Value.same`: whether two values are the same one
-/

namespace Plebiscite

namespace Value

mutual

/-- Decides whether two values are equal. -/
def decEq : (a b : Value) → Decidable (a = b)
  | .absent, b => match b with
    | .absent => isTrue rfl
    | .null | .bool _ | .number _ | .integer _ | .text _ | .array _ | .object _ =>
      isFalse nofun
  | .null, b => match b with
    | .null => isTrue rfl
    | .absent | .bool _ | .number _ | .integer _ | .text _ | .array _ | .object _ =>
      isFalse nofun
  | .bool x, b => match b with
    | .bool y =>
      if h : x = y then isTrue (congrArg _ h) else isFalse fun e => h (Value.bool.inj e)
    | .absent | .null | .number _ | .integer _ | .text _ | .array _ | .object _ =>
      isFalse nofun
  | .number x, b => match b with
    | .number y =>
      if h : x = y then isTrue (congrArg _ h) else isFalse fun e => h (Value.number.inj e)
    | .absent | .null | .bool _ | .integer _ | .text _ | .array _ | .object _ =>
      isFalse nofun
  | .integer x, b => match b with
    | .integer y =>
      if h : x = y then isTrue (congrArg _ h) else isFalse fun e => h (Value.integer.inj e)
    | .absent | .null | .bool _ | .number _ | .text _ | .array _ | .object _ =>
      isFalse nofun
  | .text x, b => match b with
    | .text y =>
      if h : x = y then isTrue (congrArg _ h) else isFalse fun e => h (Value.text.inj e)
    | .absent | .null | .bool _ | .number _ | .integer _ | .array _ | .object _ =>
      isFalse nofun
  | .array xs, b => match b with
    | .array ys => match itemsDecEq xs ys with
      | isTrue h => isTrue (congrArg _ h)
      | isFalse h => isFalse fun e => h (Value.array.inj e)
    | .absent | .null | .bool _ | .number _ | .integer _ | .text _ | .object _ =>
      isFalse nofun
  | .object xs, b => match b with
    | .object ys => match fieldsDecEq xs ys with
      | isTrue h => isTrue (congrArg _ h)
      | isFalse h => isFalse fun e => h (Value.object.inj e)
    | .absent | .null | .bool _ | .number _ | .integer _ | .text _ | .array _ =>
      isFalse nofun

/-- Decides whether two sequences have equal elements. -/
def itemsDecEq : (xs ys : List Value) → Decidable (xs = ys)
  | [], [] => isTrue rfl
  | [], _ :: _ => isFalse nofun
  | _ :: _, [] => isFalse nofun
  | x :: xs, y :: ys =>
    match decEq x y, itemsDecEq xs ys with
    | isTrue h, isTrue hs => isTrue (h ▸ hs ▸ rfl)
    | isFalse h, _ => isFalse fun e => h (List.cons.inj e).1
    | _, isFalse hs => isFalse fun e => hs (List.cons.inj e).2

/-- Decides whether two objects have equal properties. -/
def fieldsDecEq : (xs ys : List (String × Value)) → Decidable (xs = ys)
  | [], [] => isTrue rfl
  | [], _ :: _ => isFalse nofun
  | _ :: _, [] => isFalse nofun
  | (n, x) :: xs, (m, y) :: ys =>
    if hn : n = m then
      match decEq x y, fieldsDecEq xs ys with
      | isTrue h, isTrue hs => isTrue (hn ▸ h ▸ hs ▸ rfl)
      | isFalse h, _ => isFalse fun e => h (Prod.mk.inj (List.cons.inj e).1).2
      | _, isFalse hs => isFalse fun e => hs (List.cons.inj e).2
    else isFalse fun e => hn (Prod.mk.inj (List.cons.inj e).1).1

end

instance : DecidableEq Value := decEq

/-- Whether two values are the same one.  No sequence or object is the same as another. -/
def same (a b : Value) : Bool :=
  !a.isStructured && decide (a = b)

/-- Whether a value is the same as one of several. -/
def isAmong (a : Value) (vs : List Value) : Bool :=
  vs.any a.same

end Value

end Plebiscite
