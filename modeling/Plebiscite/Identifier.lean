import Plebiscite.Fault
import Plebiscite.Number.Rounding
import Plebiscite.Value.Arithmetic

/-!
# Identifiers

Votes and thresholds are numbered from one up to a ceiling, after which numbering starts over.
An identifier in use is skipped, so no two things that exist share one.

A counter holds the last identifier given out.  A counter that was never set counts as no number,
and so does its successor.

## Main definitions

- `Counter`: a count that may be missing
- `Identifier.readCeiling`: a ceiling, if a value is a positive integer
- `Identifier.next`: the first free identifier after a counter
- `Identifier.nextOf`: the same for counters of any type
-/

namespace Plebiscite

/-- A count, or nothing if it was never set. -/
abbrev Counter : Type := Option Number

/-- One more; without a count this is no number. -/
def Counter.succ (c : Counter) : Number :=
  match c with
  | some n => n + 1
  | none => .nan

namespace Identifier

/-- The largest identifier unless the host sets another: `2 ^ 32 - 1`. -/
def defaultCeiling : Nat :=
  4294967295

/-- The ceiling that a value is.  Only a positive safe integer is one. -/
def readCeiling (v : Value) : Except Fault Number :=
  match v with
  | .number n =>
    if n.isSafeInteger && Number.le 1 n then .ok n else .error (.identifierCeiling n.text)
  | v => .error (.identifierCeiling v.display)

/-- How many identifiers are tried before giving up: as many as there are up to the ceiling. -/
def attempts : Number → Nat
  | .finite q => q.ceil.toNat
  | .infinite false => Number.maxSafe
  | _ => 0

section Search

variable {α : Type}

/-- The first free identifier among a candidate and the `n - 1` that follow it. -/
def search (after : α → α) (isTaken : α → Bool) (candidate : α) : Nat → Option α
  | 0 => none
  | n + 1 =>
    if isTaken candidate then search after isTaken (after candidate) n else some candidate

/-- The first free identifier, where so many are tried as go once around up to the ceiling. -/
def searchAll (ceiling : Value) (after : α → α) (isTaken : α → Bool) (first : α) :
    Except Fault α :=
  match search after isTaken first (attempts ceiling.toNumber) with
  | some id => .ok id
  | none => .error (.noFreeIdentifier ceiling)

end Search

/-- The identifier to try after `n`: one more, or one after the ceiling. -/
def after (ceiling n : Number) : Number :=
  if ceiling.le n then 1 else n + 1

/-- The identifier to try first. -/
def first (ceiling : Number) (c : Counter) : Number :=
  match c with
  | some n => after ceiling n
  | none => c.succ

/-- The first identifier after the counter, in cyclic order, that is not taken. -/
def next (counter : Counter) (ceiling : Number) (isTaken : Number → Bool) : Except Fault Number :=
  searchAll (.number ceiling) (after ceiling) isTaken (first ceiling counter)

/-! ## Identifiers of any type

A counter may be handed in as a value of any type, and so may a ceiling.  An identifier is then
whatever comes of counting on. -/

/-- The identifier to try after a value: one more, or one after the ceiling. -/
def following (ceiling v : Value) : Value :=
  if ceiling.notAfter v then .number 1 else v.plus (.number 1)

/-- The first identifier after a counter, in cyclic order, that is not taken. -/
def nextOf (counter ceiling : Value) (isTaken : Value → Bool) : Except Fault Value :=
  searchAll ceiling (following ceiling) isTaken (following ceiling counter)

end Identifier

end Plebiscite
