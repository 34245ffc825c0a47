import Mathlib.Logic.Function.Iterate
import Plebiscite.Identifier
import Plebiscite.Proofs.Checks
import Plebiscite.Proofs.Number

/-!
# The search for identifiers

Counting on from a counter, the first identifier that is not taken is given out.  As long as
everything below a number is taken and the counter stands at it, that is the next number, until the
ceiling is reached.

## Main results

- `search_eq_some`, `search_eq_none`: what a search finds
- `not_taken_of_next`: an identifier that is given out was free
- `next_eq_ok_of_filled`: numbering without gaps
- `nextOf_number`: counting on from a number gives numbers
-/

namespace Plebiscite.Identifier

variable {α : Type}

/-! ## Searching -/

/-- A search finds the first candidate that is free. -/
theorem search_eq_some {after : α → α} {isTaken : α → Bool} {n : Nat} {c id : α} :
    search after isTaken c n = some id ↔
      ∃ k < n, after^[k] c = id ∧ isTaken id = false ∧
        ∀ j < k, isTaken (after^[j] c) = true := by
  induction n generalizing c with
  | zero => simp [search]
  | succ n ih =>
    by_cases hc : isTaken c = true
    · simp only [search, hc, if_true, ih]
      constructor
      · rintro ⟨k, hk, hid, hfree, htaken⟩
        refine ⟨k + 1, by omega, hid, hfree, ?_⟩
        rintro (_ | j) hj
        · exact hc
        · exact htaken j (by omega)
      · rintro ⟨_ | k, hk, hid, hfree, htaken⟩
        · rw [Function.iterate_zero, id_eq] at hid
          rw [← hid, hc] at hfree
          cases hfree
        · exact ⟨k, by omega, hid, hfree, fun j hj => htaken (j + 1) (by omega)⟩
    · simp only [search, hc, if_false, Option.some.injEq, Bool.false_eq_true]
      rw [Bool.not_eq_true] at hc
      constructor
      · rintro rfl
        exact ⟨0, by omega, rfl, hc, by omega⟩
      · rintro ⟨_ | k, -, hid, -, htaken⟩
        · exact hid
        · have := htaken 0 (by omega)
          simp only [Function.iterate_zero, id_eq, hc] at this
          cases this

/-- A search fails if every candidate is taken. -/
theorem search_eq_none {after : α → α} {isTaken : α → Bool} {n : Nat} {c : α} :
    search after isTaken c n = none ↔ ∀ j < n, isTaken (after^[j] c) = true := by
  induction n generalizing c with
  | zero => simp [search]
  | succ n ih =>
    by_cases hc : isTaken c = true
    · simp only [search, hc, if_true, ih]
      constructor
      · rintro htaken (_ | j) hj
        · exact hc
        · exact htaken j (by omega)
      · exact fun htaken j hj => htaken (j + 1) (by omega)
    · simp only [search, hc, if_false, Bool.false_eq_true, reduceCtorEq, false_iff]
      exact fun htaken => hc (htaken 0 (by omega))

theorem searchAll_eq_ok {ceiling : Value} {after : α → α} {isTaken : α → Bool} {first id : α} :
    searchAll ceiling after isTaken first = .ok id ↔
      search after isTaken first (attempts ceiling.toNumber) = some id := by
  unfold searchAll
  cases search after isTaken first (attempts ceiling.toNumber) <;> simp

/-- An identifier that is given out was free. -/
theorem not_taken_of_next {counter : Counter} {ceiling id : Number} {isTaken : Number → Bool}
    (h : next counter ceiling isTaken = .ok id) : isTaken id = false := by
  obtain ⟨k, -, -, hfree, -⟩ := search_eq_some.mp (searchAll_eq_ok.mp h)
  exact hfree

/-! ## Numbering without gaps -/

/-- A ceiling that passes is a positive number up to which all numbers are exact. -/
theorem exists_of_readCeiling {v : Value} {n : Number} (h : readCeiling v = .ok n) :
    ∃ m : Nat, n = .ofInt m ∧ 1 ≤ m ∧ m ≤ Number.maxSafe := by
  cases v with
  | number k =>
    simp only [readCeiling] at h
    split at h
    · rename_i hk
      cases h
      obtain ⟨hsafe, hlow⟩ := Bool.and_eq_true_iff.mp hk
      exact Number.exists_nat_of_isSafeInteger 1 hsafe hlow
    · cases h
  | _ => cases h

@[simp]
theorem attempts_ofInt (m : Nat) : attempts (.ofInt m) = m := by
  show ((m : Int) : Rat).ceil.toNat = m
  rw [Rat.ceil_intCast, Int.toNat_natCast]

/-- Below the ceiling the next candidate is one more. -/
theorem after_of_lt {m n : Nat} (hm : m ≤ Number.maxSafe) (hn : n < m) :
    after (.ofInt m) (.ofInt n) = .ofInt (n + 1 : Nat) := by
  have hle : (Number.ofInt m).le (.ofInt n) = false := by simpa using hn
  rw [after, hle, if_neg Bool.false_ne_true]
  exact Number.ofInt_add (b := 1) (by omega)

/-- At the ceiling numbering starts over. -/
theorem after_of_le {m n : Nat} (hn : m ≤ n) :
    after (.ofInt m) (.ofInt n) = .ofInt (1 : Nat) := by
  have hle : (Number.ofInt m).le (.ofInt n) = true := by simpa using hn
  rw [after, hle, if_pos rfl]
  rfl

/-- Counting on below the ceiling. -/
theorem after_iterate {m n j : Nat} (hm : m ≤ Number.maxSafe) (hj : n + j ≤ m) :
    (after (.ofInt m))^[j] (.ofInt n) = .ofInt (n + j : Nat) := by
  induction j with
  | zero => rfl
  | succ j ih =>
    rw [Function.iterate_succ_apply', ih (by omega), after_of_lt hm (by omega)]
    rfl

/-- If exactly the numbers up to the counter are taken, the next one is given out, unless the
counter has reached the ceiling. -/
theorem next_eq_ok_of_filled {m n : Nat} {id : Number} {isTaken : Number → Bool}
    (hm : m ≤ Number.maxSafe)
    (htaken : ∀ k : Nat, isTaken (.ofInt k) = decide (1 ≤ k ∧ k ≤ n)) :
    next (some (.ofInt n)) (.ofInt m) isTaken = .ok id ↔ n < m ∧ id = .ofInt (n + 1 : Nat) := by
  have hattempts : attempts (Value.toNumber (.number (.ofInt m))) = m := attempts_ofInt m
  rw [next, searchAll_eq_ok, hattempts, first]
  by_cases hlt : n < m
  · -- The first candidate is free.
    obtain ⟨m, rfl⟩ : ∃ p, m = p + 1 := ⟨m - 1, by omega⟩
    have hfree : isTaken (.ofInt (n + 1 : Nat)) = false := by rw [htaken]; simp
    rw [after_of_lt hm hlt, search, hfree, if_neg Bool.false_ne_true]
    simp [hlt, eq_comm]
  · -- The search starts over at one and finds every number up to the ceiling taken.
    have hnone : search (after (.ofInt m)) isTaken (.ofInt (1 : Nat)) m = none := by
      refine search_eq_none.mpr fun j hj => ?_
      rw [after_iterate hm (by omega), htaken]
      simpa using by omega
    rw [after_of_le (by omega), hnone]
    simp [hlt]

/-! ## Identifiers of any type -/

theorem following_number (ceiling n : Number) :
    following (.number ceiling) (.number n) = .number (after ceiling n) := by
  show (if ceiling.le n = true then Value.number 1 else .number (n + 1)) = _
  unfold after
  split <;> rfl

theorem search_number (ceiling c : Number) (isTaken : Value → Bool) (n : Nat) :
    search (following (.number ceiling)) isTaken (.number c) n =
      (search (after ceiling) (fun k => isTaken (.number k)) c n).map .number := by
  induction n generalizing c with
  | zero => rfl
  | succ n ih =>
    simp only [search]
    split
    · rw [following_number, ih]
    · rfl

/-- Counting on from a number gives numbers. -/
theorem nextOf_number (counter ceiling : Number) (isTaken : Value → Bool) :
    nextOf (.number counter) (.number ceiling) isTaken =
      (next (some counter) ceiling fun k => isTaken (.number k)).map .number := by
  unfold nextOf next searchAll
  rw [following_number, search_number, first]
  cases search (after ceiling) (fun k => isTaken (.number k)) (after ceiling counter)
    (attempts (Value.toNumber (.number ceiling))) <;> rfl

end Plebiscite.Identifier
