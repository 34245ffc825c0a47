import Mathlib.Data.List.Iterate
import Plebiscite.Proofs.Identifier

/-!
# Going around

From any counter on, the identifiers up to a ceiling are tried in cyclic order: from the counter up
to the ceiling, and then from one up to the counter.  Each of them is tried exactly once, wherever
the counter stands; so the first one that is free is found if there is any.

## Main definitions

- `Identifier.cycle`: the identifiers in the order in which they are tried

## Main results

- `Identifier.mem_cycle`, `Identifier.nodup_cycle`: each identifier is tried exactly once
- `Identifier.next_eq_ok`, `Identifier.next_eq_error`: the first free identifier in cyclic order
-/

namespace Plebiscite.Identifier

/-- The identifiers up to `m` in the order in which they are tried when the counter stands at `n`.
A counter beyond the ceiling is like one at the ceiling. -/
def cycle (m n : Nat) : List Nat :=
  List.range' (n + 1) (m - n) ++ List.range' 1 (min n m)

variable {m n k : Nat}

/-! ## The order -/

theorem mem_cycle : k ∈ cycle m n ↔ 1 ≤ k ∧ k ≤ m := by
  simp only [cycle, List.mem_append, List.mem_range'_1]
  omega

theorem nodup_cycle (m n : Nat) : (cycle m n).Nodup := by
  refine List.nodup_append.mpr ⟨List.nodup_range', List.nodup_range', ?_⟩
  intro j hj k hk
  rw [List.mem_range'_1] at hj hk
  omega

/-- Counting on below the ceiling, and up to it. -/
theorem iterate_after {c j : Nat} (hm : m ≤ Number.maxSafe) (hj : c + j ≤ m + 1) :
    List.iterate (after (.ofInt m)) (.ofInt c) j =
      (List.range' c j).map fun k => .ofInt (k : Nat) := by
  induction j generalizing c with
  | zero => rfl
  | succ j ih =>
    rw [List.iterate, List.range'_succ, List.map_cons]
    congr 1
    -- The last candidate is allowed to be the ceiling, since nothing comes after it.
    cases j with
    | zero => rfl
    | succ j =>
      rw [after_of_lt hm (by omega)]
      exact ih (by omega)

/-- The candidates of a search are the identifiers in cyclic order. -/
theorem iterate_first (hm : m ≤ Number.maxSafe) (n : Nat) :
    List.iterate (after (.ofInt m)) (first (.ofInt m) (some (.ofInt n))) m =
      (cycle m n).map fun k => .ofInt (k : Nat) := by
  rw [first, cycle, List.map_append]
  by_cases hn : n < m
  · -- The ceiling is the last candidate before the search starts over.
    obtain ⟨j, rfl⟩ : ∃ j, m = n + j + 1 := ⟨m - n - 1, by omega⟩
    have hlast : (after (.ofInt (n + j + 1 : Nat)))^[j + 1] (.ofInt (n + 1 : Nat)) =
        .ofInt (1 : Nat) := by
      rw [Function.iterate_succ_apply', after_iterate hm (by omega), after_of_le (by omega)]
    have hlength : n + j + 1 = (j + 1) + n := by omega
    rw [after_of_lt hm hn]
    conv_lhs => rw [hlength, List.iterate_add, ← hlength]
    rw [hlast, iterate_after hm (by omega), iterate_after hm (by omega)]
    congr 3 <;> omega
  · -- The search starts over at once, and the counter cuts nothing off.
    have hnone : m - n = 0 := by omega
    have hall : min n m = m := by omega
    rw [after_of_le (by omega), iterate_after hm (by omega), hnone, hall]
    rfl

/-! ## The search -/

theorem search_eq_find? {α : Type} (after : α → α) (isTaken : α → Bool) (c : α) (n : Nat) :
    search after isTaken c n = (List.iterate after c n).find? fun a => !isTaken a := by
  induction n generalizing c with
  | zero => rfl
  | succ n ih =>
    rw [search, List.iterate, List.find?_cons, ih]
    cases isTaken c <;> rfl

/-- The search goes through the identifiers in cyclic order and stops at the first free one. -/
theorem next_eq (hm : m ≤ Number.maxSafe) (n : Nat) (isTaken : Number → Bool) :
    next (some (.ofInt n)) (.ofInt m) isTaken =
      match (cycle m n).find? fun k => !isTaken (.ofInt (k : Nat)) with
      | some k => .ok (.ofInt k)
      | none => .error (.noFreeIdentifier (.number (.ofInt m))) := by
  have hattempts : attempts (Value.toNumber (.number (.ofInt m))) = m := attempts_ofInt m
  rw [next, searchAll, hattempts, search_eq_find?, iterate_first hm, List.find?_map]
  simp only [Function.comp_def]
  cases (cycle m n).find? fun k => !isTaken (.ofInt (k : Nat)) <;> rfl

/-- The identifier that is given out is the first free one in cyclic order. -/
theorem next_eq_ok (hm : m ≤ Number.maxSafe) {isTaken : Number → Bool} {id : Number} :
    next (some (.ofInt n)) (.ofInt m) isTaken = .ok id ↔
      ∃ k, (cycle m n).find? (fun k => !isTaken (.ofInt (k : Nat))) = some k ∧ id = .ofInt k := by
  rw [next_eq hm]
  cases (cycle m n).find? fun k => !isTaken (.ofInt (k : Nat)) <;> simp [eq_comm]

/-- None is given out only if all are taken. -/
theorem next_eq_error (hm : m ≤ Number.maxSafe) {isTaken : Number → Bool} {f : Fault} :
    next (some (.ofInt n)) (.ofInt m) isTaken = .error f ↔
      (∀ k : Nat, 1 ≤ k → k ≤ m → isTaken (.ofInt k) = true) ∧
        f = .noFreeIdentifier (.number (.ofInt m)) := by
  rw [next_eq hm]
  cases hfind : (cycle m n).find? fun k => !isTaken (.ofInt (k : Nat)) with
  | some k =>
    have hfree := List.find?_some hfind
    obtain ⟨hpos, hle⟩ := mem_cycle.mp (List.mem_of_find?_eq_some hfind)
    simp only [reduceCtorEq, false_iff, not_and]
    intro htaken
    rw [htaken k hpos hle] at hfree
    cases hfree
  | none =>
    rw [List.find?_eq_none] at hfind
    have htaken : ∀ k : Nat, 1 ≤ k → k ≤ m → isTaken (.ofInt k) = true := by
      intro k hpos hle
      simpa using hfind k (mem_cycle.mpr ⟨hpos, hle⟩)
    constructor
    · rintro ⟨⟩
      exact ⟨htaken, rfl⟩
    · rintro ⟨-, rfl⟩
      rfl

/-- From two on, going around four identifiers. -/
example : cycle 4 2 = [3, 4, 1, 2] := by
  decide

end Plebiscite.Identifier
