import Mathlib.Algebra.Group.Even
import Mathlib.Tactic.Common
import Plebiscite.Proofs.Number

/-!
# The nearest double

A sum of two safe integers is a little below `2 ^ 54` at most.  Up to `2 ^ 53` such a sum is itself
a double.  Beyond, only the even numbers are, and an odd sum lies in the middle of two of them.

## Main definitions

- `Number.Representable`: natural numbers that a double holds
- `Number.IsNearest`: the double that a natural number is rounded to

## Main results

- `Number.exists_nearest_add`: the sum of two safe integers is the double nearest to the exact sum
-/

namespace Plebiscite.Number

open Rounding

/-- A natural number that a double holds: fifty-three binary digits, shifted to the left. -/
def Representable (r : Nat) : Prop :=
  ∃ m e : Nat, m < 2 ^ 53 ∧ e ≤ 971 ∧ r = m * 2 ^ e

/-- How far apart two natural numbers are. -/
def gap (n r : Nat) : Nat :=
  ((n : Int) - r).natAbs

/-- The double that is nearest to a natural number.  Of two that are equally near it is the one with
the even significand. -/
structure IsNearest (n r : Nat) : Prop where
  representable : Representable r
  gap_le : ∀ s, Representable s → gap n r ≤ gap n s
  even : ∀ s, Representable s → s ≠ r → gap n s = gap n r →
    ∃ m e : Nat, Even m ∧ 2 ^ 52 ≤ m ∧ m < 2 ^ 53 ∧ e ≤ 971 ∧ r = m * 2 ^ e

variable {n r s a b : Nat}

theorem representable_of_lt (h : n < 2 ^ 53) : Representable n :=
  ⟨n, 0, h, by omega, by omega⟩

/-- From `2 ^ 53` on no odd number is a double. -/
theorem Representable.even (hs : Representable s) (h : 2 ^ 53 ≤ s) : Even s := by
  obtain ⟨m, e, hm, -, rfl⟩ := hs
  cases e with
  | zero => omega
  | succ e => exact ⟨m * 2 ^ e, by rw [Nat.pow_succ, ← Nat.mul_assoc, Nat.mul_two]⟩

/-- A double is the nearest one to itself. -/
theorem Representable.isNearest (hn : Representable n) : IsNearest n n := by
  refine ⟨hn, fun s _ => ?_, fun s _ hne hgap => ?_⟩
  · simp [gap]
  · simp only [gap, sub_self, Int.natAbs_zero] at hgap
    omega

/-- An odd number between `2 ^ 53` and `2 ^ 54` is rounded to the neighbour that is four times some
number. -/
theorem isNearest_of_odd {q : Nat} (hq : Even q) (hlow : 2 ^ 52 ≤ q) (hhigh : q ≤ 2 ^ 53)
    (hn : n = 2 * q + 1 ∨ n + 1 = 2 * q) (hle : 2 ^ 53 ≤ n) : IsNearest n (2 * q) := by
  -- The significand is half of it, unless that takes one more digit.
  have heven : ∃ m e : Nat, Even m ∧ 2 ^ 52 ≤ m ∧ m < 2 ^ 53 ∧ e ≤ 971 ∧ 2 * q = m * 2 ^ e := by
    rcases Nat.lt_or_eq_of_le hhigh with hlt | rfl
    · exact ⟨q, 1, hq, hlow, hlt, by omega, by omega⟩
    · exact ⟨2 ^ 52, 2, ⟨2 ^ 51, by decide⟩, le_refl _, by decide, by omega, by decide⟩
  obtain ⟨m, e, -, -, hm, he, hr⟩ := id heven
  refine ⟨⟨m, e, hm, he, hr⟩, fun s hs => ?_, fun _ _ _ _ => heven⟩
  -- The number itself is odd, so every double is at least one away from it.
  have hne : s ≠ n := by
    rintro rfl
    obtain ⟨k, hk⟩ := hs.even hle
    omega
  simp only [gap]
  omega

/-- Half of a number, rounded to the even one of two neighbours. -/
theorem halfEven_two (n : Nat) : (Even n ∧ n = halfEven n 2 * 2) ∨
    Even (halfEven n 2) ∧ (n = 2 * halfEven n 2 + 1 ∨ n + 1 = 2 * halfEven n 2) := by
  simp only [halfEven, Nat.even_iff]
  split
  · omega
  · split <;> omega

/-- Up to `2 ^ 54` natural numbers are rounded to the nearest double. -/
theorem exists_nearest_ofRat (h : n < 2 ^ 54) :
    ∃ r : Nat, ofRat (n : Rat) = ofInt r ∧ IsNearest n r := by
  by_cases hlow : n < 2 ^ 53
  · exact ⟨n, ofRat_natCast hlow, (representable_of_lt hlow).isNearest⟩
  · rw [not_lt] at hlow
    refine ⟨halfEven n 2 * 2, ofRat_natCast_of_le hlow h, ?_⟩
    rcases halfEven_two n with ⟨-, hn⟩ | ⟨heven, hn⟩
    · rw [← hn]
      exact Representable.isNearest ⟨halfEven n 2, 1, by omega, by omega, hn⟩
    · rw [Nat.mul_comm]
      exact isNearest_of_odd heven (by omega) (by omega) hn hlow

/-- The sum of two safe integers is the double nearest to the exact sum. -/
theorem exists_nearest_add (ha : a ≤ maxSafe) (hb : b ≤ maxSafe) :
    ∃ r : Nat, ofInt a + ofInt b = ofInt r ∧ IsNearest (a + b) r := by
  rw [ofInt_add_ofInt]
  simp only [maxSafe] at ha hb
  exact exists_nearest_ofRat (by omega)

end Plebiscite.Number
