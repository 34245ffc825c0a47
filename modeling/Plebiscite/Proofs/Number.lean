import Mathlib.Data.Rat.Cast.Order
import Mathlib.Tactic.Linarith
import Mathlib.Tactic.NormNum
import Plebiscite.Guard
import Plebiscite.Number.Rounding

/-!
# Whole numbers among the doubles

Identifiers, counters, heights and parts per million are numbers that happen to be whole.  On safe
integers the order of numbers is the order of integers, and a sum that stays safe is exact: nothing
is rounded.

## Main results

- `ofInt_lt`, `ofInt_le`, `isSafeInteger_ofInt`: numbers that are integers
- `ofRat_natCast`: a natural number below `2 ^ 53` is its own nearest double
- `ofInt_add`: the sum of natural numbers is exact as long as it is safe
- `add_le_of_isSafeInteger`: a rounded sum is not taken for a safe one
-/

namespace Plebiscite.Number

open Rounding

/-! ## Integers -/

theorem ofInt_inj {a b : Int} : ofInt a = ofInt b ↔ a = b := by
  simp [ofInt]

@[simp]
theorem ofInt_lt (a b : Int) : (ofInt a).lt (ofInt b) = decide (a < b) := by
  simp [ofInt, lt]

@[simp]
theorem ofInt_le (a b : Int) : (ofInt a).le (ofInt b) = decide (a ≤ b) := by
  simp [ofInt, le, lt, ← Bool.decide_or, le_iff_lt_or_eq]

@[simp]
theorem ofInt_precedes (a b : Int) : (ofInt a).precedes (ofInt b) = decide (a < b) :=
  ofInt_lt a b

@[simp]
theorem isSafeInteger_ofInt (n : Int) :
    (ofInt n).isSafeInteger = decide (n.natAbs ≤ maxSafe) :=
  rfl

@[simp]
theorem toInt_ofInt (n : Int) : (ofInt n).toInt = n :=
  Int.tdiv_one n

theorem exists_of_isInteger {n : Number} (h : n.isInteger = true) : ∃ k : Int, n = ofInt k := by
  cases n with
  | nan => cases h
  | infinite negative => cases h
  | finite q =>
    have hden : q.den = 1 := by simpa [isInteger] using h
    exact ⟨q.num, congrArg _ ((Rat.den_eq_one_iff q).mp hden).symm⟩

theorem isInteger_of_isSafeInteger {n : Number} (h : n.isSafeInteger = true) :
    n.isInteger = true := by
  cases n with
  | nan => cases h
  | infinite negative => cases h
  | finite q => exact (Bool.and_eq_true_iff.mp h).1

/-- The numbers from a whole bound on that are safe are natural numbers. -/
theorem exists_nat_of_isSafeInteger {n : Number} (low : Nat) (h : n.isSafeInteger = true)
    (hlow : (ofInt low).le n = true) : ∃ k : Nat, n = ofInt k ∧ low ≤ k ∧ k ≤ maxSafe := by
  obtain ⟨k, rfl⟩ := exists_of_isInteger (isInteger_of_isSafeInteger h)
  simp only [isSafeInteger_ofInt, decide_eq_true_eq] at h
  simp only [ofInt_le, decide_eq_true_eq] at hlow
  refine ⟨k.toNat, ?_, ?_, ?_⟩
  · rw [Int.toNat_of_nonneg (by omega)]
  · omega
  · omega

/-- The safe integers from a whole bound on, as natural numbers. -/
theorem isSafeInteger_and_le_iff {n : Number} (low : Nat) :
    (n.isSafeInteger && (ofInt low).le n) = true ↔
      ∃ k : Nat, n = ofInt k ∧ low ≤ k ∧ k ≤ maxSafe := by
  rw [Bool.and_eq_true]
  constructor
  · intro h
    exact exists_nat_of_isSafeInteger low h.1 h.2
  · rintro ⟨k, rfl, hlow, hk⟩
    simp [hlow, hk]

/-! ## Order -/

theorem lt_asymm {a b : Number} (h : a.lt b = true) : b.lt a = false := by
  cases a with
  | nan => cases h
  | infinite x => cases b <;> cases x <;> simp_all [lt]
  | finite x =>
    cases b with
    | finite y => exact decide_eq_false (not_lt.mpr (of_decide_eq_true h).le)
    | _ => simp_all [lt]

theorem ne_of_lt {a b : Number} (h : a.lt b = true) : a ≠ b := by
  rintro rfl
  have hself := lt_asymm h
  rw [h] at hself
  cases hself

/-- Of numbers that compare, the larger one does not come first. -/
theorem not_precedes_of_lt {a b : Number} (h : a.lt b = true) : b.precedes a = false := by
  cases a with
  | nan => cases h
  | _ =>
    cases b with
    | nan => rfl
    | _ => exact lt_asymm h

/-- Numbers that compare are ordered; one that is not a number compares with none. -/
theorem le_trans {a b c : Number} (hab : a.le b = true) (hbc : b.le c = true) :
    a.le c = true := by
  cases a <;> cases b <;> cases c <;> simp_all only [le, lt, Bool.or_eq_true, decide_eq_true_eq,
    finite.injEq, infinite.injEq, reduceCtorEq, Bool.false_eq_true] <;> grind

theorem lt_of_lt_of_le {a b c : Number} (hab : a.lt b = true) (hbc : b.le c = true) :
    a.lt c = true := by
  cases a <;> cases b <;> cases c <;> simp_all only [le, lt, Bool.or_eq_true, decide_eq_true_eq,
    finite.injEq, infinite.injEq, reduceCtorEq, Bool.false_eq_true] <;> grind

theorem not_lt_of_le {a b : Number} (h : a.le b = true) : b.lt a = false := by
  by_contra hlt
  exact ne_of_lt (lt_of_lt_of_le (eq_true_of_ne_false hlt) h) rfl

/-! ## Exact sums -/

theorem binade_natCast {n : Nat} (h : n ≠ 0) : binade n 1 = Nat.log2 n := by
  have hone : Nat.log2 1 = 0 := by decide
  have hpow : Nat.pow 2 (Nat.log2 n) ≤ n := Nat.log2_self_le h
  simp only [binade, hone, Nat.cast_zero, sub_zero, Int.toNat_natCast, one_mul]
  rw [if_pos]
  simpa using hpow

theorem halfEven_one (n : Nat) : halfEven n 1 = n := by
  simp [halfEven, Nat.mod_one]

/-- A significand that was shifted to the left is shifted back by its exponent. -/
theorem scale_shifted (n k : Nat) : scale (n * Nat.pow 2 k) (-(k : Int)) = n := by
  have hpow : ((2 : Rat) ^ k) ≠ 0 := by positivity
  by_cases hk : k = 0
  · subst hk
    simp [scale]
  · rw [scale, if_neg (by omega), Rat.mkRat_eq_div]
    simp only [Nat.pow_eq, neg_neg, Int.toNat_natCast]
    push_cast
    exact mul_div_cancel_right₀ _ hpow

theorem lt_scale_one {n k e : Nat} (h : n < 2 ^ k) (hk : k ≤ e) : (n : Rat) < scale 1 e := by
  rw [scale, if_pos (Int.natCast_nonneg e), Nat.cast_lt, one_mul, Int.toNat_natCast]
  exact Nat.lt_of_lt_of_le h (Nat.pow_le_pow_right (by decide) hk)

/-- A natural number below `2 ^ 53` is a double. -/
theorem ofRat_natCast {n : Nat} (h : n < 2 ^ 53) : ofRat (n : Rat) = ofInt n := by
  by_cases hzero : n = 0
  · subst hzero
    rfl
  have hlog : Nat.log2 n ≤ 52 := Nat.lt_succ_iff.mp ((Nat.log2_lt hzero).mpr h)
  -- The number fits into the significand, so it is only shifted to the left and back.
  have hplace : lastPlace n 1 = -((52 - Nat.log2 n : Nat) : Int) := by
    rw [lastPlace, binade_natCast hzero]
    omega
  have hsig : significand n 1 = n * Nat.pow 2 (52 - Nat.log2 n) := by
    have hshift : (-lastPlace n 1).toNat = 52 - Nat.log2 n := by omega
    have hunit : Nat.pow 2 (lastPlace n 1).toNat = 1 := by
      have : (lastPlace n 1).toNat = 0 := by omega
      rw [this]
    rw [significand, hshift, hunit, one_mul, halfEven_one]
  have hmagnitude : scale (significand n 1) (lastPlace n 1) = n := by
    rw [hsig, hplace, scale_shifted]
  have hrange : ¬ scale 1 1024 ≤ (n : Rat) := not_le.mpr (lt_scale_one (e := 1024) h (by decide))
  have hsign : ¬ (n : Int) < 0 := by omega
  simp [ofRat, ofInt, hzero, hmagnitude, hrange, hsign]

/-- Natural numbers are added exactly, and the sum is rounded. -/
theorem ofInt_add_ofInt (a b : Nat) : ofInt a + ofInt b = ofRat ((a + b : Nat) : Rat) := by
  have hsum : ((a : Int) : Rat) + ((b : Int) : Rat) = ((a + b : Nat) : Rat) := by push_cast; rfl
  rw [← hsum]
  rfl

/-- The sum of two natural numbers is exact as long as it is safe. -/
theorem ofInt_add {a b : Nat} (h : a + b ≤ maxSafe) :
    ofInt a + ofInt b = ofInt ((a + b : Nat) : Int) := by
  rw [ofInt_add_ofInt, ofRat_natCast]
  simp only [maxSafe] at h
  omega

/-! ## Sums that are not safe -/

theorem le_halfEven {q n d : Nat} (h : q ≤ n / d) : q ≤ halfEven n d := by
  simp only [halfEven]
  split
  · exact h
  · split <;> omega

theorem halfEven_le (n d : Nat) : halfEven n d ≤ n / d + 1 := by
  simp only [halfEven]
  split
  · omega
  · split <;> omega

/-- Between `2 ^ 53` and `2 ^ 54` only even numbers are doubles, so half a number is rounded. -/
theorem ofRat_natCast_of_le {n : Nat} (hlow : 2 ^ 53 ≤ n) (hhigh : n < 2 ^ 54) :
    ofRat (n : Rat) = ofInt ((halfEven n 2 * 2 : Nat) : Int) := by
  have hzero : n ≠ 0 := by omega
  have hplace : lastPlace n 1 = 1 := by
    rw [lastPlace, binade_natCast hzero, (Nat.log2_eq_iff hzero).mpr ⟨hlow, hhigh⟩]
    rfl
  obtain ⟨m, hm⟩ : ∃ m, m = halfEven n 2 * 2 := ⟨_, rfl⟩
  have hmost : m < 2 ^ 55 := by
    have hhalf := halfEven_le n 2
    omega
  have hmagnitude : scale (significand n 1) (lastPlace n 1) = m := by
    have hsig : significand n 1 = halfEven n 2 := by
      rw [significand, hplace]
      simp
    rw [hsig, hplace, hm]
    rfl
  have hrange : ¬ scale 1 1024 ≤ (m : Rat) :=
    not_le.mpr (lt_scale_one (e := 1024) hmost (by decide))
  have hsign : ¬ (n : Int) < 0 := by omega
  rw [← hm]
  simp [ofRat, ofInt, hzero, hmagnitude, hrange, hsign]

/-- Rounding does not lead back among the safe integers. -/
theorem exists_ofRat_natCast {n : Nat} (hlow : 2 ^ 53 ≤ n) (hhigh : n < 2 ^ 54) :
    ∃ m : Nat, 2 ^ 53 ≤ m ∧ ofRat (n : Rat) = ofInt m := by
  have hhalf : 2 ^ 52 ≤ halfEven n 2 := le_halfEven (by omega)
  exact ⟨_, by omega, ofRat_natCast_of_le hlow hhigh⟩

/-- Only exact sums of natural numbers are safe. -/
theorem add_le_of_isSafeInteger {a b : Nat} (ha : a ≤ maxSafe) (hb : b ≤ maxSafe)
    (h : (ofInt a + ofInt b).isSafeInteger = true) : a + b ≤ maxSafe := by
  by_contra hover
  simp only [maxSafe] at ha hb hover
  obtain ⟨m, hm, hround⟩ := @exists_ofRat_natCast (a + b) (by omega) (by omega)
  rw [ofInt_add_ofInt, hround, isSafeInteger_ofInt] at h
  have hsafe : (m : Int).natAbs ≤ maxSafe := of_decide_eq_true h
  simp only [maxSafe] at hsafe
  omega

end Plebiscite.Number
