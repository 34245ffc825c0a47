import Mathlib.Algebra.Order.Field.Power
import Mathlib.Algebra.Order.Floor.Ring
import Mathlib.Data.Rat.Floor
import Mathlib.Tactic.Linarith
import Mathlib.Tactic.Positivity
import Mathlib.Tactic.Ring
import Plebiscite.Number.Shortest
import Plebiscite.Proofs.Number

/-!
# Number text tells whole numbers from all others

A double is written as a decimal that rounds back to it.  Seventeen digits are always enough for
that, and no safe integer but the double itself rounds to it; so the text of a safe integer is the
text of no other double.  No text of a number has a colon in it.

## Main definitions

- `Number.IsDouble`: rounding leaves the number as it is

## Main results

- `Decimal.shortest_mem_cell`: the decimal that is written rounds back
- `Number.eq_ofInt_of_text`: only a safe integer has the text of one
- `Number.colon_notMem_text`: no text has a colon
-/

namespace Plebiscite

open Number Rounding

namespace Rounding

/-! ## Powers -/

theorem scale_eq (m : Nat) (e : Int) : scale m e = m * (2 : ℚ) ^ e := by
  unfold scale
  split
  · obtain ⟨k, rfl⟩ := Int.eq_ofNat_of_zero_le ‹_›
    simp
  · obtain ⟨k, rfl⟩ : ∃ k : Nat, e = -(k : Int) := ⟨(-e).toNat, by omega⟩
    rw [Rat.mkRat_eq_div]
    simp [div_eq_mul_inv]

theorem powerOfTen_eq (e : Int) : powerOfTen e = (10 : ℚ) ^ e := by
  unfold powerOfTen
  split
  · obtain ⟨k, rfl⟩ := Int.eq_ofNat_of_zero_le ‹_›
    simp
  · obtain ⟨k, rfl⟩ : ∃ k : Nat, e = -(k : Int) := ⟨(-e).toNat, by omega⟩
    rw [Rat.mkRat_eq_div]
    simp

/-- A power of two is the quotient of its two natural powers. -/
theorem two_zpow (k : Int) : (2 : ℚ) ^ k = 2 ^ k.toNat / 2 ^ (-k).toNat := by
  rw [← zpow_natCast, ← zpow_natCast, ← zpow_sub₀ two_ne_zero]
  congr 1
  omega

variable {n d : Nat}

/-- The quotient lies between the power of two of its binade and the next one. -/
theorem binade_spec (hn : n ≠ 0) (hd : d ≠ 0) :
    (2 : ℚ) ^ binade n d ≤ (n : ℚ) / d ∧ (n : ℚ) / d < (2 : ℚ) ^ (binade n d + 1) := by
  have hdpos : (0 : ℚ) < d := by exact_mod_cast Nat.pos_of_ne_zero hd
  have hnlow : (2 : ℚ) ^ Nat.log2 n ≤ n := by exact_mod_cast Nat.log2_self_le hn
  have hnhigh : (n : ℚ) < 2 ^ (Nat.log2 n + 1) := by exact_mod_cast Nat.lt_log2_self
  have hdlow : (2 : ℚ) ^ Nat.log2 d ≤ d := by exact_mod_cast Nat.log2_self_le hd
  have hdhigh : (d : ℚ) < 2 ^ (Nat.log2 d + 1) := by exact_mod_cast Nat.lt_log2_self
  set k : Int := (Nat.log2 n : Int) - Nat.log2 d with hk
  -- The leading bits alone leave two binades.
  have hlow : (2 : ℚ) ^ (k - 1) < n / d := by
    rw [lt_div_iff₀ hdpos]
    calc (2 : ℚ) ^ (k - 1) * d < (2 : ℚ) ^ (k - 1) * 2 ^ (Nat.log2 d + 1) := by gcongr
      _ = 2 ^ Nat.log2 n := by
        rw [← zpow_natCast, ← zpow_natCast, ← zpow_add₀ two_ne_zero]
        congr 1
        push_cast
        omega
      _ ≤ n := hnlow
  have hhigh : (n : ℚ) / d < 2 ^ (k + 1) := by
    rw [div_lt_iff₀ hdpos]
    calc (n : ℚ) < 2 ^ (Nat.log2 n + 1) := hnhigh
      _ = (2 : ℚ) ^ (k + 1) * 2 ^ Nat.log2 d := by
        rw [← zpow_natCast, ← zpow_natCast, ← zpow_add₀ two_ne_zero]
        congr 1
        push_cast
        omega
      _ ≤ (2 : ℚ) ^ (k + 1) * d := by gcongr
  have htest : d * Nat.pow 2 k.toNat ≤ n * Nat.pow 2 (-k).toNat ↔ (2 : ℚ) ^ k ≤ n / d := by
    rw [le_div_iff₀ hdpos, two_zpow, div_mul_eq_mul_div, div_le_iff₀ (by positivity), mul_comm]
    exact_mod_cast Iff.rfl
  simp only [binade]
  rw [← hk]
  split
  · exact ⟨htest.mp ‹_›, hhigh⟩
  · refine ⟨hlow.le, ?_⟩
    rw [sub_add_cancel]
    exact not_le.mp (htest.not.mp ‹_›)

end Rounding

/-! ## Doubles -/

namespace Number

/-- Rounding leaves the number as it is. -/
def IsDouble : Number → Prop
  | .finite q => ofRat q = .finite q
  | _ => True

theorem isDouble_ofInt {k : Nat} (hk : k ≤ maxSafe) : (ofInt k).IsDouble := by
  have h : k < 2 ^ 53 := by
    simp only [maxSafe] at hk
    omega
  exact ofRat_natCast h

end Number

namespace Decimal

variable {q : ℚ} {k : Nat}

/-- A positive double, taken apart: a significand and the place of its last digit. -/
structure Split (q : ℚ) (m : Nat) (e : Int) : Prop where
  eq : q = m * (2 : ℚ) ^ e
  lt : q < (2 : ℚ) ^ (e + 53)
  /-- Only the smallest doubles have fewer than 53 digits. -/
  le : -1074 < e → (2 : ℚ) ^ (e + 52) ≤ q
  cell_eq : cell q = ⟨q - (if m = 2 ^ 52 ∧ -1074 < e then (2 : ℚ) ^ (e - 2) else 2 ^ (e - 1)),
    q + 2 ^ (e - 1), m % 2 == 0⟩

/-- What is not below zero is the quotient of two naturals. -/
theorem natAbs_div_den (hq : 0 ≤ q.num) : (q.num.natAbs : ℚ) / q.den = q := by
  have hcast : ((q.num.natAbs : Int) : ℚ) = (q.num : ℚ) := by
    rw [Int.natAbs_of_nonneg hq]
  rw [← Int.cast_natCast, hcast]
  exact Rat.num_div_den q

theorem exists_split (hq : 0 < q) (hdouble : IsDouble (.finite q)) : ∃ m e, Split q m e := by
  have hnum : 0 < q.num := Rat.num_pos.mpr hq
  have habs : q.num.natAbs ≠ 0 := by
    omega
  obtain ⟨hlow, hhigh⟩ := binade_spec habs q.den_ne_zero
  rw [natAbs_div_den hnum.le] at hlow hhigh
  refine ⟨significand q.num.natAbs q.den, lastPlace q.num.natAbs q.den, ?_, ?_, ?_, ?_⟩
  · have hround : ofRat q = .finite q := hdouble
    simp only [ofRat, if_neg hnum.ne', if_neg hnum.not_gt] at hround
    split at hround
    · cases hround
    · rw [← scale_eq]
      exact (Number.finite.inj hround).symm
  · refine hhigh.trans_le (zpow_le_zpow_right₀ one_le_two ?_)
    simp only [lastPlace]
    omega
  · intro he
    refine le_trans (zpow_le_zpow_right₀ one_le_two ?_) hlow
    simp only [lastPlace] at he ⊢
    omega
  · simp only [cell, scale_eq, Nat.cast_one, one_mul]
    rfl

theorem Cell.le_of_contains {c : Cell} {x : ℚ} (h : c.contains x = true) :
    c.low ≤ x ∧ x ≤ c.high := by
  unfold Cell.contains at h
  split at h
  · exact of_decide_eq_true h
  · exact (of_decide_eq_true h).imp le_of_lt le_of_lt

theorem Cell.contains_of_lt {c : Cell} {x : ℚ} (hlow : c.low < x) (hhigh : x < c.high) :
    c.contains x = true := by
  unfold Cell.contains
  split
  · exact decide_eq_true ⟨hlow.le, hhigh.le⟩
  · exact decide_eq_true ⟨hlow, hhigh⟩

/-- Beyond the lower end, only what lies beyond the upper end is not contained. -/
theorem Cell.high_le {c : Cell} {x : ℚ} (hlow : c.low < x) (h : c.contains x = false) :
    c.high ≤ x := by
  by_contra hout
  rw [contains_of_lt hlow (not_le.mp hout)] at h
  cases h

theorem Cell.le_low {c : Cell} {x : ℚ} (hhigh : x < c.high) (h : c.contains x = false) :
    x ≤ c.low := by
  by_contra hout
  rw [contains_of_lt (not_le.mp hout) hhigh] at h
  cases h

namespace Split

variable {m : Nat} {e : Int}

/-- Powers of two in quarters of the last place. -/
theorem quarters (e : Int) : (2 : ℚ) ^ (e - 1) = 2 * 2 ^ (e - 2) ∧
    (2 : ℚ) ^ e = 4 * 2 ^ (e - 2) ∧ (2 : ℚ) ^ (e + 52) = 2 ^ 54 * 2 ^ (e - 2) ∧
    (2 : ℚ) ^ (e + 53) = 2 ^ 55 * 2 ^ (e - 2) := by
  have hshift : ∀ (f : Int) (n : Nat), f = n + (e - 2) → (2 : ℚ) ^ f = 2 ^ n * 2 ^ (e - 2) := by
    rintro f n rfl
    rw [zpow_add₀ two_ne_zero, zpow_natCast]
  refine ⟨?_, ?_, ?_, ?_⟩
  · simpa using hshift (e - 1) 1 (by omega)
  · rw [hshift e 2 (by omega)]
    norm_num
  · exact hshift (e + 52) 54 (by omega)
  · exact hshift (e + 53) 55 (by omega)

/-- A safe integer that rounds to a double of whole places is that double. -/
theorem eq_of_contains_of_fraction (h : Split q m e) (he : e ≤ 0)
    (hmem : (cell q).contains k = true) : q = k := by
  obtain ⟨f, rfl⟩ : ∃ f : Nat, e = -(f : Int) := ⟨(-e).toNat, by omega⟩
  obtain ⟨hhalf, hunit, -, -⟩ := quarters (-(f : Int))
  have hpos : (0 : ℚ) < 2 ^ (-(f : Int) - 2) := by positivity
  have hscale : (2 : ℚ) ^ (-(f : Int)) * 2 ^ f = 1 := by
    rw [zpow_neg, zpow_natCast, inv_mul_cancel₀ (by positivity)]
  have hq : q * 2 ^ f = m := by
    rw [h.eq, mul_assoc, hscale, mul_one]
  obtain ⟨hlow, hhigh⟩ := Cell.le_of_contains hmem
  rw [h.cell_eq] at hlow hhigh
  -- Counted in last places, the two are whole and at most one half apart.
  have hbelow : q - 2 ^ (-(f : Int) - 1) ≤ k := by
    refine le_trans ?_ hlow
    simp only
    split <;> linarith
  have hfirst : 2 * (m : ℚ) ≤ 2 * (k * 2 ^ f) + 1 := by
    have := mul_le_mul_of_nonneg_right hbelow (show (0 : ℚ) ≤ 2 ^ f by positivity)
    rw [sub_mul, hq, hhalf] at this
    rw [hunit] at hscale
    linarith
  have hsecond : 2 * ((k : ℚ) * 2 ^ f) ≤ 2 * m + 1 := by
    have := mul_le_mul_of_nonneg_right hhigh (show (0 : ℚ) ≤ 2 ^ f by positivity)
    rw [add_mul, hq, hhalf] at this
    rw [hunit] at hscale
    linarith
  have hsame : m = k * 2 ^ f := by
    have h₁ : 2 * m ≤ 2 * (k * 2 ^ f) + 1 := by exact_mod_cast hfirst
    have h₂ : 2 * (k * 2 ^ f) ≤ 2 * m + 1 := by exact_mod_cast hsecond
    omega
  have hpow : (2 : ℚ) ^ f ≠ 0 := by positivity
  apply mul_right_cancel₀ hpow
  rw [hq, hsame]
  push_cast
  rfl

/-- No safe integer rounds to a double that lies beyond all of them. -/
theorem lt_of_contains (h : Split q m e) (he : 0 < e) (hmem : (cell q).contains k = true) :
    maxSafe < k := by
  obtain ⟨hhalf, hunit, hbinade, -⟩ := quarters e
  have hquarter : (1 : ℚ) / 2 ≤ 2 ^ (e - 2) := by
    calc (1 : ℚ) / 2 = 2 ^ (-1 : Int) := by norm_num
      _ ≤ 2 ^ (e - 2) := zpow_le_zpow_right₀ one_le_two (by omega)
  have hq := h.le (by omega)
  obtain ⟨hlow, -⟩ := Cell.le_of_contains hmem
  rw [h.cell_eq] at hlow
  simp only at hlow
  have hcast : ((maxSafe : Nat) : ℚ) < k := by
    simp only [maxSafe]
    push_cast
    split at hlow
    · -- Below a power of two the next double is half as far away.
      linarith
    · rename_i hpower
      have hm : 2 ^ 52 < m := by
        have hle : (2 : ℚ) ^ 52 ≤ m := by
          have heq := h.eq
          rw [hunit] at heq
          nlinarith
        have hle' : 2 ^ 52 ≤ m := by exact_mod_cast hle
        refine lt_of_le_of_ne hle' fun hm => hpower ⟨hm.symm, by omega⟩
      have hm' : (2 : ℚ) ^ 52 + 1 ≤ m := by exact_mod_cast hm
      have heq := h.eq
      rw [hunit] at heq
      nlinarith
  exact_mod_cast hcast

/-- Of all safe integers only the double itself rounds to it. -/
theorem eq_of_contains (h : Split q m e) (hk : k ≤ maxSafe)
    (hmem : (cell q).contains k = true) : q = k := by
  rcases lt_or_ge 0 e with he | he
  · exact absurd (h.lt_of_contains he hmem) (not_lt.mpr hk)
  · exact h.eq_of_contains_of_fraction he hmem

end Split

/-! ## The decimal that is written -/

theorem value_eq (d : Decimal) : d.value = d.digits * (10 : ℚ) ^ d.exponent := by
  rw [value, powerOfTen_eq]

/-- Moving zeros into the exponent does not change the value. -/
theorem trim_value (d : Decimal) (fuel : Nat) : (trim d fuel).value = d.value := by
  induction fuel generalizing d with
  | zero => rfl
  | succ fuel ih =>
    rw [trim]
    split
    · rename_i hzero
      have hdigits : (d.digits : ℚ) = 10 * ((d.digits / 10 : Nat) : ℚ) := by
        have hmul : d.digits = 10 * (d.digits / 10) := by omega
        exact_mod_cast hmul
      rw [ih, value_eq, value_eq, hdigits, zpow_add_one₀ (by norm_num)]
      ring
    · rfl

variable {c : Cell} {point : Int} {places fuel : Nat} {d : Decimal}

/-- A decimal is found only where it lies in the cell. -/
theorem contains_of_onGrid {exponent : Int} (h : onGrid c q exponent = some d) :
    c.contains d.value = true := by
  unfold onGrid at h
  simp only at h
  split at h
  · split at h
    · cases h
      assumption
    · split at h
      · cases h
        assumption
      · split at h <;> cases h <;> assumption
  · cases h
    assumption
  · cases h
    assumption
  · cases h

/-- Nothing is found only if neither neighbour lies in the cell. -/
theorem not_contains_of_onGrid {exponent : Int} (h : onGrid c q exponent = none) :
    c.contains ((q / powerOfTen exponent).floor.toNat * (10 : ℚ) ^ exponent) = false ∧
      c.contains (((q / powerOfTen exponent).floor.toNat + 1) * (10 : ℚ) ^ exponent) = false := by
  unfold onGrid at h
  simp only [value_eq] at h
  split at h
  · split at h
    · cases h
    · split at h
      · cases h
      · split at h <;> cases h
  · cases h
  · cases h
  · rename_i hlow hhigh
    push_cast at hhigh
    exact ⟨hlow, hhigh⟩

theorem contains_of_search (h : search c q point places fuel = some d) :
    c.contains d.value = true := by
  induction fuel generalizing places with
  | zero => cases h
  | succ fuel ih =>
    rw [search] at h
    split at h
    · cases h
      exact contains_of_onGrid ‹_›
    · exact ih h

/-- What is not found has no decimal on any of the grids. -/
theorem onGrid_of_search (h : search c q point places fuel = none) {n : Nat} (hlow : places ≤ n)
    (hhigh : n < places + fuel) : onGrid c q (point - n) = none := by
  induction fuel generalizing places with
  | zero => omega
  | succ fuel ih =>
    rw [search] at h
    split at h
    · cases h
    · rcases eq_or_lt_of_le hlow with rfl | hlt
      · assumption
      · exact ih h hlt (by omega)

/-- A number is no less than the power of ten of its first digit. -/
theorem pow_length_toDigits_le {n : Nat} (hn : 0 < n) :
    10 ^ ((Nat.toDigits 10 n).length - 1) ≤ n := by
  by_contra hlt
  rcases Nat.eq_zero_or_pos ((Nat.toDigits 10 n).length - 1) with hone | hmore
  · rw [hone] at hlt
    omega
  · have hshort := (Nat.length_toDigits_le_iff (by decide) hmore).mpr (not_le.mp hlt)
    omega

theorem lt_pow_length_toDigits (n : Nat) : n < 10 ^ (Nat.toDigits 10 n).length :=
  (Nat.length_toDigits_le_iff (by decide) Nat.length_toDigits_pos).mp le_rfl

/-- A positive rational has at least as many digits as its position says. -/
theorem pow_pointPosition_le (hq : 0 < q) : (10 : ℚ) ^ (pointPosition q - 1) ≤ q := by
  have hnum : 0 < q.num := Rat.num_pos.mpr hq
  simp only [pointPosition, powerOfTen_eq]
  split
  · rw [add_sub_cancel_right]
    assumption
  · set n := q.num.natAbs with hn
    have hnpos : 0 < n := by omega
    have hden : (0 : ℚ) < q.den := by exact_mod_cast q.den_pos
    have hquot : q = n / q.den := (natAbs_div_den hnum.le).symm
    have hlength : 0 < (Nat.toDigits 10 n).length := Nat.length_toDigits_pos
    -- The numerator reaches its first digit, and the denominator has no more than its digits.
    have hlow : (10 : ℚ) ^ ((Nat.toDigits 10 n).length - 1) ≤ n := by
      exact_mod_cast pow_length_toDigits_le hnpos
    have hhigh : (q.den : ℚ) ≤ 10 ^ (Nat.toDigits 10 q.den).length := by
      exact_mod_cast (lt_pow_length_toDigits q.den).le
    conv_rhs => rw [hquot]
    rw [le_div_iff₀ hden]
    calc _ ≤ (10 : ℚ) ^ (((Nat.toDigits 10 n).length : Int) - (Nat.toDigits 10 q.den).length - 1) *
          10 ^ (Nat.toDigits 10 q.den).length := by gcongr
      _ = 10 ^ ((Nat.toDigits 10 n).length - 1) := by
        rw [← zpow_natCast, ← zpow_natCast, ← zpow_add₀ (by norm_num)]
        congr 1
        omega
      _ ≤ n := hlow

/-- Seventeen digits are enough: their grid is finer than the cell. -/
theorem onGrid_ne_none {m : Nat} {e : Int} (h : Split q m e) (hq : 0 < q) :
    onGrid (cell q) q (pointPosition q - (17 : Nat)) ≠ none := by
  obtain ⟨hhalf, hunit, hbinade, hnext⟩ := Split.quarters e
  set g : ℚ := (10 : ℚ) ^ (pointPosition q - (17 : Nat)) with hg
  have hgpos : 0 < g := by positivity
  have hgrid : g * 10 ^ 16 ≤ q := by
    refine le_trans (le_of_eq ?_) (pow_pointPosition_le hq)
    rw [hg, ← zpow_natCast, ← zpow_add₀ (by norm_num)]
    congr 1
    push_cast
    ring
  intro hnone
  obtain ⟨hfirst, hsecond⟩ := not_contains_of_onGrid hnone
  rw [powerOfTen_eq, ← hg] at hfirst hsecond
  -- The double lies between two neighbours on the grid.
  have hfloor : ((q / g).floor.toNat : ℚ) = ((q / g).floor : ℚ) := by
    have hnonneg : 0 ≤ (q / g).floor := Rat.le_floor_iff.mpr (by positivity)
    rw [← Int.cast_natCast, Int.toNat_of_nonneg hnonneg]
  rw [hfloor] at hfirst hsecond
  set n : ℚ := ((q / g).floor : ℚ)
  have hbelow : n * g ≤ q := (le_div_iff₀ hgpos).mp (Int.floor_le (q / g))
  have habove : q < (n + 1) * g := (div_lt_iff₀ hgpos).mp (Int.lt_floor_add_one (q / g))
  rw [h.cell_eq] at hfirst hsecond
  have hquarter : (0 : ℚ) < 2 ^ (e - 2) := by positivity
  have hlt := h.lt
  have hhigh : q + 2 ^ (e - 1) ≤ (n + 1) * g := by
    refine Cell.high_le ?_ hsecond
    simp only
    split <;> linarith
  have hlow := Cell.le_low (by simp only; linarith) hfirst
  simp only at hlow
  split at hlow
  · -- At a power of two the cell is narrower, but the digits are at their finest.
    rename_i hpower
    have heq := h.eq
    rw [hpower.1, hunit] at heq
    push_cast at heq
    linarith
  · linarith

/-- The decimal that is written for a double rounds back to it. -/
theorem shortest_mem_cell {m : Nat} {e : Int} (h : Split q m e) (hq : 0 < q) :
    (cell q).contains (shortest q).value = true := by
  unfold shortest
  cases hsearch : search (cell q) q (pointPosition q) 1 17 with
  | some d =>
    simp only [trim_value]
    exact contains_of_search hsearch
  | none =>
    have hnone := onGrid_of_search hsearch (n := 17) (by decide) (by decide)
    exact absurd hnone (onGrid_ne_none h hq)

/-! ## What is written -/

/-- A decimal that is written with digits alone is a whole number, and it is written in full. -/
theorem value_of_text {d : Decimal} (h : ∀ c ∈ d.text.toList, c.isDigit = true) :
    d.value = Nat.ofDigitChars 10 d.text.toList 0 := by
  unfold text at h ⊢
  simp only at h ⊢
  split at h
  · rename_i hwhole
    rw [if_pos hwhole]
    obtain ⟨f, hf⟩ := Int.eq_ofNat_of_zero_le (a := d.exponent) (by omega)
    have hzeros : (((Nat.toDigits 10 d.digits).length : Int) + d.exponent -
        (Nat.toDigits 10 d.digits).length).toNat = f := by omega
    rw [String.toList_ofList, Nat.ofDigitChars_append, Nat.ofDigitChars_ten_toDigits,
      Nat.ofDigitChars_replicate_zero, hzeros, value_eq, hf, zpow_natCast]
    push_cast
    ring
  -- The other spellings have a point or an exponent.
  · split at h
    · exact absurd (h '.' (by simp)) (by decide)
    · split at h
      · exact absurd (h '.' (by simp)) (by decide)
      · exact absurd (h 'e' (by simp)) (by decide)

/-- The signs that stand among the digits of a number. -/
def marks : List Char :=
  ['.', 'e', '+', '-']

theorem notMem_toDigits {c : Char} (hc : c.isDigit = false) (n : Nat) :
    c ∉ Nat.toDigits 10 n := by
  intro hmem
  rw [Nat.isDigit_of_mem_toDigits (by decide) (by decide) hmem] at hc
  cases hc

/-- A decimal is written with nothing but digits and marks. -/
theorem notMem_text {c : Char} (hc : c.isDigit = false) (hmarks : c ∉ marks) (d : Decimal) :
    c ∉ d.text.toList := by
  have hdigits := notMem_toDigits hc
  have htake : ∀ n k, c ∉ (Nat.toDigits 10 n).take k := fun n k hmem =>
    hdigits n (List.mem_of_mem_take hmem)
  have hdrop : ∀ n k, c ∉ (Nat.toDigits 10 n).drop k := fun n k hmem =>
    hdigits n (List.mem_of_mem_drop hmem)
  have hzero : c ≠ '0' := by
    rintro rfl
    cases hc
  simp only [marks, List.mem_cons, List.not_mem_nil, or_false, not_or] at hmarks
  obtain ⟨hpoint, hpower, hplus, hminus⟩ := hmarks
  unfold text
  simp only
  split
  · simp [hdigits, hzero]
  · split
    · simp [htake, hdrop, hpoint]
    · split
      · simp [hdigits, hzero, hpoint]
      · split <;> split <;> simp [hdigits, htake, hdrop, hpoint, hpower, hplus, hminus,
          -List.drop_one]

theorem text_ne_nil (d : Decimal) : d.text.toList ≠ [] := by
  unfold text
  simp only
  split
  · simp
  · split
    · simp
    · split <;> simp

end Decimal

namespace Number

/-- An integer is written with its sign and its digits. -/
theorem toList_toString (z : Int) : (toString z).toList =
    (if 0 ≤ z then [] else ['-']) ++ Nat.toDigits 10 z.natAbs := by
  rw [Int.toString_eq_repr, Int.repr_eq_if]
  split
  · rw [Nat.repr_eq_ofList_toDigits, String.toList_ofList, List.nil_append,
      show z.toNat = z.natAbs by omega]
  · rw [Nat.repr_eq_ofList_toDigits, show (-z).toNat = z.natAbs by omega]
    simp

/-- A safe integer is written with digits alone. -/
theorem text_ofInt {k : Nat} (hk : k ≤ maxSafe) :
    (ofInt k).text = String.ofList (Nat.toDigits 10 k) := by
  have hsafe : ((k : Int) : ℚ).den = 1 ∧ ((k : Int) : ℚ).num.natAbs ≤ maxSafe := ⟨rfl, hk⟩
  simp only [ofInt, text, finiteText, if_pos hsafe]
  exact Nat.repr_eq_ofList_toDigits

/-- The text of a safe integer is the text of no other double. -/
theorem eq_ofInt_of_text {n : Number} (hn : n.IsDouble) {k : Nat} (hk : k ≤ maxSafe)
    (h : n.text = (ofInt k).text) : n = ofInt k := by
  have hdigits : ∀ c ∈ n.text.toList, c.isDigit = true := by
    rw [h, text_ofInt hk, String.toList_ofList]
    exact fun c hc => Nat.isDigit_of_mem_toDigits (by decide) (by decide) hc
  have hread : Nat.ofDigitChars 10 n.text.toList 0 = k := by
    rw [h, text_ofInt hk, String.toList_ofList, Nat.ofDigitChars_ten_toDigits]
  cases n with
  | nan => exact absurd (hdigits 'N' (by decide)) (by decide)
  | infinite negative => exact absurd (hdigits 'I' (by cases negative <;> decide)) (by decide)
  | finite q =>
    by_cases hsafe : q.den = 1 ∧ q.num.natAbs ≤ maxSafe
    · simp only [text, finiteText, if_pos hsafe, toList_toString] at hdigits hread
      by_cases hsign : 0 ≤ q.num
      · rw [if_pos hsign, List.nil_append, Nat.ofDigitChars_ten_toDigits] at hread
        have hq : q = (k : Int) := by
          rw [← hread, Int.natAbs_of_nonneg hsign]
          exact ((Rat.den_eq_one_iff q).mp hsafe.1).symm
        rw [hq, ofInt]
      · exact absurd (hdigits '-' (by simp [hsign])) (by decide)
    · simp only [text, finiteText, if_neg hsafe] at hdigits hread
      split at hdigits
      · exact absurd (hdigits '-' (by simp)) (by decide)
      · rename_i hsign
        rw [if_neg hsign] at hread
        have hzero : q.num ≠ 0 := by
          intro hnum
          obtain rfl := Rat.num_eq_zero.mp hnum
          exact hsafe ⟨rfl, Nat.zero_le _⟩
        have hpos : 0 < q := Rat.num_pos.mp (by omega)
        -- What is written for a double rounds back to it, and no other safe integer does.
        obtain ⟨m, e, hsplit⟩ := Decimal.exists_split hpos hn
        have hmem := Decimal.shortest_mem_cell hsplit hpos
        rw [Decimal.value_of_text hdigits, hread] at hmem
        rw [hsplit.eq_of_contains hk hmem, ofInt, Int.cast_natCast]

/-- A finite number is written with nothing but digits and marks. -/
theorem notMem_finiteText {c : Char} (hc : c.isDigit = false) (hmarks : c ∉ Decimal.marks)
    (q : Rat) : c ∉ (finiteText q).toList := by
  have hminus : c ≠ '-' := by
    rintro rfl
    exact hmarks (by decide)
  unfold finiteText
  split
  · rw [toList_toString, List.mem_append, not_or]
    refine ⟨?_, Decimal.notMem_toDigits hc _⟩
    split <;> simp [hminus]
  · split
    · simp [Decimal.notMem_text hc hmarks, hminus]
    · exact Decimal.notMem_text hc hmarks _

theorem finiteText_ne_nil (q : Rat) : (finiteText q).toList ≠ [] := by
  unfold finiteText
  split
  · rw [toList_toString]
    simp
  · split
    · simp
    · exact Decimal.text_ne_nil _

theorem colon_notMem_text (n : Number) : ':' ∉ n.text.toList := by
  cases n with
  | nan => decide
  | infinite negative => cases negative <;> decide
  | finite q => exact notMem_finiteText (by decide) (by decide) q

end Number

end Plebiscite
