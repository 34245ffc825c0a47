import Mathlib.Algebra.Order.Ring.Int
import Mathlib.Data.List.Perm.Basic
import Mathlib.Tactic.Linarith
import Plebiscite.Signal

/-!
# Amounts of signal

Totals of amounts, and the decimal text of one amount.

## Main results

- `total_perm`, `total_map_replace`: totals under another order, and after one change
- `parse_format`: the text of an amount is read back as that amount
-/

namespace Plebiscite.Signal

variable {α κ : Type}

/-! ## Arithmetic -/

theorem inRange_iff {n : Int} : inRange n = true ↔ 0 ≤ n ∧ n ≤ max := by
  rw [inRange, decide_eq_true_eq]

/-- What is not below zero is out of range only if it is too large. -/
theorem max_lt_of_inRange {n : Int} (hn : 0 ≤ n) (h : inRange n = false) : max < n := by
  by_contra hle
  rw [inRange_iff.mpr ⟨hn, not_lt.mp hle⟩] at h
  cases h

theorem eq_of_ofValue? {v : Value} {n : Int} (h : ofValue? v = some n) : v = .integer n := by
  unfold ofValue? at h
  split at h
  · split at h
    · exact congrArg Value.integer (Option.some.inj h)
    · cases h
  · cases h

theorem ofValue?_eq_some {v : Value} {n : Int} (h : ofValue? v = some n) : inRange n = true := by
  unfold ofValue? at h
  split at h
  · split at h
    · rename_i hrange
      cases h
      exact hrange
    · cases h
  · cases h

theorem add_eq_ok {a b n : Int} : add a b = .ok n ↔ a + b ≤ max ∧ n = a + b := by
  unfold add
  split
  · simpa using fun h => absurd h (by omega)
  · simpa [eq_comm] using by omega

theorem sub_eq_ok {a b n : Int} : sub a b = .ok n ↔ b ≤ a ∧ n = a - b := by
  unfold sub
  split
  · simpa using fun h => absurd h (by omega)
  · simpa [eq_comm] using by omega

/-! ## Totals -/

@[simp]
theorem total_nil : total [] = 0 :=
  rfl

@[simp]
theorem total_cons (n : Int) (ns : List Int) : total (n :: ns) = n + total ns :=
  rfl

@[simp]
theorem total_append (ms ns : List Int) : total (ms ++ ns) = total ms + total ns := by
  induction ms with
  | nil => simp
  | cons m ms ih => simp [ih, add_assoc]

theorem total_perm {ms ns : List Int} (h : ms.Perm ns) : total ms = total ns := by
  induction h with
  | nil => rfl
  | cons n _ ih => simp [ih]
  | swap m n l => simp [add_left_comm]
  | trans _ _ ih₁ ih₂ => exact ih₁.trans ih₂

theorem total_nonneg {ns : List Int} (h : ∀ n ∈ ns, 0 ≤ n) : 0 ≤ total ns := by
  induction ns with
  | nil => simp
  | cons n ns ih =>
    have hn := h n (by simp)
    have hns := ih fun m hm => h m (List.mem_cons_of_mem _ hm)
    rw [total_cons]
    omega

/-- A part of a total is no larger than the total. -/
theorem le_total {ns : List Int} (h : ∀ n ∈ ns, 0 ≤ n) {n : Int} (hn : n ∈ ns) :
    n ≤ total ns := by
  obtain ⟨before, after, rfl⟩ := List.append_of_mem hn
  have hbefore : 0 ≤ total before := total_nonneg fun m hm => h m (by simp [hm])
  have hafter : 0 ≤ total after := total_nonneg fun m hm => h m (by simp [hm])
  rw [total_append, total_cons]
  omega

/-- Leaving elements out is counting them as nothing. -/
theorem total_filter (p : α → Bool) (f : α → Int) (l : List α) :
    total ((l.filter p).map f) = total (l.map fun a => if p a then f a else 0) := by
  induction l with
  | nil => rfl
  | cons a l ih => by_cases h : p a = true <;> simp [h, ih]

theorem total_map_add (f g : α → Int) (l : List α) :
    total (l.map fun a => f a + g a) = total (l.map f) + total (l.map g) := by
  induction l with
  | nil => rfl
  | cons a l ih =>
    simp only [List.map_cons, total_cons, ih]
    omega

theorem total_map_le {f g : α → Int} {l : List α} (h : ∀ a ∈ l, f a ≤ g a) :
    total (l.map f) ≤ total (l.map g) := by
  induction l with
  | nil => simp
  | cons a l ih =>
    have ha := h a (by simp)
    have hl := ih fun b hb => h b (List.mem_cons_of_mem _ hb)
    simp only [List.map_cons, total_cons]
    omega

/-- Changing the one element of a key changes a total by the difference. -/
theorem total_map_replace {key : α → κ} {g : α → α} {a : α} {l : List α}
    (hkeys : (l.map key).Nodup) (ha : a ∈ l) (hg : ∀ b, key b ≠ key a → g b = b)
    (f : α → Int) :
    total ((l.map g).map f) = total (l.map f) - f a + f (g a) := by
  induction l with
  | nil => cases ha
  | cons b l ih =>
    obtain ⟨hb, hl⟩ := List.nodup_cons.mp hkeys
    rcases List.mem_cons.mp ha with rfl | ha
    · -- All later keys differ from this one.
      have hrest : l.map g = l := by
        conv_rhs => rw [← List.map_id l]
        exact List.map_congr_left fun c hc => hg c fun h => hb (h ▸ List.mem_map_of_mem hc)
      simp only [List.map_cons, total_cons, hrest]
      omega
    · have hne : key b ≠ key a := fun h => hb (h ▸ List.mem_map_of_mem ha)
      simp only [List.map_cons, total_cons, ih hl ha, hg b hne]
      omega

/-! ## Text -/

theorem numeralValue_eq (cs : List Char) : numeralValue cs = Nat.ofDigitChars 10 cs 0 := by
  rw [Nat.ofDigitChars_eq_foldl, numeralValue]
  congr 1
  funext n c
  rw [Nat.mul_comm]
  rfl

/-- The ten digits are the decimal digits among all characters. -/
theorem isDigit_eq (c : Char) : isDigit c = c.isDigit := by
  rw [Bool.eq_iff_iff, isDigit, Char.isDigit, decide_eq_true_eq, Bool.and_eq_true,
    decide_eq_true_eq, decide_eq_true_eq, ge_iff_le, UInt32.le_iff_toNat_le,
    UInt32.le_iff_toNat_le]
  exact Iff.rfl

theorem format_natCast (n : Nat) : format (n : Int) = String.ofList (Nat.toDigits 10 n) :=
  Nat.repr_eq_ofList_toDigits

/-- An amount that is read is in range. -/
theorem inRange_of_parse {v : Value} {n : Int} (h : parse v = .ok n) : inRange n = true := by
  cases v with
  | text s =>
    simp only [parse] at h
    split at h
    · split at h
      · rename_i hrange
        cases h
        exact hrange
      · cases h
    · cases h
  | _ => cases h

/-- The text of a natural number is a run of digits. -/
theorem isNumeral_format (n : Nat) : isNumeral (format (n : Int)) = true := by
  simp only [format_natCast, isNumeral, String.toList_ofList, Bool.and_eq_true, List.all_eq_true]
  refine ⟨by simp, fun c hc => ?_⟩
  rw [isDigit_eq]
  exact Nat.isDigit_of_mem_toDigits (by decide) (by decide) hc

theorem numeralValue_format (n : Nat) : numeralValue (format (n : Int)).toList = n := by
  rw [numeralValue_eq, format_natCast, String.toList_ofList, Nat.ofDigitChars_ten_toDigits]

/-- The text of an amount is read back as that amount. -/
theorem parse_format {n : Int} (h : inRange n = true) : parse (.text (format n)) = .ok n := by
  have hrange := h
  simp only [inRange, decide_eq_true_eq] at h
  lift n to Nat using h.1
  simp [parse, isNumeral_format, numeralValue_format, hrange]

end Plebiscite.Signal
