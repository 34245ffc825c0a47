import Mathlib.Data.List.TakeWhile
import Mathlib.Data.Nat.Digits.Defs
import Plebiscite.Proofs.Snapshot.Normal

/-!
# Amounts and their texts

An amount of signal is written with its decimal digits and without leading zeros.  It is read from
any run of digits, however many zeros come first, and from nothing else: a sign, a point, a blank or
a digit of another script is refused, and so is a number that is too large.

## Main definitions

- `Signal.IsNumeral`: a text that is a run of the ten digits
- `Signal.placeValue`: the number that digits stand for by their places
- `Signal.stripped`: a text without leading zeros

## Main results

- `Signal.numeralValue_eq_placeValue`: digits that are read one by one are worth their places
- `Signal.format_placeValue`: the number that a run of digits stands for is written without leading
  zeros
- `Signal.parse_numeral`, `Signal.parse_of_not_numeral`: what a text comes to
- `Signal.parse_exact`: which texts are read, as what, and which are refused
-/

namespace Plebiscite.Signal

/-! ## Runs of digits -/

/-- A text that is a nonempty run of the ten digits. -/
def IsNumeral (s : String) : Prop :=
  s ≠ "" ∧ ∀ c ∈ s.toList, c ∈ ['0', '1', '2', '3', '4', '5', '6', '7', '8', '9']

/-- The number that digits stand for: the last one counts ones, the one before it tens. -/
def placeValue (cs : List Char) : Nat :=
  Nat.ofDigits 10 (cs.reverse.map fun c => c.toNat - '0'.toNat)

/-- A text without leading zeros; where there is nothing else, one zero is left. -/
def stripped (s : String) : String :=
  if s.toList.all (· = '0') then "0" else String.ofList (s.toList.dropWhile (· = '0'))

variable {s : String} {n : Int}

theorem isDigit_iff_mem {c : Char} :
    isDigit c = true ↔ c ∈ ['0', '1', '2', '3', '4', '5', '6', '7', '8', '9'] := by
  simp only [isDigit, decide_eq_true_eq, List.mem_cons, List.not_mem_nil, or_false,
    ← Char.toNat_inj]
  have hdigits : '0'.toNat = 48 ∧ '1'.toNat = 49 ∧ '2'.toNat = 50 ∧ '3'.toNat = 51 ∧
      '4'.toNat = 52 ∧ '5'.toNat = 53 ∧ '6'.toNat = 54 ∧ '7'.toNat = 55 ∧ '8'.toNat = 56 ∧
      '9'.toNat = 57 := by
    decide
  omega

theorem isNumeral_iff : isNumeral s = true ↔ IsNumeral s := by
  simp [isNumeral, IsNumeral, isDigit_iff_mem]

instance (s : String) : Decidable (IsNumeral s) :=
  decidable_of_iff (isNumeral s = true) isNumeral_iff

/-- Digits that are read one after the other are worth what their places make of them. -/
theorem numeralValue_eq_placeValue (cs : List Char) : numeralValue cs = placeValue cs := by
  rw [placeValue, Nat.ofDigits_eq_foldr, List.foldr_map, List.foldr_reverse, numeralValue]
  congr 1
  funext n c
  rw [Nat.add_comm, Nat.mul_comm]
  rfl

theorem ofList_trimmedDigits (s : String) :
    String.ofList (Snapshot.trimmedDigits s.toList) = stripped s := by
  have hnil : s.toList.dropWhile (· = '0') = [] ↔ s.toList.all (· = '0') = true := by
    simp [List.dropWhile_eq_nil_iff]
  by_cases hzeros : s.toList.all (· = '0') = true
  · rw [stripped, if_pos hzeros, Snapshot.trimmedDigits, hnil.mpr hzeros]
  · rw [stripped, if_neg hzeros, Snapshot.trimmedDigits]
    cases hrest : s.toList.dropWhile (· = '0') with
    | nil => exact absurd (hnil.mp hrest) hzeros
    | cons c cs => rfl

/-- The number that a run of digits stands for is written without leading zeros. -/
theorem format_placeValue (hs : IsNumeral s) : format (placeValue s.toList : Nat) = stripped s := by
  have hdigits : ∀ c ∈ s.toList, c.isDigit = true := by
    intro c hc
    rw [← isDigit_eq]
    exact isDigit_iff_mem.mpr (hs.2 c hc)
  rw [← numeralValue_eq_placeValue, numeralValue_eq, format_natCast,
    Snapshot.toDigits_ofDigitChars hdigits, ofList_trimmedDigits]

/-! ## Reading -/

theorem le_max_iff : n ≤ max ↔ n < 2 ^ 128 := by
  have hmax : max = 2 ^ 128 - 1 := by decide
  omega

/-- A run of digits is read as the number that it stands for, unless this is too large. -/
theorem parse_numeral (hs : IsNumeral s) :
    parse (.text s) =
      if placeValue s.toList < 2 ^ 128 then .ok (placeValue s.toList : Nat)
      else .error (.outOfRange (stripped s)) := by
  have hrange : inRange (placeValue s.toList : Nat) = true ↔ placeValue s.toList < 2 ^ 128 := by
    rw [inRange_iff, le_max_iff]
    omega
  simp only [parse, if_pos (isNumeral_iff.mpr hs), numeralValue_eq_placeValue, hrange]
  rw [← format_placeValue hs]
  rfl

/-- Any other text is refused as it is. -/
theorem parse_of_not_numeral (hs : ¬ IsNumeral s) : parse (.text s) = .error (.malformed s) := by
  rw [← isNumeral_iff] at hs
  simp only [parse, if_neg hs]

/-- A text is read exactly if it is a run of digits that stands for an amount. -/
theorem parse_text_eq_ok : parse (.text s) = .ok n ↔
    IsNumeral s ∧ placeValue s.toList < 2 ^ 128 ∧ n = placeValue s.toList := by
  by_cases hs : IsNumeral s
  · rw [parse_numeral hs]
    split
    · rename_i hlt
      constructor
      · rintro ⟨⟩
        exact ⟨hs, hlt, rfl⟩
      · rintro ⟨-, -, rfl⟩
        rfl
    · rename_i hlarge
      exact iff_of_false nofun fun h => hlarge h.2.1
  · rw [parse_of_not_numeral hs]
    exact iff_of_false nofun fun h => hs h.1

/-- Every other text is refused. -/
theorem exists_parse_eq_error (hs : ¬ (IsNumeral s ∧ placeValue s.toList < 2 ^ 128)) :
    ∃ f, parse (.text s) = .error f := by
  cases hparse : parse (.text s) with
  | ok n =>
    obtain ⟨hnumeral, hlt, -⟩ := parse_text_eq_ok.mp hparse
    exact absurd ⟨hnumeral, hlt⟩ hs
  | error f => exact ⟨f, rfl⟩

/-- A number below zero is written with a sign. -/
theorem not_isNumeral_format (hn : n < 0) : ¬ IsNumeral (format n) := by
  rintro ⟨-, hdigits⟩
  obtain ⟨k, rfl⟩ := Int.eq_negSucc_of_lt_zero hn
  have hsign : '-' ∈ (format (Int.negSucc k)).toList := by
    show '-' ∈ ("-" ++ toString (k + 1)).toList
    simp
  exact absurd (hdigits '-' hsign) (by decide)

theorem placeValue_format (k : Nat) : placeValue (format (k : Int)).toList = k := by
  rw [← numeralValue_eq_placeValue, numeralValue_format]

/-- Amounts are written so that they are read again, and the text of any other whole number is
refused.  Texts are read exactly if they are runs of digits that stand for an amount, with leading
zeros or without, and an amount that was read is written without them. -/
theorem parse_exact :
    (∀ n : Int, 0 ≤ n → n < 2 ^ 128 → parse (.text (format n)) = .ok n) ∧
    (∀ n : Int, n < 0 ∨ 2 ^ 128 ≤ n →
      ∃ f, parse (.text (format n)) = .error f ∧ (Fault.signal f).code = .invalidSignal) ∧
    ∀ s : String,
      (∀ n, parse (.text s) = .ok n ↔
        IsNumeral s ∧ placeValue s.toList < 2 ^ 128 ∧ n = placeValue s.toList) ∧
      (∀ n, parse (.text s) = .ok n → format n = stripped s) ∧
      (¬ (IsNumeral s ∧ placeValue s.toList < 2 ^ 128) →
        ∃ f, parse (.text s) = .error f ∧ (Fault.signal f).code = .invalidSignal) := by
  have hrefused : ∀ s, ¬ (IsNumeral s ∧ placeValue s.toList < 2 ^ 128) →
      ∃ f, parse (.text s) = .error f ∧ (Fault.signal f).code = .invalidSignal := by
    intro s hs
    obtain ⟨f, hf⟩ := exists_parse_eq_error hs
    exact ⟨f, hf, rfl⟩
  refine ⟨fun n hlow hhigh => ?_, fun n hn => hrefused _ ?_, fun s => ⟨fun n => parse_text_eq_ok,
    fun n hparse => ?_, hrefused s⟩⟩
  · exact parse_format (inRange_iff.mpr ⟨hlow, le_max_iff.mpr hhigh⟩)
  · rcases hn with hneg | hlarge
    · exact fun h => not_isNumeral_format hneg h.1
    · lift n to Nat using by omega
      rw [placeValue_format]
      omega
  · obtain ⟨hnumeral, -, rfl⟩ := parse_text_eq_ok.mp hparse
    exact format_placeValue hnumeral

/-- The largest amount is read and the next number is not; leading zeros do not matter, and are not
written again; a sign does. -/
theorem parse_exact_padded :
    parse (.text (format (2 ^ 128 - 1))) = .ok (2 ^ 128 - 1) ∧
    (∃ f, parse (.text (format (2 ^ 128))) = .error f ∧ (Fault.signal f).code = .invalidSignal) ∧
    parse (.text "0040") = .ok 40 ∧ format 40 = "40" ∧
    ∃ f, parse (.text "+40") = .error f ∧ (Fault.signal f).code = .invalidSignal := by
  obtain ⟨hamount, hlarge, htext⟩ := parse_exact
  obtain ⟨hread, hwritten, -⟩ := htext "0040"
  have hparse : parse (.text "0040") = .ok 40 :=
    (hread 40).mpr ⟨by decide +kernel, by decide +kernel, by decide +kernel⟩
  have hstripped : stripped "0040" = "40" := by decide +kernel
  exact ⟨hamount _ (by decide) (by decide), hlarge _ (.inr le_rfl), hparse,
    (hwritten 40 hparse).trans hstripped, (htext "+40").2.2 (by decide +kernel)⟩

end Plebiscite.Signal
