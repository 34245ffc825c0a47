import Mathlib.Algebra.Order.Ring.Int
import Mathlib.Order.Bounds.Basic
import Mathlib.Tactic.Common
import Mathlib.Tactic.Ring
import Plebiscite.Proofs.Checks
import Plebiscite.Proofs.Number
import Plebiscite.Proofs.Signal
import Plebiscite.Threshold.Resolution

/-!
# Bounds

A share of the turnout is rounded up once, when a vote is opened.  An amount of signal reaches the
rounded share exactly when it reaches the share itself, so nothing is lost by rounding.

## Main definitions

- `Rule.bare`, `Rule.boundsAt`: a rule with its bounds alone, and its bounds once the turnout is
  known

## Main results

- `permillOfCeil_le_iff`: the rounded share against the exact one
- `isLeast_permillOfCeil`: the rounded share is the least amount that reaches the share
- `permillOfCeil_le_turnout`, `permillOfCeil_eq_zero_iff`, `permillOfCeil_mono`: how large it is
- `Rule.validate_signal`, `Rule.validate_percent`: what bounds that pass are
- `Rule.nonneg_boundsAt`: the bounds of a vote are amounts
-/

namespace Plebiscite

namespace Rule

/-- A rule with its bounds alone. -/
def bare : Rule → Rule
  | .signal t => .signal t.bare
  | .percent t => .percent t.bare

/-- The bounds of a rule, once the turnout is known. -/
def boundsAt : Rule → Int → Threshold Int
  | .signal t => fun _ => t
  | .percent t => t.resolve

end Rule

/-! ## Shares -/

section Shares

variable {permill turnout : Int}

theorem permillOfCeil_eq (hp : 0 ≤ permill) (ht : 0 ≤ turnout) :
    permillOfCeil permill turnout = (permill * turnout + 999999) / 1000000 := by
  have hnonneg : 0 ≤ permill * turnout + 999999 := by
    have := mul_nonneg hp ht
    omega
  have hsum : permill * turnout + (Guard.permillMax : Int) - 1 = permill * turnout + 999999 := by
    simp only [Guard.permillMax]
    omega
  rw [permillOfCeil, hsum, Int.tdiv_eq_ediv_of_nonneg hnonneg]
  rfl

/-- An amount reaches the rounded share exactly when it reaches the share. -/
theorem permillOfCeil_le_iff (hp : 0 ≤ permill) (ht : 0 ≤ turnout) (amount : Int) :
    permillOfCeil permill turnout ≤ amount ↔ permill * turnout ≤ 1000000 * amount := by
  rw [permillOfCeil_eq hp ht]
  omega

theorem permillOfCeil_nonneg (hp : 0 ≤ permill) (ht : 0 ≤ turnout) :
    0 ≤ permillOfCeil permill turnout := by
  have := mul_nonneg hp ht
  rw [permillOfCeil_eq hp ht]
  omega

theorem isLeast_permillOfCeil (hp : 0 ≤ permill) (ht : 0 ≤ turnout) :
    IsLeast {amount : Int | permill * turnout ≤ 1000000 * amount} (permillOfCeil permill turnout) :=
  ⟨(permillOfCeil_le_iff hp ht _).mp le_rfl, fun amount => (permillOfCeil_le_iff hp ht amount).mpr⟩

/-- A share is never more than everything, and neither is the rounded one. -/
theorem permillOfCeil_le_turnout (hp : 0 ≤ permill) (hle : permill ≤ 1000000) (ht : 0 ≤ turnout) :
    permillOfCeil permill turnout ≤ turnout :=
  (permillOfCeil_le_iff hp ht turnout).mpr (mul_le_mul_of_nonneg_right hle ht)

/-- Any share is rounded up to something, unless it is nothing. -/
theorem permillOfCeil_eq_zero_iff (hp : 0 ≤ permill) (ht : 0 ≤ turnout) :
    permillOfCeil permill turnout = 0 ↔ permill = 0 ∨ turnout = 0 := by
  have hnonneg := permillOfCeil_nonneg hp ht
  have hshare : 0 ≤ permill * turnout := mul_nonneg hp ht
  have hzero := permillOfCeil_le_iff hp ht 0
  rw [← mul_eq_zero]
  omega

/-- More parts of a larger turnout are no smaller share. -/
theorem permillOfCeil_mono {more larger : Int} (hp : 0 ≤ permill) (ht : 0 ≤ turnout)
    (hmore : permill ≤ more) (hlarger : turnout ≤ larger) :
    permillOfCeil permill turnout ≤ permillOfCeil more larger := by
  have hreached : more * larger ≤ 1000000 * permillOfCeil more larger :=
    (isLeast_permillOfCeil (hp.trans hmore) (ht.trans hlarger)).1
  have hshare : permill * turnout ≤ more * larger :=
    mul_le_mul hmore hlarger ht (hp.trans hmore)
  exact (permillOfCeil_le_iff hp ht _).mpr (hshare.trans hreached)

end Shares

/-! ## Bounds that pass -/

namespace Threshold

variable {α β : Type}

@[simp]
theorem bounds_map (f : α → β) (t : Threshold α) : (t.map f).bounds = t.bounds.map f := by
  obtain ⟨inFavor, against, remarks⟩ := t
  cases against <;> rfl

@[simp]
theorem bounds_bare (t : Threshold α) : t.bare.bounds = t.bounds :=
  rfl

theorem isWithin_iff {t : Threshold Int} {turnout : Int} :
    t.isWithin turnout = true ↔ ∀ b ∈ t.bounds, b ≤ turnout := by
  simp [isWithin]

theorem bare_eq {t : Threshold α} (h : t.remarks = []) : t.bare = t := by
  obtain ⟨inFavor, against, remarks⟩ := t
  cases h
  rfl

end Threshold

namespace Guard

/-- A number of parts per million is a whole number between nothing and everything. -/
theorem exists_of_isPermill {n : Number} (h : isPermill (.number n) = true) :
    ∃ k : Int, n = .ofInt k ∧ 0 ≤ k ∧ k ≤ 1000000 := by
  simp only [isPermill, Bool.and_eq_true] at h
  obtain ⟨⟨hint, hlow⟩, hhigh⟩ := h
  obtain ⟨k, rfl⟩ := Number.exists_of_isInteger hint
  refine ⟨k, rfl, ?_, ?_⟩
  · exact of_decide_eq_true ((Number.ofInt_le 0 k).symm.trans hlow)
  · exact of_decide_eq_true ((Number.ofInt_le k permillMax).symm.trans hhigh)

end Guard

namespace Rule

theorem validate_signal {t : Threshold Int} :
    (Rule.signal t).validate = .ok () ↔ ∀ b ∈ t.bounds, Signal.inRange b = true := by
  simp only [validate, Threshold.validateSignal, Checks.forM_eq_ok, Threshold.bounds_map,
    List.forall_mem_map]
  refine forall₂_congr fun b _ => ?_
  simp only [Signal.validate, Signal.ofValue?]
  cases Signal.inRange b <;> simp

theorem validate_percent {t : Threshold Number} :
    (Rule.percent t).validate = .ok () ↔
      ∀ b ∈ t.bounds, Guard.isPermill (.number b) = true := by
  simp only [validate, Threshold.validatePercent, Checks.forM_eq_ok, Threshold.bounds_map,
    List.forall_mem_map]
  refine forall₂_congr fun b _ => ?_
  simp only [Threshold.validatePermill]
  cases Guard.isPermill (.number b) <;> simp

/-- Shares that pass are whole numbers. -/
theorem exists_of_validate_percent {t : Threshold Number}
    (h : (Rule.percent t).validate = .ok ()) :
    ∃ (inFavor : Int) (against : Option Int), t.inFavor = .ofInt inFavor ∧
      t.against = against.map .ofInt ∧ 0 ≤ inFavor ∧ ∀ a ∈ against, 0 ≤ a := by
  obtain ⟨inFavor, against, remarks⟩ := t
  have hbounds := validate_percent.mp h
  obtain ⟨f, rfl, hf, -⟩ := Guard.exists_of_isPermill (hbounds inFavor (by simp [Threshold.bounds]))
  cases against with
  | none => exact ⟨f, none, rfl, rfl, hf, by simp⟩
  | some b =>
    obtain ⟨a, rfl, ha, -⟩ := Guard.exists_of_isPermill (hbounds b (by simp [Threshold.bounds]))
    exact ⟨f, some a, rfl, rfl, hf, by simpa using ha⟩

/-- The bounds of a vote are not below zero. -/
theorem nonneg_boundsAt {r : Rule} (h : r.validate = .ok ()) {turnout : Int} (ht : 0 ≤ turnout) :
    ∀ b ∈ (r.boundsAt turnout).bounds, 0 ≤ b := by
  cases r with
  | signal t =>
    intro b hb
    exact (Signal.inRange_iff.mp (validate_signal.mp h b hb)).1
  | percent t =>
    simp only [boundsAt, Threshold.resolve, Threshold.bounds_map, Threshold.bounds_bare,
      List.forall_mem_map]
    intro b hb
    obtain ⟨k, rfl, hk, -⟩ := Guard.exists_of_isPermill (validate_percent.mp h b hb)
    rw [Number.toInt_ofInt]
    exact permillOfCeil_nonneg hk ht

/-- Only bounds in signal may come with remarks. -/
theorem remarks_boundsAt {r : Rule} (h : ∀ t, r = .signal t → t.remarks = []) (turnout : Int) :
    (r.boundsAt turnout).remarks = [] := by
  cases r with
  | signal t => exact h t rfl
  | percent t => rfl

end Rule

end Plebiscite
