import Mathlib.Tactic.Common
import Plebiscite.Ledger.Storage
import Plebiscite.Proofs.Checks
import Plebiscite.Proofs.Signal

/-!
# How tallies follow ballots

A ballot that moves takes its signal from the side that it was counted on to the side that it is
cast for.  A ballot that is put aside is counted on no side.

## Main results

- `Poll.eq_of_transfer`: the tallies after a ballot moved
- `ResetPolicy.counted_reset`: no ballot is counted after a reset, under any policy
-/

namespace Plebiscite

/-! ## Stances -/

namespace Stance

/-- The signal of a ballot on one side. -/
def share (side stance : Stance) (magnitude : Int) : Int :=
  if stance = side then magnitude else 0

theorem eq_of_repeats {a b : Stance} (h : a.repeats b = true) : a = b := by
  unfold repeats at h
  split at h
  · cases h
  · simp only [Value.same, Bool.and_eq_true, decide_eq_true_eq] at h
    rw [h.2]
  · exact of_decide_eq_true h

theorem uninitialized_repeats (stance : Stance) :
    repeats .uninitialized stance = decide (stance = .uninitialized) := by
  simp only [repeats, eq_comm]

end Stance

/-! ## Ballots -/

namespace Ballot

theorem eq_of_change {b b' : Ballot} {stance : Stance} {justification : Value}
    (h : b.change stance justification = .ok b') :
    b' = ⟨b.magnitude, stance, justification, false⟩ := by
  unfold change at h
  split at h
  · cases h
  · cases h
    rfl

/-- A ballot is refused only if it is cast already as it is. -/
theorem change_eq_error {b : Ballot} {stance : Stance} {justification : Value} {f : Fault}
    (h : b.change stance justification = .error f) :
    b.stale = false ∧ b.stance = stance ∧ f.code = .noChange := by
  unfold change at h
  split at h
  · rename_i hrepeats
    cases h
    simp only [Bool.and_eq_true, Bool.not_eq_true'] at hrepeats
    exact ⟨hrepeats.2, Stance.eq_of_repeats hrepeats.1, rfl⟩
  · cases h

theorem counted_of_fresh {b : Ballot} (h : b.stale = false) : b.counted = b.stance := by
  rw [counted, h, if_neg Bool.false_ne_true]

@[simp]
theorem markStale_magnitude (b : Ballot) : b.markStale.magnitude = b.magnitude := by
  unfold markStale
  split <;> rfl

theorem counted_markStale (b : Ballot) : b.markStale.counted.isSided = false := by
  unfold markStale
  split
  · rfl
  · rename_i h
    unfold counted
    split
    · rfl
    · simpa using h

end Ballot

namespace ResetPolicy

variable (policy : ResetPolicy) (b : Ballot)

@[simp]
theorem reset_magnitude : (policy.reset b).magnitude = b.magnitude := by
  cases policy <;> simp only [reset, Ballot.markStale_magnitude] <;> split <;> rfl

/-- A sided ballot turns stale or is handed out anew; any other was not counted on a side. -/
theorem counted_reset : (policy.reset b).counted.isSided = false := by
  have hmint : (if b.stance = .uninitialized then b else .mint b.magnitude).counted.isSided =
      false := by
    split
    · rename_i h
      simp [Ballot.counted, h, Stance.isSided]
    · rfl
  -- A policy that is not known does what handing out anew does.
  cases policy with
  | keepBallots => exact Ballot.counted_markStale b
  | resetBallots => exact hmint
  | other given => exact hmint

theorem sided_of_stale_reset (hb : b.stale = true → b.stance.isSided = true)
    (h : (policy.reset b).stale = true) : (policy.reset b).stance.isSided = true := by
  cases policy <;> simp only [reset, Ballot.markStale] at h ⊢ <;> split at h <;>
    simp_all [Ballot.mint]

/-- A reset gives no ballot a stance that was not there. -/
theorem stance_reset : (policy.reset b).stance = b.stance ∨
    (policy.reset b).stance = .uninitialized := by
  cases policy with
  | keepBallots =>
    left
    simp only [reset, Ballot.markStale]
    split <;> rfl
  | _ =>
    simp only [reset]
    split
    · exact .inl rfl
    · exact .inr rfl

/-- A ballot that is kept keeps what was said, and turns stale if it was counted. -/
theorem reset_keep : (ResetPolicy.keepBallots.reset b).stance = b.stance ∧
    (ResetPolicy.keepBallots.reset b).justification = b.justification ∧
    (ResetPolicy.keepBallots.reset b).stale = (b.stance.isSided || b.stale) := by
  simp only [reset, Ballot.markStale]
  split <;> simp_all

/-- Any other ballot is as good as new, apart from one that was never cast. -/
theorem reset_anew (h : policy ≠ .keepBallots) :
    (b.stance = .uninitialized ∧ policy.reset b = b) ∨ policy.reset b = .mint b.magnitude := by
  have hreset : policy.reset b =
      if b.stance = .uninitialized then b else .mint b.magnitude := by
    cases policy with
    | keepBallots => exact absurd rfl h
    | _ => rfl
  rw [hreset]
  split
  · exact .inl ⟨‹_›, rfl⟩
  · exact .inr rfl

end ResetPolicy

/-! ## Tallies -/

namespace Poll

open Stance

variable {p q : Poll} {magnitude : Int} {held wanted : Stance}

theorem eq_of_remove (h : p.remove magnitude held wanted = .ok q) :
    q = { p with
      inFavor := p.inFavor - share .inFavor held magnitude
      against := p.against - share .against held magnitude } := by
  cases held with
  | inFavor | against =>
    simp only [remove, Checks.ite_throw_bind_eq_ok, Checks.bind_eq_ok, Signal.sub_eq_ok,
      Checks.pure_eq_ok] at h
    obtain ⟨-, _, ⟨-, rfl⟩, rfl⟩ := h
    simp [share]
  | _ =>
    cases h
    simp [share]

theorem eq_of_count (h : p.count magnitude wanted = .ok q) :
    q = { p with
      inFavor := p.inFavor + share .inFavor wanted magnitude
      against := p.against + share .against wanted magnitude } := by
  cases wanted with
  | inFavor | against =>
    simp only [count, Checks.bind_eq_ok, Signal.add_eq_ok, Checks.pure_eq_ok] at h
    obtain ⟨_, ⟨-, rfl⟩, rfl⟩ := h
    simp [share]
  | _ =>
    cases h
    simp [share]

/-- A ballot that moves is not withdrawn. -/
theorem wanted_of_transfer (h : p.transfer magnitude held wanted = .ok q) :
    wanted ≠ .uninitialized := by
  simp only [transfer, Checks.ite_throw_bind_eq_ok] at h
  exact h.1

/-- The old side is left and the new one joined; the turnout bounds the outcome. -/
theorem eq_of_transfer (h : p.transfer magnitude held wanted = .ok q) :
    q = { p with
      inFavor := p.inFavor - share .inFavor held magnitude + share .inFavor wanted magnitude
      against := p.against - share .against held magnitude + share .against wanted magnitude } ∧
    q.inFavor + q.against ≤ p.turnout := by
  simp only [transfer, Checks.bind_eq_ok, Checks.ite_throw_bind_eq_ok, Checks.pure_eq_ok] at h
  obtain ⟨-, removed, hremoved, next, hnext, hle, rfl⟩ := h
  have hcount := eq_of_count hnext
  rw [eq_of_remove hremoved] at hcount
  exact ⟨hcount, not_lt.mp hle⟩

theorem remove_eq_ok (hinFavor : share .inFavor held magnitude ≤ p.inFavor)
    (hagainst : share .against held magnitude ≤ p.against) :
    p.remove magnitude held wanted = .ok { p with
      inFavor := p.inFavor - share .inFavor held magnitude
      against := p.against - share .against held magnitude } := by
  cases held with
  | inFavor | against =>
    simp only [share, if_true] at hinFavor hagainst
    simp only [remove, Checks.ite_throw_bind_eq_ok, Checks.bind_eq_ok, Signal.sub_eq_ok,
      Checks.pure_eq_ok]
    exact ⟨not_lt.mpr ‹_›, _, ⟨‹_›, rfl⟩, by simp [share]⟩
  | _ => simp [remove, share]

theorem count_eq_ok (hinFavor : p.inFavor + share .inFavor wanted magnitude ≤ Signal.max)
    (hagainst : p.against + share .against wanted magnitude ≤ Signal.max) :
    p.count magnitude wanted = .ok { p with
      inFavor := p.inFavor + share .inFavor wanted magnitude
      against := p.against + share .against wanted magnitude } := by
  cases wanted with
  | inFavor | against =>
    simp only [share, if_true] at hinFavor hagainst
    simp only [count, Checks.bind_eq_ok, Signal.add_eq_ok, Checks.pure_eq_ok]
    exact ⟨_, ⟨‹_›, rfl⟩, by simp [share]⟩
  | _ => simp [count, share]

/-- Nothing stops a ballot from moving whose side has its signal, if the outcome fits into the
turnout. -/
theorem exists_transfer (hwanted : wanted ≠ .uninitialized) (hp : p.turnout ≤ Signal.max)
    (hq : q = { p with
      inFavor := p.inFavor - share .inFavor held magnitude + share .inFavor wanted magnitude
      against := p.against - share .against held magnitude + share .against wanted magnitude })
    (hinFavor : share .inFavor held magnitude ≤ p.inFavor)
    (hagainst : share .against held magnitude ≤ p.against) (hfor : 0 ≤ q.inFavor)
    (hcontra : 0 ≤ q.against) (hsum : q.inFavor + q.against ≤ p.turnout) :
    p.transfer magnitude held wanted = .ok q := by
  subst hq
  simp only [transfer, Checks.ite_throw_bind_eq_ok, Checks.bind_eq_ok, Checks.pure_eq_ok]
  refine ⟨hwanted, _, remove_eq_ok hinFavor hagainst, _, count_eq_ok ?_ ?_, not_lt.mpr hsum, rfl⟩
  · simp only at hcontra hsum ⊢
    omega
  · simp only at hfor hsum ⊢
    omega

/-- Only the end moves. -/
theorem extend_eq (p : Poll) (candidate : Number) :
    p.extend candidate = { p with ends := (p.extend candidate).ends } := by
  unfold extend
  split
  · rfl
  · split <;> rfl

theorem mem_ends_extend {candidate n : Number} (h : n ∈ (p.extend candidate).ends) :
    n ∈ p.ends ∨ n = candidate := by
  unfold extend at h
  split at h
  · exact .inl h
  · split at h
    · exact .inl h
    · exact .inr (Option.mem_some_iff.mp h).symm

end Poll

/-! ## Sums over seats -/

namespace Ledger

/-- The signal counted for a side, seat by seat. -/
theorem countedOf_eq (side : Stance) (seats : List Seat) :
    countedOf side seats = Signal.total (seats.map fun seat =>
      side.share seat.ballot.counted seat.ballot.magnitude) := by
  unfold countedOf mintedOf
  rw [Signal.total_filter]
  simp [Stance.share]

/-- Where no ballot is counted on a side, no side has any signal. -/
theorem countedOf_eq_zero {seats : List Seat}
    (h : ∀ seat ∈ seats, seat.ballot.counted.isSided = false) {side : Stance}
    (hside : side.isSided = true) : countedOf side seats = 0 := by
  have hnone : seats.filter (·.ballot.counted = side) = [] := by
    refine List.filter_eq_nil_iff.mpr fun seat hseat hcounted => ?_
    have hunsided := h seat hseat
    rw [of_decide_eq_true hcounted, hside] at hunsided
    cases hunsided
  rw [countedOf, hnone]
  rfl

end Ledger

end Plebiscite
