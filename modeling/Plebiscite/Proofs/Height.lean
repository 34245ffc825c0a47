import Plebiscite.Height
import Plebiscite.Proofs.Checks
import Plebiscite.Proofs.Number

/-!
# Heights that pass

## Main results

- `read_eq_ok`: what is read as a height is a height
- `exists_of_add`, `isBlockHeight_of_add`: the end of a vote is an exact sum, and a height
- `Clock.isBlockHeight_of_start`, `Clock.isBlockHeight_of_advanceTo`,
  `Clock.isBlockHeight_of_advanceBy`: a clock shows a height
- `Clock.exists_of_advanceTo`, `Clock.exists_of_advanceBy`: a clock only moves forward
- `Clock.Later.trans`: and what was passed stays passed
-/

namespace Plebiscite

namespace Height

theorem read_eq_ok {label : String} {v : Value} {n : Number} :
    read label v = .ok n ↔ v = .number n ∧ Guard.isBlockHeight (.number n) = true := by
  cases v with
  | number m =>
    simp only [read]
    split
    · rename_i h
      constructor
      · rintro ⟨⟩
        exact ⟨rfl, h⟩
      · rintro ⟨⟨⟩, -⟩
        rfl
    · rename_i h
      simp only [reduceCtorEq, false_iff]
      rintro ⟨⟨⟩, h'⟩
      exact h h'
  | _ => simp [read]

theorem exists_of_isBlockHeight {n : Number} (h : Guard.isBlockHeight (.number n) = true) :
    ∃ k : Nat, n = .ofInt k ∧ k ≤ Number.maxSafe := by
  obtain ⟨hsafe, hlow⟩ := Bool.and_eq_true_iff.mp h
  obtain ⟨k, hk, -, hle⟩ := Number.exists_nat_of_isSafeInteger 0 hsafe hlow
  exact ⟨k, hk, hle⟩

/-- A sum of heights that passes is exact. -/
theorem exists_of_add {now duration : Value} {n : Number} (h : add now duration = .ok n) :
    ∃ j k : Nat, now = .number (.ofInt j) ∧ duration = .number (.ofInt k) ∧
      n = .ofInt ((j + k : Nat) : Int) ∧ j + k ≤ Number.maxSafe := by
  simp only [add, Checks.bind_eq_ok, read_eq_ok] at h
  obtain ⟨a, ⟨rfl, ha⟩, b, ⟨rfl, hb⟩, h⟩ := h
  obtain ⟨j, rfl, hj⟩ := exists_of_isBlockHeight ha
  obtain ⟨k, rfl, hk⟩ := exists_of_isBlockHeight hb
  split at h
  · rename_i hsafe
    obtain rfl := Checks.pure_eq_ok.mp h
    have hle := Number.add_le_of_isSafeInteger hj hk hsafe
    exact ⟨j, k, rfl, rfl, Number.ofInt_add hle, hle⟩
  · exact (Checks.throw_ne_ok.mp h).elim

/-- A natural number that is safe is a height. -/
theorem isBlockHeight_ofInt {k : Nat} (h : k ≤ Number.maxSafe) :
    Guard.isBlockHeight (.number (.ofInt k)) = true :=
  (Number.isSafeInteger_and_le_iff 0).mpr ⟨k, rfl, Nat.zero_le k, h⟩

/-- A sum of heights that passes is a height. -/
theorem isBlockHeight_of_add {now duration : Value} {n : Number} (h : add now duration = .ok n) :
    Guard.isBlockHeight (.number n) = true := by
  obtain ⟨j, k, -, -, rfl, hle⟩ := exists_of_add h
  exact isBlockHeight_ofInt hle

end Height

namespace Clock

variable {c c' : Clock} {v : Value}

theorem isBlockHeight_of_start (h : start v = .ok c) :
    Guard.isBlockHeight (.number c.height) = true := by
  simp only [start, Checks.bind_eq_ok, Checks.pure_eq_ok, Height.read_eq_ok] at h
  obtain ⟨n, ⟨-, hn⟩, rfl⟩ := h
  exact hn

theorem exists_of_start (h : start v = .ok c) : ∃ k : Nat, c.height = .ofInt k := by
  obtain ⟨k, hk, -⟩ := Height.exists_of_isBlockHeight (isBlockHeight_of_start h)
  exact ⟨k, hk⟩

theorem isBlockHeight_of_advanceTo (h : c.advanceTo v = .ok c') :
    Guard.isBlockHeight (.number c'.height) = true := by
  simp only [advanceTo, Checks.bind_eq_ok, Checks.ite_throw_bind_eq_ok, Checks.pure_eq_ok,
    Height.read_eq_ok] at h
  obtain ⟨n, ⟨-, hn⟩, -, rfl⟩ := h
  exact hn

theorem isBlockHeight_of_advanceBy (h : c.advanceBy v = .ok c') :
    Guard.isBlockHeight (.number c'.height) = true := by
  obtain ⟨blocks, -, h⟩ := Checks.bind_eq_ok.mp h
  exact isBlockHeight_of_advanceTo h

/-- A clock that is moved shows a height that is not earlier. -/
theorem exists_of_advanceTo {j : Nat} (hc : c.height = .ofInt j)
    (h : c.advanceTo v = .ok c') : ∃ k : Nat, c'.height = .ofInt k ∧ j ≤ k := by
  simp only [advanceTo, Checks.bind_eq_ok, Checks.ite_throw_bind_eq_ok, Checks.pure_eq_ok,
    Height.read_eq_ok] at h
  obtain ⟨n, ⟨-, hn⟩, hlater, rfl⟩ := h
  obtain ⟨k, rfl, -⟩ := Height.exists_of_isBlockHeight hn
  rw [hc, Number.ofInt_lt] at hlater
  exact ⟨k, rfl, by simpa using hlater⟩

theorem exists_of_advanceBy {j : Nat} (hc : c.height = .ofInt j)
    (h : c.advanceBy v = .ok c') : ∃ k : Nat, c'.height = .ofInt k ∧ j ≤ k := by
  obtain ⟨blocks, -, h⟩ := Checks.bind_eq_ok.mp h
  exact exists_of_advanceTo hc h

/-- A later state of a clock, which shows a height that is not earlier. -/
structure Later (c c' : Clock) : Prop where
  height : Guard.isBlockHeight (.number c'.height) = true
  le : c.height.le c'.height = true

theorem Later.self (hc : Guard.isBlockHeight (.number c.height) = true) : c.Later c := by
  obtain ⟨k, hk, -⟩ := Height.exists_of_isBlockHeight hc
  exact ⟨hc, by simp [hk]⟩

theorem Later.trans {c'' : Clock} (h : c.Later c') (h' : c'.Later c'') : c.Later c'' :=
  ⟨h'.height, Number.le_trans h.le h'.le⟩

theorem later_of_advanceTo (hc : Guard.isBlockHeight (.number c.height) = true)
    (h : c.advanceTo v = .ok c') : c.Later c' := by
  obtain ⟨j, hj, -⟩ := Height.exists_of_isBlockHeight hc
  obtain ⟨k, hk, hle⟩ := exists_of_advanceTo hj h
  exact ⟨isBlockHeight_of_advanceTo h, by simp [hj, hk, hle]⟩

theorem later_of_advanceBy (hc : Guard.isBlockHeight (.number c.height) = true)
    (h : c.advanceBy v = .ok c') : c.Later c' := by
  obtain ⟨blocks, -, h⟩ := Checks.bind_eq_ok.mp h
  exact later_of_advanceTo hc h

end Clock

end Plebiscite
