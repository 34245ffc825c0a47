import Plebiscite.Proofs.Height
import Plebiscite.Proofs.Number.Nearest

/-!
# Heights are never rounded

Heights are added as doubles, and whether a sum is too large is seen only after it was rounded.  Yet
no sum beyond `2 ^ 53 - 1` is rounded back among the heights, and none up to there is rounded at
all.  So heights, and the clocks that show them, count like natural numbers.

## Main definitions

- `Height.Counts`: a value that stands for a number of blocks
- `Height.AddsExactly`: a height and a duration that are added as natural numbers are
- `Clock.Call`, `Clock.run`: what a host asks of a clock, and a clock after that
- `Clock.Leads`: the height that a call leads to, counted exactly
- `Clock.CountsExactly`: a clock that shows what it was asked to show

## Main results

- `Height.add_of_counts`, `Height.add_of_not_counts`: what a height and a duration come to
- `Clock.Shows.call_eq_ok`: which calls are accepted
- `Clock.Shows.run`: after any calls a clock shows a height, and none that is earlier
- `Clock.heights_exact`: sums of heights and the clocks that use them are exact
-/

namespace Plebiscite

namespace Height

/-- A value that stands for a number of blocks: a natural number that is safe. -/
def Counts (v : Value) (k : Nat) : Prop :=
  v = .number (.ofInt k) ∧ k ≤ Number.maxSafe

variable {label : String} {v now duration : Value} {j k : Nat}

theorem Counts.unique (hj : Counts v j) (hk : Counts v k) : j = k := by
  have hsame : Number.ofInt j = .ofInt k := Value.number.inj (hj.1.symm.trans hk.1)
  exact Int.ofNat_inj.mp (Number.ofInt_inj.mp hsame)

/-! ## Reading -/

/-- The guard on heights passes exactly the numbers of blocks. -/
theorem isBlockHeight_iff : Guard.isBlockHeight v = true ↔ ∃ k, Counts v k := by
  constructor
  · intro h
    cases v with
    | number n =>
      obtain ⟨k, rfl, hk⟩ := exists_of_isBlockHeight h
      exact ⟨k, rfl, hk⟩
    | _ => cases h
  · rintro ⟨k, rfl, hk⟩
    exact isBlockHeight_ofInt hk

theorem read_of_counts (hk : Counts v k) : read label v = .ok (.ofInt k) := by
  obtain ⟨rfl, hle⟩ := hk
  exact read_eq_ok.mpr ⟨rfl, isBlockHeight_ofInt hle⟩

/-- Whatever is no number of blocks is refused under the name that was given. -/
theorem read_of_not_counts (label : String) (hv : ¬ ∃ k, Counts v k) :
    ∃ got, read label v = .error (.height label got) := by
  have hguard : ¬ Guard.isBlockHeight v = true := mt isBlockHeight_iff.mp hv
  cases v with
  | number n => exact ⟨_, if_neg hguard⟩
  | _ => exact ⟨_, rfl⟩

/-! ## Adding -/

/-- A height and a duration come to their exact sum, or to nothing if that is no height. -/
theorem add_of_counts (hj : Counts now j) (hk : Counts duration k) :
    add now duration =
      if j + k ≤ Number.maxSafe then .ok (.ofInt (j + k : Nat))
      else .error (.heightOverflow (.ofInt j) (.ofInt k)) := by
  rw [add, read_of_counts hj, read_of_counts hk]
  simp only [bind, Except.bind]
  by_cases hsum : j + k ≤ Number.maxSafe
  · have hsafe : (Number.ofInt (j + k : Nat)).isSafeInteger = true := by
      rw [Number.isSafeInteger_ofInt]
      exact decide_eq_true hsum
    rw [Number.ofInt_add hsum, if_pos hsafe, if_pos hsum]
    rfl
  · -- The sum that is tested is rounded already, but not back among the safe integers.
    have hunsafe : ¬ (Number.ofInt j + Number.ofInt k).isSafeInteger = true :=
      mt (Number.add_le_of_isSafeInteger hj.2 hk.2) hsum
    rw [if_neg hunsafe, if_neg hsum]
    rfl

/-- A height that is none is found first, and then a duration that is none. -/
theorem add_of_not_counts (h : ¬ ((∃ j, Counts now j) ∧ ∃ k, Counts duration k)) :
    ∃ label got, add now duration = .error (.height label got) := by
  by_cases hnow : ∃ j, Counts now j
  · obtain ⟨got, hgot⟩ := read_of_not_counts "Duration" fun hduration => h ⟨hnow, hduration⟩
    obtain ⟨j, hj⟩ := hnow
    refine ⟨"Duration", got, ?_⟩
    rw [add, read_of_counts hj, hgot]
    rfl
  · obtain ⟨got, hgot⟩ := read_of_not_counts "Block height" hnow
    refine ⟨"Block height", got, ?_⟩
    rw [add, hgot]
    rfl

/-- A height and a duration are added as natural numbers are: a sum is exact, one that is too large
is refused for that, and what is no height is refused for that. -/
structure AddsExactly (now duration : Value) : Prop where
  sum : ∀ n, add now duration = .ok n ↔ ∃ j k, Counts now j ∧ Counts duration k ∧
    j + k ≤ Number.maxSafe ∧ n = .ofInt (j + k : Nat)
  overflow : (∃ f, add now duration = .error f ∧ f.code = .blockHeightOverflow) ↔
    ∃ j k, Counts now j ∧ Counts duration k ∧ Number.maxSafe < j + k
  invalid : (∃ f, add now duration = .error f ∧ f.code = .invalidBlockHeight) ↔
    ¬ ((∃ j, Counts now j) ∧ ∃ k, Counts duration k)

/-- There is only one number of blocks for each of two values. -/
theorem exists_counts_iff (hj : Counts now j) (hk : Counts duration k) {P : Nat → Nat → Prop} :
    (∃ j k, Counts now j ∧ Counts duration k ∧ P j k) ↔ P j k := by
  constructor
  · rintro ⟨j', k', hj', hk', hP⟩
    rwa [hj.unique hj', hk.unique hk']
  · exact fun hP => ⟨j, k, hj, hk, hP⟩

theorem addsExactly (now duration : Value) : AddsExactly now duration := by
  by_cases h : (∃ j, Counts now j) ∧ ∃ k, Counts duration k
  · obtain ⟨⟨j, hj⟩, k, hk⟩ := id h
    have hadd := add_of_counts hj hk
    by_cases hsum : j + k ≤ Number.maxSafe
    · rw [if_pos hsum] at hadd
      refine ⟨fun n => ?_, ?_, ?_⟩
      · rw [exists_counts_iff hj hk, hadd]
        simp [hsum, eq_comm]
      · rw [exists_counts_iff hj hk, hadd]
        simp [hsum]
      · simp [hadd, h]
    · rw [if_neg hsum] at hadd
      refine ⟨fun n => ?_, ?_, ?_⟩
      · rw [exists_counts_iff hj hk, hadd]
        simp [hsum]
      · rw [exists_counts_iff hj hk, hadd]
        simpa [Fault.code] using hsum
      · simp [hadd, h, Fault.code]
  · obtain ⟨label, got, hadd⟩ := add_of_not_counts h
    refine ⟨fun n => ?_, ?_, ?_⟩
    · refine iff_of_false (by simp [hadd]) ?_
      rintro ⟨j, k, hj, hk, -⟩
      exact h ⟨⟨j, hj⟩, k, hk⟩
    · refine iff_of_false (by simp [hadd, Fault.code]) ?_
      rintro ⟨j, k, hj, hk, -⟩
      exact h ⟨⟨j, hj⟩, k, hk⟩
    · exact iff_of_true ⟨_, hadd, rfl⟩ h

end Height

namespace Clock

open Plebiscite.Height

/-! ## Calls -/

/-- What a host asks of a clock. -/
inductive Call where
  | advanceTo (height : Value)
  | advanceBy (blocks : Value)

/-- The clock after a call, if the call is accepted. -/
def call (c : Clock) : Call → Except Fault Clock
  | .advanceTo height => c.advanceTo height
  | .advanceBy blocks => c.advanceBy blocks

/-- The clock after a call, accepted or not. -/
def after (c : Clock) (m : Call) : Clock :=
  match c.call m with
  | .ok c' => c'
  | .error _ => c

/-- The clock after several calls. -/
def run (c : Clock) (calls : List Call) : Clock :=
  calls.foldl after c

/-- The height that a call leads to from a height, counted exactly. -/
inductive Leads (j : Nat) : Call → Nat → Prop
  | jump {v : Value} {k : Nat} (hv : Counts v k) (hle : j ≤ k) : Leads j (.advanceTo v) k
  | wait {v : Value} {k : Nat} (hv : Counts v k) (hle : j + k ≤ Number.maxSafe) :
      Leads j (.advanceBy v) (j + k)

/-- A clock that shows a height. -/
structure Shows (c : Clock) (k : Nat) : Prop where
  height_eq : c.height = .ofInt k
  le : k ≤ Number.maxSafe

variable {c c' : Clock} {v : Value} {m : Call} {calls : List Call} {j k : Nat} {f : Fault}

theorem Leads.le (h : Leads j m k) : j ≤ k := by
  cases h with
  | jump _ hle => exact hle
  | wait _ _ => exact Nat.le_add_right j _

theorem Leads.le_maxSafe (h : Leads j m k) : k ≤ Number.maxSafe := by
  cases h with
  | jump hv _ => exact hv.2
  | wait _ hle => exact hle

theorem Shows.eq (h : c.Shows k) : c = ⟨.ofInt k⟩ := by
  obtain ⟨height⟩ := c
  obtain ⟨rfl, -⟩ := h
  rfl

theorem Shows.unique (hj : c.Shows j) (hk : c.Shows k) : j = k :=
  Int.ofNat_inj.mp (Number.ofInt_inj.mp (hj.height_eq.symm.trans hk.height_eq))

/-- A clock starts at a height, and at nothing else. -/
theorem start_eq_ok : start v = .ok c ↔ ∃ k, Counts v k ∧ c.Shows k := by
  by_cases hv : ∃ k, Counts v k
  · obtain ⟨k, hk⟩ := hv
    rw [start, read_of_counts hk]
    constructor
    · rintro ⟨⟩
      exact ⟨k, hk, rfl, hk.2⟩
    · rintro ⟨k', hk', hshows⟩
      rw [hshows.eq, hk.unique hk']
      rfl
  · obtain ⟨got, hgot⟩ := read_of_not_counts "Block height" hv
    rw [start, hgot]
    constructor
    · intro h
      cases h
    · rintro ⟨k, hk, -⟩
      exact absurd ⟨k, hk⟩ hv

/-! ## One call -/

theorem Shows.advanceTo_eq_ok (h : c.Shows j) :
    c.advanceTo v = .ok c' ↔ ∃ k, Counts v k ∧ j ≤ k ∧ c'.Shows k := by
  simp only [advanceTo, Checks.bind_eq_ok, Checks.ite_throw_bind_eq_ok, Checks.pure_eq_ok]
  constructor
  · rintro ⟨n, hread, hlater, rfl⟩
    obtain ⟨rfl, hn⟩ := read_eq_ok.mp hread
    obtain ⟨k, rfl, hk⟩ := exists_of_isBlockHeight hn
    rw [h.height_eq, Number.ofInt_lt] at hlater
    exact ⟨k, ⟨rfl, hk⟩, by simpa using hlater, rfl, hk⟩
  · rintro ⟨k, hk, hle, hshows⟩
    refine ⟨_, read_of_counts hk, ?_, hshows.eq.symm⟩
    rw [h.height_eq, Number.ofInt_lt]
    simpa using hle

theorem Shows.advanceBy_eq_ok (h : c.Shows j) :
    c.advanceBy v = .ok c' ↔
      ∃ k, Counts v k ∧ j + k ≤ Number.maxSafe ∧ c'.Shows (j + k) := by
  simp only [advanceBy, Checks.bind_eq_ok, h.advanceTo_eq_ok, h.height_eq]
  constructor
  · rintro ⟨n, hread, i, ⟨hi, hle⟩, -, hshows⟩
    obtain ⟨rfl, hn⟩ := read_eq_ok.mp hread
    obtain ⟨k, rfl, hk⟩ := exists_of_isBlockHeight hn
    -- The rounded sum is a height, so it was not rounded.
    have hsafe : (Number.ofInt j + Number.ofInt k).isSafeInteger = true := by
      rw [Value.number.inj hi, Number.isSafeInteger_ofInt]
      exact decide_eq_true hle
    have hsum := Number.add_le_of_isSafeInteger h.le hk hsafe
    rw [Number.ofInt_add hsum] at hi
    obtain rfl : j + k = i := Int.ofNat_inj.mp (Number.ofInt_inj.mp (Value.number.inj hi))
    exact ⟨k, ⟨rfl, hk⟩, hsum, hshows⟩
  · rintro ⟨k, hk, hsum, hshows⟩
    refine ⟨_, read_of_counts hk, j + k, ⟨?_, hsum⟩, Nat.le_add_right j k, hshows⟩
    rw [Number.ofInt_add hsum]

/-- The calls that are accepted are those that lead to a height, and this one is shown then. -/
theorem Shows.call_eq_ok (h : c.Shows j) :
    c.call m = .ok c' ↔ ∃ k, Leads j m k ∧ c'.Shows k := by
  cases m with
  | advanceTo v =>
    rw [call, h.advanceTo_eq_ok]
    constructor
    · rintro ⟨k, hk, hle, hshows⟩
      exact ⟨k, .jump hk hle, hshows⟩
    · rintro ⟨k, hleads, hshows⟩
      cases hleads with
      | jump hk hle => exact ⟨k, hk, hle, hshows⟩
  | advanceBy v =>
    rw [call, h.advanceBy_eq_ok]
    constructor
    · rintro ⟨k, hk, hle, hshows⟩
      exact ⟨j + k, .wait hk hle, hshows⟩
    · rintro ⟨_, hleads, hshows⟩
      cases hleads with
      | wait hk hle => exact ⟨_, hk, hle, hshows⟩

theorem after_of_ok (h : c.call m = .ok c') : c.after m = c' := by
  rw [after, h]

theorem after_of_error (h : c.call m = .error f) : c.after m = c := by
  rw [after, h]

/-- One call leads to a height that is not earlier, or leaves the clock as it is. -/
theorem Shows.after (h : c.Shows j) (m : Call) : ∃ k, (c.after m).Shows k ∧ j ≤ k := by
  cases hcall : c.call m with
  | ok c' =>
    obtain ⟨k, hleads, hshows⟩ := h.call_eq_ok.mp hcall
    rw [after_of_ok hcall]
    exact ⟨k, hshows, hleads.le⟩
  | error f =>
    rw [after_of_error hcall]
    exact ⟨j, h, le_refl j⟩

/-! ## Several calls -/

@[simp]
theorem run_append (c : Clock) (calls more : List Call) :
    c.run (calls ++ more) = (c.run calls).run more :=
  List.foldl_append

@[simp]
theorem run_cons (c : Clock) (m : Call) (calls : List Call) :
    c.run (m :: calls) = (c.after m).run calls :=
  rfl

/-- After any calls a clock shows a height, and none that is earlier. -/
theorem Shows.run (h : c.Shows j) (calls : List Call) : ∃ k, (c.run calls).Shows k ∧ j ≤ k := by
  induction calls generalizing c j with
  | nil => exact ⟨j, h, le_refl j⟩
  | cons m calls ih =>
    obtain ⟨i, hi, hji⟩ := h.after m
    obtain ⟨k, hk, hik⟩ := ih hi
    exact ⟨k, hk, hji.trans hik⟩

/-- Calls that are all refused leave a clock as it is. -/
theorem run_of_refused (h : ∀ m ∈ calls, ∃ f, c.call m = .error f) : c.run calls = c := by
  induction calls with
  | nil => rfl
  | cons m calls ih =>
    obtain ⟨f, hf⟩ := h m List.mem_cons_self
    rw [run_cons, after_of_error hf, ih fun m' hm' => h m' (List.mem_cons_of_mem _ hm')]

/-- After some calls a clock shows a height, no earlier than before any of them.  It is the height
that the last accepted call leads to from the one that was shown then.  The calls that would be
accepted next are those that lead to a height, and all others leave the clock as it is. -/
structure CountsExactly (c : Clock) (calls : List Call) (k : Nat) : Prop where
  shows : (c.run calls).Shows k
  not_earlier : ∀ earlier later, calls = earlier ++ later →
    ∃ j, (c.run earlier).Shows j ∧ j ≤ k
  last : ∀ earlier m later c', calls = earlier ++ m :: later → (c.run earlier).call m = .ok c' →
    (∀ m' ∈ later, ∃ f, c'.call m' = .error f) → ∃ j, (c.run earlier).Shows j ∧ Leads j m k
  accepted : ∀ m, (∃ c', (c.run calls).call m = .ok c') ↔ ∃ k', Leads k m k'
  refused : ∀ m f, (c.run calls).call m = .error f → c.run (calls ++ [m]) = c.run calls

theorem exists_countsExactly (h : c.Shows j) (calls : List Call) :
    ∃ k, c.CountsExactly calls k := by
  obtain ⟨k, hk, -⟩ := h.run calls
  refine ⟨k, hk, fun earlier later hsplit => ?_, fun earlier m later c' hsplit hcall hlater => ?_,
    fun m => ?_, fun m f hcall => ?_⟩
  · obtain ⟨i, hi, -⟩ := h.run earlier
    obtain ⟨k', hk', hik⟩ := hi.run later
    rw [hsplit, run_append] at hk
    obtain rfl := hk.unique hk'
    exact ⟨i, hi, hik⟩
  · obtain ⟨i, hi, -⟩ := h.run earlier
    obtain ⟨k', hleads, hk'⟩ := hi.call_eq_ok.mp hcall
    rw [hsplit, run_append, run_cons, after_of_ok hcall, run_of_refused hlater] at hk
    obtain rfl := hk.unique hk'
    exact ⟨i, hi, hleads⟩
  · simp only [hk.call_eq_ok]
    constructor
    · rintro ⟨c', k', hleads, -⟩
      exact ⟨k', hleads⟩
    · rintro ⟨k', hleads⟩
      exact ⟨⟨.ofInt k'⟩, k', hleads, rfl, hleads.le_maxSafe⟩
  · rw [run_append]
    exact run_of_refused (by simpa using ⟨f, hcall⟩)

/-! ## All of it -/

/-- Of two heights the sum that is computed is the double nearest to their exact sum.  What a height
and a duration come to is nevertheless exact, or refused.  A clock starts at the height that it is
given, and counts exactly from then on, whatever is asked of it. -/
theorem heights_exact :
    (∀ j k : Nat, j ≤ Number.maxSafe → k ≤ Number.maxSafe →
      ∃ r : Nat, Number.ofInt j + Number.ofInt k = .ofInt r ∧ Number.IsNearest (j + k) r) ∧
    (∀ now duration, AddsExactly now duration) ∧
    (∀ v c, start v = .ok c ↔ ∃ k, Counts v k ∧ c.Shows k) ∧
    ∀ v c, start v = .ok c → ∀ calls, ∃ k, c.CountsExactly calls k := by
  refine ⟨fun j k => Number.exists_nearest_add, addsExactly, fun v c => start_eq_ok,
    fun v c hstart calls => ?_⟩
  obtain ⟨j, -, hshows⟩ := start_eq_ok.mp hstart
  exact exists_countsExactly hshows calls

/-- Two blocks after the last height of all there is only a rounded number.  A clock that is two
blocks before it is moved by one block.  By two more it cannot be moved, nor can it be taken
back. -/
theorem heights_exact_at_last :
    (∃ r : Nat, Number.ofInt Number.maxSafe + Number.ofInt (2 : Nat) = .ofInt r ∧
      Number.IsNearest (Number.maxSafe + 2) r) ∧
    start (.number (.ofInt (9007199254740989 : Nat))) = .ok ⟨.ofInt (9007199254740989 : Nat)⟩ ∧
    (run ⟨.ofInt (9007199254740989 : Nat)⟩
      [.advanceBy (.number 1), .advanceBy (.number 2), .advanceTo (.number 5)]).Shows
        9007199254740990 := by
  obtain ⟨hnearest, -, -, hclock⟩ := heights_exact
  have hstart : start (.number (.ofInt (9007199254740989 : Nat))) =
      .ok ⟨.ofInt (9007199254740989 : Nat)⟩ := by
    decide +kernel
  have hmoved : Clock.advanceBy ⟨.ofInt (9007199254740989 : Nat)⟩ (.number 1) =
      .ok ⟨.ofInt (9007199254740990 : Nat)⟩ := by
    decide +kernel
  have hhigh : Clock.advanceBy ⟨.ofInt (9007199254740990 : Nat)⟩ (.number 2) =
      .error (.height "Block height" "9007199254740992") := by
    decide +kernel
  have hback : Clock.advanceTo ⟨.ofInt (9007199254740990 : Nat)⟩ (.number 5) =
      .error (.clockBackwards (.ofInt (9007199254740990 : Nat)) 5) := by
    decide +kernel
  obtain ⟨k, hexact⟩ := hclock _ _ hstart
    [.advanceBy (.number 1), .advanceBy (.number 2), .advanceTo (.number 5)]
  obtain ⟨j, hj, hleads⟩ := hexact.last [] (.advanceBy (.number 1))
    [.advanceBy (.number 2), .advanceTo (.number 5)] _ rfl hmoved
    (List.forall_mem_cons.mpr ⟨⟨_, hhigh⟩, List.forall_mem_singleton.mpr ⟨_, hback⟩⟩)
  obtain rfl : j = 9007199254740989 := hj.unique ⟨rfl, by decide⟩
  cases hleads with
  | @wait _ i hi _ =>
    obtain rfl : i = 1 := hi.unique ⟨rfl, by decide⟩
    exact ⟨hnearest _ _ le_rfl (by decide), hstart, hexact.shows⟩

end Clock

end Plebiscite
