import Plebiscite.Proofs.Height
import Plebiscite.Proofs.Ledger.Casting
import Plebiscite.Proofs.Ledger.Refusal
import Plebiscite.Proofs.Roster.Stakes

/-!
# Checks that cannot fail

The ledger checks everything that it is handed, and whatever a clock and a source of stakes say.
Where the clock shows a height, where the stakes that are reported do not contradict each other, and
where what is asked for has the right form, most of these checks pass by themselves.  What is left
are the few that depend on amounts: too much signal, too high a block, no identifier left.

## Main definitions

- `Rule.Written`: bounds that have the right form, of any size
- `Ledger.Prepared`: a vote to be opened, with a clock and stakes that are in order
- `Ledger.Hinders`: why such a vote may still not be opened

## Main results

- `Plan.make_failsOnly_of`: a plan from consistent stakes is refused for their size only
- `Ledger.perform_hinders`: a vote that is prepared is refused for these causes only
- `Ledger.applyVote_rejects`, `Ledger.extendVote_rejects`, `Ledger.registerThreshold_rejects`: what
  is left for the other commands
-/

namespace Plebiscite

open Checks

/-! ## Heights -/

/-- A sum of two heights can only be too high. -/
theorem Height.add_overflows {now duration : Number}
    (hnow : Guard.isBlockHeight (.number now) = true)
    (hduration : Guard.isBlockHeight (.number duration) = true) :
    FailsWith [.blockHeightOverflow] (Height.add (.number now) (.number duration)) := by
  have hfirst : Height.read "Block height" (.number now) = .ok now :=
    Height.read_eq_ok.mpr ⟨rfl, hnow⟩
  have hsecond : Height.read "Duration" (.number duration) = .ok duration :=
    Height.read_eq_ok.mpr ⟨rfl, hduration⟩
  refine .bind (hfirst ▸ .ok _) fun a _ => .bind (hsecond ▸ .ok _) fun b _ => ?_
  exact .ite (.ok _) (.error (by simp [Fault.code]))

/-- A duration that is left out, or a number of blocks. -/
def IsDuration (v : Value) : Prop :=
  v = .absent ∨ ∃ n, v = .number n ∧ Guard.isBlockHeight (.number n) = true

theorem Ledger.endOf_overflows {now : Number} {duration : Value}
    (hnow : Guard.isBlockHeight (.number now) = true) (hduration : IsDuration duration) :
    FailsWith [.blockHeightOverflow] (endOf now duration) := by
  rcases hduration with rfl | ⟨n, rfl, hn⟩
  · exact .ok none
  · exact (Height.add_overflows hnow hn).map

/-! ## Bounds -/

namespace Rule

/-- Bounds that are whole and not below zero, or shares; an amount of signal may be too large. -/
def Written : Rule → Prop
  | .signal t => ∀ b ∈ t.bounds, 0 ≤ b
  | .percent t => ∀ b ∈ t.bounds, Guard.isPermill (.number b) = true

theorem written_of_valid {r : Rule} (h : r.validate = .ok ()) : r.Written := by
  cases r with
  | signal t => exact fun b hb => (Signal.inRange_iff.mp (validate_signal.mp h b hb)).1
  | percent t => exact validate_percent.mp h

/-- Bounds of the right form are refused only if they are more than all signal there can be. -/
theorem validate_failsOnly_of {r : Rule} (h : r.Written) :
    FailsOnly (fun f : Fault => f.code = .invalidSignal ∧
      ∃ t, r = .signal t ∧ ∃ b ∈ t.bounds, Signal.max < b) r.validate := by
  cases r with
  | signal t =>
    refine FailsOnly.forM fun v hv => ?_
    rw [Threshold.bounds_map] at hv
    obtain ⟨b, hb, rfl⟩ := List.mem_map.mp hv
    simp only [Signal.validate, Signal.ofValue?]
    cases hrange : Signal.inRange b with
    | true => exact .ok ()
    | false => exact .error ⟨rfl, t, rfl, b, hb, Signal.max_lt_of_inRange (h b hb) hrange⟩
  | percent t =>
    rw [validate_percent.mpr h]
    exact .ok ()

/-- Every share of the turnout can be reached. -/
theorem isWithin_resolve {t : Threshold Number} (h : (Rule.percent t).Written) {turnout : Int}
    (hturnout : 0 ≤ turnout) : (t.resolve turnout).isWithin turnout = true := by
  refine Threshold.isWithin_iff.mpr ?_
  simp only [Threshold.resolve, Threshold.bounds_map, Threshold.bounds_bare, List.forall_mem_map]
  intro b hb
  obtain ⟨k, rfl, hk, hle⟩ := Guard.exists_of_isPermill (h b hb)
  rw [Number.toInt_ofInt]
  exact permillOfCeil_le_turnout hk hle hturnout

end Rule

/-! ## Plans from consistent stakes -/

namespace Plan

variable {org : Value} {holdings : List Holding} {seen : List Value} {sum total : Int}
  {allocations : List Allocation}

/-- Whole stakes of members that are listed once are refused for their size only. -/
theorem collect_failsOnly_of (hnamed : ∀ h ∈ holdings, isNamed h.member = true)
    (hdistinct : (holdings.map (·.member)).Nodup) (hnew : ∀ h ∈ holdings, h.member ∉ seen)
    (hwhole : ∀ h ∈ holdings, ∃ n : Nat, h.stake = .integer n) :
    FailsOnly (fun f : Fault => f.code = .signalOverflow ∨
      f.code = .invalidMembership ∧ ∃ h ∈ holdings, Signal.max < h.stake.whole)
      (collect org seen sum holdings) := by
  induction holdings generalizing seen sum with
  | nil => exact .ok _
  | cons holding rest ih =>
    have hmember := hnamed holding (by simp)
    have hfirst : holding.member.isAmong seen = false := by
      rw [← Bool.not_eq_true, isAmong_iff hmember]
      exact hnew holding (by simp)
    obtain ⟨hfresh, hdistinct⟩ := List.nodup_cons.mp hdistinct
    obtain ⟨n, hstake⟩ := hwhole holding (by simp)
    simp only [collect, hfirst, Bool.false_eq_true, if_false, hstake, Signal.ofValue?]
    cases hrange : Signal.inRange n with
    | false =>
      refine .error (.inr ⟨rfl, holding, by simp, ?_⟩)
      rw [hstake]
      exact Signal.max_lt_of_inRange (Int.natCast_nonneg n) hrange
    | true =>
      refine .bind (FailsOnly.mono (Signal.add_failsWith sum n) fun f hf => ?_) fun next _ => ?_
      · exact .inl (List.mem_singleton.mp hf)
      · -- The rest is checked with this member seen, and none of it is listed again.
        refine .bind ((ih (fun h hh => hnamed h (List.mem_cons_of_mem _ hh)) hdistinct ?_
          fun h hh => hwhole h (List.mem_cons_of_mem _ hh)).mono fun f hf => ?_) fun _ _ => .ok _
        · intro h hh hmem
          rcases List.mem_cons.mp hmem with heq | hmem
          · exact hfresh (List.mem_map.mpr ⟨h, hh, heq⟩)
          · exact hnew h (List.mem_cons_of_mem _ hh) hmem
        · rcases hf with hcode | ⟨hcode, h, hh, hlarge⟩
          · exact .inl hcode
          · exact .inr ⟨hcode, h, List.mem_cons_of_mem _ hh, hlarge⟩

/-- What was collected is the sum of the stakes. -/
theorem total_of_collect (h : collect org seen sum holdings = .ok (allocations, total)) :
    total = sum + Signal.total (holdings.map (·.stake.whole)) := by
  induction holdings generalizing seen sum allocations total with
  | nil =>
    cases h
    simp
  | cons holding rest ih =>
    simp only [collect, Checks.ite_throw_bind_eq_ok] at h
    obtain ⟨-, h⟩ := h
    split at h
    · simp at h
    · rename_i stake hstake
      simp only [Checks.bind_eq_ok, Checks.pure_eq_ok, Prod.mk.injEq, Prod.exists] at h
      obtain ⟨next, hnext, allocations, total, hrest, -, rfl⟩ := h
      obtain ⟨-, rfl⟩ := Signal.add_eq_ok.mp hnext
      rw [ih hrest, List.map_cons, Signal.total_cons, Signal.eq_of_ofValue? hstake, Value.whole,
        Int.add_assoc]

/-- Where the electorate is known and its stakes are consistent, a plan is refused only if signal
is given by stake, and there is too much of it. -/
theorem make_failsOnly_of {source : StakeSource} {e : Electorate} {mode : MintMode}
    (hmode : e.mode? = some mode) (hgroup : (source.group? e.org).isSome) {group : WeightedGroup}
    (hstakes : source.stakes? e.org = some group) (hconsistent : group.Consistent) :
    FailsOnly (fun f : Fault => mode = .weighted ∧ (f.code = .signalOverflow ∨
      f.code = .invalidMembership ∧ ∃ h ∈ group.holdings, Signal.max < h.stake.whole))
      (make source e) := by
  cases mode with
  | equal =>
    obtain ⟨members, hmembers⟩ := Option.isSome_iff_exists.mp hgroup
    simp only [make, make?, hmode, Option.map_some, Option.getD_some, makeEqual, hmembers]
    exact .ok _
  | weighted =>
    simp only [make, make?, hmode, Option.map_some, Option.getD_some, makeWeighted, hstakes,
      true_and]
    refine .bind (collect_failsOnly_of hconsistent.named hconsistent.distinct (by simp)
      hconsistent.whole) ?_
    rintro ⟨allocations, sum⟩ hsum
    -- The total that is reported is the sum that was collected.
    have hreports : reports sum group.total = true := by
      rw [hconsistent.total, total_of_collect hsum, Int.zero_add]
      exact beq_self_eq_true _
    simp only [hreports, Bool.not_true, Bool.false_eq_true, if_false]
    exact .ok _

end Plan

/-! ## Opening votes -/

namespace Ledger

variable {env : Environment} {l : Ledger} {c : Command} {o : Opening}

/-- A vote to be opened for an electorate that is known, with a clock that shows a height, stakes
that are consistent, and bounds and a duration of the right form. -/
structure Prepared (env : Environment) (o : Opening) : Prop where
  now : ∃ n, env.now = .number n ∧ Guard.isBlockHeight (.number n) = true
  duration : IsDuration o.duration
  mode : ∃ mode, o.electorate.mode? = some mode
  group : (env.stakes.group? o.electorate.org).isSome
  stakes : ∃ group, env.stakes.stakes? o.electorate.org = some group ∧ group.Consistent
  rule : o.rule.Written

/-- Why a vote may not be opened though it is prepared. -/
inductive Hinders (source : StakeSource) (o : Opening) : Code → Prop
  /-- A bound in signal is more than all signal there can be. -/
  | excessive {t : Threshold Int} {b : Int} (hrule : o.rule = .signal t) (hb : b ∈ t.bounds)
      (hlarge : Signal.max < b) : Hinders source o .invalidSignal
  | late : Hinders source o .blockHeightOverflow
  /-- A single stake is more than all signal there can be. -/
  | stake {group : WeightedGroup} {h : Holding} (hmode : o.electorate.mode? = some .weighted)
      (hgroup : source.stakes? o.electorate.org = some group) (hh : h ∈ group.holdings)
      (hlarge : Signal.max < h.stake.whole) : Hinders source o .invalidMembership
  | stakes (hmode : o.electorate.mode? = some .weighted) : Hinders source o .signalOverflow
  /-- A bound in signal is more than what is minted. -/
  | unreachable {t : Threshold Int} (hrule : o.rule = .signal t) :
      Hinders source o .thresholdExceedsBounds
  | exhausted : Hinders source o .idSpaceExhausted

theorem height_of_now {n : Number} (hnow : env.now = .number n)
    (hn : Guard.isBlockHeight (.number n) = true) : env.height = .ok n := by
  rw [Environment.height, hnow]
  exact Height.read_eq_ok.mpr ⟨rfl, hn⟩

/-- A vote that is prepared is opened, unless there is too much or too little of something. -/
theorem perform_hinders (ho : l.opening? c = some o) (hprepared : Prepared env o) :
    Step.FailsOnly l (fun f => Hinders env.stakes o f.code) (perform env c) := by
  obtain ⟨⟨n, hnow, hn⟩, hduration, ⟨mode, hmode⟩, hgroup, ⟨group, hstakes, hconsistent⟩, hrule⟩ :=
    hprepared
  refine perform_failsOnly_of_opening ho ?_ fun _ => openWith_failsOnly_of ?_ ?_ ?_ ?_ ?_
  · refine (Rule.validate_failsOnly_of hrule).mono ?_
    rintro f ⟨hcode, t, ht, b, hb, hlarge⟩
    exact hcode ▸ .excessive ht hb hlarge
  · rw [height_of_now hnow hn]
    exact .ok n
  · intro now hheight
    rw [height_of_now hnow hn] at hheight
    cases hheight
    refine FailsOnly.mono (endOf_overflows hn hduration) fun f hf => ?_
    exact List.mem_singleton.mp hf ▸ .late
  · refine (Plan.make_failsOnly_of hmode hgroup hstakes hconsistent).mono ?_
    rintro f ⟨rfl, hcode | ⟨hcode, h, hh, hlarge⟩⟩
    · exact hcode ▸ .stakes hmode
    · exact hcode ▸ .stake hmode hstakes hh hlarge
  · intro plan hmake hwithin
    cases hunit : o.rule with
    | signal t => exact .unreachable hunit
    | percent t =>
      -- A share of the turnout is never more than the turnout.
      rw [hunit] at hrule hwithin
      have hreach := Rule.isWithin_resolve hrule (Plan.nonneg_of_make hmake)
      rw [Rule.boundsAt, hreach] at hwithin
      cases hwithin
  · refine FailsOnly.mono (next_failsWith _ _ _) fun f hf => ?_
    exact List.mem_singleton.mp hf ▸ .exhausted

/-! ## The other commands -/

/-- A ballot of a sound ledger is refused for where its member stands, and not for the tallies. -/
theorem applyVote_rejects (hsound : ∀ v ∈ l.votes, v.Sound) {n : Number}
    (hnow : env.now = .number n) (hn : Guard.isBlockHeight (.number n) = true) (id voter : Value)
    (stance : Stance) (justification : Value) :
    Step.FailsOnly l (fun f => f.code ∈ [.voteStateNotFound, .voteExpired, .noSignalForVoter,
      .noChange] ∨ f.code = .unsupportedTransition ∧ stance = .uninitialized)
      (applyVote env id voter stance justification) := by
  refine .get_bind (.check_bind (FailsOnly.mono (require_failsWith l id) fun f hf => ?_)
    fun vote hvote => ?_)
  · exact .inl (by simp_all)
  rw [height_of_now hnow hn]
  refine .check_bind (.ok n) fun now _ => ?_
  cases vote.poll.endedBy? now with
  | some ends => exact .throw_bind (by simp [Fault.code])
  | none =>
    dsimp only
    cases hballot : vote.ballot? voter.display with
    | none => exact .throw (by simp [Fault.code])
    | some previous =>
      refine .check_bind (FailsOnly.mono (Ballot.change_failsWith _ _ _) fun f hf => ?_)
        fun ballot _ => .check_bind ?_ fun poll _ => .of_succeeds ?_
      · exact .inl (by simp_all)
      · by_cases hstance : stance = .uninitialized
        · subst hstance
          exact .error (.inr ⟨rfl, rfl⟩)
        · obtain ⟨poll, htransfer⟩ :=
            (hsound vote (mem_of_require hvote).1).exists_transfer hballot hstance
          rw [htransfer]
          exact .ok poll
      · exact (Step.succeeds_modify _).bind fun _ =>
          (Step.succeeds_modify _).bind fun _ => Step.succeeds_pure _

/-- An end can only be too late. -/
theorem extendVote_rejects {n blocks : Number} (hnow : env.now = .number n)
    (hn : Guard.isBlockHeight (.number n) = true)
    (hblocks : Guard.isBlockHeight (.number blocks) = true) (id : Value) :
    Step.FailsOnly l (fun f => f.code ∈ [.voteStateNotFound, .blockHeightOverflow])
      (extendVote env id (.number blocks)) := by
  refine .get_bind (.check_bind ((require_failsWith l id).mono (by simp)) fun vote _ => ?_)
  rw [height_of_now hnow hn]
  refine .check_bind (.ok n) fun now hheight => ?_
  cases hheight
  refine .check_bind ((Height.add_overflows hn hblocks).mono (by simp)) fun candidate _ => ?_
  exact .of_succeeds ((Step.succeeds_modify _).bind fun _ => Step.succeeds_pure _)

/-- A rule of the right form is refused for an excessive bound, or if no identifier is left. -/
theorem registerThreshold_rejects (e : Electorate) {r : Rule} (hrule : r.Written) :
    Step.FailsOnly l (fun f => f.code = .idSpaceExhausted ∨ f.code = .invalidSignal ∧
      ∃ t, r = .signal t ∧ ∃ b ∈ t.bounds, Signal.max < b) (registerThreshold e r) := by
  refine .get_bind (.check_bind ?_ fun added _ => ?_)
  · refine .bind ((Rule.validate_failsOnly_of hrule).mono fun _ => .inr) fun _ _ => ?_
    refine .bind ?_ fun id _ => .ok _
    unfold Identifier.nextOf Identifier.searchAll
    split
    · exact .ok _
    · exact .error (.inl rfl)
  · exact .of_succeeds ((Step.succeeds_set _).bind fun _ => Step.succeeds_pure _)

end Ledger

end Plebiscite
