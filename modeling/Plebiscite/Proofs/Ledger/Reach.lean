import Plebiscite.Proofs.Ledger.Rejection
import Plebiscite.Proofs.Ledger.Run

/-!
# Shares are within reach

A vote is not opened with bounds that its turnout cannot reach.  Bounds in parts per million are
resolved against the turnout that was just minted, and a share that is rounded up is still no more
than the whole.  So this check never fails for them, whatever the organization is and whoever is in
it; it is there for bounds in signal.

## Main results

- `Rule.mem_bounds_resolve`: resolved shares lie between nothing and the turnout
- `Ledger.perform_percent_failsOnly`: no vote in parts per million is refused for its bounds being
  out of reach
- `Ledger.shares_within_reach`: what rounded shares are, and that they are never out of reach
-/

namespace Plebiscite

open Checks

/-- Shares of a turnout, rounded up, lie between nothing and the turnout. -/
theorem Rule.mem_bounds_resolve {t : Threshold Number} (ht : (Rule.percent t).validate = .ok ())
    {turnout : Int} (hturnout : 0 ≤ turnout) :
    ∀ b ∈ (t.resolve turnout).bounds, 0 ≤ b ∧ b ≤ turnout := by
  have hreach := Threshold.isWithin_iff.mp (isWithin_resolve (written_of_valid ht) hturnout)
  exact fun b hb => ⟨nonneg_boundsAt ht hturnout b hb, hreach b hb⟩

namespace Ledger

variable {env : Environment} {l : Ledger} {c : Command} {o : Opening} {t : Threshold Number}

/-- A vote with bounds in parts per million is refused for anything but bounds out of reach. -/
theorem perform_percent_failsOnly (ho : l.opening? c = some o) (hrule : o.rule = .percent t) :
    Step.FailsOnly l (fun f => f.code ≠ .thresholdExceedsBounds) (perform env c) := by
  refine perform_failsOnly_of_opening ho
    (failsOnly_of_codes o.rule.validate_failsWith (by decide)) fun hvalid =>
      openWith_failsOnly_of ?_ ?_ ?_ ?_ ?_
  · exact failsOnly_of_codes env.height_failsWith (by decide)
  · exact fun now _ => failsOnly_of_codes (endOf_failsWith now o.duration) (by decide)
  · exact failsOnly_of_codes (Plan.make_failsWith _ o.electorate) (by decide)
  · -- The turnout is what the plan hands out, and that is never below zero.
    intro plan hmake hwithin
    rw [hrule] at hvalid hwithin
    have hreach : (t.resolve plan.total).isWithin plan.total = true :=
      Rule.isWithin_resolve (Rule.written_of_valid hvalid) (Plan.nonneg_of_make hmake)
    rw [Rule.boundsAt, hreach] at hwithin
    cases hwithin
  · exact failsOnly_of_codes (next_failsWith _ _ _) (by decide)

theorem not_refusedWith_thresholdExceedsBounds (ho : l.opening? c = some o)
    (hrule : o.rule = .percent t) : ¬ RefusedWith .thresholdExceedsBounds env l c := by
  rintro ⟨f, l', hf, hcode⟩
  exact (perform_percent_failsOnly ho hrule).of_error hf hcode

/-- A share in parts per million that is rounded up is the least amount that reaches the share.  It
lies between nothing and the turnout, is nothing only if the share is, and grows with the share and
with the turnout.  So the bounds that are resolved for a plan are within its turnout, and a vote
whose bounds are shares, asked for or registered, is never refused because they are out of reach. -/
theorem shares_within_reach :
    (∀ permill turnout : Int, 0 ≤ permill → permill ≤ 1000000 → 0 ≤ turnout →
      IsLeast {amount : Int | permill * turnout ≤ 1000000 * amount}
        (permillOfCeil permill turnout) ∧
      0 ≤ permillOfCeil permill turnout ∧ permillOfCeil permill turnout ≤ turnout ∧
      (permillOfCeil permill turnout = 0 ↔ permill = 0 ∨ turnout = 0) ∧
      (∀ more, permill ≤ more → permillOfCeil permill turnout ≤ permillOfCeil more turnout) ∧
      ∀ larger, turnout ≤ larger →
        permillOfCeil permill turnout ≤ permillOfCeil permill larger) ∧
    (∀ (source : StakeSource) (e : Electorate) (plan : Plan) (t : Threshold Number),
      Plan.make source e = .ok plan → (Rule.percent t).validate = .ok () →
        (∀ b ∈ (t.resolve plan.total).bounds, 0 ≤ b ∧ b ≤ plan.total) ∧
        (t.resolve plan.total).isWithin plan.total = true) ∧
    ∀ (env : Environment) (l : Ledger),
      (∀ r, ¬ RefusedWith .thresholdExceedsBounds env l (.openPercentVote r)) ∧
      ∀ (id topic duration : Value) (entry : Registration) (t : Threshold Number),
        l.register.get? id = some entry → entry.rule = .percent t →
          ¬ RefusedWith .thresholdExceedsBounds env l (.invokeThreshold id topic duration) := by
  refine ⟨fun permill turnout hp hle ht => ⟨isLeast_permillOfCeil hp ht,
    permillOfCeil_nonneg hp ht, permillOfCeil_le_turnout hp hle ht,
    permillOfCeil_eq_zero_iff hp ht, fun more hmore => permillOfCeil_mono hp ht hmore le_rfl,
    fun larger hlarger => permillOfCeil_mono hp ht le_rfl hlarger⟩, ?_, fun env l => ⟨?_, ?_⟩⟩
  · intro source e plan t hmake hvalid
    have hbounds := Rule.mem_bounds_resolve hvalid (Plan.nonneg_of_make hmake)
    exact ⟨hbounds, Threshold.isWithin_iff.mpr fun b hb => (hbounds b hb).2⟩
  · intro r
    exact not_refusedWith_thresholdExceedsBounds rfl rfl
  · intro id topic duration entry t hentry hrule
    exact not_refusedWith_thresholdExceedsBounds (Option.map_eq_some_iff.mpr ⟨entry, hentry, rfl⟩)
      hrule

namespace Sample

/-- The bounds of the sample, registered for its organization. -/
def registered : Registration :=
  ⟨.number 1, .of .equal "org", .percent threshold⟩

/-- A ledger with a registered threshold. -/
def prepared : Ledger :=
  { start with register := ⟨.number 1, [registered]⟩ }

end Sample

/-- One half of three is two.  The two of the sample can reach the bounds of its request, and of its
registered threshold. -/
theorem shares_within_reach_sample :
    IsLeast {amount : Int | 500000 * 3 ≤ 1000000 * amount} 2 ∧
    (Sample.threshold.resolve 2).isWithin 2 = true ∧
    ¬ RefusedWith .thresholdExceedsBounds Sample.host Sample.start
      (.openPercentVote Sample.request) ∧
    ¬ RefusedWith .thresholdExceedsBounds Sample.host Sample.prepared
      (.invokeThreshold (.number 1) (.text "topic") .absent) := by
  obtain ⟨hshare, hplan, hopen⟩ := shares_within_reach
  have hregistered : Sample.prepared.register.get? (.number 1) = some Sample.registered := by
    decide +kernel
  refine ⟨(hshare 500000 3 (by decide) (by decide) (by decide)).1, ?_, ?_, ?_⟩
  · exact (hplan _ _ _ Sample.threshold Sample.make_plan Sample.opens.valid).2
  · exact (hopen Sample.host Sample.start).1 Sample.request
  · exact (hopen Sample.host Sample.prepared).2 _ _ _ Sample.registered _ hregistered rfl

end Ledger

end Plebiscite
