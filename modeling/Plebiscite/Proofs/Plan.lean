import Mathlib.Data.List.Nodup
import Mathlib.Tactic.NormNum
import Plebiscite.Mint
import Plebiscite.Proofs.Arrangement
import Plebiscite.Proofs.Checks
import Plebiscite.Proofs.Signal
import Plebiscite.Proofs.Units

/-!
# What a plan hands out

A source of stakes lists members that are texts.  From whatever it reports, also from repeated
members, wrong totals and stakes out of range, a plan comes about only if it gives every member one
share, in the order of the members, and these shares add up to the total.

## Main definitions

- `StakeSource.Named`, `StakeSource.WellTyped`: a source that lists texts, and one of a size that
  there can be
- `StakeSource.reported`: the members that a source reports for an electorate
- `Plan.Enrolls`: a plan with one share for each of some members
- `Plan.Ascending`: a plan with its shares in the order of the members
- `Plan.Sound`: a plan that hands out its total

## Main results

- `Plan.enrolls_of_make`: a plan gives a share to each member that is reported
- `Plan.sound_of_make`: every plan that is made is sound
- `Plan.nonneg_of_make`: no plan hands out less than nothing
-/

namespace Plebiscite

/-- Members are texts, and a group is a set, which holds fewer than `2 ^ 53` of them.  Nothing is
said about the stakes and about the reported total. -/
structure StakeSource.WellTyped (source : StakeSource) : Prop where
  group_named : ∀ {org members}, source.group? org = some members →
    ∀ m ∈ members, Plan.isNamed m = true
  group_small : ∀ {org members}, source.group? org = some members →
    (members.eraseDupsBy Value.same).length < 2 ^ 53
  stakes_named : ∀ {org group}, source.stakes? org = some group →
    ∀ h ∈ group.holdings, Plan.isNamed h.member = true

/-- Members are texts.  Nothing is said about how many there are. -/
structure StakeSource.Named (source : StakeSource) : Prop where
  group_named : ∀ {org members}, source.group? org = some members →
    ∀ m ∈ members, Plan.isNamed m = true
  stakes_named : ∀ {org group}, source.stakes? org = some group →
    ∀ h ∈ group.holdings, Plan.isNamed h.member = true

theorem StakeSource.WellTyped.named {source : StakeSource} (h : source.WellTyped) :
    source.Named :=
  ⟨h.group_named, h.stakes_named⟩

/-- The members that a source reports for an electorate. -/
def StakeSource.reported (source : StakeSource) (e : Electorate) : Option (List Value) :=
  match e.mode? with
  | some .equal => source.group? e.org
  | some .weighted => (source.stakes? e.org).map fun group => group.holdings.map (·.member)
  | none => none

namespace Plan

/-- A plan that gives one share to each of some members, and all of them are texts. -/
structure Enrolls (p : Plan) (members : List Value) : Prop where
  named : ∀ a ∈ p.allocations, isNamed a.member = true
  distinct : (p.allocations.map (·.member.display)).Nodup
  mem_iff : ∀ m, m ∈ p.allocations.map (·.member) ↔ m ∈ members

/-- Shares are in the order of the members. -/
def Ascending (p : Plan) : Prop :=
  (p.allocations.map (·.member.display)).Pairwise fun a b => Units.notAfter a b = true

/-- A plan that gives each member one share, in order, and shares out its total. -/
structure Sound (p : Plan) : Prop where
  named : ∀ a ∈ p.allocations, isNamed a.member = true
  distinct : (p.allocations.map (·.member.display)).Nodup
  ascending : (p.allocations.map (·.member.display)).Pairwise
    fun a b => Units.notAfter a b = true
  nonneg : ∀ a ∈ p.allocations, 0 ≤ a.magnitude
  total_eq : Signal.total (p.allocations.map (·.magnitude)) = p.total
  total_le : p.total ≤ Signal.max

/-! ## Members that are texts -/

theorem exists_of_isNamed {m : Value} (h : isNamed m = true) : ∃ s, m = .text s := by
  cases m <;> simp_all [isNamed, Value.text?]

theorem display_inj {a b : Value} (ha : isNamed a = true) (hb : isNamed b = true) :
    a.display = b.display ↔ a = b := by
  obtain ⟨s, rfl⟩ := exists_of_isNamed ha
  obtain ⟨t, rfl⟩ := exists_of_isNamed hb
  simp [Value.display]

theorem not_before {a b : Value} (ha : isNamed a = true) (hb : isNamed b = true) :
    (!b.before a) = Units.notAfter a.display b.display := by
  obtain ⟨s, rfl⟩ := exists_of_isNamed ha
  obtain ⟨t, rfl⟩ := exists_of_isNamed hb
  simp [Value.before, Value.wording?, Value.display, Units.notAfter]

theorem isAbsent_of_isNamed {m : Value} (h : isNamed m = true) : m.isAbsent = false := by
  obtain ⟨s, rfl⟩ := exists_of_isNamed h
  rfl

theorem same_iff {a b : Value} (ha : isNamed a = true) : a.same b = true ↔ a = b := by
  obtain ⟨s, rfl⟩ := exists_of_isNamed ha
  simp [Value.same, Value.isStructured]

theorem isAmong_iff {m : Value} (h : isNamed m = true) (seen : List Value) :
    m.isAmong seen = true ↔ m ∈ seen := by
  simp [Value.isAmong, same_iff h]

/-- Distinct texts are known by distinct names. -/
theorem nodup_display {ms : List Value} (hnamed : ∀ m ∈ ms, isNamed m = true)
    (h : ms.Nodup) : (ms.map Value.display).Nodup :=
  h.map_on fun a ha b hb hab => (display_inj (hnamed a ha) (hnamed b hb)).mp hab

/-- Elements with members that are texts are arranged in the order of the names. -/
theorem arrange_ascending {α : Type} {member : α → Value} {l : List α}
    (h : ∀ a ∈ l, isNamed (member a) = true) :
    ((Arrangement.arrange (fun a => isNamed (member a))
      (fun a b => (member a).before (member b)) l).map fun a => (member a).display).Pairwise
        fun a b => Units.notAfter a b = true :=
  Arrangement.arrange_pairwise h (fun a ha b hb => not_before (h a ha) (h b hb))
    Units.notAfter_trans Units.notAfter_total

/-! ## Equal shares -/

/-- Of repeated members the first one is kept. -/
theorem eraseDupsBy_spec (r : Value → Value → Bool) (ms : List Value) :
    (ms.eraseDupsBy r).Sublist ms ∧ (ms.eraseDupsBy r).Pairwise fun a b => r b a = false := by
  -- What is left after a member is filtered, so it is shorter without being the tail.
  induction hn : ms.length using Nat.strong_induction_on generalizing ms with
  | _ n ih =>
    cases ms with
    | nil => exact ⟨List.nil_sublist _, .nil⟩
    | cons m ms =>
      rw [List.eraseDupsBy_cons]
      have hfilter : (ms.filter fun b => r b m = false).Sublist ms := List.filter_sublist
      have hshort : (ms.filter fun b => r b m = false).length < n := by
        have := hfilter.length_le
        simp only [List.length_cons] at hn
        omega
      obtain ⟨hsub, hpair⟩ := ih _ hshort _ rfl
      refine ⟨(hsub.trans hfilter).cons_cons m, List.pairwise_cons.mpr ⟨fun b hb => ?_, hpair⟩⟩
      simpa using (List.mem_filter.mp (hsub.subset hb)).2

theorem named_eraseDupsBy {ms : List Value} (h : ∀ m ∈ ms, isNamed m = true) :
    ∀ m ∈ ms.eraseDupsBy Value.same, isNamed m = true :=
  fun m hm => h m ((eraseDupsBy_spec _ _).1.subset hm)

theorem nodup_eraseDupsBy {ms : List Value} (h : ∀ m ∈ ms, isNamed m = true) :
    (ms.eraseDupsBy Value.same).Nodup := by
  refine (eraseDupsBy_spec Value.same ms).2.imp_of_mem ?_
  intro a b ha hb hab heq
  have hsame := (same_iff (named_eraseDupsBy h b hb)).mpr heq.symm
  rw [hab] at hsame
  cases hsame

theorem mem_eraseDupsBy {ms : List Value} (h : ∀ m ∈ ms, isNamed m = true) {m : Value} :
    m ∈ ms.eraseDupsBy Value.same ↔ m ∈ ms := by
  induction hn : ms.length using Nat.strong_induction_on generalizing ms with
  | _ n ih =>
    cases ms with
    | nil => exact Iff.rfl
    | cons a ms =>
      have hshort : (ms.filter fun b => b.same a = false).length < n := by
        have := (List.filter_sublist (p := fun b => b.same a = false) (l := ms)).length_le
        simp only [List.length_cons] at hn
        omega
      have hrest := ih _ hshort (fun b hb => h b (List.mem_cons_of_mem _ (List.mem_filter.mp hb).1))
        rfl
      rw [List.eraseDupsBy_cons, List.mem_cons, List.mem_cons, hrest, List.mem_filter]
      -- What is left out of the rest is the first member again.
      by_cases hm : m = a
      · simp [hm]
      · refine or_congr_right ⟨And.left, fun hmem => ⟨hmem, ?_⟩⟩
        have hsame := (same_iff (b := a) (h m (List.mem_cons_of_mem _ hmem))).not.mpr hm
        simpa using hsame

/-- No text is absent, so none is set apart. -/
theorem ordered_eq {ms : List Value} (h : ∀ m ∈ ms, isNamed m = true) :
    ordered ms = Arrangement.arrange isNamed Value.before ms := by
  have habsent : ms.filter (·.isAbsent) = [] :=
    List.filter_eq_nil_iff.mpr fun m hm => by simp [isAbsent_of_isNamed (h m hm)]
  have hpresent : ms.filter (not ∘ (·.isAbsent)) = ms :=
    List.filter_eq_self.mpr fun m hm => by simp [isAbsent_of_isNamed (h m hm)]
  simp [ordered, List.partition_eq_filter_filter, habsent, hpresent]

theorem total_ones (ms : List Value) : Signal.total (ms.map fun _ => 1) = ms.length := by
  induction ms with
  | nil => rfl
  | cons m ms ih =>
    simp only [List.map_cons, Signal.total_cons, ih, List.length_cons]
    omega

theorem enrolls_of_makeEqual {source : StakeSource} {e : Electorate} {p : Plan}
    (hs : source.Named) (h : makeEqual source e = .ok p) :
    ∃ members, source.group? e.org = some members ∧ p.Enrolls members := by
  unfold makeEqual at h
  split at h
  · cases h
  · rename_i members hgroup
    have hall := hs.group_named hgroup
    have hnamed := named_eraseDupsBy hall
    rw [ordered_eq hnamed] at h
    have hperm := @Arrangement.arrange_perm _ Value.before isNamed
      (members.eraseDupsBy Value.same)
    cases h
    refine ⟨members, hgroup, ?_, ?_, ?_⟩
    · simp only [List.mem_map, forall_exists_index, and_imp, forall_apply_eq_imp_iff₂]
      exact fun m hm => hnamed m (hperm.subset hm)
    · have hnodup := nodup_display hnamed (nodup_eraseDupsBy hall)
      simpa [Function.comp_def] using ((hperm.map Value.display).nodup_iff).mpr hnodup
    · intro m
      rw [List.map_map, ← mem_eraseDupsBy hall, ← hperm.mem_iff]
      simp [Function.comp_def]

theorem ascending_of_makeEqual {source : StakeSource} {e : Electorate} {p : Plan}
    (hs : source.Named) (h : makeEqual source e = .ok p) : p.Ascending := by
  unfold makeEqual at h
  split at h
  · cases h
  · rename_i members hgroup
    have hnamed := named_eraseDupsBy (hs.group_named hgroup)
    rw [ordered_eq hnamed] at h
    cases h
    simpa [Ascending, Function.comp_def] using @arrange_ascending _ id _ hnamed

theorem sound_of_makeEqual {source : StakeSource} {e : Electorate} {p : Plan}
    (hs : source.WellTyped) (h : makeEqual source e = .ok p) : p.Sound := by
  obtain ⟨_, -, henrolls⟩ := enrolls_of_makeEqual hs.named h
  have hascending := ascending_of_makeEqual hs.named h
  unfold makeEqual at h
  split at h
  · cases h
  · rename_i members hgroup
    have hnamed := named_eraseDupsBy (hs.group_named hgroup)
    rw [ordered_eq hnamed] at h
    have hperm := @Arrangement.arrange_perm _ Value.before isNamed
      (members.eraseDupsBy Value.same)
    cases h
    refine ⟨henrolls.named, henrolls.distinct, hascending, ?_, ?_, ?_⟩
    · simp
    · simpa [Function.comp_def] using total_ones _
    · -- Everyone holds one unit, so it is the number of members that must fit.
      have hsmall := hs.group_small hgroup
      rw [← hperm.length_eq] at hsmall
      simp only [List.length_map, Signal.max]
      omega

/-! ## Shares by stake -/

/-- What the check of the holdings has seen to when it passes. -/
theorem collect_eq_ok {org : Value} {holdings : List Holding} {seen : List Value} {sum total : Int}
    {allocations : List Allocation} (hnamed : ∀ h ∈ holdings, isNamed h.member = true)
    (hsum : sum ≤ Signal.max) (h : collect org seen sum holdings = .ok (allocations, total)) :
    allocations.map (·.member) = holdings.map (·.member) ∧
      (allocations.map (·.member)).Nodup ∧ (∀ a ∈ allocations, a.member ∉ seen) ∧
      (∀ a ∈ allocations, 0 ≤ a.magnitude) ∧
      total = sum + Signal.total (allocations.map (·.magnitude)) ∧ total ≤ Signal.max := by
  induction holdings generalizing seen sum allocations total with
  | nil =>
    simp only [collect, Except.ok.injEq, Prod.mk.injEq] at h
    obtain ⟨rfl, rfl⟩ := h
    simp [hsum]
  | cons holding rest ih =>
    have hmember := hnamed holding (by simp)
    simp only [collect, Checks.ite_throw_bind_eq_ok] at h
    obtain ⟨hnew, h⟩ := h
    rw [isAmong_iff hmember] at hnew
    split at h
    · simp at h
    · rename_i stake hstake
      simp only [Checks.bind_eq_ok, Checks.pure_eq_ok, Prod.mk.injEq, Prod.exists] at h
      obtain ⟨next, hnext, allocations, total, hrest, rfl, rfl⟩ := h
      obtain ⟨hbound, rfl⟩ := Signal.add_eq_ok.mp hnext
      have hnonneg : 0 ≤ stake := (Signal.inRange_iff.mp (Signal.ofValue?_eq_some hstake)).1
      -- The rest is checked with this member seen and its stake in the sum.
      obtain ⟨hmap, hnodup, hseen, hall, htotal, hle⟩ :=
        ih (fun h hh => hnamed h (List.mem_cons_of_mem _ hh)) hbound hrest
      refine ⟨?_, ?_, ?_, ?_, ?_, hle⟩
      · simp [hmap]
      · simp only [List.map_cons, List.nodup_cons, List.mem_map, not_exists, not_and]
        refine ⟨fun a ha heq => hseen a ha ?_, hnodup⟩
        simp [heq]
      · intro a ha
        rcases List.mem_cons.mp ha with rfl | ha
        · exact hnew
        · exact fun hmem => hseen a ha (List.mem_cons_of_mem _ hmem)
      · intro a ha
        rcases List.mem_cons.mp ha with rfl | ha
        · exact hnonneg
        · exact hall a ha
      · simp only [List.map_cons, Signal.total_cons, htotal]
        omega

/-- Whoever the members are, stakes are not negative, so their sum does not fall. -/
theorem sum_le_of_collect {org : Value} {holdings : List Holding} {seen : List Value}
    {sum total : Int} {allocations : List Allocation}
    (h : collect org seen sum holdings = .ok (allocations, total)) : sum ≤ total := by
  induction holdings generalizing seen sum allocations total with
  | nil =>
    cases h
    exact le_refl sum
  | cons holding rest ih =>
    simp only [collect, Checks.ite_throw_bind_eq_ok] at h
    obtain ⟨-, h⟩ := h
    split at h
    · simp at h
    · rename_i stake hstake
      simp only [Checks.bind_eq_ok, Checks.pure_eq_ok, Prod.mk.injEq, Prod.exists] at h
      obtain ⟨next, hnext, allocations, total, hrest, -, rfl⟩ := h
      obtain ⟨-, rfl⟩ := Signal.add_eq_ok.mp hnext
      have hnonneg : 0 ≤ stake := (Signal.inRange_iff.mp (Signal.ofValue?_eq_some hstake)).1
      have hle := ih hrest
      omega

theorem enrolls_of_makeWeighted {source : StakeSource} {e : Electorate} {p : Plan}
    (hs : source.Named) (h : makeWeighted source e = .ok p) :
    ∃ group, source.stakes? e.org = some group ∧ p.Enrolls (group.holdings.map (·.member)) := by
  unfold makeWeighted at h
  split at h
  · cases h
  · rename_i group hgroup
    have hstakes := hs.stakes_named hgroup
    simp only [Checks.bind_eq_ok, Checks.ite_throw_bind_eq_ok, Checks.pure_eq_ok,
      Prod.exists] at h
    obtain ⟨allocations, sum, hcollect, -, rfl⟩ := h
    obtain ⟨hmap, hnodup, -⟩ := collect_eq_ok hstakes (by decide) hcollect
    have hnamed : ∀ a ∈ allocations, isNamed a.member = true := by
      intro a ha
      have hmem : a.member ∈ group.holdings.map (·.member) := hmap ▸ List.mem_map_of_mem ha
      obtain ⟨holding, hholding, heq⟩ := List.mem_map.mp hmem
      exact heq ▸ hstakes holding hholding
    have hperm := @Arrangement.arrange_perm _
      (fun a b : Allocation => a.member.before b.member) (isNamed ·.member) allocations
    refine ⟨group, hgroup, fun a ha => hnamed a (hperm.subset ha), ?_, ?_⟩
    · have hdisplay := nodup_display (List.forall_mem_map.mpr hnamed) hnodup
      rw [List.map_map] at hdisplay
      exact ((hperm.map _).nodup_iff).mpr hdisplay
    · intro m
      rw [← hmap]
      exact (hperm.map _).mem_iff

theorem ascending_of_makeWeighted {source : StakeSource} {e : Electorate} {p : Plan}
    (hs : source.Named) (h : makeWeighted source e = .ok p) : p.Ascending := by
  obtain ⟨_, -, henrolls⟩ := enrolls_of_makeWeighted hs h
  unfold makeWeighted at h
  split at h
  · cases h
  · simp only [Checks.bind_eq_ok, Checks.ite_throw_bind_eq_ok, Checks.pure_eq_ok,
      Prod.exists] at h
    obtain ⟨allocations, sum, -, -, rfl⟩ := h
    have hperm := @Arrangement.arrange_perm _
      (fun a b : Allocation => a.member.before b.member) (isNamed ·.member) allocations
    exact arrange_ascending fun a ha => henrolls.named a (hperm.symm.subset ha)

theorem sound_of_makeWeighted {source : StakeSource} {e : Electorate} {p : Plan}
    (hs : source.WellTyped) (h : makeWeighted source e = .ok p) : p.Sound := by
  obtain ⟨_, -, henrolls⟩ := enrolls_of_makeWeighted hs.named h
  have hascending := ascending_of_makeWeighted hs.named h
  unfold makeWeighted at h
  split at h
  · cases h
  · rename_i group hgroup
    simp only [Checks.bind_eq_ok, Checks.ite_throw_bind_eq_ok, Checks.pure_eq_ok,
      Prod.exists] at h
    obtain ⟨allocations, sum, hcollect, -, rfl⟩ := h
    obtain ⟨-, -, -, hnonneg, htotal, hle⟩ :=
      collect_eq_ok (hs.stakes_named hgroup) (by decide) hcollect
    have hperm := @Arrangement.arrange_perm _
      (fun a b : Allocation => a.member.before b.member) (isNamed ·.member) allocations
    refine ⟨henrolls.named, henrolls.distinct, hascending,
      fun a ha => hnonneg a (hperm.subset ha), ?_, hle⟩
    exact (Signal.total_perm (hperm.map _)).trans (by rw [htotal, zero_add])

/-- A plan gives one share to each member that is reported. -/
theorem enrolls_of_make {source : StakeSource} {e : Electorate} {p : Plan} (hs : source.Named)
    (h : make source e = .ok p) : ∃ members, source.reported e = some members ∧
      p.Enrolls members := by
  unfold make make? at h
  unfold StakeSource.reported
  cases hmode : e.mode? with
  | none => simp [hmode] at h
  | some mode =>
    cases mode with
    | equal => exact enrolls_of_makeEqual hs (by simpa [hmode] using h)
    | weighted =>
      obtain ⟨group, hgroup, henrolls⟩ := enrolls_of_makeWeighted hs (by simpa [hmode] using h)
      exact ⟨_, by simp [hgroup], henrolls⟩

/-- However many members there are, their shares are in order. -/
theorem ascending_of_make {source : StakeSource} {e : Electorate} {p : Plan} (hs : source.Named)
    (h : make source e = .ok p) : p.Ascending := by
  unfold make make? at h
  cases hmode : e.mode? with
  | none => simp [hmode] at h
  | some mode =>
    cases mode with
    | equal => exact ascending_of_makeEqual hs (by simpa [hmode] using h)
    | weighted => exact ascending_of_makeWeighted hs (by simpa [hmode] using h)

/-- What a plan hands out is not negative, whatever the source reports. -/
theorem nonneg_of_make {source : StakeSource} {e : Electorate} {p : Plan}
    (h : make source e = .ok p) : 0 ≤ p.total := by
  unfold make make? at h
  cases hmode : e.mode? with
  | none => simp [hmode] at h
  | some mode =>
    simp only [hmode, Option.map_some, Option.getD_some] at h
    cases mode with
    | equal =>
      simp only [makeEqual] at h
      split at h
      · cases h
      · cases h
        exact Int.natCast_nonneg _
    | weighted =>
      simp only [makeWeighted] at h
      split at h
      · cases h
      · simp only [Checks.bind_eq_ok, Checks.ite_throw_bind_eq_ok, Checks.pure_eq_ok,
          Prod.exists] at h
        obtain ⟨allocations, sum, hcollect, -, rfl⟩ := h
        exact sum_le_of_collect hcollect

/-- Every plan that is made is sound. -/
theorem sound_of_make {source : StakeSource} {e : Electorate} {p : Plan}
    (hs : source.WellTyped) (h : make source e = .ok p) : p.Sound := by
  unfold make make? at h
  cases hmode : e.mode? with
  | none => simp [hmode] at h
  | some mode =>
    cases mode with
    | equal => exact sound_of_makeEqual hs (by simpa [hmode] using h)
    | weighted => exact sound_of_makeWeighted hs (by simpa [hmode] using h)

end Plan

end Plebiscite
