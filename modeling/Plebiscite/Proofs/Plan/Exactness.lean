import Plebiscite.Proofs.Plan

/-!
# Which plans are made

Equal shares are made whenever the group is known.  Shares by stake are made exactly when nobody is
listed twice, every stake is an amount of signal, and the stakes add up to the total that is
reported and to no more than all signal there can be.  In both cases the plan is determined by who
is listed with what stake, and not by the order in which they are listed.

## Main definitions

- `Plan.share`: the share that a holding amounts to
- `Plan.Divides`: holdings that can be shared out
- `StakeSource.Relists`: a source that lists what another one lists

## Main results

- `Plan.arrange_eq_of_perm`: there is one order of members that are told apart
- `Plan.collect_eq_ok_iff`: what the check of the holdings finds out
- `Plan.makeEqual_eq_ok`, `Plan.makeWeighted_eq_ok`: which plans are made
- `Plan.make_of_relists`: the order in which members are listed changes no plan
-/

namespace Plebiscite

namespace Plan

/-! ## One order -/

variable {α : Type} {member : α → Value}

/-- Elements with members that are texts, told apart by them, have one order. -/
theorem arrange_eq_of_perm {l l' : List α} (hnamed : ∀ a ∈ l, isNamed (member a) = true)
    (hdistinct : (l.map member).Nodup) (h : l.Perm l') :
    Arrangement.arrange (fun a => isNamed (member a))
        (fun a b => (member a).before (member b)) l =
      Arrangement.arrange (fun a => isNamed (member a))
        (fun a b => (member a).before (member b)) l' := by
  have hperm := @Arrangement.arrange_perm _ (fun a b : α => (member a).before (member b))
    fun a => isNamed (member a)
  have hpairwise := fun k (hk : ∀ a ∈ k, isNamed (member a) = true) =>
    List.pairwise_map.mp (arrange_ascending hk)
  refine ((hperm l).trans (h.trans (hperm l').symm)).eq_of_pairwise (fun a b ha hb hab hba => ?_)
    (hpairwise l hnamed) (hpairwise l' fun a ha => hnamed a (h.mem_iff.mpr ha))
  -- Neither name is after the other, so they are the same, and so are the members.
  have ha := (hperm l).mem_iff.mp ha
  have hb := h.mem_iff.mpr ((hperm l').mem_iff.mp hb)
  have hname : (member a).display = (member b).display :=
    Units.ofText_injective (le_antisymm (Units.notAfter_iff.mp hab) (Units.notAfter_iff.mp hba))
  exact List.inj_on_of_nodup_map hdistinct ha hb
    ((display_inj (hnamed a ha) (hnamed b hb)).mp hname)

/-- Members that are texts are listed once each and in one order, however often and in whatever
order they were listed. -/
theorem ordered_eq_of_mem_iff {ms ms' : List Value} (hnamed : ∀ m ∈ ms, isNamed m = true)
    (h : ∀ m, m ∈ ms ↔ m ∈ ms') :
    ordered (ms.eraseDupsBy Value.same) = ordered (ms'.eraseDupsBy Value.same) := by
  have hnamed' : ∀ m ∈ ms', isNamed m = true := fun m hm => hnamed m ((h m).mpr hm)
  have hperm : (ms.eraseDupsBy Value.same).Perm (ms'.eraseDupsBy Value.same) := by
    refine (List.perm_ext_iff_of_nodup (nodup_eraseDupsBy hnamed)
      (nodup_eraseDupsBy hnamed')).mpr fun m => ?_
    rw [mem_eraseDupsBy hnamed, mem_eraseDupsBy hnamed', h]
  rw [ordered_eq (named_eraseDupsBy hnamed), ordered_eq (named_eraseDupsBy hnamed')]
  refine @arrange_eq_of_perm _ id _ _ (named_eraseDupsBy hnamed) ?_ hperm
  rw [List.map_id]
  exact nodup_eraseDupsBy hnamed

/-! ## Equal shares -/

variable {source : StakeSource} {e : Electorate} {p : Plan}

/-- Equal shares are made for every group that is known. -/
theorem makeEqual_eq_ok :
    makeEqual source e = .ok p ↔ ∃ members, source.group? e.org = some members ∧
      p = ⟨e, (ordered (members.eraseDupsBy Value.same)).length,
        (ordered (members.eraseDupsBy Value.same)).map fun m => ⟨m, 1⟩⟩ := by
  unfold makeEqual
  cases source.group? e.org with
  | none => simp
  | some members => simp [eq_comm]

/-! ## Shares by stake -/

/-- The share that a holding amounts to. -/
def share (h : Holding) : Allocation :=
  ⟨h.member, h.stake.whole⟩

/-- Holdings that can be shared out, when some members were seen already and some signal is spent:
nobody twice, amounts of signal only, and not too much together. -/
structure Divides (seen : List Value) (spent : Int) (holdings : List Holding) : Prop where
  distinct : (holdings.map (·.member)).Nodup
  unseen : ∀ h ∈ holdings, h.member ∉ seen
  amounts : ∀ h ∈ holdings, Signal.ofValue? h.stake = some h.stake.whole
  total_le : spent + Signal.total (holdings.map (·.stake.whole)) ≤ Signal.max

variable {org : Value} {seen : List Value} {spent total : Int} {holdings : List Holding}
  {allocations : List Allocation}

theorem ofValue?_whole {v : Value} {n : Int} (h : Signal.ofValue? v = some n) : n = v.whole := by
  rw [Signal.eq_of_ofValue? h]
  rfl

theorem Divides.nil (hspent : spent ≤ Signal.max) : Divides seen spent [] :=
  ⟨.nil, by simp, by simp, by simpa using hspent⟩

/-- The first holding is checked by itself, and the others with it seen and spent. -/
theorem divides_cons {holding : Holding} :
    Divides seen spent (holding :: holdings) ↔
      holding.member ∉ seen ∧ Signal.ofValue? holding.stake = some holding.stake.whole ∧
        Divides (holding.member :: seen) (spent + holding.stake.whole) holdings := by
  constructor
  · rintro ⟨hdistinct, hunseen, hamounts, htotal⟩
    obtain ⟨hfresh, hdistinct⟩ := List.nodup_cons.mp hdistinct
    refine ⟨hunseen _ (by simp), hamounts _ (by simp), hdistinct, fun h hh hmem => ?_,
      fun h hh => hamounts h (List.mem_cons_of_mem _ hh), ?_⟩
    · rcases List.mem_cons.mp hmem with heq | hmem
      · exact hfresh (List.mem_map.mpr ⟨h, hh, heq⟩)
      · exact hunseen h (List.mem_cons_of_mem _ hh) hmem
    · rwa [List.map_cons, Signal.total_cons, ← Int.add_assoc] at htotal
  · rintro ⟨hnew, hamount, hdistinct, hunseen, hamounts, htotal⟩
    refine ⟨List.nodup_cons.mpr ⟨fun hmem => ?_, hdistinct⟩, ?_, ?_, ?_⟩
    · obtain ⟨h, hh, heq⟩ := List.mem_map.mp hmem
      exact hunseen h hh (heq ▸ List.mem_cons_self)
    · exact List.forall_mem_cons.mpr ⟨hnew, fun h hh hmem =>
        hunseen h hh (List.mem_cons_of_mem _ hmem)⟩
    · exact List.forall_mem_cons.mpr ⟨hamount, hamounts⟩
    · rwa [List.map_cons, Signal.total_cons, ← Int.add_assoc]

/-- No stake is negative, so if all of them together are not too much then no part of them is. -/
theorem Divides.spent_le (h : Divides seen spent holdings) : spent ≤ Signal.max := by
  have hnonneg : 0 ≤ Signal.total (holdings.map (·.stake.whole)) := by
    refine Signal.total_nonneg fun n hn => ?_
    obtain ⟨holding, hholding, rfl⟩ := List.mem_map.mp hn
    exact (Signal.inRange_iff.mp (Signal.ofValue?_eq_some (h.amounts holding hholding))).1
  have hle := h.total_le
  omega

/-- The check of the holdings, one after the other, finds out whether they can be shared out as a
whole. -/
theorem collect_eq_ok_iff (hnamed : ∀ h ∈ holdings, isNamed h.member = true)
    (hspent : spent ≤ Signal.max) :
    collect org seen spent holdings = .ok (allocations, total) ↔
      Divides seen spent holdings ∧ allocations = holdings.map share ∧
        total = spent + Signal.total (holdings.map (·.stake.whole)) := by
  induction holdings generalizing seen spent allocations total with
  | nil => simp [collect, Divides.nil hspent, eq_comm]
  | cons holding rest ih =>
    have hmember := hnamed holding (by simp)
    have hrest := fun h hh => hnamed h (List.mem_cons_of_mem _ hh)
    rw [divides_cons, collect, Checks.ite_throw_bind_eq_ok, isAmong_iff hmember]
    cases hstake : Signal.ofValue? holding.stake with
    | none => simp
    | some stake =>
      obtain rfl := ofValue?_whole hstake
      simp only [Checks.bind_eq_ok, Checks.pure_eq_ok, Signal.add_eq_ok, Prod.exists,
        Prod.mk.injEq, List.map_cons, Signal.total_cons, ← Int.add_assoc]
      constructor
      · rintro ⟨hnew, next, ⟨hle, rfl⟩, shares, sum, hcollect, rfl, rfl⟩
        obtain ⟨hdivides, rfl, rfl⟩ := (ih hrest hle).mp hcollect
        exact ⟨⟨hnew, trivial, hdivides⟩, rfl, rfl⟩
      · rintro ⟨⟨hnew, -, hdivides⟩, rfl, rfl⟩
        exact ⟨hnew, _, ⟨hdivides.spent_le, rfl⟩, _, _,
          (ih hrest hdivides.spent_le).mpr ⟨hdivides, rfl, rfl⟩, rfl, rfl⟩

/-- Shares by stake are made exactly for holdings that can be shared out and that add up to what is
reported. -/
theorem makeWeighted_eq_ok (hs : source.Named) :
    makeWeighted source e = .ok p ↔ ∃ group, source.stakes? e.org = some group ∧
      Divides [] 0 group.holdings ∧
      group.total = .integer (Signal.total (group.holdings.map (·.stake.whole))) ∧
      p = ⟨e, Signal.total (group.holdings.map (·.stake.whole)),
        sorted (group.holdings.map share)⟩ := by
  unfold makeWeighted
  cases hgroup : source.stakes? e.org with
  | none => simp
  | some group =>
    have hcollect : ∀ shares sum, collect e.org [] 0 group.holdings = .ok (shares, sum) ↔ _ :=
      fun _ _ => collect_eq_ok_iff (hs.stakes_named hgroup) (by decide)
    have hreports : ∀ sum v, reports sum v = true ↔ v = .integer sum := by
      intro sum v
      cases v <;> simp [reports]
    simp only [Checks.bind_eq_ok, Checks.ite_throw_bind_eq_ok, Checks.pure_eq_ok, Prod.exists,
      hcollect, Bool.not_eq_true', Bool.not_eq_false, hreports, Int.zero_add]
    constructor
    · rintro ⟨_, _, ⟨hdivides, rfl, rfl⟩, htotal, rfl⟩
      exact ⟨group, rfl, hdivides, htotal, rfl⟩
    · rintro ⟨_, hsome, hdivides, htotal, rfl⟩
      obtain rfl := Option.some.inj hsome
      exact ⟨_, _, ⟨hdivides, rfl, rfl⟩, htotal, rfl⟩

/-- Listing the same holdings in another order makes no difference to whether they can be shared
out. -/
theorem Divides.perm {other : List Holding} (h : Divides seen spent holdings)
    (hperm : holdings.Perm other) : Divides seen spent other := by
  refine ⟨((hperm.map _).nodup_iff).mp h.distinct, fun a ha => h.unseen a (hperm.mem_iff.mpr ha),
    fun a ha => h.amounts a (hperm.mem_iff.mpr ha), ?_⟩
  rw [← Signal.total_perm (hperm.map fun a => a.stake.whole)]
  exact h.total_le

theorem sorted_eq_of_perm {other : List Holding}
    (hnamed : ∀ h ∈ holdings, isNamed h.member = true)
    (hdistinct : (holdings.map (·.member)).Nodup) (hperm : holdings.Perm other) :
    sorted (holdings.map share) = sorted (other.map share) := by
  refine arrange_eq_of_perm (List.forall_mem_map.mpr hnamed) ?_ (hperm.map share)
  rw [List.map_map]
  exact hdistinct

end Plan

/-! ## Other orders -/

/-- The same members of every organization, and the same stakes with the same total, all of them
listed in any order. -/
structure StakeSource.Relists (source other : StakeSource) : Prop where
  group : ∀ org, Option.Rel (fun ms ms' => ∀ m, m ∈ ms ↔ m ∈ ms')
    (source.group? org) (other.group? org)
  stakes : ∀ org, Option.Rel (fun g g' => g.holdings.Perm g'.holdings ∧ g.total = g'.total)
    (source.stakes? org) (other.stakes? org)

namespace StakeSource.Relists

variable {source other : StakeSource}

theorem rel_symm {α β : Type} {r : α → β → Prop} {r' : β → α → Prop}
    (hr : ∀ a b, r a b → r' b a) {x : Option α} {y : Option β} (h : Option.Rel r x y) :
    Option.Rel r' y x := by
  cases h with
  | some h => exact .some (hr _ _ h)
  | none => exact .none

theorem exists_of_rel {α β : Type} {r : α → β → Prop} {x : Option α} {y : Option β} {a : α}
    (h : Option.Rel r x y) (hx : x = some a) : ∃ b, y = some b ∧ r a b := by
  subst hx
  cases h with
  | some h => exact ⟨_, rfl, h⟩

theorem symm (h : source.Relists other) : other.Relists source :=
  ⟨fun org => rel_symm (fun _ _ hmem m => (hmem m).symm) (h.group org),
    fun org => rel_symm (fun _ _ hstakes => ⟨hstakes.1.symm, hstakes.2.symm⟩) (h.stakes org)⟩

/-- What lists the same members as a source that lists texts does so as well. -/
theorem named (h : source.Relists other) (hs : source.Named) : other.Named := by
  refine ⟨fun hgroup m hm => ?_, fun hgroup holding hholding => ?_⟩
  · obtain ⟨_, hsource, hmem⟩ := exists_of_rel (h.symm.group _) hgroup
    exact hs.group_named hsource m ((hmem m).mp hm)
  · obtain ⟨_, hsource, hperm, -⟩ := exists_of_rel (h.symm.stakes _) hgroup
    exact hs.stakes_named hsource holding (hperm.mem_iff.mp hholding)

end StakeSource.Relists

/-- A plan that is made from one listing is made from every other one. -/
theorem Plan.make_of_relists {source other : StakeSource} {e : Electorate} {p : Plan}
    (hs : source.Named) (h : source.Relists other) (hmake : make source e = .ok p) :
    make other e = .ok p := by
  unfold make make? at hmake ⊢
  cases hmode : e.mode? with
  | none => simp [hmode] at hmake
  | some mode =>
    simp only [hmode, Option.map_some, Option.getD_some] at hmake ⊢
    cases mode with
    | equal =>
      obtain ⟨members, hgroup, rfl⟩ := makeEqual_eq_ok.mp hmake
      obtain ⟨members', hother, hmem⟩ :=
        StakeSource.Relists.exists_of_rel (h.group e.org) hgroup
      rw [ordered_eq_of_mem_iff (hs.group_named hgroup) hmem]
      exact makeEqual_eq_ok.mpr ⟨members', hother, rfl⟩
    | weighted =>
      obtain ⟨group, hgroup, hdivides, htotal, rfl⟩ := (makeWeighted_eq_ok hs).mp hmake
      obtain ⟨group', hother, hperm, hsame⟩ :=
        StakeSource.Relists.exists_of_rel (h.stakes e.org) hgroup
      rw [sorted_eq_of_perm (hs.stakes_named hgroup) hdivides.distinct hperm]
      rw [Signal.total_perm (hperm.map fun a => a.stake.whole)] at htotal ⊢
      exact (makeWeighted_eq_ok (h.named hs)).mpr
        ⟨group', hother, hdivides.perm hperm, hsame ▸ htotal, rfl⟩

end Plebiscite
