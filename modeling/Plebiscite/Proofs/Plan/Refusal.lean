import Mathlib.Data.Finset.Card
import Plebiscite.Proofs.Plan.Exactness

/-!
# Exactly which plans are made

A plan is told by what it shares out: everyone who is listed once, in strictly ascending order of
the names, one unit each or as much as is staked, and the sum of it all.  There is at most one such
plan.  Shares by stake are refused for the first thing that is wrong with the holdings, read from
the front; if nothing is, for a reported total that is not their sum.

## Main definitions

- `Plan.sumOf`: the sum of the stakes of holdings
- `Plan.InOrder`: holdings with which nothing is wrong
- `Plan.Wrong`, `Plan.FirstWrong`: what is wrong with a holding that comes after others, and with
  the first such holding
- `WeightedGroup.Divisible`, `WeightedGroup.Faulty`: stakes that can be shared out, and what stakes
  are refused for
- `Plan.SharesEqually`, `Plan.SharesByStake`: what a plan shares out

## Main results

- `Plan.collect_append_of_wrong`: the check of the holdings stops at the first that is wrong
- `Plan.SharesEqually.unique`, `Plan.SharesByStake.unique`: there is one plan at most
- `Plan.makeEqual_eq_ok_iff`, `Plan.makeWeighted_eq_ok_iff`: which plans are made
- `Plan.makeWeighted_eq_error`: what shares by stake are refused for
- `Plan.make_exact`: the plans that are made, and what the others are refused for
-/

namespace Plebiscite

namespace Plan

/-! ## Holdings in order -/

/-- The sum of the stakes of holdings. -/
def sumOf (holdings : List Holding) : Int :=
  Signal.total (holdings.map (·.stake.whole))

/-- Nobody is listed twice, every stake is an amount of signal, and so is their sum. -/
structure InOrder (holdings : List Holding) : Prop where
  distinct : (holdings.map (·.member)).Nodup
  amounts : ∀ h ∈ holdings, ∃ n, h.stake = .integer n ∧ 0 ≤ n ∧ n ≤ Signal.max
  sum_le : sumOf holdings ≤ Signal.max

/-- What is wrong with a holding that comes after others, in the order in which it is looked for:
the member is among them, the stake is no amount of signal, or all stakes up to this one are too
much together. -/
inductive Wrong (org : Value) (earlier : List Holding) (h : Holding) : Fault → Prop
  | repeated (hseen : h.member ∈ earlier.map (·.member)) :
      Wrong org earlier h (.membership org (.repeated h.member.display))
  | stake (hnew : h.member ∉ earlier.map (·.member))
      (hstake : ¬ ∃ n, h.stake = .integer n ∧ 0 ≤ n ∧ n ≤ Signal.max) :
      Wrong org earlier h (.membership org (.stake h.member.display h.stake.display))
  | excess {n : Int} (hnew : h.member ∉ earlier.map (·.member)) (hstake : h.stake = .integer n)
      (hlow : 0 ≤ n) (hhigh : n ≤ Signal.max) (hover : Signal.max < sumOf earlier + n) :
      Wrong org earlier h (.signalOverflow (.integer (sumOf earlier)) (.integer n))

variable {org : Value} {seen : List Value} {earlier rest holdings : List Holding} {h : Holding}
  {f : Fault}

theorem sumOf_append (earlier rest : List Holding) :
    sumOf (earlier ++ rest) = sumOf earlier + sumOf rest := by
  simp [sumOf]

theorem sumOf_singleton {n : Int} (hstake : h.stake = .integer n) : sumOf [h] = n := by
  simp [sumOf, hstake, Value.whole]

theorem ofValue?_eq_some_iff {v : Value} {n : Int} :
    Signal.ofValue? v = some n ↔ v = .integer n ∧ 0 ≤ n ∧ n ≤ Signal.max := by
  constructor
  · intro hv
    exact ⟨Signal.eq_of_ofValue? hv, Signal.inRange_iff.mp (Signal.ofValue?_eq_some hv)⟩
  · rintro ⟨rfl, hrange⟩
    simp [Signal.ofValue?, Signal.inRange_iff.mpr hrange]

theorem ofValue?_eq_none_iff {v : Value} :
    Signal.ofValue? v = none ↔ ¬ ∃ n, v = .integer n ∧ 0 ≤ n ∧ n ≤ Signal.max := by
  simp only [← ofValue?_eq_some_iff, Option.eq_none_iff_forall_ne_some, not_exists, ne_eq]

theorem inOrder_iff : InOrder holdings ↔ Divides [] 0 holdings := by
  have hamount : ∀ h : Holding, Signal.ofValue? h.stake = some h.stake.whole ↔
      ∃ n, h.stake = .integer n ∧ 0 ≤ n ∧ n ≤ Signal.max := by
    intro h
    constructor
    · exact fun hstake => ⟨_, ofValue?_eq_some_iff.mp hstake⟩
    · rintro ⟨n, hstake, hrange⟩
      rw [hstake]
      exact ofValue?_eq_some_iff.mpr ⟨rfl, hrange⟩
  constructor
  · rintro ⟨hdistinct, hamounts, hsum⟩
    refine ⟨hdistinct, by simp, fun h hh => (hamount h).mpr (hamounts h hh), ?_⟩
    rw [Int.zero_add]
    exact hsum
  · rintro ⟨hdistinct, -, hamounts, hsum⟩
    refine ⟨hdistinct, fun h hh => (hamount h).mp (hamounts h hh), ?_⟩
    rw [Int.zero_add] at hsum
    exact hsum

theorem InOrder.nil : InOrder [] :=
  ⟨.nil, by simp, by decide⟩

/-- No stake is negative, so holdings are in order only if those listed first are. -/
theorem InOrder.of_append (hall : InOrder (earlier ++ rest)) : InOrder earlier := by
  have hsum := hall.sum_le
  have hnonneg : 0 ≤ sumOf rest := by
    apply Signal.total_nonneg
    intro n hn
    obtain ⟨h, hh, rfl⟩ := List.mem_map.mp hn
    obtain ⟨k, hstake, hlow, -⟩ := hall.amounts h (List.mem_append_right _ hh)
    rw [hstake]
    exact hlow
  rw [sumOf_append] at hsum
  refine ⟨?_, fun h hh => hall.amounts h (List.mem_append_left _ hh), by omega⟩
  have hdistinct := hall.distinct
  rw [List.map_append] at hdistinct
  exact hdistinct.of_append_left

/-- One more holding stays in order if it is of a new member, for an amount that still fits. -/
theorem inOrder_snoc : InOrder (earlier ++ [h]) ↔ InOrder earlier ∧
    h.member ∉ earlier.map (·.member) ∧
      ∃ n, h.stake = .integer n ∧ 0 ≤ n ∧ n ≤ Signal.max ∧ sumOf earlier + n ≤ Signal.max := by
  constructor
  · intro hall
    obtain ⟨n, hstake, hlow, hhigh⟩ := hall.amounts h (by simp)
    have hsum := hall.sum_le
    rw [sumOf_append, sumOf_singleton hstake] at hsum
    have hdistinct := hall.distinct
    rw [List.map_append, List.map_singleton, ← List.concat_eq_append, List.nodup_concat]
      at hdistinct
    exact ⟨hall.of_append, hdistinct.1, n, hstake, hlow, hhigh, hsum⟩
  · rintro ⟨hearlier, hnew, n, hstake, hlow, hhigh, hsum⟩
    refine ⟨?_, ?_, ?_⟩
    · rw [List.map_append, List.map_singleton, ← List.concat_eq_append, List.nodup_concat]
      exact ⟨hnew, hearlier.distinct⟩
    · intro g hg
      rcases List.mem_append.mp hg with hg | hg
      · exact hearlier.amounts g hg
      · rw [List.mem_singleton.mp hg]
        exact ⟨n, hstake, hlow, hhigh⟩
    · rwa [sumOf_append, sumOf_singleton hstake]

/-! ## The first wrong one -/

/-- A holding that comes after others in order is in order too, or something is wrong with it. -/
theorem inOrder_or_wrong (hearlier : InOrder earlier) (h : Holding) :
    InOrder (earlier ++ [h]) ∨ ∃ f, Wrong org earlier h f := by
  by_cases hnew : h.member ∈ earlier.map (·.member)
  · exact .inr ⟨_, .repeated hnew⟩
  · by_cases hstake : ∃ n, h.stake = .integer n ∧ 0 ≤ n ∧ n ≤ Signal.max
    · obtain ⟨n, hstake, hlow, hhigh⟩ := hstake
      rcases lt_or_ge Signal.max (sumOf earlier + n) with hover | hfits
      · exact .inr ⟨_, .excess hnew hstake hlow hhigh hover⟩
      · exact .inl (inOrder_snoc.mpr ⟨hearlier, hnew, n, hstake, hlow, hhigh, hfits⟩)
    · exact .inr ⟨_, .stake hnew hstake⟩

/-- What the holdings are refused for: the first of them with which something is wrong. -/
inductive FirstWrong (org : Value) (holdings : List Holding) (f : Fault) : Prop
  | intro {before after : List Holding} {h : Holding} (hsplit : holdings = before ++ h :: after)
      (hbefore : InOrder before) (hwrong : Wrong org before h f)

/-- Holdings are in order, or there is a first one that is wrong. -/
theorem inOrder_or_firstWrong (org : Value) (holdings : List Holding) :
    InOrder holdings ∨ ∃ f, FirstWrong org holdings f := by
  -- The last holding is looked at only if nothing is wrong with those before it.
  induction holdings using List.reverseRecOn with
  | nil => exact .inl .nil
  | append_singleton holdings h ih =>
    rcases ih with hall | ⟨f, hsplit, hbefore, hwrong⟩
    · rcases inOrder_or_wrong hall h with hall | ⟨f, hwrong⟩
      · exact .inl hall
      · exact .inr ⟨f, rfl, hall, hwrong⟩
    · have hsplit' := congrArg (· ++ [h]) hsplit
      rw [List.append_assoc, List.cons_append] at hsplit'
      exact .inr ⟨f, hsplit', hbefore, hwrong⟩

/-- What was seen are the members of the earlier holdings, in whatever order. -/
def Seen (seen : List Value) (earlier : List Holding) : Prop :=
  ∀ m, m ∈ seen ↔ m ∈ earlier.map (·.member)

theorem Seen.snoc (hseen : Seen seen earlier) : Seen (h.member :: seen) (earlier ++ [h]) := by
  intro m
  rw [List.mem_cons, hseen m, List.map_append, List.mem_append, List.map_singleton,
    List.mem_singleton, or_comm]

/-- The check goes on after a holding in order. -/
theorem collect_of_inOrder (hnamed : isNamed h.member = true) (hseen : Seen seen earlier)
    (hall : InOrder (earlier ++ [h]))
    (hrest : collect org (h.member :: seen) (sumOf (earlier ++ [h])) rest = .error f) :
    collect org seen (sumOf earlier) (h :: rest) = .error f := by
  obtain ⟨-, hnew, n, hstake, hlow, hhigh, hfits⟩ := inOrder_snoc.mp hall
  rw [sumOf_append, sumOf_singleton hstake] at hrest
  have hunseen : ¬ h.member.isAmong seen = true := by
    rwa [isAmong_iff hnamed, hseen]
  rw [collect, if_neg hunseen]
  simp only [ofValue?_eq_some_iff.mpr ⟨hstake, hlow, hhigh⟩, Signal.add,
    if_neg (not_lt.mpr hfits), bind, Except.bind, hrest]

/-- The check stops at a holding with which something is wrong. -/
theorem collect_of_wrong (hnamed : isNamed h.member = true) (hseen : Seen seen earlier)
    (hwrong : Wrong org earlier h f) :
    collect org seen (sumOf earlier) (h :: rest) = .error f := by
  have hamong : h.member.isAmong seen = true ↔ h.member ∈ earlier.map (·.member) := by
    rw [isAmong_iff hnamed, hseen]
  -- The causes are looked for in this order, and each one rules out those before it.
  cases hwrong with
  | repeated hmem =>
    rw [collect, if_pos (hamong.mpr hmem)]
    rfl
  | stake hnew hamount =>
    rw [collect, if_neg (hamong.not.mpr hnew)]
    simp only [ofValue?_eq_none_iff.mpr hamount]
    rfl
  | excess hnew hstake hlow hhigh hover =>
    rw [collect, if_neg (hamong.not.mpr hnew)]
    simp only [ofValue?_eq_some_iff.mpr ⟨hstake, hlow, hhigh⟩, Signal.add, if_pos hover]
    rfl

/-- Holdings in order are passed over, up to the one that is wrong. -/
theorem collect_append_of_wrong {before : List Holding}
    (hnamed : ∀ g ∈ before ++ h :: rest, isNamed g.member = true) (hseen : Seen seen earlier)
    (hbefore : InOrder (earlier ++ before)) (hwrong : Wrong org (earlier ++ before) h f) :
    collect org seen (sumOf earlier) (before ++ h :: rest) = .error f := by
  induction before generalizing earlier seen with
  | nil =>
    rw [List.append_nil] at hwrong
    exact collect_of_wrong (hnamed h (by simp)) hseen hwrong
  | cons b before ih =>
    -- The first of them joins the earlier ones.
    rw [← List.singleton_append, ← List.append_assoc] at hbefore hwrong
    refine collect_of_inOrder (hnamed b (by simp)) hseen hbefore.of_append ?_
    exact ih (fun g hg => hnamed g (List.mem_cons_of_mem _ hg)) hseen.snoc hbefore hwrong

end Plan

/-! ## Stakes that are shared out, and others -/

/-- Holdings in order, reported with their sum. -/
structure WeightedGroup.Divisible (group : WeightedGroup) : Prop where
  inOrder : Plan.InOrder group.holdings
  total_eq : group.total = .integer (Plan.sumOf group.holdings)

/-- What stakes are refused for: the first holding that is wrong, or else the total. -/
inductive WeightedGroup.Faulty (org : Value) (group : WeightedGroup) : Fault → Prop
  | holding {f : Fault} (hfirst : Plan.FirstWrong org group.holdings f) : Faulty org group f
  | total (hall : Plan.InOrder group.holdings)
      (htotal : group.total ≠ .integer (Plan.sumOf group.holdings)) :
      Faulty org group (.membership org
        (.total group.total.display (Plan.sumOf group.holdings)))

theorem WeightedGroup.divisible_or_faulty (org : Value) (group : WeightedGroup) :
    group.Divisible ∨ ∃ f, group.Faulty org f := by
  rcases Plan.inOrder_or_firstWrong org group.holdings with hall | ⟨f, hfirst⟩
  · by_cases htotal : group.total = .integer (Plan.sumOf group.holdings)
    · exact .inl ⟨hall, htotal⟩
    · exact .inr ⟨_, .total hall htotal⟩
  · exact .inr ⟨f, .holding hfirst⟩

namespace Plan

variable {source : StakeSource} {e : Electorate} {p q : Plan} {group : WeightedGroup}
  {members : List Value}

theorem makeWeighted_of_divisible (hs : source.Named) (hgroup : source.stakes? e.org = some group)
    (hdivisible : group.Divisible) : makeWeighted source e =
      .ok ⟨e, sumOf group.holdings, sorted (group.holdings.map share)⟩ :=
  (makeWeighted_eq_ok hs).mpr
    ⟨group, hgroup, inOrder_iff.mp hdivisible.inOrder, hdivisible.total_eq, rfl⟩

theorem makeWeighted_of_faulty (hs : source.Named) (hgroup : source.stakes? e.org = some group)
    (hfaulty : group.Faulty e.org f) : makeWeighted source e = .error f := by
  have hnamed := hs.stakes_named hgroup
  simp only [makeWeighted, hgroup]
  cases hfaulty with
  | holding hfirst =>
    obtain ⟨hsplit, hbefore, hwrong⟩ := hfirst
    rw [hsplit] at hnamed ⊢
    have hcollect : collect e.org [] (sumOf []) _ = .error f :=
      collect_append_of_wrong hnamed (fun _ => Iff.rfl) hbefore hwrong
    rw [show (0 : Int) = sumOf [] from rfl, hcollect]
    rfl
  | total hall htotal =>
    have hcollect : collect e.org [] 0 group.holdings =
        .ok (group.holdings.map share, sumOf group.holdings) :=
      (collect_eq_ok_iff hnamed (by decide)).mpr
        ⟨inOrder_iff.mp hall, rfl, (Int.zero_add _).symm⟩
    have hreports : reports (sumOf group.holdings) group.total = false := by
      cases hvalue : group.total <;> simp_all [reports]
    simp only [hcollect, hreports, bind, Except.bind]
    rfl

/-- Shares by stake are refused for what is wrong with the stakes, and for nothing else. -/
theorem makeWeighted_eq_error (hs : source.Named) (hgroup : source.stakes? e.org = some group) :
    makeWeighted source e = .error f ↔ group.Faulty e.org f := by
  refine ⟨fun hmake => ?_, makeWeighted_of_faulty hs hgroup⟩
  rcases group.divisible_or_faulty e.org with hdivisible | ⟨g, hfaulty⟩
  · rw [makeWeighted_of_divisible hs hgroup hdivisible] at hmake
    cases hmake
  · rw [makeWeighted_of_faulty hs hgroup hfaulty] at hmake
    exact Except.error.inj hmake ▸ hfaulty

/-! ## What a plan shares out -/

/-- Names in strictly ascending order. -/
def Ascends (allocations : List Allocation) : Prop :=
  (allocations.map (·.member.display)).Pairwise fun a b => Units.before a b = true

/-- One unit for everyone who is listed. -/
structure SharesEqually (e : Electorate) (members : List Value) (p : Plan) : Prop where
  electorate_eq : p.electorate = e
  mem_iff : ∀ m, m ∈ p.allocations.map (·.member) ↔ m ∈ members
  ascends : Ascends p.allocations
  magnitude_eq : ∀ a ∈ p.allocations, a.magnitude = 1
  total_eq : p.total = members.toFinset.card

/-- Everyone's own stake, and the sum of the stakes. -/
structure SharesByStake (e : Electorate) (holdings : List Holding) (p : Plan) : Prop where
  electorate_eq : p.electorate = e
  perm : p.allocations.Perm (holdings.map share)
  ascends : Ascends p.allocations
  total_eq : p.total = sumOf holdings

/-- There is one strictly ascending order. -/
theorem Ascends.eq_of_perm {l l' : List Allocation} (hl : Ascends l) (hl' : Ascends l')
    (hperm : l.Perm l') : l = l' := by
  refine hperm.eq_of_pairwise (fun a b _ _ hab hba => ?_) (List.pairwise_map.mp hl)
    (List.pairwise_map.mp hl')
  exact absurd (of_decide_eq_true hba) (lt_asymm (of_decide_eq_true hab))

theorem Ascends.nodup {l : List Allocation} (hl : Ascends l) : l.Nodup :=
  (Units.nodup_of_pairwise_before hl).of_map _

theorem eq_of_parts (helectorate : p.electorate = q.electorate) (htotal : p.total = q.total)
    (hallocations : p.allocations = q.allocations) : p = q := by
  cases p
  cases q
  simp_all

/-- One plan at most gives equal shares to everyone who is listed. -/
theorem SharesEqually.unique (hp : p.SharesEqually e members) (hq : q.SharesEqually e members) :
    p = q := by
  have hmem : ∀ {r : Plan}, r.SharesEqually e members → ∀ a, a ∈ r.allocations ↔
      a.member ∈ members ∧ a.magnitude = 1 := by
    intro r hr a
    rw [← hr.mem_iff, List.mem_map]
    constructor
    · exact fun ha => ⟨⟨a, ha, rfl⟩, hr.magnitude_eq a ha⟩
    · rintro ⟨⟨b, hb, hmember⟩, hone⟩
      have hb1 := hr.magnitude_eq b hb
      obtain rfl : b = a := by
        cases a
        cases b
        simp_all
      exact hb
  have hperm : p.allocations.Perm q.allocations :=
    (List.perm_ext_iff_of_nodup hp.ascends.nodup hq.ascends.nodup).mpr fun a => by
      rw [hmem hp, hmem hq]
  exact eq_of_parts (hp.electorate_eq.trans hq.electorate_eq.symm)
    (hp.total_eq.trans hq.total_eq.symm) (hp.ascends.eq_of_perm hq.ascends hperm)

/-- One plan at most gives everyone's own stake. -/
theorem SharesByStake.unique {holdings : List Holding} (hp : p.SharesByStake e holdings)
    (hq : q.SharesByStake e holdings) : p = q := by
  have hperm := hp.perm.trans hq.perm.symm
  exact eq_of_parts (hp.electorate_eq.trans hq.electorate_eq.symm)
    (hp.total_eq.trans hq.total_eq.symm) (hp.ascends.eq_of_perm hq.ascends hperm)

/-- The plan that is made gives equal shares. -/
theorem sharesEqually_of_makeEqual (hs : source.Named) (hgroup : source.group? e.org = some members)
    (h : makeEqual source e = .ok p) : p.SharesEqually e members := by
  obtain ⟨members', hgroup', henrolls⟩ := enrolls_of_makeEqual hs h
  obtain rfl := Option.some.inj (hgroup.symm.trans hgroup')
  have hascends : Ascends p.allocations :=
    Units.pairwise_before (ascending_of_makeEqual hs h) henrolls.distinct
  obtain ⟨members', -, hplan⟩ := makeEqual_eq_ok.mp h
  have hlength : p.total = p.allocations.length := by
    rw [hplan, List.length_map]
  have hcard : p.allocations.length = members.toFinset.card := by
    have hnodup : (p.allocations.map (·.member)).Nodup := by
      have hdistinct := henrolls.distinct
      rw [show (fun a : Allocation => a.member.display) = Value.display ∘ (·.member) from rfl,
        ← List.map_map] at hdistinct
      exact hdistinct.of_map _
    rw [← List.length_map (·.member), ← List.toFinset_card_of_nodup hnodup]
    congr 1
    ext m
    rw [List.mem_toFinset, List.mem_toFinset, henrolls.mem_iff]
  refine ⟨by rw [hplan], henrolls.mem_iff, hascends, ?_, by rw [hlength, hcard]⟩
  rw [hplan]
  exact List.forall_mem_map.mpr fun _ _ => rfl

/-- The plan that is made gives everyone's own stake. -/
theorem sharesByStake_of_makeWeighted (hs : source.Named)
    (hgroup : source.stakes? e.org = some group) (h : makeWeighted source e = .ok p) :
    p.SharesByStake e group.holdings := by
  obtain ⟨_, -, henrolls⟩ := enrolls_of_makeWeighted hs h
  have hascends : Ascends p.allocations :=
    Units.pairwise_before (ascending_of_makeWeighted hs h) henrolls.distinct
  obtain ⟨group', hgroup', -, -, rfl⟩ := (makeWeighted_eq_ok hs).mp h
  obtain rfl := Option.some.inj (hgroup.symm.trans hgroup')
  exact ⟨rfl, Arrangement.arrange_perm _ _, hascends, rfl⟩

/-! ## The plans that are made -/

/-- Of known members equal shares are made, and no others. -/
theorem makeEqual_eq_ok_iff (hs : source.Named) (hgroup : source.group? e.org = some members) :
    makeEqual source e = .ok p ↔ p.SharesEqually e members := by
  refine ⟨sharesEqually_of_makeEqual hs hgroup, fun hshares => ?_⟩
  -- Some plan is made, and it is this one.
  have hmake := makeEqual_eq_ok.mpr ⟨members, hgroup, rfl⟩
  rwa [hshares.unique (sharesEqually_of_makeEqual hs hgroup hmake)]

/-- Of known stakes that can be shared out everyone's own are made, and no others. -/
theorem makeWeighted_eq_ok_iff (hs : source.Named) (hgroup : source.stakes? e.org = some group) :
    makeWeighted source e = .ok p ↔ group.Divisible ∧ p.SharesByStake e group.holdings := by
  constructor
  · intro hmake
    refine ⟨?_, sharesByStake_of_makeWeighted hs hgroup hmake⟩
    rcases group.divisible_or_faulty e.org with hdivisible | ⟨f, hfaulty⟩
    · exact hdivisible
    · rw [makeWeighted_of_faulty hs hgroup hfaulty] at hmake
      cases hmake
  · rintro ⟨hdivisible, hshares⟩
    have hmake := makeWeighted_of_divisible hs hgroup hdivisible
    rwa [hshares.unique (sharesByStake_of_makeWeighted hs hgroup hmake)]

theorem make_of_equal (hmode : e.mode? = some .equal) : make source e = makeEqual source e := by
  rw [make, make?, hmode]
  rfl

theorem make_of_weighted (hmode : e.mode? = some .weighted) :
    make source e = makeWeighted source e := by
  rw [make, make?, hmode]
  rfl

/-- Equal shares are made whenever the members are known: one unit for everyone, in strictly
ascending order, and as much in all as there are members.  Shares by stake are made exactly when the
stakes are known, nobody is listed twice, every stake is an amount of signal, and so is their sum,
which is the reported total: then everyone is given the own stake, in strictly ascending order as
well.  Otherwise stakes that are known are refused for the first holding that is wrong, and only if
there is none for their total. -/
theorem make_exact (hs : source.Named) (e : Electorate) :
    (e.mode? = some .equal →
      ((∃ p, make source e = .ok p) ↔ ∃ members, source.group? e.org = some members) ∧
      ∀ members, source.group? e.org = some members →
        ∀ p, make source e = .ok p ↔ p.SharesEqually e members) ∧
    (e.mode? = some .weighted →
      ((∃ p, make source e = .ok p) ↔
        ∃ group, source.stakes? e.org = some group ∧ group.Divisible) ∧
      ∀ group, source.stakes? e.org = some group →
        (∀ p, make source e = .ok p ↔ group.Divisible ∧ p.SharesByStake e group.holdings) ∧
        ∀ f, make source e = .error f ↔ group.Faulty e.org f) := by
  refine ⟨fun hmode => ?_, fun hmode => ?_⟩
  · rw [make_of_equal hmode]
    refine ⟨⟨?_, ?_⟩, fun members hgroup p => makeEqual_eq_ok_iff hs hgroup⟩
    · rintro ⟨p, hmake⟩
      obtain ⟨members, hgroup, -⟩ := makeEqual_eq_ok.mp hmake
      exact ⟨members, hgroup⟩
    · rintro ⟨members, hgroup⟩
      exact ⟨_, makeEqual_eq_ok.mpr ⟨members, hgroup, rfl⟩⟩
  · rw [make_of_weighted hmode]
    refine ⟨⟨?_, ?_⟩, fun group hgroup =>
      ⟨fun p => makeWeighted_eq_ok_iff hs hgroup, fun f => makeWeighted_eq_error hs hgroup⟩⟩
    · rintro ⟨p, hmake⟩
      obtain ⟨group, hgroup, -⟩ := (makeWeighted_eq_ok hs).mp hmake
      exact ⟨group, hgroup, ((makeWeighted_eq_ok_iff hs hgroup).mp hmake).1⟩
    · rintro ⟨group, hgroup, hdivisible⟩
      exact ⟨_, makeWeighted_of_divisible hs hgroup hdivisible⟩

/-- A guild of two that lists one of them twice, with stakes that are too much together. -/
def guild : StakeSource where
  group? org := if org = .text "guild" then some [.text "b", .text "a", .text "b"] else none
  stakes? org := if org = .text "guild" then
      some ⟨.integer 0, [⟨.text "b", .integer Signal.max⟩, ⟨.text "a", .integer 1⟩,
        ⟨.text "b", .integer (-1)⟩]⟩
    else none

theorem guild_named : guild.Named := by
  constructor
  · intro org members hgroup m hm
    simp only [guild, Option.ite_none_right_eq_some, Option.some.injEq] at hgroup
    rw [← hgroup.2] at hm
    simp only [List.mem_cons, List.not_mem_nil, or_false] at hm
    rcases hm with rfl | rfl | rfl <;> rfl
  · intro org group hgroup h hh
    simp only [guild, Option.ite_none_right_eq_some, Option.some.injEq] at hgroup
    rw [← hgroup.2] at hh
    simp only [List.mem_cons, List.not_mem_nil, or_false] at hh
    rcases hh with rfl | rfl | rfl <;> rfl

/-- Equal shares are made for the guild.  Its stakes are refused for their sum, and neither for the
member that is listed again later, nor for the negative stake of it, nor for the total. -/
theorem make_exact_guild : guild.Named ∧
    make guild (.of .equal "guild") =
      .ok ⟨.of .equal "guild", 2, [⟨.text "a", 1⟩, ⟨.text "b", 1⟩]⟩ ∧
    make guild (.of .weighted "guild") =
      .error (.signalOverflow (.integer Signal.max) (.integer 1)) := by
  refine ⟨guild_named, ?_, ?_⟩
  · refine (((make_exact guild_named _).1 rfl).2 _ rfl _).mpr
      ⟨rfl, ?_, List.pairwise_pair.mpr (by decide), by decide, by decide⟩
    simp only [List.map_cons, List.map_nil, List.mem_cons, List.not_mem_nil, or_false]
    tauto
  · have hbefore : InOrder ([] ++ [⟨.text "b", .integer Signal.max⟩]) :=
      inOrder_snoc.mpr ⟨.nil, by simp, Signal.max, rfl, by decide⟩
    have hwrong : Wrong (.text "guild") [⟨.text "b", .integer Signal.max⟩]
        ⟨.text "a", .integer 1⟩ (.signalOverflow (.integer Signal.max) (.integer 1)) :=
      .excess (by decide) rfl (by decide) (by decide) (by decide)
    exact ((((make_exact guild_named _).2 rfl).2 _ rfl).2 _).mpr
      (.holding ⟨rfl, hbefore, hwrong⟩)

end Plan

end Plebiscite
