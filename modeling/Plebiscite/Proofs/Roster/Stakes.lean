import Plebiscite.Proofs.Roster

/-!
# What a roster reports

A roster that only ever changed as it may change keeps each member once, with a whole stake that is
not below zero.  So the stakes that it reports are consistent: nobody is listed twice, and the total
is the sum of what is listed.

## Main definitions

- `WeightedGroup.Consistent`: stakes that are reported without a contradiction
- `Roster.Sound`: members that are listed once, with whole stakes
- `Roster.Modest`: no organization has more members than can be counted one by one

## Main results

- `Roster.Sound.after`: every change leads to a sound roster again
- `Roster.Sound.consistent`: a sound roster reports consistent stakes
- `Roster.Sound.wellTyped`: a sound and modest roster is a source of stakes that there can be
-/

namespace Plebiscite

/-- Members that are texts, each listed once with a whole stake, and the sum of these stakes. -/
structure WeightedGroup.Consistent (g : WeightedGroup) : Prop where
  named : ∀ h ∈ g.holdings, Plan.isNamed h.member = true
  distinct : (g.holdings.map (·.member)).Nodup
  whole : ∀ h ∈ g.holdings, ∃ n : Nat, h.stake = .integer n
  total : g.total = .integer (Signal.total (g.holdings.map (·.stake.whole)))

namespace Roster

variable {r : Roster} {org caller : Value} {organization : Organization}

/-- Members that are texts, each once, and whole stakes. -/
structure SoundStakes (stakes : Index Value) : Prop where
  named : ∀ entry ∈ stakes, Plan.isNamed entry.1 = true
  distinct : (stakes.map (·.1)).Nodup
  whole : ∀ entry ∈ stakes, ∃ n : Nat, entry.2 = .integer n

/-- The stakes of every organization are sound. -/
structure Sound (r : Roster) : Prop where
  sound : r.All SoundStakes

/-- Every organization has fewer than `2 ^ 53` members. -/
structure Modest (r : Roster) : Prop where
  modest : r.All fun stakes => stakes.length < 2 ^ 53

namespace SoundStakes

variable {stakes : Index Value}

theorem nil : SoundStakes [] :=
  ⟨by simp, List.nodup_nil, by simp⟩

theorem put (h : SoundStakes stakes) (member : String) (stake : Nat) :
    SoundStakes (stakes.put (.text member) (.integer stake)) := by
  refine ⟨?_, Index.nodup_put rfl _ h.distinct, ?_⟩
  · intro entry hentry
    rcases Index.mem_put hentry with rfl | hentry
    · rfl
    · exact h.named entry hentry
  · intro entry hentry
    rcases Index.mem_put hentry with rfl | hentry
    · exact ⟨stake, rfl⟩
    · exact h.whole entry hentry

theorem drop (h : SoundStakes stakes) (key : Value) : SoundStakes (stakes.drop key) := by
  have hsub : (stakes.drop key).Sublist stakes := List.filter_sublist
  exact ⟨fun entry hentry => h.named entry (hsub.subset hentry), (hsub.map _).nodup h.distinct,
    fun entry hentry => h.whole entry (hsub.subset hentry)⟩

/-- The sum of whole stakes is whole. -/
theorem total_eq (h : SoundStakes stakes) :
    totalStake (stakes.map (·.2)) =
      .integer (Signal.total (stakes.map fun entry => entry.2.whole)) := by
  -- The sum so far is a parameter, as the fold goes from the front.
  have hsum : ∀ (entries : Index Value), (∀ entry ∈ entries, ∃ n : Nat, entry.2 = .integer n) →
      ∀ start : Int, (entries.map (·.2)).foldl Value.plus (.integer start) =
        .integer (start + Signal.total (entries.map fun entry => entry.2.whole)) := by
    intro entries
    induction entries with
    | nil => simp
    | cons entry entries ih =>
      intro hwhole start
      obtain ⟨n, hn⟩ := hwhole entry (by simp)
      have hplus : (Value.integer start).plus entry.2 = .integer (start + entry.2.whole) := by
        rw [hn]
        rfl
      rw [List.map_cons, List.foldl_cons, hplus,
        ih (fun e he => hwhole e (List.mem_cons_of_mem _ he)), List.map_cons, Signal.total_cons,
        Int.add_assoc]
  rw [totalStake, hsum stakes h.whole, Int.zero_add]

end SoundStakes

namespace Sound

theorem empty : Roster.empty.Sound :=
  ⟨All.empty⟩

theorem after (h : r.Sound) (c : Change) : (r.after c).Sound :=
  ⟨h.sound.after c (fun _ => id) SoundStakes.nil
    (fun _ member stake hstakes => hstakes.put member stake) fun _ _ hstakes => hstakes.drop _⟩

/-- A sound roster reports consistent stakes. -/
theorem consistent (h : r.Sound) {group : WeightedGroup}
    (hgroup : r.stakeSource.stakes? org = some group) : group.Consistent := by
  obtain ⟨organization, hget, rfl⟩ := Option.map_eq_some_iff.mp hgroup
  have hstakes := h.sound.of_get? hget
  refine ⟨?_, ?_, ?_, ?_⟩
  · intro holding hholding
    obtain ⟨entry, hentry, rfl⟩ := List.mem_map.mp hholding
    exact hstakes.named entry hentry
  · rw [List.map_map]
    exact hstakes.distinct
  · intro holding hholding
    obtain ⟨entry, hentry, rfl⟩ := List.mem_map.mp hholding
    exact hstakes.whole entry hentry
  · rw [List.map_map]
    exact hstakes.total_eq

/-- Members are texts that are listed once, and a modest number of them. -/
theorem wellTyped (h : r.Sound) (hmodest : r.Modest) : r.stakeSource.WellTyped where
  group_named hgroup m hm := by
    obtain ⟨organization, hget, rfl⟩ := Option.map_eq_some_iff.mp hgroup
    obtain ⟨entry, hentry, rfl⟩ := List.mem_map.mp hm
    exact (h.sound.of_get? hget).named entry hentry
  group_small hgroup := by
    obtain ⟨organization, hget, rfl⟩ := Option.map_eq_some_iff.mp hgroup
    have hfew := hmodest.modest.of_get? hget
    -- Members are counted once each, which are no more than are listed.
    have hshort := (Plan.eraseDupsBy_spec Value.same (organization.stakes.map (·.1))).1.length_le
    rw [List.length_map] at hshort
    exact hshort.trans_lt hfew
  stakes_named hgroup := (h.consistent hgroup).named

end Sound

/-- Only an organization that there is has supervisors. -/
theorem exists_of_isSupervisor (h : r.isSupervisor org caller = true) :
    ∃ organization, r.get? org = some organization := by
  unfold isSupervisor at h
  split at h
  · exact ⟨_, ‹_›⟩
  · cases h

/-- One change adds one member at most. -/
theorem All.length_after {k : Nat} (h : r.All fun stakes => stakes.length ≤ k) (c : Change) :
    (r.after c).All fun stakes => stakes.length ≤ k + 1 := by
  refine h.after c (fun stakes hstakes => Nat.le_succ_of_le hstakes) (Nat.zero_le _) ?_ ?_
  · intro stakes member stake hstakes
    exact (Index.length_put_le _ _ _).trans (Nat.succ_le_succ hstakes)
  · intro stakes member hstakes
    exact (List.length_filter_le _ _).trans (Nat.le_succ_of_le hstakes)

end Roster

end Plebiscite
