import Plebiscite.Proofs.Ledger.RoundTrip

/-!
# Who holds a vote

Signal is minted once, when a vote is opened, to the members that are reported at that moment.  From
then on the seats stay with them, whoever joins or leaves.  For that it is enough that members are
texts; how many there are does not matter.

## Main results

- `Ledger.Opens.enrolled`: the seats of a new vote are those of the members that are reported
- `Ledger.Indexed.accepts`: votes and seats stay known by identifiers and names
-/

namespace Plebiscite.Ledger

variable {env : Environment} {l l' : Ledger} {c : Command} {a : Answer} {v w : Vote}

/-- A vote is opened with one seat for each member that is reported, known by the member's name. -/
theorem Opens.enrolled {o : Opening} (h : Opens env l o v) (henv : env.stakes.Named) :
    (v.seats.map Seat.name).Nodup ∧
      ∃ members, env.stakes.reported o.electorate = some members ∧
        ∀ m, m ∈ v.seats.map (·.member) ↔ m ∈ members := by
  obtain ⟨plan, hmake, -, -, hseats⟩ := h.minted
  obtain ⟨members, hreported, henrolls⟩ := Plan.enrolls_of_make henv hmake
  refine ⟨?_, members, hreported, ?_⟩
  · rw [hseats, seatsOf, List.map_map]
    exact henrolls.distinct
  · intro m
    rw [hseats, seatsOf, List.map_map]
    exact henrolls.mem_iff m

/-- Votes stay known by their identifiers, and seats by their names. -/
theorem Indexed.accepts (hl : l.Indexed) (henv : env.stakes.Named) (h : Accepts env l c a l') :
    l'.Indexed := by
  refine ⟨h.nodup_ids hl.ids, ?_⟩
  apply h.forall_votes hl.names
  · intro o v _ hopens
    exact (hopens.enrolled henv).1
  · intro v w hrevises hv
    rw [hrevises.names]
    exact hv

end Plebiscite.Ledger
