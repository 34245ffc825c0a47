import Plebiscite.Proofs.Ledger.Casting
import Plebiscite.Proofs.Ledger.RoundTrip

/-!
# Ballots in any order

Members cast their ballots one after the other, and each ballot rewrites tallies that all of them
share.  Still no member's ballots depend on when the others come in between: what a ballot comes to
is settled by the earlier ballots of the same member in the same vote, and so is the ledger at the
end.

## Main definitions

- `Ledger.castAll`, `Ledger.results`: ballots cast one after the other, and what they come to
- `Ledger.Casting.judgeAll`: what the ballots of one member come to
- `Ledger.blanked`: a ledger without what its ballots and tallies say

## Main results

- `Ledger.results_filter`: the ballots of a member come to what they come to on their own
- `Ledger.eq_of_blanked`: sound ledgers that differ in no standing are equal
- `Ledger.castings_commute`: the order between members does not matter
-/

namespace Plebiscite

/-! ## Without ballots -/

/-- A vote with nothing said of its ballots and tallies. -/
def Vote.blanked (v : Vote) : Vote :=
  { v with
    poll := { v.poll with inFavor := 0, against := 0 }
    seats := v.seats.map fun seat => { seat with ballot := .mint 0 } }

theorem Vote.find?_blanked (v : Vote) (name : String) :
    v.blanked.seats.find? (·.name = name) =
      (v.seats.find? (·.name = name)).map fun seat => { seat with ballot := .mint 0 } :=
  Keyed.find?_map Seat.name (g := fun seat => { seat with ballot := .mint 0 })
    (fun _ _ => rfl) name

/-- The tallies of a sound vote follow from its ballots. -/
theorem Vote.eq_of_blanked {v w : Vote} (hv : v.Sound) (hw : w.Sound) (h : v.blanked = w.blanked)
    (hballot : ∀ name, v.ballot? name = w.ballot? name) : v = w := by
  -- The member of a seat is found in the blanked vote, and its ballot under its name.
  have hfind : ∀ name, v.seats.find? (·.name = name) = w.seats.find? (·.name = name) := by
    intro name
    have hblank := congrArg (fun u : Vote => u.seats.find? (·.name = name)) h
    have hheld := hballot name
    rw [find?_blanked, find?_blanked] at hblank
    unfold ballot? at hheld
    generalize v.seats.find? (·.name = name) = s, w.seats.find? (·.name = name) = t at *
    rcases s with - | ⟨member, ballot⟩ <;> rcases t with - | ⟨member', ballot'⟩ <;> simp_all
  have hnames : v.seats.map Seat.name = w.seats.map Seat.name := by
    have hmap := congrArg (fun u : Vote => u.seats.map Seat.name) h
    simp only [blanked, List.map_map] at hmap
    exact hmap
  have hseats : v.seats = w.seats := by
    rw [← Keyed.filterMap_find? hv.names, ← Keyed.filterMap_find? hw.names, hnames]
    exact List.filterMap_congr fun name _ => hfind name
  have hinFavor := hv.inFavor
  have hagainst := hv.against
  rw [hseats, ← hw.inFavor] at hinFavor
  rw [hseats, ← hw.against] at hagainst
  obtain ⟨id, ⟨topic, turnout, threshold, inFavor, against, initialized, ends⟩, issued, seats⟩ := v
  obtain ⟨id', ⟨topic', turnout', threshold', inFavor', against', initialized', ends'⟩, issued',
    seats'⟩ := w
  simp only [blanked, Vote.mk.injEq, Poll.mk.injEq] at h ⊢
  simp_all

namespace Ledger

/-- A ledger with nothing said of ballots and tallies. -/
def blanked (l : Ledger) : Ledger :=
  { l with votes := l.votes.map Vote.blanked }

variable {l l' : Ledger} {env : Environment}

theorem vote?_blanked (l : Ledger) (n : Number) :
    l.blanked.vote? n = (l.vote? n).map Vote.blanked :=
  Keyed.find?_map Vote.id (g := Vote.blanked) (fun _ _ => rfl) n

/-- Where everybody stands says all that ballots and tallies say. -/
theorem eq_of_blanked (hl : l.Sound) (hl' : l'.Sound) (h : l.blanked = l'.blanked)
    (hstanding : ∀ key, l.standing? key = l'.standing? key) : l = l' := by
  have hvote : ∀ n, l.vote? n = l'.vote? n := by
    intro n
    have hblank := congrArg (Ledger.vote? · n) h
    simp only [vote?_blanked] at hblank
    cases hv : l.vote? n with
    | none =>
      rw [hv, Option.map_none, eq_comm, Option.map_eq_none_iff] at hblank
      exact hblank.symm
    | some v =>
      rw [hv, Option.map_some, eq_comm] at hblank
      obtain ⟨w, hw, hwv⟩ := Option.map_eq_some_iff.mp hblank
      have hballot : ∀ name, v.ballot? name = w.ballot? name := by
        intro name
        have hstands := hstanding (.number n, name)
        rw [standing?_eq hv, standing?_eq hw] at hstands
        exact congrArg Standing.ballot (Option.some.inj hstands)
      rw [hw, Vote.eq_of_blanked (hl.votes v (mem_of_vote? hv).1)
        (hl'.votes w (mem_of_vote? hw).1) hwv.symm hballot]
  have hids : l.votes.map (·.id) = l'.votes.map (·.id) := by
    have hmap := congrArg (fun l : Ledger => l.votes.map (·.id)) h
    simpa [blanked, Vote.blanked, Function.comp_def] using hmap
  have hvotes : l.votes = l'.votes := by
    rw [← Keyed.filterMap_find? hl.ids, ← Keyed.filterMap_find? hl'.ids, hids]
    exact List.filterMap_congr fun n _ => hvote n
  obtain ⟨settings, register, votes, lastVote, openVotes⟩ := l
  obtain ⟨settings', register', votes', lastVote', openVotes'⟩ := l'
  simp only [blanked, Ledger.mk.injEq] at h ⊢
  exact ⟨h.1, h.2.1, hvotes, h.2.2.2⟩

/-- A vote may be replaced by one that differs in its ballots only. -/
theorem blanked_replaceVote (hl : l.Indexed) {v w : Vote} (hv : v ∈ l.votes) (hid : w.id = v.id)
    (h : w.blanked = v.blanked) : (l.replaceVote w).blanked = l.blanked := by
  unfold blanked replaceVote updateVote
  simp only [List.map_map, Ledger.mk.injEq, true_and, and_true]
  apply List.map_congr_left
  intro u hu
  rw [Function.comp_apply]
  split
  · rename_i hid'
    rw [h, eq_of_id hl hu hv (hid'.trans hid)]
  · rfl

theorem Casting.blanked_after (hl : l.Sound) (env : Environment) (x : Casting) :
    (l.after env x.command).blanked = l.blanked := by
  rcases after_cases hl env x with ⟨-, h⟩ | ⟨v, v', receipt, hrevises, -, h⟩
  · rw [h]
  · rw [h]
    apply blanked_replaceVote hl.indexed hrevises.mem hrevises.id_eq
    cases hrevises with
    | cast hvote hnow hopen hseat hchange htransfer =>
      obtain ⟨rfl, -⟩ := Poll.eq_of_transfer htransfer
      have hseats : ∀ seats : List Seat, ∀ name : String, ∀ ballot : Ballot,
          (seats.map fun seat : Seat =>
            if seat.name = name then { seat with ballot } else seat).map
              (fun seat => ({ seat with ballot := .mint 0 } : Seat)) =
            seats.map fun seat => { seat with ballot := .mint 0 } := by
        intro seats name ballot
        rw [List.map_map]
        apply List.map_congr_left
        intro seat _
        rw [Function.comp_apply]
        split <;> rfl
      simp only [Vote.blanked, Vote.setBallot, hseats]

/-! ## Ballots one after the other -/

/-- The ledger after several ballots, accepted or not. -/
def castAll (env : Environment) (l : Ledger) (xs : List Casting) : Ledger :=
  l.serve (xs.map fun x => ⟨env, x.command⟩)

/-- What several ballots come to, cast one after the other. -/
def results (env : Environment) (l : Ledger) :
    List Casting → List (Casting × Except Fault (Stance × Ballot))
  | [] => []
  | x :: xs => (x, x.result env l) :: results env (l.after env x.command) xs

/-- What the ballots of one member come to, from where it stands. -/
def Casting.judgeAll (env : Environment) (standing : Option Standing) :
    List Casting → List (Casting × Except Fault (Stance × Ballot))
  | [] => []
  | x :: xs => (x, x.judge env standing) :: judgeAll env (x.advance env standing) xs

theorem castAll_cons (x : Casting) (xs : List Casting) :
    castAll env l (x :: xs) = castAll env (l.after env x.command) xs :=
  rfl

theorem sound_castAll (hl : l.Sound) (xs : List Casting) : (castAll env l xs).Sound := by
  induction xs generalizing l with
  | nil => exact hl
  | cons x xs ih => exact ih (Casting.sound_after hl env x)

theorem blanked_castAll (hl : l.Sound) (xs : List Casting) :
    (castAll env l xs).blanked = l.blanked := by
  induction xs generalizing l with
  | nil => rfl
  | cons x xs ih =>
    rw [castAll_cons, ih (Casting.sound_after hl env x), Casting.blanked_after hl]

/-- The ballots of a member come to what they come to on their own. -/
theorem results_filter (hl : l.Sound) (key : Value × String) (xs : List Casting) :
    (results env l xs).filter (·.1.key = key) =
      Casting.judgeAll env (l.standing? key) (xs.filter (·.key = key)) := by
  induction xs generalizing l with
  | nil => rfl
  | cons x xs ih =>
    have hrest := ih (Casting.sound_after hl env x)
    rw [Casting.standing?_after hl] at hrest
    by_cases hkey : x.key = key
    · subst hkey
      simp only [results, decide_true, List.filter_cons_of_pos, Casting.judgeAll, if_true,
        Casting.result_eq hl, hrest]
    · rw [if_neg (Ne.symm hkey)] at hrest
      simp only [results, hkey, decide_false, Bool.false_eq_true, not_false_eq_true,
        List.filter_cons_of_neg, hrest]

/-- Where a member stands in the end is settled by its own ballots. -/
theorem standing?_castAll (hl : l.Sound) (key : Value × String) (xs : List Casting) :
    (castAll env l xs).standing? key =
      (xs.filter (·.key = key)).foldl (fun standing x => x.advance env standing)
        (l.standing? key) := by
  induction xs generalizing l with
  | nil => rfl
  | cons x xs ih =>
    rw [castAll_cons, ih (Casting.sound_after hl env x), Casting.standing?_after hl]
    by_cases hkey : x.key = key
    · subst hkey
      simp
    · rw [if_neg (Ne.symm hkey), List.filter_cons_of_neg (by simpa using hkey)]

/-- Ballots that come in another order, but for each member and vote in the same one, are accepted,
refused and answered alike, and leave the same snapshot behind. -/
theorem castings_commute (hl : l.Reachable) (env : Environment) {xs ys : List Casting}
    (h : ∀ key, xs.filter (·.key = key) = ys.filter (·.key = key)) :
    (∀ key, (results env l xs).filter (·.1.key = key) =
      (results env l ys).filter (·.1.key = key)) ∧
    (castAll env l xs).snapshot = (castAll env l ys).snapshot ∧
    (castAll env l xs).stateHash = (castAll env l ys).stateHash := by
  have hsound := hl.sound
  have hledger : castAll env l xs = castAll env l ys := by
    apply eq_of_blanked (sound_castAll hsound xs) (sound_castAll hsound ys)
    · rw [blanked_castAll hsound, blanked_castAll hsound]
    · intro key
      rw [standing?_castAll hsound, standing?_castAll hsound, h]
  refine ⟨?_, by rw [hledger], by rw [hledger]⟩
  intro key
  rw [results_filter hsound, results_filter hsound, h]

namespace Sample

/-- A ballot of alice in the vote of the two. -/
def aliceCasts (stance : Stance) : Casting :=
  ⟨.number 1, .text "alice", stance, .text "because"⟩

/-- A ballot of bob in the vote of the two. -/
def bobCasts : Casting :=
  ⟨.number 1, .text "bob", .against, .absent⟩

end Sample

/-- Bob votes before alice, between her two ballots, or after her. -/
theorem castings_commute_two :
    let xs := [Sample.aliceCasts .inFavor, Sample.bobCasts, Sample.aliceCasts .abstain]
    let ys := [Sample.bobCasts, Sample.aliceCasts .inFavor, Sample.aliceCasts .abstain]
    (∀ key, xs.filter (·.key = key) = ys.filter (·.key = key)) ∧
    (∀ key, (results Sample.host Sample.opened xs).filter (·.1.key = key) =
      (results Sample.host Sample.opened ys).filter (·.1.key = key)) ∧
    (castAll Sample.host Sample.opened xs).snapshot =
      (castAll Sample.host Sample.opened ys).snapshot ∧
    (castAll Sample.host Sample.opened xs).stateHash =
      (castAll Sample.host Sample.opened ys).stateHash := by
  intro xs ys
  have hkeys : ∀ key, xs.filter (·.key = key) = ys.filter (·.key = key) := by
    intro key
    by_cases hbob : Sample.bobCasts.key = key
    · subst hbob
      decide
    · simp [xs, ys, List.filter_cons, hbob]
  exact ⟨hkeys, castings_commute Sample.reachable_opened Sample.host hkeys⟩

end Ledger

end Plebiscite
