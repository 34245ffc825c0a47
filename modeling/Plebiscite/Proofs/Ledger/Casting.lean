import Plebiscite.Proofs.Ledger.Conservation

/-!
# Casting a ballot

A ballot that is cast is weighed against the running tallies of its vote, which everybody shares.
In a sound ledger these never refuse it: whether it is accepted depends on where its member stands
in its vote and on nothing else, and it changes where that member stands and nothing else.

## Main definitions

- `Ledger.Casting`: a ballot to be cast
- `Ledger.Standing`, `Ledger.standing?`: where a member stands in a vote
- `Ledger.Casting.result`: what a ballot comes to when it is cast
- `Ledger.Casting.judge`, `Ledger.Casting.advance`: the same, and what follows, from the standing

## Main results

- `Vote.Sound.exists_transfer`: the tallies of a sound vote refuse no ballot
- `Ledger.Casting.result_eq`: what a ballot comes to depends on the standing of its member
- `Ledger.Casting.standing?_after`: a ballot changes the standing of its member only
-/

namespace Plebiscite

/-! ## The tallies -/

namespace Vote

variable {v : Vote} {name : String} {b : Ballot} {stance : Stance}

theorem countedOf_nonneg {seats : List Seat} (h : ∀ seat ∈ seats, 0 ≤ seat.ballot.magnitude)
    (side : Stance) : 0 ≤ Ledger.countedOf side seats := by
  apply Signal.total_nonneg
  intro n hn
  obtain ⟨seat, hseat, rfl⟩ := List.mem_map.mp hn
  exact h seat (List.mem_of_mem_filter hseat)

/-- The side that a ballot is counted on has its signal. -/
theorem share_le_countedOf {seats : List Seat} (h : ∀ seat ∈ seats, 0 ≤ seat.ballot.magnitude)
    {seat : Seat} (hseat : seat ∈ seats) (side : Stance) :
    side.share seat.ballot.counted seat.ballot.magnitude ≤ Ledger.countedOf side seats := by
  rw [Ledger.countedOf_eq]
  apply Signal.le_total
  · intro n hn
    obtain ⟨s, hs, rfl⟩ := List.mem_map.mp hn
    unfold Stance.share
    split
    · exact h s hs
    · exact le_rfl
  · exact List.mem_map_of_mem hseat

/-- The tallies of a sound vote refuse no ballot that is cast: its old side has its signal, and
the new tallies are those of ballots that hold no more than what was minted. -/
theorem Sound.exists_transfer (hv : v.Sound) (hseat : v.ballot? name = some b)
    (hstance : stance ≠ .uninitialized) :
    ∃ poll, v.poll.transfer b.magnitude b.counted stance = .ok poll := by
  obtain ⟨seat, hmem, rfl, rfl⟩ := exists_seat_of_ballot? hseat
  -- The tallies after the ballot moved are those of the seats with the ballot in its new place.
  let cast : Ballot := ⟨seat.ballot.magnitude, stance, .absent, false⟩
  let seats := (v.setBallot seat.name cast).seats
  have hcounted : ∀ side, Ledger.countedOf side seats =
      Ledger.countedOf side v.seats - side.share seat.ballot.counted seat.ballot.magnitude +
        side.share stance seat.ballot.magnitude :=
    countedOf_setBallot hv.names hmem cast
  have hnonneg : ∀ s ∈ seats, 0 ≤ s.ballot.magnitude := by
    intro s hs
    rcases mem_setBallot hs with hs | hs
    · exact hv.nonneg s hs
    · rw [hs]
      exact hv.nonneg seat hmem
  have hminted : Ledger.mintedOf seats = v.poll.turnout := by
    have htotal := total_setBallot hv.names hmem cast fun b => b.magnitude
    have hold := hv.minted
    simp only [Ledger.mintedOf] at hold ⊢
    rw [htotal, hold]
    exact Int.sub_add_cancel _ _
  have hfor := countedOf_nonneg hnonneg .inFavor
  have hcontra := countedOf_nonneg hnonneg .against
  have hsum := counted_le_minted seats hnonneg
  rw [hminted] at hsum
  rw [hcounted, ← hv.inFavor] at hfor hsum
  rw [hcounted, ← hv.against] at hcontra hsum
  refine ⟨_, Poll.exists_transfer hstance hv.turnout_le rfl ?_ ?_ hfor hcontra hsum⟩
  · rw [hv.inFavor]
    exact share_le_countedOf hv.nonneg hmem .inFavor
  · rw [hv.against]
    exact share_le_countedOf hv.nonneg hmem .against

/-! ## One ballot -/

theorem ballot?_setBallot (v : Vote) (name other : String) (b : Ballot) :
    (v.setBallot name b).ballot? other =
      if other = name then (v.ballot? name).map fun _ => b else v.ballot? other := by
  unfold ballot? setBallot
  rw [Keyed.find?_map Seat.name fun seat _ => by split <;> rfl]
  by_cases hname : other = name
  · subst hname
    rw [if_pos rfl]
    cases h : v.seats.find? (·.name = other) with
    | none => rfl
    | some seat => simp [(Keyed.mem_of_find?_key h).2]
  · rw [if_neg hname]
    cases h : v.seats.find? (·.name = other) with
    | none => rfl
    | some seat => simp [(Keyed.mem_of_find?_key h).2, hname]

end Vote

namespace Ledger

theorem vote?_replaceVote {l : Ledger} {v w : Vote} (hv : l.vote? v.id = some v)
    (hid : w.id = v.id) (n : Number) :
    (l.replaceVote w).vote? n = if n = v.id then some w else l.vote? n := by
  unfold vote? replaceVote updateVote at *
  rw [Keyed.find?_map Vote.id fun u _ => by split <;> simp_all, hid]
  by_cases hn : n = v.id
  · subst hn
    simp [hv]
  · rw [if_neg hn]
    cases h : l.votes.find? (·.id = n) with
    | none => rfl
    | some u => simp [(Keyed.mem_of_find?_key h).2, hn]

/-! ## Where a member stands -/

/-- A ballot to be cast. -/
structure Casting where
  /-- The identifier of the vote, whatever was given as one. -/
  id : Value
  voter : Value
  stance : Stance
  justification : Value
deriving DecidableEq

/-- Where a member stands in a vote. -/
structure Standing where
  voteId : Number
  /-- The end of the vote, if it ends. -/
  ends : Option Number
  /-- What the member holds of the vote, if it holds any. -/
  ballot : Option Ballot

/-- Where the member with a name stands in a vote that exists. -/
def standing? (l : Ledger) (key : Value × String) : Option Standing :=
  (key.1.number?.bind l.vote?).map fun vote => ⟨vote.id, vote.poll.ends, vote.ballot? key.2⟩

theorem standing?_eq {l : Ledger} {v : Vote} {n : Number} (h : l.vote? n = some v) (name : String) :
    l.standing? (.number n, name) = some ⟨v.id, v.poll.ends, v.ballot? name⟩ := by
  simp [standing?, Value.number?, h]

/-- Where a vote is replaced and one ballot in it is another, that member stands elsewhere. -/
theorem standing?_replaceVote {l : Ledger} {v w : Vote} {name : String} {ballot : Ballot}
    (hv : l.vote? v.id = some v) (hid : w.id = v.id) (hends : w.poll.ends = v.poll.ends)
    (hballot : ∀ other, w.ballot? other = if other = name then some ballot else v.ballot? other)
    (key : Value × String) :
    (l.replaceVote w).standing? key =
      if key = (.number v.id, name) then
        (l.standing? key).map fun s => { s with ballot := some ballot }
      else l.standing? key := by
  obtain ⟨id, other⟩ := key
  cases hnumber : id.number? with
  | none =>
    -- What is no number names no vote.
    have hne : (id, other) ≠ (.number v.id, name) := by
      intro h
      rw [(Prod.mk.inj h).1] at hnumber
      cases hnumber
    rw [if_neg hne]
    simp [standing?, hnumber]
  | some n =>
    obtain rfl : id = .number n := by
      cases id <;> simp_all [Value.number?]
    by_cases hn : n = v.id
    · subst hn
      have hw : (l.replaceVote w).vote? v.id = some w := by
        rw [vote?_replaceVote hv hid, if_pos rfl]
      rw [standing?_eq hw, standing?_eq hv, hballot, hends, hid]
      by_cases hother : other = name <;> simp [hother]
    · -- Any other vote is where it was.
      have hne : (.number n, other) ≠ (Value.number v.id, name) := by
        simp [hn]
      rw [if_neg hne]
      simp [standing?, Value.number?, vote?_replaceVote hv hid, hn]

namespace Casting

/-- The vote and the name of the member that a ballot is cast for. -/
def key (x : Casting) : Value × String :=
  (x.id, x.voter.display)

/-- The command that casts a ballot. -/
def command (x : Casting) : Command :=
  .applyVote x.id x.voter x.stance x.justification

/-- What a ballot comes to when it is cast: the stance before and the ballot now. -/
def result (env : Environment) (l : Ledger) (x : Casting) : Except Fault (Stance × Ballot) :=
  match applyVote env x.id x.voter x.stance x.justification l with
  | .ok receipt _ => .ok (receipt.previous, receipt.ballot)
  | .error fault _ => .error fault

/-- What a ballot comes to, from where its member stands. -/
def judge (env : Environment) (x : Casting) (standing : Option Standing) :
    Except Fault (Stance × Ballot) := do
  let some s := standing | throw (.unknownVote x.id)
  let now ← env.height
  if let some ends := s.ends.filter fun ends => ends.lt now then throw (.ended s.voteId ends)
  let some previous := s.ballot | throw (.noSignal x.voter s.voteId)
  let ballot ← previous.change x.stance x.justification
  if x.stance = .uninitialized then throw (.withdrawal previous.counted)
  return (previous.stance, ballot)

/-- Where the member stands after that. -/
def advance (env : Environment) (x : Casting) (standing : Option Standing) : Option Standing :=
  match x.judge env standing with
  | .ok (_, ballot) => standing.map fun s => { s with ballot := some ballot }
  | .error _ => standing

variable {l : Ledger} {env : Environment} {x : Casting}

/-- The tallies are never what a ballot comes to nothing for. -/
theorem result_eq (hl : l.Sound) (env : Environment) (x : Casting) :
    x.result env l = x.judge env (l.standing? x.key) := by
  unfold result applyVote judge standing? key
  -- The checks come in the same order on both sides, and the tallies come last.
  simp only [bind, EStateM.bind, Step.get_eq, require]
  cases hvote : x.id.number?.bind l.vote? with
  | none => rfl
  | some v =>
    have hv : v.Sound := by
      obtain ⟨n, -, hn⟩ := Option.bind_eq_some_iff.mp hvote
      exact hl.votes v (mem_of_vote? hn).1
    simp only [check, Option.map_some]
    cases hnow : env.height with
    | error f => rfl
    | ok now =>
      simp only [Poll.endedBy?, Except.bind]
      cases hends : v.poll.ends.filter fun ends => ends.lt now with
      | some ends => rfl
      | none =>
        cases hseat : v.ballot? x.voter.display with
        | none => rfl
        | some previous =>
          dsimp only
          cases hchange : previous.change x.stance x.justification with
          | error f => rfl
          | ok ballot =>
            -- A withdrawal is refused whatever the tallies are; any other ballot passes them.
            by_cases hstance : x.stance = .uninitialized
            · have hwithdrawn : v.poll.transfer previous.magnitude previous.counted x.stance =
                  .error (.withdrawal previous.counted) := by
                rw [hstance]
                rfl
              rw [hwithdrawn]
              simp only [if_pos hstance]
              rfl
            · obtain ⟨poll, hpoll⟩ := hv.exists_transfer hseat hstance
              rw [hpoll]
              simp only [if_neg hstance]
              rfl

/-- A ballot is refused and changes nothing, or is written to the vote that it is cast in. -/
theorem after_cases (hl : l.Sound) (env : Environment) (x : Casting) :
    ((∃ f, x.result env l = .error f) ∧ l.after env x.command = l) ∨
      ∃ v v' receipt, Revises env l x.command v v' (.cast receipt) ∧
        x.result env l = .ok (receipt.previous, receipt.ballot) ∧
        l.after env x.command = l.replaceVote v' := by
  cases h : applyVote env x.id x.voter x.stance x.justification l with
  | error f l' =>
    left
    have hperform : perform env x.command l = .error f l' := Step.bind_eq_error.mpr (.inl h)
    refine ⟨⟨f, by rw [result, h]⟩, ?_⟩
    rw [after, hperform]
    exact (perform_allOrNothing x.command).eq_of_error hperform
  | ok receipt l' =>
    right
    obtain ⟨v, v', hrevises, rfl⟩ := (applyVote_eq_ok hl.indexed).mp h
    have hperform : perform env x.command l = .ok (.cast receipt) (l.replaceVote v') :=
      Step.map_eq_ok.mpr ⟨receipt, h, rfl⟩
    exact ⟨v, v', receipt, hrevises, by rw [result, h], after_of_ok hperform⟩

/-- Casting a ballot keeps a ledger sound, whatever is known of stakes. -/
theorem sound_after (hl : l.Sound) (env : Environment) (x : Casting) :
    (l.after env x.command).Sound := by
  rcases after_cases hl env x with ⟨-, h⟩ | ⟨v, v', receipt, hrevises, -, h⟩
  · rw [h]
    exact hl
  · rw [h]
    exact hl.replaceVote hrevises.mem hrevises.id_eq ((hl.votes v hrevises.mem).revised hrevises)

/-- A ballot changes where its member stands in its vote, and nobody else's standing. -/
theorem standing?_after (hl : l.Sound) (env : Environment) (x : Casting) (key : Value × String) :
    (l.after env x.command).standing? key =
      if key = x.key then x.advance env (l.standing? key) else l.standing? key := by
  have hadvance : ∀ {r}, x.result env l = r → key = x.key → x.advance env (l.standing? key) =
      match r with
      | .ok (_, ballot) => (l.standing? key).map fun s => { s with ballot := some ballot }
      | .error _ => l.standing? key := by
    intro r hr hkey
    rw [advance, hkey, ← result_eq hl, hr]
  rcases after_cases hl env x with ⟨⟨f, hresult⟩, h⟩ | ⟨v, v', receipt, hrevises, hresult, h⟩
  · rw [h]
    split
    · rename_i hkey
      rw [hadvance hresult hkey]
    · rfl
  · rw [h]
    cases hrevises with
    | @cast _ _ _ _ _ now previous ballot poll hvote hnow hopen hseat hchange htransfer =>
      -- Of the vote only the ballot and the tallies are others now, and nobody stands in tallies.
      obtain ⟨hmem, hid⟩ := mem_of_require hvote
      have hends : poll.ends = v.poll.ends := by rw [(Poll.eq_of_transfer htransfer).1]
      have hballot : ∀ other, (v.setBallot x.voter.display ballot).ballot? other =
          if other = x.voter.display then some ballot else v.ballot? other := by
        intro other
        rw [Vote.ballot?_setBallot, hseat, Option.map_some]
      have hkey : x.key = (.number v.id, x.voter.display) := Prod.ext hid rfl
      have hvote : l.vote? v.id = some v := (vote?_iff hl.indexed).mpr ⟨hmem, rfl⟩
      have hstanding := standing?_replaceVote
        (w := { v.setBallot x.voter.display ballot with poll }) hvote rfl hends hballot key
      refine hstanding.trans ?_
      by_cases h : key = x.key
      · rw [if_pos h, hadvance hresult h, if_pos (h.trans hkey)]
      · rw [if_neg h, if_neg fun h' => h (h'.trans hkey.symm)]

end Casting

end Ledger

end Plebiscite
