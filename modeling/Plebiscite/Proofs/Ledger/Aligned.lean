import Plebiscite.Proofs.Ledger.Alike
import Plebiscite.Proofs.Ledger.Conservation

/-!
# Ballots handed out anew beside ballots that are kept

Two ledgers under different reset policies are aligned if they differ in their ballots alone, and
in these only so far as it is not counted: a ballot that was handed out anew stands beside one
that was kept and is counted for no side.  Whatever is written to both keeps them aligned.

## Main definitions

- `Poll.Covered`: the tallies fit into what was minted
- `Ballot.Aligned`, `Seat.Aligned`, `Vote.Aligned`, `Ledger.Aligned`: what is held side by side

## Main results

- `Ballot.Aligned.reset`: resetting two aligned ballots, each under its policy
- `Poll.transfer_agree`: ballots that are counted for no side move alike
- `Ledger.Aligned.require`, `Ledger.Aligned.writeBallot`, `Ledger.Aligned.insertVote`: looking up
  and writing at aligned ledgers
-/

namespace Plebiscite

/-! ## Ballots -/

/-- Two ballots that are counted alike.  After the tallies were cleared, a ballot that was handed
out anew stands beside one that was kept and is counted for no side. -/
structure Ballot.Aligned (cleared : Prop) (b b' : Ballot) : Prop where
  magnitude : b'.magnitude = b.magnitude
  fresh : b.stale = false
  held : (b'.stale = false ∧ b'.stance = b.stance) ∨
    (cleared ∧ b.stance = .uninitialized ∧ b'.counted.isSided = false)

namespace Ballot.Aligned

variable {cleared : Prop} {b b' : Ballot}

/-- A ballot that is not stale is aligned with itself. -/
theorem self (hb : b.stale = false) : b.Aligned cleared b :=
  ⟨rfl, hb, .inl ⟨hb, rfl⟩⟩

theorem mono {more : Prop} (h : b.Aligned cleared b') (hmore : cleared → more) :
    b.Aligned more b' :=
  ⟨h.magnitude, h.fresh, h.held.imp_right fun ⟨hcleared, hheld⟩ => ⟨hmore hcleared, hheld⟩⟩

/-- One ballot is handed out anew and the other is put aside. -/
theorem reset (h : b.Aligned cleared b') (hcleared : cleared) :
    (ResetPolicy.resetBallots.reset b).Aligned cleared (ResetPolicy.keepBallots.reset b') := by
  have hanew : (ResetPolicy.resetBallots.reset b).stale = false ∧
      (ResetPolicy.resetBallots.reset b).stance = .uninitialized := by
    simp only [ResetPolicy.reset]
    split
    · rename_i hstance
      exact ⟨h.fresh, hstance⟩
    · exact ⟨rfl, rfl⟩
  refine ⟨?_, hanew.1, .inr ⟨hcleared, hanew.2, ResetPolicy.counted_reset _ _⟩⟩
  simpa using h.magnitude

end Ballot.Aligned

/-! ## Tallies -/

namespace Poll

variable {p q : Poll} {magnitude : Int} {held held' wanted : Stance}

/-- The tallies fit into what was minted. -/
def Covered (p : Poll) : Prop :=
  0 ≤ p.turnout ∧ p.inFavor + p.against ≤ p.turnout

theorem remove_of_unsided (h : held.isSided = false) : p.remove magnitude held wanted = .ok p := by
  cases held with
  | inFavor | against => cases h
  | _ => rfl

theorem count_of_unsided (h : wanted.isSided = false) : p.count magnitude wanted = .ok p := by
  cases wanted with
  | inFavor | against => cases h
  | _ => rfl

/-- Of a ballot that is counted for no side, it does not matter which one it is. -/
theorem transfer_agree (p : Poll) (magnitude : Int) (wanted : Stance)
    (h : held.isSided = false) (h' : held'.isSided = false) :
    Agree Eq (p.transfer magnitude held wanted) (p.transfer magnitude held' wanted) := by
  unfold transfer
  rw [remove_of_unsided h, remove_of_unsided h']
  by_cases hwanted : wanted = .uninitialized
  · rw [if_pos hwanted, if_pos hwanted]
    exact .error rfl
  · rw [if_neg hwanted, if_neg hwanted]
    -- Only the wording of a refusal could tell the two ballots apart, not its code.
    apply (Agree.refl (p.count magnitude wanted)).bind
    rintro next _ rfl
    by_cases hnext : p.turnout < next.inFavor + next.against
    · rw [if_pos hnext, if_pos hnext]
      exact .error rfl
    · rw [if_neg hnext, if_neg hnext]
      exact .ok rfl

/-- A ballot that moves from no side to no side leaves the tallies as they are. -/
theorem transfer_of_unsided (hp : p.Covered) (h : held.isSided = false)
    (hwanted : wanted.isSided = false) (hcast : wanted ≠ .uninitialized) :
    p.transfer magnitude held wanted = .ok p := by
  simp only [transfer, Checks.ite_throw_bind_eq_ok, Checks.bind_eq_ok, Checks.pure_eq_ok]
  exact ⟨hcast, p, remove_of_unsided h, p, count_of_unsided hwanted, not_lt.mpr hp.2, rfl⟩

theorem Covered.transfer (hp : p.Covered) (h : p.transfer magnitude held wanted = .ok q) :
    q.Covered := by
  obtain ⟨rfl, hle⟩ := eq_of_transfer h
  exact ⟨hp.1, hle⟩

theorem Covered.extend (hp : p.Covered) (candidate : Number) : (p.extend candidate).Covered := by
  rw [extend_eq]
  exact hp

theorem Covered.retitle (hp : p.Covered) (topic : Value) (clear : Bool) :
    (p.retitle topic clear).Covered := by
  cases clear with
  | false => exact hp
  | true => exact ⟨hp.1, hp.1⟩

end Poll

/-! ## Votes -/

/-- Two seats of one member with ballots that are counted alike. -/
structure Seat.Aligned (cleared : Prop) (s s' : Seat) : Prop where
  member : s'.member = s.member
  ballot : s.ballot.Aligned cleared s'.ballot

theorem Seat.Aligned.name {cleared : Prop} {s s' : Seat} (h : s.Aligned cleared s') :
    s'.name = s.name :=
  congrArg Value.display h.member

/-- Two votes that differ in their ballots alone, where `cleared` are the votes whose tallies were
cleared. -/
structure Vote.Aligned (cleared : List Value) (v v' : Vote) : Prop where
  id : v'.id = v.id
  poll : v'.poll = v.poll
  issued : v'.issued = v.issued
  covered : v.poll.Covered
  seats : List.Forall₂ (Seat.Aligned (.number v.id ∈ cleared)) v.seats v'.seats
  /-- Members with the same name share one ballot. -/
  shared : ∀ s ∈ v'.seats, ∀ t ∈ v'.seats, s.name = t.name → s.ballot = t.ballot

namespace Vote.Aligned

variable {cleared : List Value} {v v' : Vote}

theorem mono {more : List Value} (h : v.Aligned cleared v') (hmore : cleared ⊆ more) :
    v.Aligned more v' := by
  refine ⟨h.id, h.poll, h.issued, h.covered, h.seats.imp fun s s' hs => ?_, h.shared⟩
  exact ⟨hs.member, hs.ballot.mono fun hmem => hmore hmem⟩

/-- A member holds a ballot in both votes or in neither. -/
theorem ballot?_cases (h : v.Aligned cleared v') (name : String) :
    (v.ballot? name = none ∧ v'.ballot? name = none) ∨
      ∃ b b', v.ballot? name = some b ∧ v'.ballot? name = some b' ∧
        b.Aligned (.number v.id ∈ cleared) b' := by
  have hfind := Keyed.find?_forall₂ (p := fun s => s.name = name) (q := fun s => s.name = name)
    h.seats fun s s' hs => by rw [hs.name]
  unfold Vote.ballot?
  generalize v.seats.find? _ = s, v'.seats.find? _ = s' at hfind
  cases hfind with
  | none => exact .inl ⟨rfl, rfl⟩
  | some hs => exact .inr ⟨_, _, rfl, rfl, hs.ballot⟩

theorem setBallot (h : v.Aligned cleared v') (name : String) {b b' : Ballot}
    (hb : b.Aligned (.number v.id ∈ cleared) b') :
    (v.setBallot name b).Aligned cleared (v'.setBallot name b') := by
  refine ⟨h.id, h.poll, h.issued, h.covered, ?_, ?_⟩
  · refine List.forall₂_map_left_iff.mpr (List.forall₂_map_right_iff.mpr ?_)
    refine h.seats.imp fun s s' hs => ?_
    rw [hs.name]
    split
    · exact ⟨hs.member, hb⟩
    · exact hs
  · intro written hwritten other hother hname
    obtain ⟨s, hs, rfl⟩ := List.mem_map.mp hwritten
    obtain ⟨t, ht, rfl⟩ := List.mem_map.mp hother
    have hkept : ∀ s : Seat,
        (if s.name = name then { s with ballot := b' } else s).name = s.name := by
      intro s
      split <;> rfl
    rw [hkept, hkept] at hname
    -- A name is written for all that have it or for none.
    by_cases hsname : s.name = name
    · rw [if_pos hsname, if_pos (hname.symm.trans hsname)]
    · rw [if_neg hsname, if_neg fun htname => hsname (hname.trans htname)]
      exact h.shared s hs t ht hname

theorem withPoll (h : v.Aligned cleared v') {p : Poll} (hp : p.Covered) :
    ({ v with poll := p } : Vote).Aligned cleared { v' with poll := p } :=
  ⟨h.id, rfl, h.issued, hp, h.seats, h.shared⟩

/-- Writing a ballot that is held already changes nothing. -/
theorem setBallot_self (h : v.Aligned cleared v') {name : String} {b : Ballot}
    (hb : v'.ballot? name = some b) : v'.setBallot name b = v' := by
  obtain ⟨seat, hseat, hname, hballot⟩ := exists_seat_of_ballot? hb
  -- Members with this name all hold the ballot that was found first.
  have hseats : (v'.seats.map fun s => if s.name = name then { s with ballot := b } else s) =
      v'.seats := by
    conv_rhs => rw [← List.map_id v'.seats]
    refine List.map_congr_left fun s hs => ?_
    split
    · rename_i hsname
      rw [← hballot, ← h.shared s hs seat hseat (hsname.trans hname.symm)]
      rfl
    · rfl
  rw [Vote.setBallot, hseats]

end Vote.Aligned

/-! ## Ledgers -/

namespace Ledger

/-- A ledger that hands ballots out anew beside one that keeps them. -/
structure Aligned (cleared : List Value) (l l' : Ledger) : Prop where
  handsOut : l.settings.policy = .resetBallots
  keeps : l'.settings.policy = .keepBallots
  ceiling : l'.settings.ceiling = l.settings.ceiling
  register : l'.register = l.register
  lastVote : l'.lastVote = l.lastVote
  openVotes : l'.openVotes = l.openVotes
  votes : List.Forall₂ (Vote.Aligned cleared) l.votes l'.votes
  ids : (l'.votes.map (·.id)).Nodup

variable {cleared : List Value} {l l' : Ledger} {v v' : Vote} {env : Environment}

/-- A vote that an update does not change may be updated. -/
theorem updateVote_of_fixed {f : Vote → Vote} (hids : (l.votes.map (·.id)).Nodup)
    (hv : v ∈ l.votes) (hf : f v = v) : l.updateVote v.id f = l := by
  -- No other vote has its identifier.
  have hvotes : (l.votes.map fun w => if w.id = v.id then f w else w) = l.votes := by
    conv_rhs => rw [← List.map_id l.votes]
    refine List.map_congr_left fun w hw => ?_
    split
    · rename_i hid
      obtain rfl := List.inj_on_of_nodup_map hids hw hv hid
      exact hf
    · rfl
  rw [updateVote, hvotes]

namespace Aligned

theorem mono {more : List Value} (h : l.Aligned cleared l') (hmore : cleared ⊆ more) :
    l.Aligned more l' :=
  ⟨h.handsOut, h.keeps, h.ceiling, h.register, h.lastVote, h.openVotes,
    h.votes.imp fun _ _ hv => hv.mono hmore, h.ids⟩

theorem vote? (h : l.Aligned cleared l') (n : Number) :
    Option.Rel (Vote.Aligned cleared) (l.vote? n) (l'.vote? n) :=
  Keyed.find?_forall₂ h.votes fun v v' hv => by rw [hv.id]

theorem hasVote (h : l.Aligned cleared l') : l'.hasVote = l.hasVote := by
  funext n
  have hn := h.vote? n
  unfold Ledger.hasVote
  generalize l.vote? n = found, l'.vote? n = found' at hn
  cases hn with
  | none => rfl
  | some _ => rfl

/-- A vote is found in both ledgers or in neither. -/
theorem require (h : l.Aligned cleared l') (id : Value) :
    Agree (Vote.Aligned cleared) (l.require id) (l'.require id) := by
  unfold Ledger.require
  cases id.number? with
  | none => exact .error rfl
  | some n =>
    have hn := h.vote? n
    simp only [Option.bind_some]
    generalize l.vote? n = found, l'.vote? n = found' at hn
    cases hn with
    | none => exact .error rfl
    | some hv => exact .ok hv

theorem updateVote (h : l.Aligned cleared l') (id : Number) {f f' : Vote → Vote}
    (hf : ∀ v v', v.Aligned cleared v' → v.id = id → (f v).Aligned cleared (f' v'))
    (hid : ∀ v', (f' v').id = v'.id) :
    (l.updateVote id f).Aligned cleared (l'.updateVote id f') := by
  refine ⟨h.handsOut, h.keeps, h.ceiling, h.register, h.lastVote, h.openVotes, ?_, ?_⟩
  · refine List.forall₂_map_left_iff.mpr (List.forall₂_map_right_iff.mpr ?_)
    refine h.votes.imp fun v v' hv => ?_
    rw [hv.id]
    split
    · rename_i hvid
      exact hf v v' hv hvid
    · exact hv
  · have hkept : (l'.updateVote id f').votes.map (·.id) = l'.votes.map (·.id) := by
      refine Keyed.map_key_eq fun v' _ => ?_
      split
      · exact hid v'
      · rfl
    rw [hkept]
    exact h.ids

theorem writeBallot (h : l.Aligned cleared l') (id : Number) (name : String) {b b' : Ballot}
    (hb : b.Aligned (.number id ∈ cleared) b') :
    (l.updateVote id fun v => v.setBallot name b).Aligned cleared
      (l'.updateVote id fun v => v.setBallot name b') :=
  h.updateVote id (fun _ _ hv hid => hv.setBallot name (hid ▸ hb)) fun _ => rfl

theorem writePoll (h : l.Aligned cleared l') (id : Number) {poll : Poll} (hp : poll.Covered) :
    (l.updateVote id fun v => { v with poll }).Aligned cleared
      (l'.updateVote id fun v => { v with poll }) :=
  h.updateVote id (fun _ _ hv _ => hv.withPoll hp) fun _ => rfl

theorem insertVote (h : l.Aligned cleared l') {v : Vote} (hv : v.Aligned cleared v)
    (hfree : l'.vote? v.id = none) :
    ({ l with votes := Ledger.insertVote l.votes v } : Ledger).Aligned cleared
      { l' with votes := Ledger.insertVote l'.votes v } := by
  refine ⟨h.handsOut, h.keeps, h.ceiling, h.register, h.lastVote, h.openVotes, ?_, ?_⟩
  · exact Keyed.insertBefore_forall₂ h.votes hv fun w w' hw => by rw [hw.id]
  · have hperm := (Keyed.insertBefore_perm (fun a b : Vote => a.id.precedes b.id) v l'.votes).map
      (·.id)
    -- Wherever it is put, it is one more vote under an identifier that was free.
    refine hperm.nodup_iff.mpr ?_
    rw [List.map_cons, List.nodup_cons]
    exact ⟨Keyed.find?_key_eq_none.mp hfree, h.ids⟩

end Aligned

end Ledger

end Plebiscite
