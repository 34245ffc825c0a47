import Plebiscite.Proofs.Ledger.Membership
import Plebiscite.Proofs.Ledger.Restorable

/-!
# Votes that are stored and opened again

As long as members are texts and stances are known, a vote that is stored and opened again is the
same vote: the same ballots in the same order, the same tallies, the same end.  Of its bounds only
the amounts are stored, so whatever else was said with them is gone.

## Main definitions

- `Vote.bare`: a vote with its bounds alone
- `Vote.Orderly`, `Ledger.Orderly`: sound votes with their seats in order
- `Command.Known`: a command that names a known stance, if it names one

## Main results

- `Ledger.Orderly.votes_of_reopen`, `Ledger.Orderly.mem_of_reopen`: the votes of a ledger that was
  stored and opened again
- `Ledger.Orderly.move`: moves keep the order
-/

namespace Plebiscite

open Snapshot

/-- A vote as it is stored: of its bounds nothing but the amounts is kept. -/
def Vote.bare (v : Vote) : Vote :=
  { v with poll := { v.poll with threshold := v.poll.threshold.bare } }

/-- A vote with known stances and with its seats in the order of their members. -/
structure Vote.Orderly (v : Vote) : Prop where
  named : ∀ seat ∈ v.seats, Plan.isNamed seat.member = true
  ascending : (v.seats.map Seat.name).Pairwise fun a b => Units.notAfter a b = true
  known : ∀ seat ∈ v.seats, seat.ballot.stance ∈ Stance.all

namespace Ledger

variable {l l' : Ledger} {env : Environment} {c : Command} {a : Answer} {v w : Vote}

/-- A ledger of sound votes with their seats in order. -/
structure Orderly (l : Ledger) : Prop where
  sound : l.Sound
  votes : ∀ v ∈ l.votes, v.Orderly

/-- A known stance, if a command names one. -/
def Command.Known : Command → Prop
  | .applyVote _ _ stance _ => stance ∈ Stance.all
  | _ => True

/-! ## Storing and opening again -/

/-- A stored poll can be read in one way only. -/
theorem eq_of_readsPoll (hv : v.Sound) {p : Number × Poll}
    (h : ReadsPoll (ofPoll v.id v.poll) p) : p = (v.id, v.bare.poll) := by
  have hread := h.1
  obtain ⟨hid, hinitialized, hcount, hends, hheights⟩ := head_of_readPoll hread
  have hsame : v.id = p.1 := Value.number.inj (readPoll_eq_ok hread).1
  have hstart : v.poll.initialized = p.2.initialized := Value.number.inj hinitialized
  have hend : ∀ n ∈ v.poll.ends, Guard.isBlockHeight (.number n) = true := by
    intro n hn
    have hmem : Value.number n ∈ p.2.ends.map Value.number := by
      rw [← hends]
      exact Option.mem_map_of_mem _ hn
    obtain ⟨k, hk, hkn⟩ := Option.mem_map.mp hmem
    rw [← hkn]
    exact isCount_number.mp (hheights k hk)
  rw [readPoll_ofPoll (isId_number.mp (hsame ▸ hid)) hv.inRange
    (isCount_number.mp (hstart ▸ hcount)) hend] at hread
  exact (Except.ok.inj hread).symm

/-- A stored record can be read in one way only. -/
theorem eq_of_readsRecord (hl : l.Orderly) {polls : List (Number × Poll)} {r s : ReadRecord}
    (hr : r ∈ l.readRecords)
    (h : ReadsRecord polls (ofBallot r.voteId r.seat.member r.seat.ballot) s) : s = r := by
  obtain ⟨hvote, hread, hmember⟩ := h
  obtain ⟨v, hv, -, hseat⟩ := mem_readRecords.mp hr
  have hsound := hl.sound.votes v hv
  have hid : r.voteId = s.voteId := Value.number.inj (pollOf_eq_some.mp hvote).1
  have hvalid := isId_number.mp (exists_readBallot.mp ⟨_, hread⟩).1
  rw [readBallot_ofBallot hvalid (hsound.inRange_of_seat hseat) ((hl.votes v hv).known _ hseat)
    (hsound.stale _ hseat)] at hread
  obtain ⟨id, member, ballot⟩ := r
  obtain ⟨id', member', ballot'⟩ := s
  cases hid
  cases hmember
  cases hread
  rfl

namespace Orderly

/-- Everything that is read is what was stored. -/
theorem votes_of_restoration (hl : l.Orderly) {r : Restoration} {o : Options}
    (hr : r.Of o l.snapshot) : r.votes = l.votes.map Vote.bare := by
  have hpolls : r.polls = l.votes.map fun v => (v.id, v.bare.poll) := by
    have hread := hr.polls
    rw [show l.snapshot.votes = l.votes.map fun v => ofPoll v.id v.poll from rfl,
      List.forall₂_map_left_iff] at hread
    exact Checks.eq_map_of_forall₂ hread fun v hv p => eq_of_readsPoll (hl.sound.votes v hv)
  have hrecords : r.records = l.readRecords := by
    have hread := hr.records
    rw [snapshot_records, List.forall₂_map_left_iff] at hread
    rw [Checks.eq_map_of_forall₂ hread fun s hs t => eq_of_readsRecord hl hs, List.map_id']
  have hmade := hr.votes
  rw [hpolls, hrecords, List.forall₂_map_left_iff] at hmade
  refine Checks.eq_map_of_forall₂ hmade fun v hv w hw => ?_
  -- The seats of the vote are picked out of all records, and are in order already.
  have horderly := hl.votes v hv
  rw [(assemble_eq_ok.mp hw).1, filter_readRecords hl.sound.indexed hv,
    seated_eq horderly.named horderly.ascending]
  have hissued := (hl.sound.votes v hv).issued
  simp [Vote.bare, hissued]

/-- A ledger that is stored and opened again has the same votes. -/
theorem votes_of_reopen (hl : l.Orderly) {o : Options} (h : restore o l.snapshot = .ok l') :
    l'.votes = (l.votes.map Vote.bare).foldl insertVote [] := by
  obtain ⟨r, hr, rfl⟩ := restore_eq_ok.mp h
  rw [← hl.votes_of_restoration hr]
  rfl

theorem mem_of_reopen (hl : l.Orderly) {o : Options} (h : restore o l.snapshot = .ok l') :
    w ∈ l'.votes ↔ ∃ v ∈ l.votes, v.bare = w := by
  rw [hl.votes_of_reopen h, (foldl_insertVote_perm _ []).mem_iff, List.nil_append, List.mem_map]

theorem of_reopen (hl : l.Orderly) {o : Options} (h : restore o l.snapshot = .ok l') :
    l'.Orderly := by
  refine ⟨sound_of_restore h, fun w hw => ?_⟩
  obtain ⟨v, hv, rfl⟩ := (hl.mem_of_reopen h).mp hw
  exact ⟨(hl.votes v hv).named, (hl.votes v hv).ascending, (hl.votes v hv).known⟩

end Orderly

/-! ## Moves -/

/-- What revises a vote keeps no rule. -/
theorem Revises.proper (h : Revises env l c v w a) (hc : c.Known) : c.Proper := by
  cases h with
  | cast => exact hc
  | extended | retitled | cleared => trivial

theorem Revises.orderly (h : Revises env l c v w a) (hc : c.Known) (hv : v.Orderly) :
    w.Orderly :=
  ⟨h.named hv.named, h.names ▸ hv.ascending, h.known (h.proper hc) hv.known⟩

theorem Opens.orderly {o : Opening} (h : Opens env l o v) (henv : env.stakes.WellTyped) :
    v.Orderly := by
  obtain ⟨plan, hmake, -, -, hseats⟩ := h.minted
  have hp := Plan.sound_of_make henv hmake
  refine ⟨?_, ?_, ?_⟩ <;> rw [hseats, seatsOf]
  · simpa using hp.named
  · rw [List.map_map]
    exact hp.ascending
  · simp [Ballot.mint, Stance.all]

namespace Orderly

theorem accepts (hl : l.Orderly) (henv : env.stakes.WellTyped) (hc : c.Known)
    (h : Accepts env l c a l') : l'.Orderly :=
  ⟨hl.sound.accepts henv h, h.forall_votes hl.votes (fun _ _ _ hopens => hopens.orderly henv)
    fun _ _ hrevises hv => hrevises.orderly hc hv⟩

theorem after (hl : l.Orderly) (henv : env.stakes.WellTyped) (hc : c.Known) :
    (l.after env c).Orderly := by
  rcases after_cases hl.sound.indexed env c with h | ⟨a, h⟩
  · rw [h]
    exact hl
  · exact hl.accepts henv hc h

theorem reopen (hl : l.Orderly) (o : Options) : (l.move (.reopen o)).Orderly := by
  simp only [move]
  cases h : restore o l.snapshot with
  | ok l' => exact hl.of_reopen h
  | error f => exact hl

theorem of_empty {o : Options} (h : Ledger.empty o = .ok l) : l.Orderly := by
  obtain ⟨settings, -, rfl⟩ := Checks.exceptMap_eq_ok.mp h
  exact ⟨⟨List.nodup_nil, by simp [blank]⟩, by simp [blank]⟩

/-- A snapshot whose records are of texts is restored in order. -/
theorem of_restore {o : Options} {s : Snapshot} (h : restore o s = .ok l)
    (hmembers : ∀ e ∈ s.records, Plan.isNamed e.member = true) : l.Orderly := by
  refine ⟨sound_of_restore h, fun v hv => ?_⟩
  obtain ⟨r, hr, rfl⟩ := restore_eq_ok.mp h
  have hmem := (r.votes_perm s).subset hv
  obtain ⟨hnamed, hascending⟩ := hr.ascending hmembers hmem
  exact ⟨hnamed, hascending, (hr.restorable hmem).known⟩

end Orderly

end Ledger

end Plebiscite
