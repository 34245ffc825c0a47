import Plebiscite.Proofs.Ledger.Run

/-!
# Conservation of signal

The tallies of a vote are kept apart from its ballots and change with every ballot, at every reset
and at every restoring.  They always agree: each side has exactly the signal of the ballots that
are cast for it and not stale, and all ballots together hold what was minted.

## Main definitions

- `Vote.tally`: the signal of the ballots for one side, summed up from the ballots
- `Vote.Sound`: what holds of every vote
- `Vote.Conserves`: the tallies, the ballots and the bounds of a vote agree

## Main results

- `Vote.Sound.revised`, `Vote.sound_of_opens`, `Ledger.sound_of_restore`: what keeps votes sound
- `Ledger.Reachable.sound`: all votes of all reachable ledgers are sound
- `Ledger.conserves_of_reachable`: signal is conserved
-/

namespace Plebiscite

namespace Vote

/-- The signal of the ballots for one side that are not stale. -/
def tally (v : Vote) (side : Stance) : Int :=
  Signal.total ((v.seats.filter fun seat =>
    seat.ballot.stance = side ∧ seat.ballot.stale = false).map (·.ballot.magnitude))

/-- The tallies are those of the ballots, the ballots hold what was minted, no more is minted than
there can be, and the bounds can be reached. -/
structure Conserves (v : Vote) : Prop where
  inFavor : v.poll.inFavor = v.tally .inFavor
  against : v.poll.against = v.tally .against
  minted : Signal.total (v.seats.map (·.ballot.magnitude)) = v.poll.turnout
  cast_le : v.poll.inFavor + v.poll.against ≤ v.poll.turnout
  turnout_le : v.poll.turnout ≤ Signal.max
  bound_le : v.poll.threshold.inFavor ≤ v.poll.turnout
  rejecting_le : ∀ bound ∈ v.poll.threshold.against, bound ≤ v.poll.turnout
  stale : ∀ seat ∈ v.seats, seat.ballot.stale = true →
    seat.ballot.stance = .inFavor ∨ seat.ballot.stance = .against

/-- What holds of every vote, in terms of the checks that are made when a vote is restored. -/
structure Sound (v : Vote) : Prop where
  names : (v.seats.map Seat.name).Nodup
  nonneg : ∀ seat ∈ v.seats, 0 ≤ seat.ballot.magnitude
  stale : ∀ seat ∈ v.seats, seat.ballot.stale = true → seat.ballot.stance.isSided = true
  minted : Ledger.mintedOf v.seats = v.poll.turnout
  issued : v.issued = v.poll.turnout
  turnout_le : v.poll.turnout ≤ Signal.max
  inFavor : v.poll.inFavor = Ledger.countedOf .inFavor v.seats
  against : v.poll.against = Ledger.countedOf .against v.seats
  bounds : ∀ b ∈ v.poll.threshold.bounds, 0 ≤ b ∧ b ≤ v.poll.turnout

/-! ## What is counted -/

/-- A ballot is counted for a side exactly when it is cast for that side and not stale. -/
theorem counted_eq_iff {b : Ballot} {side : Stance} (hside : side.isSided = true) :
    b.counted = side ↔ b.stance = side ∧ b.stale = false := by
  unfold Ballot.counted
  cases b.stale with
  | false => simp
  | true =>
    have hne : Stance.uninitialized ≠ side := by
      rintro rfl
      cases hside
    simp [hne]

theorem countedOf_eq_tally (v : Vote) {side : Stance} (hside : side.isSided = true) :
    Ledger.countedOf side v.seats = v.tally side := by
  simp only [Ledger.countedOf, Ledger.mintedOf, tally, counted_eq_iff hside]

variable {v v' : Vote}

/-- No ballot is counted on both sides. -/
theorem counted_le_minted (seats : List Seat) (h : ∀ seat ∈ seats, 0 ≤ seat.ballot.magnitude) :
    Ledger.countedOf .inFavor seats + Ledger.countedOf .against seats ≤
      Ledger.mintedOf seats := by
  rw [Ledger.countedOf_eq, Ledger.countedOf_eq, ← Signal.total_map_add]
  refine Signal.total_map_le fun seat hseat => ?_
  have hnonneg := h seat hseat
  unfold Stance.share
  cases seat.ballot.counted <;> simp [hnonneg]

/-- A sound vote can be written down. -/
theorem Sound.inRange (h : v.Sound) : Snapshot.InRange v.poll := by
  have hcounted : ∀ side, 0 ≤ Ledger.countedOf side v.seats := by
    intro side
    refine Signal.total_nonneg fun n hn => ?_
    obtain ⟨seat, hseat, rfl⟩ := List.mem_map.mp hn
    exact h.nonneg seat (List.mem_of_mem_filter hseat)
  have hle := counted_le_minted v.seats h.nonneg
  have hminted := h.minted
  have hmax := h.turnout_le
  have hinFavor := hcounted .inFavor
  have hagainst := hcounted .against
  refine ⟨?_, fun b hb => ?_, ?_, ?_⟩
  · exact Signal.inRange_iff.mpr ⟨by omega, hmax⟩
  · have hbound := h.bounds b hb
    exact Signal.inRange_iff.mpr ⟨hbound.1, by omega⟩
  · rw [h.inFavor]
    exact Signal.inRange_iff.mpr ⟨hinFavor, by omega⟩
  · rw [h.against]
    exact Signal.inRange_iff.mpr ⟨hagainst, by omega⟩

theorem Sound.inRange_of_seat (h : v.Sound) {seat : Seat} (hseat : seat ∈ v.seats) :
    Signal.inRange seat.ballot.magnitude = true := by
  have hnonneg : ∀ n ∈ v.seats.map (·.ballot.magnitude), 0 ≤ n := by
    simpa using h.nonneg
  have hle := Signal.le_total hnonneg (List.mem_map_of_mem hseat)
  have hminted := h.minted
  rw [Ledger.mintedOf] at hminted
  rw [hminted] at hle
  exact Signal.inRange_iff.mpr ⟨h.nonneg seat hseat, hle.trans h.turnout_le⟩

/-- A sound vote conserves its signal. -/
theorem Sound.conserves (h : v.Sound) : v.Conserves where
  inFavor := h.inFavor.trans (countedOf_eq_tally v rfl)
  against := h.against.trans (countedOf_eq_tally v rfl)
  minted := h.minted
  cast_le := by
    rw [h.inFavor, h.against, ← h.minted]
    exact counted_le_minted v.seats h.nonneg
  turnout_le := h.turnout_le
  bound_le := (h.bounds _ (by simp [Threshold.bounds])).2
  rejecting_le bound hbound := (h.bounds _ (by simp_all [Threshold.bounds])).2
  stale seat hseat hstale := by
    have hsided := h.stale seat hseat hstale
    revert hsided
    cases seat.ballot.stance <;> simp [Stance.isSided]

/-! ## Revised votes -/

theorem exists_seat_of_ballot? {name : String} {b : Ballot} (h : v.ballot? name = some b) :
    ∃ seat ∈ v.seats, seat.name = name ∧ seat.ballot = b := by
  obtain ⟨seat, hfind, rfl⟩ := Option.map_eq_some_iff.mp h
  obtain ⟨hseat, hname⟩ := Keyed.mem_of_find?_key hfind
  exact ⟨seat, hseat, hname, rfl⟩

theorem mem_setBallot {name : String} {b : Ballot} {seat : Seat}
    (h : seat ∈ (v.setBallot name b).seats) : seat ∈ v.seats ∨ seat.ballot = b := by
  obtain ⟨old, hold, rfl⟩ := List.mem_map.mp h
  split
  · exact .inr rfl
  · exact .inl hold

/-- Any sum over the seats changes by what the one ballot changes. -/
theorem total_setBallot (hnames : (v.seats.map Seat.name).Nodup) {seat : Seat}
    (hseat : seat ∈ v.seats) (b : Ballot) (f : Ballot → Int) :
    Signal.total ((v.setBallot seat.name b).seats.map fun s => f s.ballot) =
      Signal.total (v.seats.map fun s => f s.ballot) - f seat.ballot + f b := by
  have hothers : ∀ s : Seat, s.name ≠ seat.name →
      (if s.name = seat.name then { s with ballot := b } else s) = s := fun _ hs => if_neg hs
  have htotal := Signal.total_map_replace hnames hseat hothers fun s => f s.ballot
  simp only [if_true] at htotal
  exact htotal

/-- A side loses what the old ballot had on it, and gains what the new one has. -/
theorem countedOf_setBallot (hnames : (v.seats.map Seat.name).Nodup) {seat : Seat}
    (hseat : seat ∈ v.seats) (b : Ballot) (side : Stance) :
    Ledger.countedOf side (v.setBallot seat.name b).seats =
      Ledger.countedOf side v.seats - side.share seat.ballot.counted seat.ballot.magnitude +
        side.share b.counted b.magnitude := by
  rw [Ledger.countedOf_eq, Ledger.countedOf_eq]
  exact total_setBallot hnames hseat _ fun b => side.share b.counted b.magnitude

theorem Sound.cast (hv : v.Sound) {name : String} {previous ballot : Ballot} {stance : Stance}
    {justification : Value} {poll : Poll} (hseat : v.ballot? name = some previous)
    (hchange : previous.change stance justification = .ok ballot)
    (htransfer : v.poll.transfer previous.magnitude previous.counted stance = .ok poll) :
    ({ v.setBallot name ballot with poll } : Vote).Sound := by
  obtain ⟨seat, hmem, rfl, rfl⟩ := exists_seat_of_ballot? hseat
  obtain rfl := Ballot.eq_of_change hchange
  obtain ⟨rfl, -⟩ := Poll.eq_of_transfer htransfer
  -- The ballot keeps its magnitude, so what is minted stays.
  have hcounted := countedOf_setBallot hv.names hmem
    ⟨seat.ballot.magnitude, stance, justification, false⟩
  refine ⟨?_, ?_, ?_, ?_, hv.issued, hv.turnout_le, ?_, ?_, hv.bounds⟩
  · rw [setBallot_names]
    exact hv.names
  · intro s hs
    rcases mem_setBallot hs with hs | hs
    · exact hv.nonneg s hs
    · exact hs ▸ hv.nonneg seat hmem
  · intro s hs hstale
    rcases mem_setBallot hs with hs | hs
    · exact hv.stale s hs hstale
    · rw [hs] at hstale
      cases hstale
  · have htotal := total_setBallot hv.names hmem
      ⟨seat.ballot.magnitude, stance, justification, false⟩ fun b => b.magnitude
    have hminted := hv.minted
    simp only [Ledger.mintedOf, sub_add_cancel] at hminted htotal ⊢
    exact htotal.trans hminted
  · rw [hcounted, ← hv.inFavor]
    rfl
  · rw [hcounted, ← hv.against]
    rfl

theorem Sound.cleared (hv : v.Sound) (policy : ResetPolicy) (topic : Value) :
    ({ v.resetBallots policy with poll := v.poll.retitle topic true } : Vote).Sound := by
  -- Nothing is counted after a reset, as the tallies say.
  have hcounted : ∀ seat ∈ (v.resetBallots policy).seats,
      seat.ballot.counted.isSided = false := by
    intro seat hseat
    obtain ⟨old, -, hreset⟩ := mem_resetBallots hseat
    rw [hreset]
    exact policy.counted_reset old.ballot
  refine ⟨?_, ?_, ?_, ?_, hv.issued, hv.turnout_le, ?_, ?_, hv.bounds⟩
  · rw [resetBallots_names]
    exact hv.names
  · intro seat hseat
    obtain ⟨old, hold, hreset⟩ := mem_resetBallots hseat
    rw [hreset]
    simpa using hv.nonneg old hold
  · intro seat hseat
    obtain ⟨old, hold, hreset⟩ := mem_resetBallots hseat
    rw [hreset]
    exact policy.sided_of_stale_reset old.ballot (hv.stale old hold)
  · have hminted := hv.minted
    have hkept : (v.resetBallots policy).seats.map (·.ballot.magnitude) =
        v.seats.map (·.ballot.magnitude) := by
      simp [resetBallots, Function.comp_def]
    rw [Ledger.mintedOf, hkept]
    exact hminted
  · exact (Ledger.countedOf_eq_zero hcounted rfl).symm
  · exact (Ledger.countedOf_eq_zero hcounted rfl).symm

/-- A vote with the same seats, issuance, bounds and tallies is as sound. -/
theorem Sound.withPoll (hv : v.Sound) {poll : Poll} (hturnout : poll.turnout = v.poll.turnout)
    (hthreshold : poll.threshold = v.poll.threshold) (hinFavor : poll.inFavor = v.poll.inFavor)
    (hagainst : poll.against = v.poll.against) : ({ v with poll } : Vote).Sound := by
  obtain ⟨hnames, hnonneg, hstale, hminted, hissued, hle, hfor, hcontra, hbounds⟩ := hv
  refine ⟨hnames, hnonneg, hstale, ?_, ?_, ?_, ?_, ?_, ?_⟩ <;>
    simp only [hturnout, hthreshold, hinFavor, hagainst] <;> assumption

/-- Revising a sound vote leaves it sound. -/
theorem Sound.revised {env : Ledger.Environment} {l : Ledger} {c : Ledger.Command}
    {a : Ledger.Answer} (hv : v.Sound) (h : Ledger.Revises env l c v v' a) : v'.Sound := by
  cases h with
  | cast _ _ _ hseat hchange htransfer => exact hv.cast hseat hchange htransfer
  | extended =>
    rw [Poll.extend_eq]
    exact hv.withPoll rfl rfl rfl rfl
  | retitled => exact hv.withPoll rfl rfl rfl rfl
  | cleared => exact hv.cleared _ _

end Vote

/-! ## Opened votes -/

namespace Ledger

variable {plan : Plan}

theorem magnitudeOf_eq (hp : (plan.allocations.map (·.member.display)).Nodup) {a : Allocation}
    (ha : a ∈ plan.allocations) : magnitudeOf plan a.member.display = a.magnitude := by
  have hdistinct : (plan.allocations.reverse.map (·.member.display)).Nodup := by
    rw [List.map_reverse, List.nodup_reverse]
    exact hp
  have hfind : plan.allocations.reverse.find? (·.member.display = a.member.display) = some a :=
    (Keyed.find?_key hdistinct).mpr ⟨List.mem_reverse.mpr ha, rfl⟩
  simp [magnitudeOf, hfind]

/-- Every member is given one ballot with the member's share. -/
theorem seatsOf_eq (hp : (plan.allocations.map (·.member.display)).Nodup) :
    seatsOf plan = plan.allocations.map fun a => ⟨a.member, .mint a.magnitude⟩ := by
  refine List.map_congr_left fun a ha => ?_
  rw [magnitudeOf_eq hp ha]

theorem mintedOf_seatsOf (hp : plan.Sound) : mintedOf (seatsOf plan) = plan.total := by
  rw [seatsOf_eq hp.distinct, mintedOf, List.map_map]
  exact hp.total_eq

theorem nonneg_total (hp : plan.Sound) : 0 ≤ plan.total := by
  rw [← hp.total_eq]
  exact Signal.total_nonneg (by simpa using hp.nonneg)

/-- A ballot that was just given out is counted for no side. -/
theorem countedOf_seatsOf {side : Stance} (hside : side.isSided = true) :
    countedOf side (seatsOf plan) = 0 := by
  refine countedOf_eq_zero (fun seat hseat => ?_) hside
  obtain ⟨a, -, rfl⟩ := List.mem_map.mp hseat
  rfl

/-- A vote that is opened is sound. -/
theorem Opens.sound {env : Environment} {l : Ledger} {o : Opening} {v : Vote}
    (henv : env.stakes.WellTyped) (h : Opens env l o v) : v.Sound := by
  obtain ⟨plan, hmake, hissued, hturnout, hseats⟩ := h.minted
  have hp := Plan.sound_of_make henv hmake
  have hnonneg : 0 ≤ v.poll.turnout := hturnout ▸ nonneg_total hp
  have hbounds : ∀ b ∈ v.poll.threshold.bounds, 0 ≤ b := by
    rw [h.threshold]
    exact Rule.nonneg_boundsAt h.valid hnonneg
  refine ⟨?_, ?_, ?_, ?_, hissued.trans hturnout.symm, hturnout ▸ hp.total_le, ?_, ?_, ?_⟩
  · rw [hseats, seatsOf, List.map_map]
    exact hp.distinct
  · rw [hseats, seatsOf_eq hp.distinct]
    simpa [Ballot.mint] using hp.nonneg
  · rw [hseats, seatsOf]
    simp [Ballot.mint]
  · rw [hseats, mintedOf_seatsOf hp, hturnout]
  · rw [h.uncounted.1, hseats, countedOf_seatsOf rfl]
  · rw [h.uncounted.2, hseats, countedOf_seatsOf rfl]
  · exact fun b hb => ⟨hbounds b hb, Threshold.isWithin_iff.mp h.within b hb⟩

/-! ## Restored votes -/

/-- No member has two records in one vote. -/
theorem nodup_names_of_records {records : List ReadRecord}
    (hdistinct : (records.map ReadRecord.key).Nodup) (id : Number) :
    (((records.filter (·.voteId = id)).map (·.seat)).map Seat.name).Nodup := by
  have hkeys : ((records.filter (·.voteId = id)).map ReadRecord.key).Nodup :=
    hdistinct.sublist (List.filter_sublist.map _)
  have hpairs : (records.filter (·.voteId = id)).map ReadRecord.key =
      (((records.filter (·.voteId = id)).map (·.seat)).map Seat.name).map (Prod.mk id) := by
    rw [List.map_map, List.map_map]
    refine List.map_congr_left fun record hrecord => ?_
    obtain ⟨-, hid⟩ := List.mem_filter.mp hrecord
    exact Prod.ext (of_decide_eq_true hid) rfl
  exact List.Nodup.of_map (Prod.mk id) (hpairs ▸ hkeys)

/-- A vote is restored only if its ballots add up. -/
theorem Restoration.Of.sound {r : Restoration} {o : Options} {s : Snapshot} (hr : r.Of o s)
    {v : Vote} (hv : v ∈ r.votes) : v.Sound := by
  obtain ⟨p, hp, hassemble⟩ := Checks.exists_of_mem_right hr.votes hv
  obtain ⟨e, -, hread, hle, hwithin⟩ := Checks.exists_of_mem_right hr.polls hp
  have hrange := (Snapshot.readPoll_eq_ok hread).2.inRange
  obtain ⟨hv, hminted, hinFavor, hagainst⟩ := assemble_eq_ok.mp hassemble
  -- Every ballot was read from a record, and passed what is checked there.
  have hballots : ∀ seat ∈ v.seats, Signal.inRange seat.ballot.magnitude = true ∧
      (seat.ballot.stale = true → seat.ballot.stance.isSided = true) := by
    intro seat hseat
    obtain ⟨record, hrecord, rfl⟩ := exists_record_of_assemble hassemble hseat
    obtain ⟨_, -, -, hread, -⟩ := Checks.exists_of_mem_right hr.records hrecord
    exact Snapshot.readBallot_eq_ok hread
  have hpoll : v.poll = p.2 := by rw [hv]
  refine ⟨?_, fun seat hseat => (Signal.inRange_iff.mp (hballots seat hseat).1).1,
    fun seat hseat => (hballots seat hseat).2, ?_, ?_, ?_, ?_, ?_, ?_⟩
  · rw [hv]
    exact ((seated_perm _).map _).nodup_iff.mpr (nodup_names_of_records hr.records_distinct p.1)
  · rw [hminted, hpoll]
  · rw [hv]
  · exact hpoll ▸ (Signal.inRange_iff.mp hrange.turnout).2
  · rw [hinFavor, hpoll]
  · rw [hagainst, hpoll]
  · rw [hpoll]
    exact fun b hb => ⟨(Signal.inRange_iff.mp (hrange.bounds b hb)).1,
      Threshold.isWithin_iff.mp hwithin b hb⟩

/-! ## Sound ledgers -/

/-- Every vote is sound and known by its identifier. -/
structure Sound (l : Ledger) : Prop where
  ids : (l.votes.map (·.id)).Nodup
  votes : ∀ v ∈ l.votes, v.Sound

variable {l l' : Ledger}

theorem Sound.indexed (hl : l.Sound) : l.Indexed :=
  ⟨hl.ids, fun v hv => (hl.votes v hv).names⟩

theorem sound_of_restore {o : Options} {s : Snapshot} (h : restore o s = .ok l) : l.Sound := by
  obtain ⟨r, hr, rfl⟩ := restore_eq_ok.mp h
  have hperm := r.votes_perm s
  have hids : r.votes.map (·.id) = r.polls.map (·.1) := by
    refine Checks.map_eq_map hr.votes fun p v hv => ?_
    rw [(assemble_eq_ok.mp hv).1]
  refine ⟨(hperm.map _).nodup_iff.mpr (hids ▸ hr.polls_distinct), fun v hv => ?_⟩
  exact hr.sound (hperm.subset hv)

/-- A sound vote may take the place of the one with its identifier. -/
theorem Sound.replaceVote (hl : l.Sound) {v w : Vote} (hv : v ∈ l.votes) (hid : w.id = v.id)
    (hw : w.Sound) : (l.replaceVote w).Sound := by
  refine ⟨?_, fun u hu => ?_⟩
  · rw [replaceVote_ids]
    exact hl.ids
  · rcases (mem_replaceVote hv hid).mp hu with rfl | ⟨hu, -⟩
    · exact hw
    · exact hl.votes u hu

theorem Sound.accepts {env : Environment} {c : Command} {a : Answer} (hl : l.Sound)
    (henv : env.stakes.WellTyped) (h : Accepts env l c a l') : l'.Sound :=
  ⟨h.nodup_ids hl.ids, h.forall_votes hl.votes (fun _ _ _ hopens => hopens.sound henv)
    fun _ _ hrevises hv => hv.revised hrevises⟩

theorem Sound.move {m : Move} (hl : l.Sound) (hm : m.WellTyped) : (l.move m).Sound := by
  rcases move_cases hl.indexed m with h | ⟨env, c, a, rfl, h⟩ | ⟨o, rfl, h⟩
  · rw [h]
    exact hl
  · exact hl.accepts hm h
  · exact sound_of_restore h

theorem Reachable.sound (h : l.Reachable) : l.Sound := by
  induction h with
  | empty h =>
    obtain ⟨settings, -, rfl⟩ := Checks.exceptMap_eq_ok.mp h
    exact ⟨List.nodup_nil, by simp [blank]⟩
  | restored h => exact sound_of_restore h
  | moved _ hm ih => exact ih.move hm

/-- In every vote of every ledger that comes about, signal is conserved, and what was minted is
what the ledger says was issued. -/
theorem conserves_of_reachable (hl : l.Reachable) {v : Vote} (hv : v ∈ l.votes) :
    v.Conserves ∧ l.issuance? v.id = some v.poll.turnout := by
  have hsound := hl.sound
  have hvote : l.vote? v.id = some v := (vote?_iff hsound.indexed).mpr ⟨hv, rfl⟩
  refine ⟨(hsound.votes v hv).conserves, ?_⟩
  rw [issuance?, hvote, Option.map_some, (hsound.votes v hv).issued]

/-- The ballot in favor is stale by now, and only the one against is counted. -/
theorem conserves_after_reset :
    Sample.laterVote ∈ (Sample.opened.run Sample.later).votes ∧
      (Sample.laterVote.Conserves ∧
        (Sample.opened.run Sample.later).issuance? Sample.laterVote.id = some 2) := by
  have hreachable := Sample.reachable_opened.run Sample.later_wellTyped
  have hmem : Sample.laterVote ∈ (Sample.opened.run Sample.later).votes := by
    rw [Sample.run_later]
    exact List.mem_singleton_self _
  exact ⟨hmem, conserves_of_reachable hreachable hmem⟩

end Ledger

end Plebiscite
