import Plebiscite.Proofs.Ledger.Legible

/-!
# Equal digests mean equal states

The digest of a ledger is taken of the canonical text of its snapshot.  Two ledgers that were only
called with arguments of the right types have the same text exactly if they give the same answers:
nothing that can be asked is left out of the text, and what is in the text depends on nothing else,
neither on the order of the calls nor on the settings.

## Main definitions

- `Registration.Same`: thresholds that say the same
- `Ledger.AnswersAlike`: ledgers that give the same answers

## Main results

- `Ledger.Legible.votes_eq_iff`: what is stored of votes tells the votes
- `Ledger.Legible.canonical_eq_iff`: what the text of a snapshot tells
- `Ledger.stateHash_eq_iff`: what the digest tells, where it does not collide
-/

namespace Plebiscite

open Snapshot Canonical

/-- Thresholds that say the same, whatever the order is in which their electorates are described. -/
structure Registration.Same (r s : Registration) : Prop where
  id : r.id = s.id
  electorate : r.electorate.Same s.electorate
  rule : r.rule = s.rule

/-- Ledgers with the same counters that list the same thresholds, and that answer alike to whatever
is asked about a vote. -/
structure Ledger.AnswersAlike (l l' : Ledger) : Prop where
  lastVote : l.lastVote = l'.lastVote
  lastThreshold : l.register.counter = l'.register.counter
  openVotes : l.openVotes = l'.openVotes
  thresholds : List.Forall₂ Registration.Same l.register.listed l'.register.listed
  polls : ∀ id, l.poll? id = l'.poll? id
  issuance : ∀ id, l.issuance? id = l'.issuance? id
  ballots : ∀ id, l.ballots id = l'.ballots id

/-! ## What is written is legible -/

theorem Snapshot.IsCount.legible {v : Value} (h : IsCount v) : v.Legible := by
  obtain ⟨k, rfl, hk⟩ := h
  exact .count k hk

theorem Snapshot.IsShare.legible {v : Value} (h : IsShare v) : v.Legible := by
  obtain ⟨k, rfl, hk⟩ := h
  exact .count k (hk.trans (by decide))

/-- Bounds are stored as legible as they are one by one. -/
theorem Threshold.legible_map {α : Type} {t : Threshold α} {f : α → Value}
    (h : ∀ b ∈ t.bounds, (f b).Legible ∧ f b ≠ .absent) : (t.bare.map f).Legible := by
  refine ⟨(h t.inFavor (by simp [bounds])).1, fun v hv => ?_, rfl⟩
  obtain ⟨b, hb, rfl⟩ := Option.mem_map.mp hv
  exact h b (by simp [bounds, show t.against = some b from hb])

theorem Snapshot.legible_ofThreshold (t : Threshold Int) : (ofThreshold t).Legible :=
  Threshold.legible_map fun b _ => ⟨.text _, by simp [ofAmount]⟩

theorem Snapshot.legible_ofRule {r : Rule} (h : r.validate = .ok ()) : (ofRule r).Legible := by
  cases r with
  | signal t => exact legible_ofThreshold t
  | percent t =>
    apply Threshold.legible_map
    intro b hb
    exact ⟨(isShare_number.mpr (Rule.validate_percent.mp h b hb)).legible, by simp⟩

theorem Registration.Legible.stored {r : Registration} (h : r.Legible) :
    (ofRegistration r).Legible := by
  refine ⟨h.id.isCount.legible, ?_, .text _, legible_ofRule h.valid⟩
  show r.electorate.copy.Legible
  rw [h.electorate.copy_eq]
  exact h.electorate

namespace Vote.Legible

variable {v : Vote}

theorem stored_id (h : v.Legible) : (Value.number v.id).Legible :=
  (isId_number.mpr h.storable.id).isCount.legible

theorem stored (h : v.Legible) : (ofPoll v.id v.poll).Legible := by
  refine ⟨h.stored_id, h.topic, .text _, legible_ofThreshold _, .text _, .text _, ?_, ?_⟩
  · exact (isCount_number.mpr h.storable.initialized).legible
  · intro n hn
    obtain ⟨ends, hends, rfl⟩ := Option.mem_map.mp hn
    exact ⟨(isCount_number.mpr (h.storable.ends ends hends)).legible, by simp⟩

theorem stored_ballot (h : v.Legible) {seat : Seat} (hseat : seat ∈ v.seats) :
    (ofBallot v.id seat.member seat.ballot).Legible := by
  have hmember : seat.member.Legible := by
    obtain ⟨name, hname⟩ := Plan.exists_of_isNamed (h.storable.named seat hseat)
    rw [hname]
    exact .text name
  have hstance : ∀ stance ∈ Stance.all, stance.toValue.Legible := by
    simp [Stance.all, Stance.toValue, Value.Legible.text]
  refine ⟨h.stored_id, hmember, .text _, hstance _ (h.storable.known seat hseat),
    h.justified seat hseat, ?_⟩
  -- The flag is written only if it is raised.
  intro flag hflag
  simp only [ofBallot] at hflag
  split at hflag
  · obtain rfl := Option.mem_some_iff.mp hflag
    exact ⟨.bool true, by simp⟩
  · cases hflag

end Vote.Legible

/-! ## What is written tells what it was written of -/

/-- The unit and the bounds tell a rule that passes. -/
theorem Snapshot.ofRule_inj {r s : Rule} (hr : r.validate = .ok ()) (hs : s.validate = .ok ())
    (hunit : r.unit = s.unit) (h : ofRule r = ofRule s) : r.bare = s.bare := by
  -- Rules in different units are told apart by the word for the unit.
  cases r with
  | signal t =>
    cases s with
    | signal t' =>
      have hread := @readThreshold_ofThreshold "" t (Rule.validate_signal.mp hr)
      have hread' := @readThreshold_ofThreshold "" t' (Rule.validate_signal.mp hs)
      rw [show ofThreshold t = ofThreshold t' from h, hread'] at hread
      exact congrArg Rule.signal (Except.ok.inj hread).symm
    | percent t' => exact absurd hunit (by simp [Rule.unit])
  | percent t =>
    cases s with
    | signal t' => exact absurd hunit (by simp [Rule.unit])
    | percent t' =>
      have hread := percent?_bare (Rule.validate_percent.mp hr)
      have hread' := percent?_bare (Rule.validate_percent.mp hs)
      rw [show t.bare.map Value.number = t'.bare.map Value.number from h, hread'] at hread
      exact congrArg Rule.percent (Option.some.inj hread).symm

/-- Thresholds that are stored alike say the same. -/
theorem Registration.same_stored_iff {r s : Registration} (hr : r.Legible) (hs : s.Legible) :
    (ofRegistration r).Same (ofRegistration s) ↔ r.Same s := by
  have helectorate : (ofRegistration r).electorate.Same (ofRegistration s).electorate ↔
      r.electorate.Same s.electorate := by
    show r.electorate.copy.Same s.electorate.copy ↔ _
    rw [hr.electorate.copy_eq, hs.electorate.copy_eq]
  constructor
  · intro h
    have hrule := ofRule_inj hr.valid hs.valid (Value.text.inj h.kind) h.threshold
    rw [hr.bare, hs.bare] at hrule
    exact ⟨h.id, helectorate.mp h.electorate, hrule⟩
  · intro h
    refine ⟨h.id, helectorate.mpr h.electorate, ?_, ?_⟩
    · exact congrArg (fun rule : Rule => Value.text rule.unit) h.rule
    · exact congrArg ofRule h.rule

namespace Ledger

variable {l l' : Ledger}

/-- The counters that are stored tell the counters. -/
theorem counters_iff :
    (∀ name, (Value.object l.counters).get name = (Value.object l'.counters).get name) ↔
      l.lastVote = l'.lastVote ∧ l.register.counter = l'.register.counter ∧
        l.openVotes = l'.openVotes := by
  -- A counter that was never set is stored as absent, which is no number.
  have hcounter : ∀ {c c' : Counter}, Value.ofNumber? c = .ofNumber? c' → c = c' := by
    rintro (_ | n) (_ | n') h
    · rfl
    · cases h
    · cases h
    · exact congrArg some (Value.number.inj h)
  constructor
  · intro h
    exact ⟨hcounter (h "voteId"), h "thresholdId", hcounter (h "openVotes")⟩
  · rintro ⟨hlastVote, hlastThreshold, hopenVotes⟩ name
    rw [counters, counters, hlastVote, hlastThreshold, hopenVotes]

namespace Legible

/-- The polls are read back from what is stored of them. -/
theorem readPoll_stored (hl : l.Legible) : l.snapshot.votes.map readPoll = l.polls.map .ok := by
  show (l.votes.map fun v => ofPoll v.id v.poll).map readPoll =
    (l.votes.map fun v => (v.id, v.poll)).map .ok
  rw [List.map_map, List.map_map]
  apply List.map_congr_left
  intro v hv
  exact (readsPoll_ofPoll (hl.votes v hv).storable).1

/-- The records are read back from what is stored of them. -/
theorem readBallot_stored (hl : l.Legible) :
    l.snapshot.records.map (fun e => (e.voteId, e.member, readBallot e)) =
      l.readRecords.map fun r => (.number r.voteId, r.seat.member, .ok r.seat.ballot) := by
  rw [snapshot_records, List.map_map]
  apply List.map_congr_left
  intro r hr
  obtain ⟨v, hv, hid, hseat⟩ := mem_readRecords.mp hr
  have hstorable := (hl.votes v hv).storable
  have hread : readBallot (ofBallot r.voteId r.seat.member r.seat.ballot) = .ok r.seat.ballot :=
    readBallot_ofBallot (hid ▸ hstorable.id) (hstorable.sound.inRange_of_seat hseat)
      (hstorable.known _ hseat) (hstorable.sound.stale _ hseat)
  rw [Function.comp_apply, hread]
  rfl

/-- A vote is its poll with the records that are about it, and all that was minted is its
turnout. -/
theorem votes_eq (hl : l.Legible) :
    l.votes = l.polls.map fun p =>
      ⟨p.1, p.2, p.2.turnout, (l.readRecords.filter (·.voteId = p.1)).map (·.seat)⟩ := by
  rw [polls, List.map_map]
  refine (List.map_id l.votes).symm.trans (List.map_congr_left fun v hv => ?_)
  rw [Function.comp_apply, filter_readRecords hl.indexed hv,
    ← (hl.votes v hv).storable.sound.issued]
  rfl

/-- What is stored of votes tells the votes. -/
theorem votes_eq_iff (hl : l.Legible) (hl' : l'.Legible) :
    l.snapshot.votes = l'.snapshot.votes ∧ l.snapshot.records = l'.snapshot.records ↔
      l.votes = l'.votes := by
  constructor
  · rintro ⟨hvotes, hrecords⟩
    have hpolls : l.polls = l'.polls := by
      have hread := hl.readPoll_stored
      rw [hvotes, hl'.readPoll_stored] at hread
      exact (List.map_injective_iff.mpr (fun _ _ => Except.ok.inj) hread).symm
    -- Reading goes the other way, from the records that are stored alike to the ballots.
    have hread : l.readRecords = l'.readRecords := by
      have hread := hl.readBallot_stored
      rw [hrecords, hl'.readBallot_stored] at hread
      refine (List.map_injective_iff.mpr (fun r s hrs => ?_) hread).symm
      obtain ⟨id, member, ballot⟩ := r
      obtain ⟨id', member', ballot'⟩ := s
      simp_all
    rw [hl.votes_eq, hl'.votes_eq, hpolls, hread]
  · intro h
    simp only [snapshot, h, true_and]

/-- The answers about votes tell the votes. -/
theorem votes_eq_of_answers (hl : l.Legible) (hl' : l'.Legible) (h : l.AnswersAlike l') :
    l.votes = l'.votes := by
  have hvote : ∀ id, l.vote? id = l'.vote? id := by
    intro id
    have hpoll := h.polls id
    have hissued := h.issuance id
    have hseats := h.ballots id
    simp only [poll?, issuance?, ballots] at hpoll hissued hseats
    cases hv : l.vote? id with
    | none =>
      rw [hv] at hpoll
      exact (Option.map_eq_none_iff.mp hpoll.symm).symm
    | some v =>
      cases hw : l'.vote? id with
      | none =>
        rw [hv, hw] at hpoll
        cases hpoll
      | some w =>
        rw [hv, hw] at hpoll hissued hseats
        have hid : v.id = w.id := (mem_of_vote? hv).2.trans (mem_of_vote? hw).2.symm
        obtain ⟨id, poll, issued, seats⟩ := v
        obtain ⟨id', poll', issued', seats'⟩ := w
        simp_all
  -- Both are numbered from one to the same last vote, so the same votes are asked for.
  obtain ⟨n, _, hnum, -, -⟩ := hl.numbered
  obtain ⟨n', _, hnum', -, -⟩ := hl'.numbered
  have hlast := h.lastVote
  rw [hnum.lastVote, hnum'.lastVote, Option.some.injEq, Number.ofInt_inj] at hlast
  obtain rfl : n = n' := by omega
  have hfound := Keyed.filterMap_find? hl.indexed.ids
  have hfound' := Keyed.filterMap_find? hl'.indexed.ids
  rw [hnum.ids] at hfound
  rw [hnum'.ids] at hfound'
  calc
    l.votes = (upTo n).filterMap l.vote? := hfound.symm
    _ = (upTo n).filterMap l'.vote? := by rw [funext hvote]
    _ = l'.votes := hfound'

/-! ## The whole text -/

/-- The snapshot of a legible ledger is legible. -/
theorem stored (hl : l.Legible) : l.snapshot.Legible := by
  obtain ⟨n, k, hnum, hn, hk⟩ := hl.numbered
  refine ⟨.count 1 (by decide), ?_, ⟨by simp [snapshot, counters], rfl⟩, ?_, ?_, ?_⟩
  · simp only [snapshot, counters, hnum.lastVote, hnum.openVotes, hnum.counter, Value.ofNumber?,
      List.forall_mem_cons]
    exact ⟨.count n hn, .count k hk, .count n hn, by simp⟩
  · intro e he
    obtain ⟨r, hr, rfl⟩ := List.mem_map.mp he
    exact (hl.entries r ((listed_perm _).mem_iff.mp hr)).stored
  · intro e he
    obtain ⟨v, hv, rfl⟩ := List.mem_map.mp he
    exact (hl.votes v hv).stored
  · intro e he
    obtain ⟨v, hv, he⟩ := List.mem_flatMap.mp he
    obtain ⟨seat, hseat, rfl⟩ := List.mem_map.mp he
    exact (hl.votes v hv).stored_ballot hseat

/-- What is stored of a ledger is the same exactly if the answers are. -/
theorem same_stored_iff (hl : l.Legible) (hl' : l'.Legible) :
    l.snapshot.Same l'.snapshot ↔ l.AnswersAlike l' := by
  have hlisted : List.Forall₂ ThresholdEntry.Same l.snapshot.thresholds l'.snapshot.thresholds ↔
      List.Forall₂ Registration.Same l.register.listed l'.register.listed := by
    show List.Forall₂ _ (l.register.listed.map ofRegistration)
      (l'.register.listed.map ofRegistration) ↔ _
    rw [List.forall₂_map_left_iff, List.forall₂_map_right_iff]
    apply Checks.forall₂_iff
    intro r hr s hs
    exact Registration.same_stored_iff (hl.entries r ((listed_perm _).mem_iff.mp hr))
      (hl'.entries s ((listed_perm _).mem_iff.mp hs))
  constructor
  · intro h
    obtain ⟨hlastVote, hlastThreshold, hopenVotes⟩ := counters_iff.mp h.counters
    have hvotes := (hl.votes_eq_iff hl').mp ⟨h.votes, h.records⟩
    have hvote : ∀ id, l.vote? id = l'.vote? id := fun id => by rw [vote?, vote?, hvotes]
    refine ⟨hlastVote, hlastThreshold, hopenVotes, hlisted.mp h.thresholds, ?_, ?_, ?_⟩
    -- All that is asked about a vote is answered from the vote that is found.
    · exact fun id => by rw [poll?, poll?, hvote]
    · exact fun id => by rw [issuance?, issuance?, hvote]
    · exact fun id => by rw [ballots, ballots, hvote]
  · intro h
    have hcounters := counters_iff.mpr ⟨h.lastVote, h.lastThreshold, h.openVotes⟩
    obtain ⟨hvotes, hrecords⟩ := (hl.votes_eq_iff hl').mpr (hl.votes_eq_of_answers hl' h)
    exact ⟨rfl, hcounters, hlisted.mpr h.thresholds, hvotes, hrecords⟩

/-- The canonical text is the same exactly if the answers are. -/
theorem canonical_eq_iff (hl : l.Legible) (hl' : l'.Legible) :
    l.snapshot.toValue.canonical = l'.snapshot.toValue.canonical ↔ l.AnswersAlike l' := by
  rw [← hl.same_stored_iff hl', ← chars_toValue_iff hl.stored hl'.stored]
  exact String.ofList_inj

end Legible

/-- Two ledgers that started with nothing, each under any options and through any moves with
arguments of the right types, have the same digest exactly if they have the same counters, list the
same thresholds and answer alike to whatever is asked about a vote; this takes that the digests of
the two texts do not collide. -/
theorem stateHash_eq_iff {o o' : Options} {start start' : Ledger}
    (h : Ledger.empty o = .ok start) (h' : Ledger.empty o' = .ok start')
    {moves moves' : List Move} (hmoves : ∀ m ∈ moves, m.Legible)
    (hmoves' : ∀ m ∈ moves', m.Legible)
    (hcollision : Sha256.hex (start.run moves).snapshot.toValue.canonical =
        Sha256.hex (start'.run moves').snapshot.toValue.canonical →
      (start.run moves).snapshot.toValue.canonical =
        (start'.run moves').snapshot.toValue.canonical) :
    (start.run moves).stateHash = (start'.run moves').stateHash ↔
      (start.run moves).AnswersAlike (start'.run moves') := by
  have hl := (Legible.of_empty h).run hmoves
  have hl' := (Legible.of_empty h').run hmoves'
  rw [← hl.canonical_eq_iff hl']
  constructor
  · exact hcollision
  · exact congrArg Sha256.hex

namespace Sample

/-- A ledger for which the host leaves everything out. -/
def plain : Ledger :=
  blank ⟨4294967295, .resetBallots⟩

/-- The same organization, described the other way round. -/
def reversed : Electorate :=
  ⟨.object [("orgId", .text "org"), ("kind", .text "weighted")]⟩

/-- A threshold, a vote, and a ballot of each member. -/
def direct : List Move :=
  [.call host (.registerThreshold (.of .weighted "org") (.percent threshold)),
   .call host (.openPercentVote request),
   .call host (.applyVote (.number 1) (.text "alice") .inFavor (.text "because")),
   .call host (.applyVote (.number 1) (.text "bob") .against .absent)]

/-- The same in another order, with a ballot that is changed and one that is refused. -/
def roundabout : List Move :=
  [.call host (.openPercentVote request),
   .call host (.applyVote (.number 1) (.text "bob") .against .absent),
   .call host (.applyVote (.number 1) (.text "alice") .abstain .absent),
   .call host (.applyVote (.number 1) (.text "bob") .against .absent),
   .call host (.registerThreshold reversed (.percent threshold)),
   .call host (.applyVote (.number 1) (.text "alice") .inFavor (.text "because"))]

/-- The vote after either. -/
def divided : Vote where
  id := 1
  poll := ⟨.text "topic", 2, ⟨2, some 1, []⟩, 1, 1, 5, none⟩
  issued := 2
  seats := [⟨.text "alice", ⟨1, .inFavor, .text "because", false⟩⟩,
    ⟨.text "bob", ⟨1, .against, .absent, false⟩⟩]

/-- The ledger after either, but for the settings and for how the electorate is described. -/
def settled (settings : Settings) (e : Electorate) : Ledger where
  settings := settings
  register := ⟨.number 1, [⟨.number 1, e, .percent threshold⟩]⟩
  votes := [divided]
  lastVote := some 1
  openVotes := some 1

theorem run_direct :
    start.run direct = settled start.settings (.of .weighted "org") := by
  have hregister : start.after host (.registerThreshold (.of .weighted "org") (.percent threshold)) =
      { start with register := ⟨.number 1, [⟨.number 1, .of .weighted "org", .percent threshold⟩]⟩ }
      := by
    decide +kernel
  have hopen := @perform_request_of_next { start with
    register := ⟨.number 1, [⟨.number 1, .of .weighted "org", .percent threshold⟩]⟩ } 1
    (by decide +kernel)
  rw [direct, run_cons, run_cons]
  simp only [move]
  rw [hregister, after_of_ok hopen]
  decide +kernel

theorem run_roundabout :
    plain.run roundabout = settled plain.settings reversed := by
  have hopen := @perform_request_of_next plain 1 (by decide +kernel)
  rw [roundabout, run_cons]
  simp only [move]
  rw [after_of_ok hopen]
  decide +kernel

/-- Neither the settings nor the order of a description are told. -/
theorem settled_alike (settings settings' : Settings) {e e' : Electorate} (h : e.Same e') :
    (settled settings e).AnswersAlike (settled settings' e') := by
  have hlisted : ∀ settings e, (settled settings e).register.listed =
      [⟨.number 1, e, .percent threshold⟩] :=
    fun _ _ => List.perm_singleton.mp (listed_perm _)
  refine ⟨rfl, rfl, rfl, ?_, fun _ => rfl, fun _ => rfl, fun _ => rfl⟩
  rw [hlisted, hlisted]
  exact .cons ⟨rfl, h, rfl⟩ .nil

theorem reversed_same : (Electorate.of .weighted "org").Same reversed := by
  intro name
  simp only [Electorate.of, reversed, get_cons, MintMode.text]
  split_ifs <;> simp_all

theorem legible_direct : ∀ m ∈ direct, m.Legible := by
  have helectorate : (Electorate.of .weighted "org").Legible :=
    ⟨_, rfl, ⟨by simp, rfl⟩, by simp [Value.Legible.text]⟩
  simp [direct, Move.Legible, Command.Legible, helectorate, Stance.all, Value.Legible.text,
    Value.Legible.absent, show host.stakes.WellTyped from source_wellTyped, request, threshold,
    Rule.bare, Threshold.bare]

theorem legible_roundabout : ∀ m ∈ roundabout, m.Legible := by
  have helectorate : reversed.Legible :=
    ⟨_, rfl, ⟨by simp, rfl⟩, by simp [Value.Legible.text]⟩
  simp [roundabout, Move.Legible, Command.Legible, helectorate, Stance.all, Value.Legible.text,
    Value.Legible.absent, show host.stakes.WellTyped from source_wellTyped, request, threshold,
    Rule.bare, Threshold.bare]

end Sample

/-- Other settings, another order of the calls, ballots that are changed and refused on the way, and
another order of a description: the answers are alike, and the digests are the same. -/
theorem stateHash_eq_iff_roundabout :
    Ledger.empty Sample.options = .ok Sample.start ∧
    Ledger.empty Options.none = .ok Sample.plain ∧
    (Sample.start.run Sample.direct).AnswersAlike (Sample.plain.run Sample.roundabout) ∧
    (Sample.start.run Sample.direct).stateHash =
      (Sample.plain.run Sample.roundabout).stateHash := by
  have hplain : Ledger.empty Options.none = .ok Sample.plain := by
    rfl
  have halike : (Sample.start.run Sample.direct).AnswersAlike
      (Sample.plain.run Sample.roundabout) := by
    rw [Sample.run_direct, Sample.run_roundabout]
    exact Sample.settled_alike _ _ Sample.reversed_same
  have hl := (Legible.of_empty Sample.empty_options).run Sample.legible_direct
  have hl' := (Legible.of_empty hplain).run Sample.legible_roundabout
  have hdigest := (stateHash_eq_iff Sample.empty_options hplain Sample.legible_direct
    Sample.legible_roundabout fun _ => (hl.canonical_eq_iff hl').mpr halike).mpr halike
  exact ⟨Sample.empty_options, hplain, halike, hdigest⟩

end Ledger

end Plebiscite
