import Plebiscite.Proofs.Ledger.Identifiers

/-!
# Snapshots that can be restored again

Every check that a snapshot passes is kept up by every command from then on, whatever was restored.
There is one exception: the count of votes that were opened is stored and checked, but it is not
bounded when it grows.  So what a restored ledger stores is accepted again exactly as long as that
count is safe.

## Main definitions

- `Vote.Restorable`, `Registration.Restorable`, `Ledger.Restorable`: what passes the checks

## Main results

- `Ledger.Restorable.accepts`, `Ledger.restorable_of_empty`, `Ledger.restorable_of_restore`: what
  keeps ledgers restorable
- `Ledger.exists_restore_snapshot_iff`: only the count of opened votes can be at fault
- `Ledger.restore_again_iff`: when the snapshot after a run is accepted
-/

namespace Plebiscite

open Snapshot

/-- A vote whose entries pass. -/
structure Vote.Restorable (v : Vote) : Prop where
  sound : v.Sound
  id : IsId (.number v.id)
  known : ∀ seat ∈ v.seats, seat.ballot.stance ∈ Stance.all
  initialized : IsCount (.number v.poll.initialized)
  ends : ∀ n ∈ v.poll.ends, IsCount (.number n)

/-- A threshold whose entry passes. -/
structure Registration.Restorable (r : Registration) : Prop where
  id : IsId r.id
  electorate : Guard.isElectorate r.electorate.copy.description = true
  valid : r.rule.validate = .ok ()

/-! ## Entries -/

namespace Snapshot

/-- An amount in range is written as the text that spells it. -/
theorem amount_ofAmount {n : Int} (h : Signal.inRange n = true) : amount (ofAmount n) = n :=
  (parse_eq_ok.mp (Signal.parse_format h)).2

end Snapshot

namespace Ledger

variable {l l' : Ledger} {v w : Vote}

theorem valid_ofRegistration {r : Registration} (hr : r.Restorable) : (ofRegistration r).Valid := by
  obtain ⟨n, hn⟩ := hr.id.exists_number
  have hid := isId_number.mp (hn ▸ hr.id)
  have hread := readRegistration_ofRegistration hn hid hr.electorate hr.valid
  exact exists_readRegistration.mp ⟨_, hread⟩

theorem valid_ofPoll (hv : v.Restorable) : (ofPoll v.id v.poll).Valid := by
  have hread := readPoll_ofPoll (isId_number.mp hv.id) hv.sound.inRange
    (isCount_number.mp hv.initialized) fun n hn => isCount_number.mp (hv.ends n hn)
  have hreads : ReadsPoll (ofPoll v.id v.poll)
      (v.id, { v.poll with threshold := v.poll.threshold.bare }) := by
    refine ⟨hread, hv.sound.conserves.cast_le, ?_⟩
    exact Threshold.isWithin_iff.mpr fun b hb => (hv.sound.bounds b hb).2
  exact (exists_readsPoll.mp ⟨_, hreads⟩).1

theorem readBallot_of_seat (hv : v.Restorable) {seat : Seat} (hseat : seat ∈ v.seats) :
    readBallot (ofBallot v.id seat.member seat.ballot) = .ok seat.ballot :=
  readBallot_ofBallot (isId_number.mp hv.id) (hv.sound.inRange_of_seat hseat)
    (hv.known seat hseat) (hv.sound.stale seat hseat)

/-! ## The whole ledger -/

/-- A ledger that stores nothing that would be refused, but for the count of opened votes. -/
structure Restorable (l : Ledger) : Prop where
  ceiling : IsId (.number l.settings.ceiling)
  ids : (l.votes.map (·.id)).Nodup
  votes : ∀ v ∈ l.votes, v.Restorable
  entries : ∀ r ∈ l.register.entries, r.Restorable
  entries_distinct : (l.register.entries.map (·.id)).Nodup
  last : ∀ series, IsCount (l.last series)

theorem Restorable.indexed (hl : l.Restorable) : l.Indexed :=
  ⟨hl.ids, fun v hv => (hl.votes v hv).sound.names⟩

theorem listed_perm (r : Register) : r.listed.Perm r.entries :=
  Arrangement.arrange_perm _ _

/-- Votes with different identifiers are stored under different values. -/
theorem nodup_number_ids (hids : (l.votes.map (·.id)).Nodup) :
    (l.votes.map fun v => Value.number v.id).Nodup := by
  have hnumbers := hids.map fun _ _ => Value.number.inj
  rw [List.map_map] at hnumbers
  exact hnumbers

/-- The stored records of a vote are those of its seats. -/
theorem recordsOf_snapshot (hl : l.Restorable) (hv : v ∈ l.votes) :
    l.snapshot.recordsOf (ofPoll v.id v.poll) = recordsOf v := by
  have hunder : ∀ u ∈ l.votes, ∀ e ∈ recordsOf u, e.voteId = .number u.id := by
    intro u _ e he
    obtain ⟨seat, -, rfl⟩ := List.mem_map.mp he
    rfl
  exact Keyed.filter_flatMap (nodup_number_ids hl.ids) hunder hv

/-- The records hold what the seats do. -/
theorem held_recordsOf_eq (hv : v.Restorable) {p : RecordEntry → Bool} {q : Seat → Bool}
    (hpq : ∀ seat ∈ v.seats, p (ofBallot v.id seat.member seat.ballot) = q seat) :
    held ((recordsOf v).filter p) = mintedOf (v.seats.filter q) := by
  rw [held, mintedOf, recordsOf, List.filter_map, List.map_map]
  have hpick : v.seats.filter (p ∘ fun seat => ofBallot v.id seat.member seat.ballot) =
      v.seats.filter q := List.filter_congr hpq
  rw [hpick]
  congr 1
  refine List.map_congr_left fun seat hseat => ?_
  exact amount_ofAmount (hv.sound.inRange_of_seat (List.mem_of_mem_filter hseat))

theorem held_countsFor_eq (hv : v.Restorable) {side : Stance}
    (hside : side = .inFavor ∨ side = .against) :
    held ((recordsOf v).filter (·.countsFor side)) = countedOf side v.seats := by
  refine held_recordsOf_eq hv fun seat hseat => ?_
  rw [Bool.eq_iff_iff, decide_eq_true_eq,
    counted_of_readBallot (readBallot_of_seat hv hseat) hside]

theorem counters_snapshot (l : Ledger) :
    (∀ counter ∈ l.snapshot.counters, IsCount counter.2) ↔
      (∀ series, IsCount (l.last series)) ∧ IsCount (.ofNumber? l.openVotes) := by
  have hlast : (∀ series, IsCount (l.last series)) ↔
      IsCount (l.last .votes) ∧ IsCount (l.last .thresholds) := by
    constructor
    · intro h
      exact ⟨h .votes, h .thresholds⟩
    · rintro ⟨hvotes, hthresholds⟩ (_ | _)
      · exact hvotes
      · exact hthresholds
  rw [hlast]
  simp [snapshot, counters, last, and_assoc]

/-- The stored records of a vote hold what was minted for it. -/
theorem held_snapshot_eq (hl : l.Restorable) (hv : v ∈ l.votes) :
    held (l.snapshot.recordsOf (ofPoll v.id v.poll)) = v.poll.turnout := by
  have hheld := held_recordsOf_eq (hl.votes v hv) (p := fun _ => true) (q := fun _ => true)
    fun _ _ => rfl
  rw [List.filter_true, List.filter_true] at hheld
  rw [recordsOf_snapshot hl hv, hheld, (hl.votes v hv).sound.minted]

theorem held_snapshot_countsFor_eq (hl : l.Restorable) (hv : v ∈ l.votes) {side : Stance}
    (hside : side = .inFavor ∨ side = .against) :
    held ((l.snapshot.recordsOf (ofPoll v.id v.poll)).filter (·.countsFor side)) =
      countedOf side v.seats := by
  rw [recordsOf_snapshot hl hv, held_countsFor_eq (hl.votes v hv) hside]

/-- Each entry by itself and the identifiers together are as they should be. -/
theorem snapshot_wellFormed (hl : l.Restorable) (hopen : IsCount (.ofNumber? l.openVotes)) :
    l.snapshot.WellFormed := by
  constructor
  · rfl
  · exact (counters_snapshot l).mpr ⟨hl.last, hopen⟩
  · intro e he
    obtain ⟨r, hr, rfl⟩ := List.mem_map.mp he
    exact valid_ofRegistration (hl.entries r ((listed_perm _).subset hr))
  · -- Listing the thresholds puts them in another order.
    have hperm := (listed_perm l.register).map (·.id)
    show ((l.register.listed.map ofRegistration).map (·.id)).Nodup
    rw [List.map_map]
    exact hperm.nodup_iff.mpr hl.entries_distinct
  · intro e he
    obtain ⟨v, hv, rfl⟩ := List.mem_map.mp he
    exact valid_ofPoll (hl.votes v hv)
  · show ((l.votes.map fun v => ofPoll v.id v.poll).map (·.id)).Nodup
    rw [List.map_map]
    exact nodup_number_ids hl.ids
  · intro e he
    obtain ⟨v, hv, he⟩ := List.mem_flatMap.mp he
    obtain ⟨seat, hseat, rfl⟩ := List.mem_map.mp he
    exact (exists_readBallot.mp ⟨_, readBallot_of_seat (hl.votes v hv) hseat⟩).2
  · intro e he
    obtain ⟨v, hv, he⟩ := List.mem_flatMap.mp he
    obtain ⟨seat, -, rfl⟩ := List.mem_map.mp he
    exact List.mem_map.mpr ⟨ofPoll v.id v.poll, List.mem_map_of_mem hv, rfl⟩
  · have hkeys := (nodup_recordKeys hl.indexed).map prodMap_number_injective
    rw [List.map_map] at hkeys
    rw [snapshot_records, List.map_map]
    exact hkeys
  · intro e he
    obtain ⟨v, hv, rfl⟩ := List.mem_map.mp he
    rw [held_snapshot_eq hl hv]
    exact (amount_ofAmount (hl.votes v hv).sound.inRange.turnout).symm

/-- Only the count of opened votes can be at fault. -/
theorem snapshot_valid_iff (hl : l.Restorable) :
    l.snapshot.Valid ↔ IsCount (.ofNumber? l.openVotes) := by
  constructor
  · intro h
    exact ((counters_snapshot l).mp h.counters).2
  · intro hopen
    refine ⟨snapshot_wellFormed hl hopen, ?_, ?_⟩
    · intro e he
      obtain ⟨v, hv, rfl⟩ := List.mem_map.mp he
      have hsound := (hl.votes v hv).sound
      rw [held_snapshot_countsFor_eq hl hv (.inl rfl), ← hsound.inFavor]
      exact (amount_ofAmount hsound.inRange.inFavor).symm
    · intro e he
      obtain ⟨v, hv, rfl⟩ := List.mem_map.mp he
      have hsound := (hl.votes v hv).sound
      rw [held_snapshot_countsFor_eq hl hv (.inr rfl), ← hsound.against]
      exact (amount_ofAmount hsound.inRange.against).symm

/-! ## Commands -/

variable {env : Environment} {c : Command} {a : Answer}

theorem Revises.restorable (h : Revises env l c v w a) (hc : c.Proper) (hv : v.Restorable) :
    w.Restorable := by
  obtain ⟨-, hinitialized, hends⟩ := h.poll
  refine ⟨hv.sound.revised h, h.id_eq ▸ hv.id, h.known hc hv.known, ?_, ?_⟩
  · rw [hinitialized]
    exact hv.initialized
  · intro n hn
    rcases hends n hn with hn | hn
    · exact hv.ends n hn
    · exact isCount_number.mpr hn

theorem Opens.restorable {o : Opening} (h : Opens env l o v) (henv : env.stakes.WellTyped)
    (hid : IsId (.number v.id)) : v.Restorable := by
  obtain ⟨plan, -, -, -, hseats⟩ := h.minted
  refine ⟨h.sound henv, hid, ?_, ?_, ?_⟩
  · rw [hseats, seatsOf]
    simp [Ballot.mint, Stance.all]
  · exact isCount_number.mpr (Height.read_eq_ok.mp h.initialized).2
  · intro n hn
    exact isCount_number.mpr (isBlockHeight_of_endOf h.ends n hn)

namespace Restorable

theorem counting (hl : l.Restorable) (series : Series) : ∃ m, l.Counting series m := by
  obtain ⟨m, hm, hpos, hle⟩ := hl.ceiling
  obtain ⟨n, hn, -⟩ := hl.last series
  exact ⟨m, Value.number.inj hm, hpos, hle, n, hn⟩

/-- An identifier that is given out is one, and it is not in use. -/
theorem isId_of_nextIn (hl : l.Restorable) {series : Series} {id : Value}
    (h : l.nextIn series = .ok id) : IsId id ∧ id ∉ l.used series := by
  obtain ⟨m, hm⟩ := hl.counting series
  exact hm.isId_of_nextIn h

theorem registered (hl : l.Restorable) {e : Electorate} {r : Rule} {entry : Registration}
    {register : Register} (he : Guard.isElectorate e.description = true)
    (h : l.register.register (.number l.settings.ceiling) e r = .ok (entry, register)) :
    ({ l with register } : Ledger).Restorable := by
  obtain ⟨n, hn, -⟩ := hl.last .thresholds
  have hnext := (issues_register h).next _ hn
  obtain ⟨hid, hnew⟩ := hl.isId_of_nextIn hnext
  simp only [Register.register, Checks.bind_eq_ok, Checks.pure_eq_ok, Prod.mk.injEq] at h
  obtain ⟨_, hvalid, id, -, rfl, rfl⟩ := h
  have hentry : Registration.Restorable ⟨id, e.copy, r⟩ := by
    refine ⟨hid, ?_, hvalid⟩
    rw [Electorate.copy_copy, Electorate.copy_eq he]
    exact he
  refine ⟨hl.ceiling, hl.ids, hl.votes, ?_, ?_, ?_⟩
  · intro s hs
    rcases List.mem_append.mp hs with hs | hs
    · exact hl.entries s hs
    · rw [List.mem_singleton.mp hs]
      exact hentry
  · show ((l.register.entries ++ [(⟨id, e.copy, r⟩ : Registration)]).map (·.id)).Nodup
    rw [List.map_append, List.nodup_append]
    refine ⟨hl.entries_distinct, by simp, ?_⟩
    intro a ha b hb heq
    rw [List.map_singleton, List.mem_singleton] at hb
    exact hnew (hb ▸ heq ▸ ha)
  · intro series
    cases series with
    | votes => exact hl.last .votes
    | thresholds => exact hid.isCount

theorem opened (hl : l.Restorable) (henv : env.stakes.WellTyped) {o : Opening}
    (h : Opens env l o v) : (l.addVote v).Restorable := by
  obtain ⟨n, hn, -⟩ := hl.last .votes
  obtain ⟨hid, -⟩ := hl.isId_of_nextIn ((issues_addVote h).next _ hn)
  refine ⟨hl.ceiling, h.nodup hl.ids, ?_, hl.entries, hl.entries_distinct, ?_⟩
  · intro u hu
    rcases mem_addVote.mp hu with rfl | hu
    · exact h.restorable henv hid
    · exact hl.votes u hu
  · intro series
    cases series with
    | votes => exact hid.isCount
    | thresholds => exact hl.last .thresholds

/-- Whatever is accepted keeps every check but the one of the count. -/
theorem accepts (hl : l.Restorable) (henv : env.stakes.WellTyped) (hc : c.Proper)
    (h : Accepts env l c a l') : l'.Restorable := by
  cases h with
  | registered h => exact hl.registered hc h
  | opened _ h => exact hl.opened henv h
  | @revised _ v w _ h =>
    refine ⟨hl.ceiling, ?_, ?_, hl.entries, hl.entries_distinct, hl.last⟩
    · rw [replaceVote_ids]
      exact hl.ids
    · intro u hu
      rcases (mem_replaceVote h.mem h.id_eq).mp hu with rfl | ⟨hu, -⟩
      · exact h.restorable hc (hl.votes v h.mem)
      · exact hl.votes u hu

end Restorable

/-! ## Restored ledgers -/

/-- A vote that was restored passed all checks. -/
theorem Restoration.Of.restorable {r : Restoration} {o : Options} {s : Snapshot} (hr : r.Of o s)
    (hv : v ∈ r.votes) : v.Restorable := by
  obtain ⟨p, hp, hassemble⟩ := Checks.exists_of_mem_right hr.votes hv
  obtain ⟨e, -, hread⟩ := Checks.exists_of_mem_right hr.polls hp
  obtain ⟨hid, -, hinitialized, -, hends⟩ := head_of_readPoll hread.1
  refine ⟨hr.sound hv, ?_, ?_, ?_, ?_⟩
  · rw [(assemble_eq_ok.mp hassemble).1]
    exact hid
  · intro seat hseat
    obtain ⟨record, hrecord, rfl⟩ := exists_record_of_assemble hassemble hseat
    obtain ⟨e, -, -, hballot, -⟩ := Checks.exists_of_mem_right hr.records hrecord
    obtain ⟨-, hstance, -⟩ := readBallot_iff.mp hballot
    exact (stance?_eq_some.mp hstance).1
  · rw [(assemble_eq_ok.mp hassemble).1]
    exact hinitialized
  · rw [(assemble_eq_ok.mp hassemble).1]
    exact hends

/-- A threshold that was restored passed all checks. -/
theorem restorable_of_readsThreshold {e : ThresholdEntry} {entry : Registration}
    (h : ReadsThreshold e entry) : entry.Restorable := by
  have he := exists_readsThreshold.mp ⟨entry, h⟩
  have hid := id_of_readsThreshold h
  have helectorate := isElectorate_iff.mpr ⟨he.mode, he.org⟩
  obtain ⟨read, hread, hvalid, rfl⟩ := h
  obtain ⟨-, hcopy, -⟩ := readRegistration_eq_ok hread
  refine ⟨hid ▸ he.id, ?_, hvalid⟩
  -- An electorate is copied when it is read and once more when it is kept.
  rw [hcopy, Electorate.copy_copy, Electorate.copy_copy, Electorate.copy_eq helectorate]
  exact helectorate

theorem restorable_of_restore {o : Options} {s : Snapshot} (h : restore o s = .ok l)
    (hcounters : ∀ series : Series, (s.counters.lookup series.counter).isSome) :
    l.Restorable := by
  obtain ⟨m, hpos, hle, hceiling, -⟩ := ceiling_of_restore h
  have hids := (sound_of_restore h).ids
  have hlast := fun series => last_of_restore h (hcounters series)
  obtain ⟨r, hr, rfl⟩ := restore_eq_ok.mp h
  refine ⟨⟨m, congrArg Value.number hceiling, hpos, hle⟩, hids, ?_, ?_, ?_, hlast⟩
  · intro v hv
    exact hr.restorable ((r.votes_perm s).subset hv)
  · intro entry hentry
    obtain ⟨e, -, hreads⟩ := Checks.exists_of_mem_right hr.entries hentry
    exact restorable_of_readsThreshold hreads
  · exact hr.entries_distinct

/-- A new ledger stores nothing that would be refused. -/
theorem restorable_of_empty {o : Options} (h : Ledger.empty o = .ok l) : l.Restorable := by
  obtain ⟨m, hm⟩ := Numbered.of_empty h
  have hlast : ∀ series, IsCount (l.last series) := by
    intro series
    cases series with
    | votes => exact ⟨0, last_votes.mpr hm.lastVote, Nat.zero_le _⟩
    | thresholds => exact ⟨0, hm.counter, Nat.zero_le _⟩
  have hceiling : IsId (.number l.settings.ceiling) :=
    ⟨m, congrArg Value.number hm.ceiling, hm.ceiling_pos, hm.ceiling_le⟩
  obtain ⟨settings, -, rfl⟩ := Checks.exceptMap_eq_ok.mp h
  refine ⟨hceiling, .nil, ?_, ?_, .nil, hlast⟩
  · simp [blank]
  · simp [blank, Register.empty]

/-! ## The count of opened votes -/

/-- The count that is reached after so many votes.  Counting on from the largest safe integer gives
the next number once, and that number from then on. -/
def reached (n : Nat) : Number :=
  .ofInt (min n (Number.maxSafe + 1) : Nat)

theorem succ_reached (n : Nat) : Counter.succ (some (reached n)) = reached (n + 1) := by
  by_cases hn : n + 1 ≤ Number.maxSafe
  · have hmin : ∀ k ≤ Number.maxSafe, reached k = .ofInt k := by
      intro k hk
      rw [reached, Nat.min_eq_left (by omega)]
    rw [hmin n (by omega), hmin (n + 1) hn]
    exact Number.ofInt_add hn
  · have hlast : reached (n + 1) = .ofInt (Number.maxSafe + 1 : Nat) := by
      rw [reached, Nat.min_eq_right (by omega)]
    rw [hlast]
    rcases Nat.lt_or_ge Number.maxSafe n with hlt | hle
    · -- The sum lies between two doubles and is rounded back.
      have hmax : reached n = .ofInt (Number.maxSafe + 1 : Nat) := by
        rw [reached, Nat.min_eq_right (by omega)]
      rw [hmax]
      decide +kernel
    · obtain rfl : n = Number.maxSafe := by omega
      decide +kernel

theorem isCount_reached {n : Nat} : IsCount (.number (reached n)) ↔ n ≤ Number.maxSafe := by
  constructor
  · rintro ⟨k, hk, hle⟩
    have hmin := Number.ofInt_inj.mp (Value.number.inj hk)
    omega
  · intro hn
    refine ⟨n, ?_, hn⟩
    rw [reached, Nat.min_eq_left (by omega)]

/-- Every vote that is opened is counted, and nothing else is. -/
theorem Accepts.openVotes (h : Accepts env l c a l') :
    (l'.openVotes = l.openVotes ∧ l'.votes.length = l.votes.length) ∨
      l'.openVotes = some (Counter.succ l.openVotes) ∧ l'.votes.length = l.votes.length + 1 := by
  cases h with
  | registered h => exact .inl ⟨rfl, rfl⟩
  | opened _ h => exact .inr ⟨rfl, (addVote_perm _ _).length_eq⟩
  | revised h => exact .inl ⟨rfl, List.length_map _⟩

/-- So many votes were opened since a count stood at `k` and there were `n` votes. -/
structure Opened (l : Ledger) (k n : Nat) : Prop where
  restorable : l.Restorable
  le : n ≤ l.votes.length
  openVotes : l.openVotes = some (reached (k + (l.votes.length - n)))

theorem Opened.accepts {k n : Nat} (hl : l.Opened k n) (henv : env.stakes.WellTyped)
    (hc : c.Proper) (h : Accepts env l c a l') : l'.Opened k n := by
  have hrestorable := hl.restorable.accepts henv hc h
  have hle := hl.le
  have hopenVotes := hl.openVotes
  -- Votes are never removed, so the count and their number grow together.
  rcases h.openVotes with ⟨hsame, hlength⟩ | ⟨hmore, hlength⟩
  · exact ⟨hrestorable, hlength ▸ hle, by rw [hsame, hlength, hopenVotes]⟩
  · refine ⟨hrestorable, by omega, ?_⟩
    have hsum : k + (l'.votes.length - n) = k + (l.votes.length - n) + 1 := by omega
    rw [hmore, hopenVotes, succ_reached, hsum]

theorem Opened.serve {k n : Nat} (hl : l.Opened k n) {calls : List Call}
    (hcalls : ∀ call ∈ calls, call.env.stakes.WellTyped ∧ call.command.Proper) :
    (l.serve calls).Opened k n := by
  refine serve_induction (P := fun l => l.Opened k n) hl fun l call hcall a l' h hl => ?_
  obtain ⟨henv, hc⟩ := hcalls call hcall
  exact hl.accepts henv hc ((perform_eq_ok hl.restorable.indexed).mp h)

/-- What a ledger stores is accepted exactly as long as its count of opened votes is. -/
theorem exists_restore_snapshot_iff (hl : l.Restorable) {o : Options} {settings : Settings}
    (ho : o.settings = .ok settings) :
    (∃ restored, restore o l.snapshot = .ok restored) ↔ IsCount (.ofNumber? l.openVotes) := by
  rw [exists_restore_iff ho]
  exact snapshot_valid_iff hl

/-- A snapshot that was accepted once, with all counters, is accepted again under the same options
after any calls, exactly as long as no more votes are opened than can be counted. -/
theorem restore_again_iff {o : Options} {s : Snapshot} (h : restore o s = .ok l)
    (hcounters : ∀ name ∈ ["voteId", "thresholdId", "openVotes"], (s.counters.lookup name).isSome)
    {calls : List Call}
    (hcalls : ∀ call ∈ calls, call.env.stakes.WellTyped ∧ call.command.Proper) :
    ∃ k opened : Nat, counterOf s "openVotes" = .number (.ofInt k) ∧
      (l.serve calls).votes.length = l.votes.length + opened ∧
      ((∃ restored, restore o (l.serve calls).snapshot = .ok restored) ↔
        k + opened ≤ Number.maxSafe) := by
  obtain ⟨k, hk, hkle⟩ := isCount_counterOf h (hcounters "openVotes" (by simp))
  have hrestorable : l.Restorable := by
    apply restorable_of_restore h
    intro series
    cases series with
    | votes => exact hcounters "voteId" (by simp)
    | thresholds => exact hcounters "thresholdId" (by simp)
  obtain ⟨r, hr, hledger⟩ := restore_eq_ok.mp h
  have hstart : l.Opened k l.votes.length := by
    refine ⟨hrestorable, le_refl _, ?_⟩
    have hopen : l.openVotes = (counterOf s "openVotes").number? := by rw [hledger]; rfl
    rw [hopen, hk, Nat.sub_self, reached, Nat.min_eq_left (by omega)]
    rfl
  have hend := hstart.serve hcalls
  refine ⟨k, (l.serve calls).votes.length - l.votes.length, hk, ?_, ?_⟩
  · have hle := hend.le
    omega
  · rw [exists_restore_snapshot_iff hend.restorable hr.settings, hend.openVotes]
    exact isCount_reached

namespace Sample

/-- The vote of the two is opened. -/
def opening : Call :=
  ⟨host, .openPercentVote request⟩

theorem opening_proper :
    ∀ call ∈ [opening], call.env.stakes.WellTyped ∧ call.command.Proper := by
  intro call hcall
  rw [List.mem_singleton.mp hcall]
  exact ⟨source_wellTyped, trivial⟩

theorem serve_opening {lastVote openVotes : Counter} {id : Number}
    (h : Identifier.next lastVote 10 (counted lastVote openVotes).hasVote = .ok id) :
    (counted lastVote openVotes).serve [opening] =
      (counted lastVote openVotes).addVote { vote with id } := by
  rw [serve_cons, serve_nil]
  exact after_of_ok (perform_request_of_next h)

end Sample

/-- After one vote was opened, the ledger can be stored and restored again. -/
theorem restore_again_after_opening :
    ∃ l, restore Sample.options Sample.beyond = .ok l ∧
      ∃ restored, restore Sample.options (l.serve [Sample.opening]).snapshot = .ok restored := by
  have hserve := @Sample.serve_opening (some 12) (some 0) 1 (by decide +kernel)
  obtain ⟨k, opened, hk, hlength, hiff⟩ :=
    restore_again_iff Sample.restore_beyond (by decide) Sample.opening_proper
  refine ⟨_, Sample.restore_beyond, hiff.mpr ?_⟩
  have hzero : k = 0 := by
    have hcount : counterOf Sample.beyond "openVotes" = .number (.ofInt (0 : Nat)) := by
      rfl
    have hinj := Number.ofInt_inj.mp (Value.number.inj (hk.symm.trans hcount))
    omega
  have hone : opened = 1 := by
    rw [hserve, (addVote_perm _ _).length_eq, List.length_cons] at hlength
    omega
  rw [hzero, hone]
  decide

/-- With the largest count there is, the next vote takes the count out of range, and what is stored
then is refused. -/
theorem not_restored_again :
    ∃ l, restore Sample.options (Sample.countersOnly [("voteId", .number 0),
        ("thresholdId", .number 0), ("openVotes", .number (.ofInt Number.maxSafe))]) = .ok l ∧
      (∀ call ∈ [Sample.opening], call.env.stakes.WellTyped ∧ call.command.Proper) ∧
      ¬ ∃ restored, restore Sample.options (l.serve [Sample.opening]).snapshot = .ok restored := by
  have hrestore : restore Sample.options (Sample.countersOnly [("voteId", .number 0),
      ("thresholdId", .number 0), ("openVotes", .number (.ofInt Number.maxSafe))]) =
        .ok (Sample.counted (some 0) (some (.ofInt Number.maxSafe))) := by
    rfl
  have hserve := @Sample.serve_opening (some 0) (some (.ofInt Number.maxSafe)) 1
    (by decide +kernel)
  refine ⟨_, hrestore, Sample.opening_proper, ?_⟩
  rintro ⟨restored, h⟩
  -- The count that was stored is one more than the largest safe integer.
  obtain ⟨r, hr, -⟩ := restore_eq_ok.mp h
  rw [hserve] at hr
  have hcount := checkCounter_eq_ok.mp (hr.counters ("openVotes", .number (reached (Number.maxSafe + 1)))
    (by decide +kernel))
  have hle := isCount_reached.mp hcount
  omega

end Ledger

end Plebiscite
