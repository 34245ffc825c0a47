import Plebiscite.Proofs.Ledger.Reopening
import Plebiscite.Proofs.Ledger.Thresholds
import Plebiscite.Proofs.Snapshot.Normal

/-!
# Restoring puts a snapshot in order

A snapshot may list its entries in any order and give them in more than one form.  A ledger that is
restored from it stores the same entries, each in its normal form, in one order.  So what the ledger
stores depends on what the snapshot says alone, and storing and restoring it again changes nothing.

## Main definitions

- `Snapshot.IsNormalOf`: a snapshot that says what another one does, in order
- `Snapshot.Alike`: snapshots that say the same

## Main results

- `Ledger.isNormalOf_snapshot`: what a restored ledger stores
- `Snapshot.IsNormalOf.unique`: there is one way to put what a snapshot says in order
- `Ledger.restore_normalizes`: a ledger that is restored stores what the snapshot says, in order
-/

namespace Plebiscite

namespace Snapshot

/-- The names of the counters that every ledger has, in the order in which they are stored. -/
def counterNames : List String :=
  ["voteId", "thresholdId", "openVotes"]

/-- Records of earlier votes come first, and those of one vote in the order of the members. -/
def RecordEntry.Precedes (a b : RecordEntry) : Prop :=
  a.voteId.toNumber.lt b.voteId.toNumber = true ∨
    a.voteId = b.voteId ∧ Units.before a.member.display b.member.display = true

/-- A snapshot with the counters of another one and with its entries in their normal forms:
thresholds and votes by identifiers, records by votes and members. -/
structure IsNormalOf (t s : Snapshot) : Prop where
  version : t.version = s.version
  counters : t.counters = counterNames.map fun name => (name, Ledger.counterOf s name)
  thresholds : t.thresholds.Perm (s.thresholds.map ThresholdEntry.normal)
  thresholds_ascending : t.thresholds.Pairwise fun a b => a.id.toNumber.lt b.id.toNumber = true
  votes : t.votes.Perm (s.votes.map VoteEntry.normal)
  votes_ascending : t.votes.Pairwise fun a b => a.id.toNumber.lt b.id.toNumber = true
  records : t.records.Perm (s.records.map RecordEntry.normal)
  records_ascending : t.records.Pairwise RecordEntry.Precedes

/-- Snapshots that differ only in the order of their entries, in leading zeros, in flags that are
not raised and in the words for parts per million. -/
structure Alike (s s' : Snapshot) : Prop where
  version : s.version = s'.version
  counters : ∀ name ∈ counterNames, Ledger.counterOf s name = Ledger.counterOf s' name
  thresholds : (s.thresholds.map ThresholdEntry.normal).Perm
    (s'.thresholds.map ThresholdEntry.normal)
  votes : (s.votes.map VoteEntry.normal).Perm (s'.votes.map VoteEntry.normal)
  records : (s.records.map RecordEntry.normal).Perm (s'.records.map RecordEntry.normal)

variable {s s' t t' : Snapshot}

/-! ## One order -/

theorem RecordEntry.Precedes.asymm {a b : RecordEntry} (hab : a.Precedes b) : ¬b.Precedes a := by
  rintro (hba | ⟨hid, hba⟩)
  · rcases hab with hab | ⟨hid, -⟩
    · rw [Number.lt_asymm hab] at hba
      cases hba
    · exact Number.ne_of_lt hba (by rw [hid])
  · rcases hab with hab | ⟨-, hab⟩
    · exact Number.ne_of_lt hab (by rw [hid])
    · exact lt_asymm (of_decide_eq_true hab) (of_decide_eq_true hba)

/-- Entries that ascend strictly are in the only order there is. -/
theorem eq_of_ascending {α : Type} {R : α → α → Prop} (hasymm : ∀ {a b}, R a b → ¬R b a)
    {as bs : List α} (has : as.Pairwise R) (hbs : bs.Pairwise R) (h : as.Perm bs) : as = bs :=
  h.eq_of_pairwise (fun _ _ _ _ hab hba => absurd hba (hasymm hab)) has hbs

theorem not_lt_of_lt {a b : Number} (h : a.lt b = true) : ¬b.lt a = true := by
  rw [Number.lt_asymm h]
  exact Bool.false_ne_true

/-- There is one way to put what snapshots say in order. -/
theorem IsNormalOf.unique (ht : t.IsNormalOf s) (ht' : t'.IsNormalOf s') (h : s.Alike s') :
    t = t' := by
  have hcounters : t.counters = t'.counters := by
    rw [ht.counters, ht'.counters]
    exact List.map_congr_left fun name hname => by rw [h.counters name hname]
  have hthresholds := eq_of_ascending not_lt_of_lt ht.thresholds_ascending ht'.thresholds_ascending
    (ht.thresholds.trans (h.thresholds.trans ht'.thresholds.symm))
  have hvotes := eq_of_ascending not_lt_of_lt ht.votes_ascending ht'.votes_ascending
    (ht.votes.trans (h.votes.trans ht'.votes.symm))
  have hrecords := eq_of_ascending RecordEntry.Precedes.asymm ht.records_ascending
    ht'.records_ascending (ht.records.trans (h.records.trans ht'.records.symm))
  have hversion : t.version = t'.version := ht.version.trans (h.version.trans ht'.version.symm)
  obtain ⟨_, _, _, _, _⟩ := t
  simp_all

/-- A snapshot in order says the same as the one that it was made of. -/
theorem IsNormalOf.alike (h : t.IsNormalOf s) : t.Alike s := by
  refine ⟨h.version, fun name hname => ?_, ?_, ?_, ?_⟩
  · rw [Ledger.counterOf, h.counters]
    revert hname
    simp only [counterNames, List.mem_cons, List.not_mem_nil, or_false]
    rintro (rfl | rfl | rfl) <;> rfl
  · refine (h.thresholds.map _).trans (.of_eq ?_)
    simp [Function.comp_def]
  · refine (h.votes.map _).trans (.of_eq ?_)
    simp [Function.comp_def]
  · refine (h.records.map _).trans (.of_eq ?_)
    simp [Function.comp_def]

theorem Alike.refl (s : Snapshot) : s.Alike s :=
  ⟨rfl, fun _ _ => rfl, .refl _, .refl _, .refl _⟩

theorem Alike.symm (h : s.Alike s') : s'.Alike s :=
  ⟨h.version.symm, fun name hname => (h.counters name hname).symm, h.thresholds.symm, h.votes.symm,
    h.records.symm⟩

/-- Snapshots that say the same have the same counters. -/
theorem Alike.counted (h : s.Alike s') {name : String} (hname : name ∈ counterNames)
    (hcount : IsCount (Ledger.counterOf s name)) : (s'.counters.lookup name).isSome := by
  rw [h.counters name hname, Ledger.counterOf] at hcount
  cases hlookup : s'.counters.lookup name with
  | some v => rfl
  | none =>
    obtain ⟨k, hk, -⟩ := hcount
    rw [hlookup] at hk
    cases hk

/-- Snapshots that say the same have records of the same members. -/
theorem Alike.named (h : s.Alike s') (hs : ∀ e ∈ s.records, Plan.isNamed e.member = true) :
    ∀ e ∈ s'.records, Plan.isNamed e.member = true := by
  intro e he
  obtain ⟨d, hd, heq⟩ := List.mem_map.mp (h.records.mem_iff.mpr (List.mem_map_of_mem he))
  have hmember : d.normal.member = e.normal.member := by rw [heq]
  exact (show d.member = e.member from hmember) ▸ hs d hd

end Snapshot

open Snapshot

namespace Ledger

variable {l l' : Ledger} {o o' : Options} {s s' : Snapshot} {r : Restoration}

/-! ## Entries that were read -/

theorem ofRegistration_of_readsThreshold {e : ThresholdEntry} {entry : Registration}
    (h : ReadsThreshold e entry) : ofRegistration entry = e.normal := by
  obtain ⟨read, hread, -, rfl⟩ := h
  rw [← ofRegistration_of_read hread]
  rfl

/-- The thresholds that were read are stored in their normal forms. -/
theorem Restoration.Of.map_ofRegistration (hr : r.Of o s) :
    r.entries.map ofRegistration = s.thresholds.map ThresholdEntry.normal :=
  Checks.map_eq_map hr.entries fun _ _ => ofRegistration_of_readsThreshold

/-- The votes that were read are stored in their normal forms. -/
theorem Restoration.Of.map_ofPoll (hr : r.Of o s) :
    r.votes.map (fun v => ofPoll v.id v.poll) = s.votes.map VoteEntry.normal := by
  have hpolls : r.polls.map (fun p => ofPoll p.1 p.2) = s.votes.map VoteEntry.normal :=
    Checks.map_eq_map hr.polls fun e p hread => ofPoll_of_read hread.1
  rw [← hpolls]
  refine Checks.map_eq_map hr.votes fun p v hv => ?_
  rw [(assemble_eq_ok.mp hv).1]

/-- The records that were read are stored in their normal forms. -/
theorem Restoration.Of.map_ofBallot (hr : r.Of o s) :
    r.records.map (fun record => ofBallot record.voteId record.seat.member record.seat.ballot) =
      s.records.map RecordEntry.normal := by
  refine Checks.map_eq_map hr.records fun e record hread => ?_
  obtain ⟨hvote, hballot, hmember⟩ := hread
  rw [hmember]
  exact ofBallot_of_read (pollOf_eq_some.mp hvote).1 hballot

/-- The seats of a vote are its records. -/
theorem mem_seats_of_assemble {records : List ReadRecord} {id : Number} {poll : Poll} {v : Vote}
    (h : assemble records id poll = .ok v) {seat : Seat} :
    seat ∈ v.seats ↔ ⟨v.id, seat⟩ ∈ records := by
  obtain ⟨rfl, -⟩ := assemble_eq_ok.mp h
  rw [(seated_perm _).mem_iff, List.mem_map]
  constructor
  · rintro ⟨record, hrecord, rfl⟩
    obtain ⟨hmem, hid⟩ := List.mem_filter.mp hrecord
    have hid : record.voteId = id := of_decide_eq_true hid
    exact hid ▸ hmem
  · intro hmem
    exact ⟨_, List.mem_filter.mpr ⟨hmem, decide_eq_true rfl⟩, rfl⟩

/-- Sorting the records by votes and by members loses none and adds none. -/
theorem Restoration.Of.readRecords_perm (hr : r.Of o s) :
    (r.ledger s).readRecords.Perm r.records := by
  have hsound := sound_of_restore (restore_eq_ok.mpr ⟨r, hr, rfl⟩)
  refine (List.perm_ext_iff_of_nodup (.of_map _ (nodup_recordKeys hsound.indexed))
    (.of_map _ hr.records_distinct)).mpr fun record => ?_
  simp only [mem_readRecords, (r.votes_perm s).mem_iff]
  constructor
  · rintro ⟨v, hv, hid, hseat⟩
    obtain ⟨p, -, hassemble⟩ := Checks.exists_of_mem_right hr.votes hv
    have hmem := (mem_seats_of_assemble hassemble).mp hseat
    rwa [← hid] at hmem
  · intro hrecord
    -- A record is about one of the votes, and is picked out for it.
    obtain ⟨e, -, hvote, -⟩ := Checks.exists_of_mem_right hr.records hrecord
    obtain ⟨p, hp, hid⟩ := List.mem_map.mp (pollOf_eq_some.mp hvote).2
    obtain ⟨v, hv, hassemble⟩ := Checks.exists_of_mem_left hr.votes hp
    have hvid : v.id = p.1 := by rw [(assemble_eq_ok.mp hassemble).1]
    have hsame : record.voteId = v.id := hid.symm.trans hvid.symm
    exact ⟨v, hv, hsame, (mem_seats_of_assemble hassemble).mpr (hsame ▸ hrecord)⟩

/-! ## The order of what is stored -/

/-- Votes with numbers of their own are put in ascending order. -/
theorem foldl_insertVote_ascending {start votes : List Vote}
    (hids : ∀ v ∈ start ++ votes, ∃ k : Nat, v.id = .ofInt k)
    (hnodup : ((start ++ votes).map (·.id)).Nodup)
    (hstart : start.Pairwise fun a b => a.id.lt b.id = true) :
    (votes.foldl insertVote start).Pairwise fun a b => a.id.lt b.id = true := by
  induction votes generalizing start with
  | nil => exact hstart
  | cons v votes ih =>
    have hperm := insertVote_append_perm start v votes
    refine ih (fun u hu => hids u (hperm.mem_iff.mp hu)) ((hperm.map _).nodup_iff.mpr hnodup) ?_
    -- Whole numbers compare, and no two of them are the same here.
    obtain ⟨k, hk⟩ := hids v (by simp)
    have hnumber := fun u hu => hids u (List.mem_append_left _ hu)
    refine Keyed.insertBefore_pairwise hstart (fun u hu h => ?_) (fun u hu h => ?_)
      fun u hu w hw huv hvw => ?_
    · obtain ⟨j, hj⟩ := hnumber u hu
      simpa [hj, hk] using h
    · obtain ⟨j, hj⟩ := hnumber u hu
      have hne : u.id ≠ v.id := by
        rw [List.map_append, List.nodup_append] at hnodup
        exact hnodup.2.2 _ (List.mem_map_of_mem hu) _ (by simp)
      have hjk : j ≠ k := fun heq => hne (by rw [hj, hk, heq])
      simp only [hj, hk, Number.ofInt_precedes, Number.ofInt_lt, decide_eq_false_iff_not,
        decide_eq_true_eq] at h ⊢
      omega
    · obtain ⟨i, hi⟩ := hnumber u hu
      obtain ⟨j, hj⟩ := hnumber w hw
      simp only [hi, hj, hk, Number.ofInt_lt, decide_eq_true_eq] at huv hvw ⊢
      omega

/-- The votes of a restored ledger are in the order of their identifiers. -/
theorem Restoration.Of.votes_ascending (hr : r.Of o s) :
    (r.ledger s).votes.Pairwise fun a b => a.id.lt b.id = true := by
  have hids : ∀ v ∈ r.votes, ∃ k : Nat, v.id = .ofInt k := by
    intro v hv
    obtain ⟨k, hk, -⟩ := (hr.restorable hv).id
    exact ⟨k, Value.number.inj hk⟩
  have hnodup : (r.votes.map (·.id)).Nodup := by
    have hsame : r.votes.map (·.id) = r.polls.map (·.1) :=
      Checks.map_eq_map hr.votes fun p v hv => by rw [(assemble_eq_ok.mp hv).1]
    exact hsame ▸ hr.polls_distinct
  exact foldl_insertVote_ascending hids hnodup .nil

/-- Votes in order, with their seats in order, have their records in order. -/
theorem records_ascending (hvotes : l.votes.Pairwise fun a b => a.id.lt b.id = true)
    (hseats : ∀ v ∈ l.votes, (v.seats.map Seat.name).Pairwise fun a b => Units.before a b = true) :
    l.snapshot.records.Pairwise RecordEntry.Precedes := by
  refine List.pairwise_flatMap.mpr ⟨fun v hv => ?_, hvotes.imp fun {v w} hlt => ?_⟩
  · rw [recordsOf, List.pairwise_map]
    exact (List.pairwise_map.mp (hseats v hv)).imp fun hbefore => .inr ⟨rfl, hbefore⟩
  · intro a ha b hb
    obtain ⟨_, -, rfl⟩ := List.mem_map.mp ha
    obtain ⟨_, -, rfl⟩ := List.mem_map.mp hb
    exact .inl hlt

/-! ## The whole snapshot -/

/-- What a restored ledger stores is what the snapshot says, in order. -/
theorem isNormalOf_snapshot (h : restore o s = .ok l)
    (hcounters : ∀ name ∈ counterNames, (s.counters.lookup name).isSome)
    (hmembers : ∀ e ∈ s.records, Plan.isNamed e.member = true) : l.snapshot.IsNormalOf s := by
  have horderly := Orderly.of_restore h hmembers
  have hkeeping := Keeping.of_restore h (hcounters "thresholdId" (by decide))
  have hcount := fun name hname => isCount_counterOf h (hcounters name hname)
  obtain ⟨r, hr, rfl⟩ := restore_eq_ok.mp h
  refine ⟨?_, ?_, ?_, ?_, ?_, ?_, ?_, ?_⟩
  · exact (checkVersion_eq_ok.mp hr.version).symm
  · -- A counter that is a number is stored as that number.
    have hstored : ∀ name ∈ counterNames,
        Value.ofNumber? (counterOf s name).number? = counterOf s name := by
      intro name hname
      obtain ⟨k, hk, -⟩ := hcount name hname
      rw [hk]
      rfl
    show [("voteId", _), ("thresholdId", _), ("openVotes", _)] = _
    simp only [counterNames, List.map_cons, List.map_nil, Restoration.ledger,
      hstored "voteId" (by decide), hstored "openVotes" (by decide)]
  · rw [← hr.map_ofRegistration]
    exact (listed_perm _).map _
  · exact List.pairwise_map.mpr hkeeping.distinct.listed_ascending
  · rw [← hr.map_ofPoll]
    exact (r.votes_perm s).map _
  · exact List.pairwise_map.mpr hr.votes_ascending
  · rw [← hr.map_ofBallot, snapshot_records]
    exact hr.readRecords_perm.map _
  · exact records_ascending hr.votes_ascending fun v hv =>
      Units.pairwise_before (horderly.votes v hv).ascending (horderly.sound.votes v hv).names

/-- A ledger that is restored from a snapshot with its three counters stores what the snapshot says,
in order.  Any other snapshot that says the same is restored, where it is accepted, to a ledger that
stores the same and has the same digest.  And what is stored is accepted again, under all options
that pass, and is stored again as it is. -/
theorem restore_normalizes (h : restore o s = .ok l)
    (hcounters : ∀ name ∈ counterNames, (s.counters.lookup name).isSome)
    (hmembers : ∀ e ∈ s.records, Plan.isNamed e.member = true) :
    l.snapshot.IsNormalOf s ∧
    (∀ o' s' l', restore o' s' = .ok l' → s.Alike s' →
      l'.snapshot = l.snapshot ∧ l'.stateHash = l.stateHash) ∧
    ∀ o' settings, o'.settings = .ok settings →
      ∃ l', restore o' l.snapshot = .ok l' ∧ l'.snapshot = l.snapshot := by
  have hnormal := isNormalOf_snapshot h hcounters hmembers
  have hcounts : ∀ name ∈ counterNames, IsCount (counterOf s name) :=
    fun name hname => isCount_counterOf h (hcounters name hname)
  have hsame : ∀ {o' s' l'}, restore o' s' = .ok l' → s.Alike s' → l'.snapshot = l.snapshot := by
    intro o' s' l' h' halike
    have hcounters' := fun name hname => halike.counted hname (hcounts name hname)
    have hnormal' := isNormalOf_snapshot h' hcounters' (halike.named hmembers)
    exact (hnormal.unique hnormal' halike).symm
  refine ⟨hnormal, fun o' s' l' h' halike => ?_, fun o' settings hsettings => ?_⟩
  · have hsnapshot := hsame h' halike
    exact ⟨hsnapshot, by rw [stateHash, hsnapshot, stateHash]⟩
  · have hrestorable : l.Restorable := by
      refine restorable_of_restore h fun series => hcounters _ ?_
      cases series <;> decide
    have hstored : ∀ counter ∈ l.snapshot.counters, IsCount counter.2 := by
      rw [hnormal.counters]
      exact List.forall_mem_map.mpr hcounts
    obtain ⟨l', hagain⟩ := (exists_restore_snapshot_iff hrestorable hsettings).mpr
      ((counters_snapshot l).mp hstored).2
    exact ⟨l', hagain, hsame hagain hnormal.alike.symm⟩

/-! ## A snapshot out of order -/

namespace Sample

/-- A vote of two members, who are stored in reverse: with a zero too many, with a flag that is not
raised, and above a threshold in a unit of another name. -/
def jumbled : Snapshot where
  version := .number 1
  counters := [("openVotes", .number 1), ("voteId", .number 1), ("thresholdId", .number 2)]
  thresholds := [⟨.number 2, .of .equal "club", .text "ppm", ⟨.number 500000, none, []⟩⟩]
  votes := [⟨.number 1, .text "topic", .text "02", ⟨.text "1", none, []⟩, .text "1", .text "0",
    .number 0, none⟩]
  records := [⟨.number 1, .text "bob", .text "01", .text "uninitialized", .absent, none⟩,
    ⟨.number 1, .text "alice", .text "1", .text "in_favor", .absent, some (.bool false)⟩]

/-- The same vote and the same threshold, as they are stored. -/
def tidy : Snapshot where
  version := .number 1
  counters := [("voteId", .number 1), ("thresholdId", .number 2), ("openVotes", .number 1)]
  thresholds := [⟨.number 2, .of .equal "club", .text "percent", ⟨.number 500000, none, []⟩⟩]
  votes := [⟨.number 1, .text "topic", .text "2", ⟨.text "1", none, []⟩, .text "1", .text "0",
    .number 0, none⟩]
  records := [⟨.number 1, .text "alice", .text "1", .text "in_favor", .absent, none⟩,
    ⟨.number 1, .text "bob", .text "1", .text "uninitialized", .absent, none⟩]

/-- Two digits are an amount. -/
theorem isAmount_digits {s : String} (h : s = "01" ∨ s = "02") : IsAmount (.text s) := by
  rcases h with rfl | rfl
  · exact ⟨_, rfl, by decide, List.all_eq_true.mp (by decide), by decide +kernel⟩
  · exact ⟨_, rfl, by decide, List.all_eq_true.mp (by decide), by decide +kernel⟩

theorem jumbled_valid : jumbled.Valid := by
  have hid : IsId (.number 1) := ⟨1, rfl, by decide, by decide⟩
  have hzero : IsCount (.number 0) := ⟨0, rfl, by decide⟩
  have hunit : IsAmount (.text "1") := isAmount_digit (.inr rfl)
  constructor
  · constructor
    · rfl
    · simp only [jumbled, List.forall_mem_cons, List.not_mem_nil, false_implies, implies_true]
      exact ⟨hid.isCount, hid.isCount, ⟨2, rfl, by decide⟩, trivial⟩
    · simp only [jumbled, List.forall_mem_singleton]
      refine ⟨⟨2, rfl, by decide, by decide⟩, ⟨.equal, by decide, rfl⟩, ⟨"club", rfl, by decide⟩,
        fun h => by simp at h, fun _ => ?_⟩
      simp only [Threshold.bounds, Option.toList_none, List.forall_mem_singleton]
      exact ⟨500000, rfl, by decide⟩
    · simp [jumbled]
    · simp only [jumbled, List.forall_mem_singleton]
      refine ⟨hid, hzero, by simp, isAmount_digits (.inr rfl), ?_, hunit, isAmount_digit (.inl rfl)⟩
      simp only [Threshold.bounds, Option.toList_none, List.forall_mem_singleton]
      exact ⟨hunit, by decide +kernel⟩
    · simp [jumbled]
    · simp only [jumbled, List.forall_mem_cons, List.not_mem_nil, false_implies, implies_true,
        and_true]
      exact ⟨⟨⟨.uninitialized, by decide, rfl⟩, by simp, by simp, isAmount_digits (.inl rfl)⟩,
        ⟨.inFavor, by decide, rfl⟩, by simp, by simp, hunit⟩
    · simp [jumbled]
    · simp [jumbled, RecordEntry.key, Value.display]
    · simp only [jumbled, List.forall_mem_singleton]
      decide +kernel
  · simp only [jumbled, List.forall_mem_singleton]
    decide +kernel
  · simp only [jumbled, List.forall_mem_singleton]
    decide +kernel

theorem tidy_isNormalOf : tidy.IsNormalOf jumbled := by
  refine ⟨rfl, rfl, .of_eq ?_, by simp [tidy], .of_eq ?_, by simp [tidy], ?_, ?_⟩
  · simp [tidy, jumbled, ThresholdEntry.normal, Threshold.bare]
  · simp [tidy, jumbled, VoteEntry.normal, Threshold.bare, Threshold.map, trimmed, trimmedDigits]
  · simp only [tidy, jumbled, RecordEntry.normal, List.map_cons, List.map_nil, trimmed,
      trimmedDigits, Option.filter]
    exact .swap _ _ _
  · have hprecedes : Units.before "alice" "bob" = true := by decide
    simp [tidy, RecordEntry.Precedes, Value.display, hprecedes]

end Sample

/-- The vote that was out of order is stored in order. -/
theorem restore_normalizes_jumbled :
    ∃ l, restore Options.none Sample.jumbled = .ok l ∧
      (∀ name ∈ counterNames, (Sample.jumbled.counters.lookup name).isSome) ∧
      (∀ e ∈ Sample.jumbled.records, Plan.isNamed e.member = true) ∧
      l.snapshot = Sample.tidy ∧
      ∃ l', restore Options.none Sample.tidy = .ok l' ∧ l'.snapshot = Sample.tidy := by
  obtain ⟨settings, hsettings⟩ := exists_settings (o := Options.none) (by intro v hv; cases hv)
  obtain ⟨l, h⟩ := (exists_restore_iff hsettings).mpr Sample.jumbled_valid
  have hcounters : ∀ name ∈ counterNames, (Sample.jumbled.counters.lookup name).isSome := by decide
  have hmembers : ∀ e ∈ Sample.jumbled.records, Plan.isNamed e.member = true := by
    simp [Sample.jumbled, Plan.isNamed, Value.text?]
  obtain ⟨hnormal, -, hagain⟩ := restore_normalizes h hcounters hmembers
  have htidy : l.snapshot = Sample.tidy := hnormal.unique Sample.tidy_isNormalOf (.refl _)
  exact ⟨l, h, hcounters, hmembers, htidy, htidy ▸ hagain _ _ hsettings⟩

end Ledger

end Plebiscite
