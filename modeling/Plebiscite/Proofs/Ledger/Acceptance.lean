import Plebiscite.Proofs.Ledger.Run
import Plebiscite.Proofs.Snapshot.Refusal

/-!
# Which snapshots are accepted

The reader goes through a snapshot in loops that stop at the first fault.  What they let through
are exactly the valid snapshots, and everything else is refused as an invalid snapshot.

## Main results

- `Ledger.exists_readsThreshold`, `Ledger.exists_readsPoll`, `Ledger.exists_readsRecord`,
  `Ledger.exists_assemble`: what one round of each loop lets through
- `Ledger.exists_restore_iff`: what all of them let through
- `Ledger.restore_validates`: a snapshot is restored, or refused as an invalid one
-/

namespace Plebiscite.Ledger

open Snapshot

variable {s : Snapshot} {polls : List (Number × Poll)} {records : List ReadRecord}

/-! ## Rounds of the loops -/

theorem checkVersion_eq_ok {v : Value} {u : Unit} : checkVersion v = .ok u ↔ v = .number 1 := by
  cases v with
  | number n => simp [checkVersion]
  | _ => simp [checkVersion]

theorem checkCounter_eq_ok {counter : String × Value} {u : Unit} :
    checkCounter counter = .ok u ↔ IsCount counter.2 := by
  obtain ⟨name, v⟩ := counter
  cases v with
  | number n => simp [checkCounter, isCount_number]
  | _ => simp [checkCounter, IsCount]

theorem exists_readsThreshold {e : ThresholdEntry} :
    (∃ entry, ReadsThreshold e entry) ↔ e.Valid := by
  rw [← exists_readRegistration]
  constructor
  · rintro ⟨_, read, hread, -⟩
    exact ⟨read, hread⟩
  · rintro ⟨read, hread⟩
    exact ⟨_, read, hread, (readRegistration_eq_ok hread).2.2, rfl⟩

theorem id_of_readsThreshold {e : ThresholdEntry} {entry : Registration}
    (h : ReadsThreshold e entry) : entry.id = e.id := by
  obtain ⟨read, hread, -, rfl⟩ := h
  exact (readRegistration_eq_ok hread).1

theorem exists_readsPoll {e : VoteEntry} :
    (∃ p, ReadsPoll e p) ↔ e.Valid ∧ amount e.inFavor + amount e.against ≤ amount e.turnout := by
  constructor
  · rintro ⟨⟨id, p⟩, hread, hle, hwithin⟩
    obtain ⟨hturnout, hbounds, hinFavor, hagainst⟩ := (readPoll_eq_ok hread).2.amounts
    obtain ⟨hid, hinitialized, hends, hamount, hspelt, hfor, hcontra⟩ :=
      exists_readPoll.mp ⟨_, hread⟩
    rw [Threshold.isWithin_iff, hbounds, List.forall_mem_map, ← hturnout] at hwithin
    refine ⟨⟨hid, hinitialized, hends, hamount, ?_, hfor, hcontra⟩, ?_⟩
    · intro b hb
      exact ⟨hspelt b hb, hwithin b hb⟩
    · rw [hturnout, hinFavor, hagainst]
      exact hle
  · rintro ⟨he, hle⟩
    obtain ⟨⟨id, p⟩, hread⟩ := exists_readPoll.mpr ⟨he.id, he.initialized, he.ends, he.turnout,
      fun b hb => (he.bounds b hb).1, he.inFavor, he.against⟩
    obtain ⟨hturnout, hbounds, hinFavor, hagainst⟩ := (readPoll_eq_ok hread).2.amounts
    refine ⟨(id, p), hread, ?_, ?_⟩
    · rw [hturnout, hinFavor, hagainst] at hle
      exact hle
    · rw [Threshold.isWithin_iff, hbounds, List.forall_mem_map, ← hturnout]
      exact fun b hb => (he.bounds b hb).2

theorem pollOf_eq_some {v : Value} {id : Number} :
    (∃ poll, pollOf polls v = some (id, poll)) ↔ v = .number id ∧ id ∈ polls.map (·.1) := by
  cases v with
  | number n =>
    constructor
    · rintro ⟨poll, h⟩
      obtain ⟨hmem, hid⟩ := Keyed.mem_of_find?_key h
      exact ⟨congrArg Value.number hid.symm, List.mem_map_of_mem hmem⟩
    · rintro ⟨hn, hmem⟩
      obtain rfl := Value.number.inj hn
      have hsome := mt pollOf_number.mp (not_not.mpr hmem)
      obtain ⟨⟨id, poll⟩, hfind⟩ := Option.ne_none_iff_exists'.mp hsome
      obtain rfl : id = n := (Keyed.mem_of_find?_key hfind).2
      exact ⟨poll, hfind⟩
  | _ => simp [pollOf]

/-- The votes that are read have the identifiers that are stored. -/
theorem ids_of_readsPoll {es : List VoteEntry} (h : List.Forall₂ ReadsPoll es polls) :
    (polls.map (·.1)).map Value.number = es.map (·.id) := by
  rw [List.map_map]
  apply Checks.map_eq_map h
  intro e p hp
  exact (readPoll_eq_ok hp.1).1.symm

theorem exists_readsRecord {es : List VoteEntry} (h : List.Forall₂ ReadsPoll es polls)
    {e : RecordEntry} :
    (∃ r, ReadsRecord polls e r) ↔ e.voteId ∈ es.map (·.id) ∧ e.Valid := by
  simp only [ReadsRecord, pollOf_eq_some, ← ids_of_readsPoll h]
  constructor
  · rintro ⟨r, ⟨hid, hmem⟩, hread, -⟩
    exact ⟨hid ▸ List.mem_map_of_mem hmem, (exists_readBallot.mp ⟨_, hread⟩).2⟩
  · rintro ⟨hmem, he⟩
    obtain ⟨id, hid, hvote⟩ := List.mem_map.mp hmem
    -- The identifier passed when the vote was read.
    obtain ⟨p, hp, rfl⟩ := List.mem_map.mp hid
    obtain ⟨entry, -, hread⟩ := Checks.exists_of_mem_right h hp
    have hnumber : IsId e.voteId := hvote ▸ (head_of_readPoll hread.1).1
    obtain ⟨ballot, hballot⟩ := exists_readBallot.mpr ⟨hnumber, he⟩
    exact ⟨⟨p.1, e.member, ballot⟩, ⟨hvote.symm, hid⟩, hballot, rfl⟩

/-- The records that are read are known by what is stored. -/
theorem keys_of_readsRecord {es : List RecordEntry}
    (h : List.Forall₂ (ReadsRecord polls) es records) :
    (records.map ReadRecord.key).map (Prod.map Value.number id) = es.map RecordEntry.key := by
  rw [List.map_map]
  apply Checks.map_eq_map h
  rintro e r ⟨hvote, -, hmember⟩
  rw [RecordEntry.key, (pollOf_eq_some.mp hvote).1, ← hmember]
  rfl

/-! ## Tallies -/

section Tallies

variable {e : VoteEntry} {id : Number}

theorem mintedOf_perm {a b : List Seat} (h : a.Perm b) : mintedOf a = mintedOf b :=
  Signal.total_perm (h.map _)

theorem countedOf_perm {a b : List Seat} (h : a.Perm b) (side : Stance) :
    countedOf side a = countedOf side b :=
  mintedOf_perm (h.filter _)

/-- The seats of a vote, in the order of its records. -/
def seatsIn (records : List ReadRecord) (id : Number) : List Seat :=
  (records.filter (·.voteId = id)).map (·.seat)

/-- The records of a vote hold what its seats do. -/
theorem held_recordsOf (h : List.Forall₂ (ReadsRecord polls) s.records records)
    (he : e.id = .number id) : held (s.recordsOf e) = mintedOf (seatsIn records id) := by
  rw [held, mintedOf, seatsIn, List.map_map, Snapshot.recordsOf]
  congr 1
  symm
  apply Checks.filter_map_eq h
  rintro a b ⟨hvote, hread, -⟩
  obtain ⟨-, -, -, -, -, hmagnitude, -⟩ := readBallot_iff.mp hread
  rw [(pollOf_eq_some.mp hvote).1, he]
  exact ⟨by simp, hmagnitude.symm⟩

/-- The records of a vote count for a side what its seats do. -/
theorem held_countsFor (h : List.Forall₂ (ReadsRecord polls) s.records records)
    (he : e.id = .number id) {side : Stance} (hside : side = .inFavor ∨ side = .against) :
    held ((s.recordsOf e).filter (·.countsFor side)) = countedOf side (seatsIn records id) := by
  rw [held, countedOf, mintedOf, seatsIn, List.filter_map, List.map_map, Snapshot.recordsOf,
    List.filter_filter, List.filter_filter]
  congr 1
  symm
  apply Checks.filter_map_eq h
  rintro a b ⟨hvote, hread, -⟩
  obtain ⟨-, -, -, -, -, hmagnitude, -⟩ := readBallot_iff.mp hread
  rw [(pollOf_eq_some.mp hvote).1, he]
  refine ⟨?_, hmagnitude.symm⟩
  have hcounted := counted_of_readBallot hread hside
  simp [hcounted]

/-- A vote can be made if its records add up to what is stored for it. -/
theorem exists_assemble {p : Number × Poll} (hp : ReadsPoll e p)
    (h : List.Forall₂ (ReadsRecord polls) s.records records) :
    (∃ v, assemble records p.1 p.2 = .ok v) ↔ held (s.recordsOf e) = amount e.turnout ∧
      held ((s.recordsOf e).filter (·.countsFor .inFavor)) = amount e.inFavor ∧
        held ((s.recordsOf e).filter (·.countsFor .against)) = amount e.against := by
  obtain ⟨hid, hspells⟩ := readPoll_eq_ok hp.1
  obtain ⟨hturnout, -, hinFavor, hagainst⟩ := hspells.amounts
  -- Putting the seats in order changes no sum.
  have hperm := seated_perm (seatsIn records p.1)
  rw [held_recordsOf h hid, held_countsFor h hid (.inl rfl), held_countsFor h hid (.inr rfl),
    hturnout, hinFavor, hagainst, ← mintedOf_perm hperm, ← countedOf_perm hperm,
    ← countedOf_perm hperm]
  simp only [assemble_eq_ok]
  constructor
  · rintro ⟨v, rfl, hv⟩
    exact hv
  · intro hv
    exact ⟨_, rfl, hv⟩

/-- No record counts for both sides. -/
theorem held_le (records : List RecordEntry) :
    held (records.filter (·.countsFor .inFavor)) + held (records.filter (·.countsFor .against)) ≤
      held records := by
  rw [held, held, held, Signal.total_filter, Signal.total_filter, ← Signal.total_map_add]
  apply Signal.total_map_le
  intro e _
  -- Record by record: the stances of the two sides differ.
  have hnonneg := amount_nonneg e.magnitude
  by_cases hfor : e.countsFor .inFavor = true
  · have hagainst : e.countsFor .against = false := by
      simp only [RecordEntry.countsFor, decide_eq_true_eq] at hfor
      simp [RecordEntry.countsFor, hfor.1, Stance.text]
    simp [hfor, hagainst]
  · rw [if_neg hfor]
    split <;> omega

end Tallies

/-! ## The whole snapshot -/

theorem prodMap_number_injective : Function.Injective (Prod.map Value.number (id : String → String)) :=
  Function.Injective.prodMap (fun _ _ => Value.number.inj) Function.injective_id

/-- What can be read is valid. -/
theorem Restoration.Of.valid {r : Restoration} {o : Options} (h : r.Of o s) : s.Valid := by
  have hrecords : ∀ e ∈ s.records, e.voteId ∈ s.votes.map (·.id) ∧ e.Valid := by
    intro e he
    obtain ⟨record, -, hrecord⟩ := Checks.exists_of_mem_left h.records he
    exact (exists_readsRecord h.polls).mp ⟨record, hrecord⟩
  have htallies : ∀ e ∈ s.votes, held (s.recordsOf e) = amount e.turnout ∧
      held ((s.recordsOf e).filter (·.countsFor .inFavor)) = amount e.inFavor ∧
        held ((s.recordsOf e).filter (·.countsFor .against)) = amount e.against := by
    intro e he
    obtain ⟨p, hp, hread⟩ := Checks.exists_of_mem_left h.polls he
    obtain ⟨v, -, hv⟩ := Checks.exists_of_mem_left h.votes hp
    exact (exists_assemble hread h.records).mp ⟨v, hv⟩
  constructor
  · constructor
    · exact checkVersion_eq_ok.mp h.version
    · exact fun counter hcounter => checkCounter_eq_ok.mp (h.counters counter hcounter)
    · intro e he
      obtain ⟨entry, -, hentry⟩ := Checks.exists_of_mem_left h.entries he
      exact exists_readsThreshold.mp ⟨entry, hentry⟩
    · rw [← Checks.map_eq_map h.entries fun e entry => id_of_readsThreshold]
      exact h.entries_distinct
    · intro e he
      obtain ⟨p, -, hp⟩ := Checks.exists_of_mem_left h.polls he
      exact (exists_readsPoll.mp ⟨p, hp⟩).1
    · rw [← ids_of_readsPoll h.polls]
      exact h.polls_distinct.map fun _ _ => Value.number.inj
    · exact fun e he => (hrecords e he).2
    · exact fun e he => (hrecords e he).1
    · rw [← keys_of_readsRecord h.records]
      exact h.records_distinct.map prodMap_number_injective
    · exact fun e he => (htallies e he).1
  · exact fun e he => (htallies e he).2.1
  · exact fun e he => (htallies e he).2.2

/-- What is valid can be read. -/
theorem exists_restoration {o : Options} {settings : Settings} (ho : o.settings = .ok settings)
    (h : s.Valid) : ∃ r : Restoration, r.Of o s := by
  obtain ⟨entries, hentries⟩ : ∃ entries, List.Forall₂ ReadsThreshold s.thresholds entries :=
    Checks.exists_forall₂ fun e he => exists_readsThreshold.mpr (h.thresholds e he)
  -- The tallies are within the turnout because no record counts for both sides.
  have hreads : ∀ e ∈ s.votes, ∃ p, ReadsPoll e p := by
    intro e he
    have hle := held_le (s.recordsOf e)
    rw [h.inFavor e he, h.against e he, h.minted e he] at hle
    exact exists_readsPoll.mpr ⟨h.votes e he, hle⟩
  obtain ⟨polls, hpolls⟩ := Checks.exists_forall₂ hreads
  obtain ⟨records, hrecords⟩ : ∃ records, List.Forall₂ (ReadsRecord polls) s.records records :=
    Checks.exists_forall₂ fun e he =>
      (exists_readsRecord hpolls).mpr ⟨h.records_listed e he, h.records e he⟩
  obtain ⟨votes, hvotes⟩ :
      ∃ votes, List.Forall₂ (fun p v => assemble records p.1 p.2 = .ok v) polls votes := by
    apply Checks.exists_forall₂
    intro p hp
    obtain ⟨e, he, hread⟩ := Checks.exists_of_mem_right hpolls hp
    exact (exists_assemble hread hrecords).mpr ⟨h.minted e he, h.inFavor e he, h.against e he⟩
  refine ⟨⟨settings, entries, polls, records, votes⟩, ?_⟩
  constructor
  · exact checkVersion_eq_ok.mpr h.version
  · exact ho
  · exact fun counter hcounter => checkCounter_eq_ok.mpr (h.counters counter hcounter)
  · exact hentries
  · rw [Checks.map_eq_map hentries fun e entry => id_of_readsThreshold]
    exact h.thresholds_distinct
  · exact hpolls
  · exact List.Nodup.of_map Value.number (ids_of_readsPoll hpolls ▸ h.votes_distinct)
  · exact hrecords
  · exact List.Nodup.of_map _ (keys_of_readsRecord hrecords ▸ h.records_distinct)
  · exact hvotes

/-- A snapshot is accepted exactly if it is valid. -/
theorem exists_restore_iff {o : Options} {settings : Settings} (ho : o.settings = .ok settings) :
    (∃ l, restore o s = .ok l) ↔ s.Valid := by
  simp only [restore_eq_ok]
  constructor
  · rintro ⟨_, r, hr, -⟩
    exact hr.valid
  · intro h
    obtain ⟨r, hr⟩ := exists_restoration ho h
    exact ⟨_, r, hr, rfl⟩

theorem readCeiling_eq_ok {v : Value} {n : Number} :
    Identifier.readCeiling v = .ok n ↔ v = .number n ∧ IsId v := by
  cases v with
  | number m =>
    by_cases hm : (m.isSafeInteger && Number.le 1 m) = true
    · have hid : IsId (.number m) := isId_number.mpr hm
      rw [Identifier.readCeiling, if_pos hm]
      simp [hid]
    · have hid : ¬ IsId (.number m) := mt isId_number.mp hm
      rw [Identifier.readCeiling, if_neg hm]
      simp [hid]
  | _ => simp [Identifier.readCeiling]

/-- Options pass if the largest identifier is one, or is left out. -/
theorem exists_settings {o : Options} (ho : ∀ v ∈ o.ceiling.given?, IsId v) :
    ∃ settings, o.settings = .ok settings := by
  have hceiling : IsId
      (o.ceiling.given?.getD (.number (Number.ofInt Identifier.defaultCeiling))) := by
    cases hv : o.ceiling.given? with
    | none => exact ⟨Identifier.defaultCeiling, rfl, by decide, by decide⟩
    | some v => exact ho v hv
  obtain ⟨n, hn⟩ := hceiling.exists_number
  have hread := readCeiling_eq_ok.mpr ⟨hn, hceiling⟩
  refine ⟨⟨n, (o.policy.given?.map ResetPolicy.ofValue).getD .resetBallots⟩, ?_⟩
  simp only [Options.settings, hread]
  rfl

/-! ## A snapshot of one vote -/

namespace Sample

/-- A vote of one member, who has not cast a ballot, with some tally in favor. -/
def lone (inFavor : String) : Snapshot where
  version := .number 1
  counters := [("voteId", .number 1), ("thresholdId", .number 0), ("openVotes", .number 1)]
  thresholds := []
  votes := [⟨.number 1, .text "topic", .text "1", ⟨.text "1", none, []⟩, .text inFavor, .text "0",
    .number 0, none⟩]
  records := [⟨.number 1, .text "alice", .text "1", .text "uninitialized", .absent, none⟩]

/-- A single digit is an amount. -/
theorem isAmount_digit {s : String} (h : s = "0" ∨ s = "1") : IsAmount (.text s) := by
  rcases h with rfl | rfl
  · exact ⟨_, rfl, by decide, List.all_eq_true.mp (by decide), by decide +kernel⟩
  · exact ⟨_, rfl, by decide, List.all_eq_true.mp (by decide), by decide +kernel⟩

/-- Whatever the tally is, everything but the tally is right. -/
theorem lone_wellFormed {inFavor : String} (h : inFavor = "0" ∨ inFavor = "1") :
    (lone inFavor).WellFormed := by
  have hone : IsId (.number 1) := ⟨1, rfl, by decide, by decide⟩
  have hzero : IsCount (.number 0) := ⟨0, rfl, by decide⟩
  have hcount : IsCount (.number 1) := ⟨1, rfl, by decide⟩
  have hunit : IsAmount (.text "1") := isAmount_digit (.inr rfl)
  constructor
  · rfl
  · simp [lone, hzero, hcount]
  · simp [lone]
  · simp [lone]
  · simp only [lone, List.forall_mem_singleton]
    exact ⟨hone, hzero, by simp, hunit, by simp [Threshold.bounds, hunit], isAmount_digit h,
      isAmount_digit (.inl rfl)⟩
  · simp [lone]
  · simp only [lone, List.forall_mem_singleton]
    exact ⟨⟨.uninitialized, by decide, rfl⟩, by simp, by simp, hunit⟩
  · simp [lone]
  · simp [lone]
  · simp only [lone, List.forall_mem_singleton]
    rcases h with rfl | rfl <;> decide +kernel

theorem lone_valid : (lone "0").Valid := by
  constructor
  · exact lone_wellFormed (.inl rfl)
  · simp only [lone, List.forall_mem_singleton]
    decide +kernel
  · simp only [lone, List.forall_mem_singleton]
    decide +kernel

end Sample

/-! ## Restoring validates -/

/-- Under options that pass, a snapshot is restored exactly if it is valid, and refused as an
invalid snapshot otherwise. -/
theorem restore_validates (s : Snapshot) {o : Options} (ho : ∀ v ∈ o.ceiling.given?, IsId v) :
    ((∃ l, restore o s = .ok l) ↔ s.Valid) ∧
      (¬ s.Valid → ∃ f, restore o s = .error f ∧ f.code = .invalidSnapshot) := by
  obtain ⟨settings, hsettings⟩ := exists_settings ho
  have hiff := exists_restore_iff (s := s) hsettings
  refine ⟨hiff, ?_⟩
  intro hinvalid
  cases h : restore o s with
  | ok l => exact absurd (hiff.mp ⟨l, h⟩) hinvalid
  | error f => exact ⟨f, rfl, (restore_blames hsettings s).of_error h⟩

/-- With an empty tally the vote of one member is restored, up to ten identifiers. -/
theorem restore_validates_lone :
    (∀ v ∈ Sample.options.ceiling.given?, IsId v) ∧ (Sample.lone "0").Valid ∧
      ∃ l, restore Sample.options (Sample.lone "0") = .ok l := by
  have ho : ∀ v ∈ Sample.options.ceiling.given?, IsId v := by
    intro v hv
    cases hv
    exact ⟨10, rfl, by decide, by decide⟩
  exact ⟨ho, Sample.lone_valid, (restore_validates (Sample.lone "0") ho).1.mpr Sample.lone_valid⟩

/-- It is not enough that the records hold what was minted.  Here the tally says that the member is
in favor, who has not cast a ballot, and nothing else is wrong. -/
theorem not_restored_of_wellFormed :
    (∀ v ∈ Options.none.ceiling.given?, IsId v) ∧
      (∀ name ∈ ["voteId", "thresholdId", "openVotes"],
        ((Sample.lone "1").counters.lookup name).isSome) ∧
      (Sample.lone "1").WellFormed ∧
      ¬ ∃ l, restore Options.none (Sample.lone "1") = .ok l := by
  have ho : ∀ v ∈ Options.none.ceiling.given?, IsId v := by
    intro v hv
    cases hv
  refine ⟨ho, by decide, Sample.lone_wellFormed (.inr rfl), ?_⟩
  obtain ⟨settings, hsettings⟩ := exists_settings ho
  rw [exists_restore_iff hsettings]
  intro h
  have htally := h.inFavor _ List.mem_cons_self
  revert htally
  decide +kernel

end Plebiscite.Ledger
