import Plebiscite.Ledger.Storage
import Plebiscite.Proofs.Arrangement
import Plebiscite.Proofs.Keyed
import Plebiscite.Proofs.Poll
import Plebiscite.Proofs.Snapshot

/-!
# What a restored ledger holds

A snapshot is accepted if every entry can be read, nothing is there twice, and the votes add up.
The ledger then holds what was read and nothing else.

## Main definitions

- `Ledger.Restoration`: what is read from a snapshot
- `Ledger.Restoration.Of`: everything that was checked on the way

## Main results

- `Ledger.restore_eq_ok`: a snapshot is accepted exactly with what is read from it
-/

namespace Plebiscite

/-! ## Entries of the register -/

namespace Register

theorem contains_eq_false {r : Register} {id : Value} (hid : id.isStructured = false) :
    r.contains id = false ↔ id ∉ r.entries.map (·.id) := by
  have hsame : ∀ v : Value, v.same id = true ↔ v = id := by
    intro v
    simp only [Value.same, Bool.and_eq_true, Bool.not_eq_true', decide_eq_true_eq]
    exact ⟨fun h => h.2, fun h => ⟨h ▸ hid, h⟩⟩
  simp [contains, get?, List.find?_eq_none, hsame]

end Register

namespace Ledger

/-! ## Rounds of the loops -/

/-- A stored threshold that can be kept. -/
def ReadsThreshold (e : Snapshot.ThresholdEntry) (entry : Registration) : Prop :=
  ∃ read, Snapshot.readRegistration e = .ok read ∧ read.rule.validate = .ok () ∧
    entry = { read with electorate := read.electorate.copy }

/-- A stored vote whose tallies and bounds the turnout can reach. -/
def ReadsPoll (e : Snapshot.VoteEntry) (p : Number × Poll) : Prop :=
  Snapshot.readPoll e = .ok p ∧ p.2.inFavor + p.2.against ≤ p.2.turnout ∧
    p.2.threshold.isWithin p.2.turnout = true

/-- A stored record of one of the votes. -/
def ReadsRecord (polls : List (Number × Poll)) (e : Snapshot.RecordEntry) (r : ReadRecord) : Prop :=
  (∃ poll, pollOf polls e.voteId = some (r.voteId, poll)) ∧
    Snapshot.readBallot e = .ok r.seat.ballot ∧ r.seat.member = e.member

/-- The vote and the member by which a record is known. -/
def ReadRecord.key (r : ReadRecord) : Number × String :=
  (r.voteId, r.seat.name)

theorem readRegistration_id {e : Snapshot.ThresholdEntry} {r : Registration}
    (h : Snapshot.readRegistration e = .ok r) : r.id.isStructured = false := by
  simp only [Snapshot.readRegistration, Checks.bind_eq_ok,
    Snapshot.ite_refuse_bind_eq_ok] at h
  obtain ⟨id, -, -, h⟩ := h
  split at h
  · simp only [Checks.bind_eq_ok, Checks.pure_eq_ok] at h
    obtain ⟨_, -, rfl⟩ := h
    rfl
  · split at h
    · simp only [Checks.pure_eq_ok] at h
      subst h
      rfl
    · simp at h

theorem restoreThreshold_eq_ok {r out : Register} {e : Snapshot.ThresholdEntry} :
    restoreThreshold r e = .ok out ↔
      ∃ entry, ReadsThreshold e entry ∧ entry.id ∉ r.entries.map (·.id) ∧
        out = r.insert entry := by
  simp only [restoreThreshold, Register.restore, Checks.bind_eq_ok, Checks.ite_throw_bind_eq_ok,
    Checks.pure_eq_ok, ReadsThreshold]
  constructor
  · rintro ⟨read, hread, hfree, _, ⟨⟩, _, hvalid, rfl⟩
    have hid := readRegistration_id hread
    rw [Bool.not_eq_true, Register.contains_eq_false hid] at hfree
    exact ⟨_, ⟨read, hread, hvalid, rfl⟩, hfree, rfl⟩
  · rintro ⟨_, ⟨read, hread, hvalid, rfl⟩, hfree, rfl⟩
    have hid := readRegistration_id hread
    rw [← Register.contains_eq_false hid, ← Bool.not_eq_true] at hfree
    exact ⟨read, hread, hfree, _, rfl, (), hvalid, rfl⟩

theorem pollOf_number {polls : List (Number × Poll)} {id : Number} :
    pollOf polls (.number id) = none ↔ id ∉ polls.map (·.1) :=
  Keyed.find?_key_eq_none

theorem restorePoll_eq_ok {polls out : List (Number × Poll)} {e : Snapshot.VoteEntry} :
    restorePoll polls e = .ok out ↔
      ∃ p, ReadsPoll e p ∧ p.1 ∉ polls.map (·.1) ∧ out = polls ++ [p] := by
  have hfree : ∀ p, ReadsPoll e p → (p.1 ∉ polls.map (·.1) ↔ pollOf polls e.id = none) := by
    rintro p ⟨hread, -⟩
    rw [(Snapshot.readPoll_eq_ok hread).1, pollOf_number]
  cases hfound : pollOf polls e.id with
  | some p =>
    simp only [restorePoll, hfound, Snapshot.refuse_bind_ne_ok, false_iff]
    rintro ⟨p, hp, hnew, -⟩
    cases hfound.symm.trans ((hfree p hp).mp hnew)
  | none =>
    simp only [restorePoll, hfound, Checks.bind_eq_ok, Snapshot.ite_refuse_bind_eq_ok,
      Checks.pure_eq_ok]
    constructor
    · rintro ⟨p, hread, hle, hwithin, rfl⟩
      have hp : ReadsPoll e p := ⟨hread, not_lt.mp hle, by simpa using hwithin⟩
      exact ⟨p, hp, (hfree p hp).mpr hfound, rfl⟩
    · rintro ⟨p, ⟨hread, hle, hwithin⟩, -, rfl⟩
      exact ⟨p, hread, not_lt.mpr hle, by simpa using hwithin, rfl⟩

theorem restoreRecord_eq_ok {polls : List (Number × Poll)} {records out : List ReadRecord}
    {e : Snapshot.RecordEntry} :
    restoreRecord polls records e = .ok out ↔
      ∃ r, ReadsRecord polls e r ∧ r.key ∉ records.map ReadRecord.key ∧ out = records ++ [r] := by
  cases hfound : pollOf polls e.voteId with
  | none =>
    simp only [restoreRecord, hfound, Snapshot.refuse_ne_ok, false_iff]
    rintro ⟨r, ⟨⟨poll, hpoll⟩, -⟩, -⟩
    cases hfound.symm.trans hpoll
  | some p =>
    simp only [restoreRecord, hfound, Checks.bind_eq_ok, Snapshot.ite_refuse_bind_eq_ok,
      Checks.pure_eq_ok]
    have hseen : ∀ r : ReadRecord, r.voteId = p.1 → r.seat.member = e.member →
        (¬ (records.any fun s => s.voteId = p.1 ∧ s.seat.name = e.member.display) = true ↔
          r.key ∉ records.map ReadRecord.key) := by
      intro r hid hmember
      have hname : r.seat.name = e.member.display := by rw [Seat.name, hmember]
      simp [ReadRecord.key, hid, hname]
    constructor
    · rintro ⟨hnew, ballot, hballot, rfl⟩
      exact ⟨_, ⟨⟨p.2, hfound⟩, hballot, rfl⟩, (hseen _ rfl rfl).mp hnew, rfl⟩
    · rintro ⟨r, ⟨⟨poll, hpoll⟩, hballot, hmember⟩, hnew, rfl⟩
      obtain rfl : p = (r.voteId, poll) := Option.some.inj (hfound.symm.trans hpoll)
      refine ⟨(hseen r rfl hmember).mpr hnew, _, hballot, ?_⟩
      rw [← hmember]

theorem assemble_eq_ok {records : List ReadRecord} {id : Number} {poll : Poll} {v : Vote} :
    assemble records id poll = .ok v ↔
      v = ⟨id, poll, poll.turnout, seated ((records.filter (·.voteId = id)).map (·.seat))⟩ ∧
        mintedOf v.seats = poll.turnout ∧ countedOf .inFavor v.seats = poll.inFavor ∧
        countedOf .against v.seats = poll.against := by
  simp only [assemble, Snapshot.ite_refuse_bind_eq_ok, Checks.pure_eq_ok, not_or, not_not]
  constructor
  · rintro ⟨hminted, ⟨hinFavor, hagainst⟩, rfl⟩
    exact ⟨rfl, hminted, hinFavor, hagainst⟩
  · rintro ⟨rfl, hminted, hinFavor, hagainst⟩
    exact ⟨hminted, ⟨hinFavor, hagainst⟩, rfl⟩

/-- Putting seats in order loses none and adds none. -/
theorem seated_perm (seats : List Seat) : (seated seats).Perm seats := by
  unfold seated
  rw [List.partition_eq_filter_filter]
  refine ((Arrangement.arrange_perm _ _).append_right _).trans ?_
  exact List.perm_append_comm.trans (List.filter_append_perm _ _)

/-- The seats of a vote are those of the records, in another order. -/
theorem exists_record_of_assemble {records : List ReadRecord} {id : Number} {poll : Poll}
    {v : Vote} (h : assemble records id poll = .ok v) {seat : Seat} (hseat : seat ∈ v.seats) :
    ∃ record ∈ records, record.seat = seat := by
  obtain ⟨rfl, -⟩ := assemble_eq_ok.mp h
  obtain ⟨record, hrecord, rfl⟩ := List.mem_map.mp ((seated_perm _).subset hseat)
  exact ⟨record, List.mem_of_mem_filter hrecord, rfl⟩

/-! ## The whole snapshot -/

/-- What is read from a snapshot. -/
structure Restoration where
  /-- What the host decided. -/
  settings : Settings
  /-- The thresholds, as they are stored. -/
  entries : List Registration
  /-- The polls, as they are stored. -/
  polls : List (Number × Poll)
  /-- The records, as they are stored. -/
  records : List ReadRecord
  /-- The votes that these make, as they are stored. -/
  votes : List Vote

/-- Everything that was checked: the entries one by one, that none is repeated, and that the
ballots of each vote add up. -/
structure Restoration.Of (r : Restoration) (o : Options) (s : Snapshot) : Prop where
  version : checkVersion s.version = .ok ()
  settings : o.settings = .ok r.settings
  counters : ∀ counter ∈ s.counters, checkCounter counter = .ok ()
  entries : List.Forall₂ ReadsThreshold s.thresholds r.entries
  entries_distinct : (r.entries.map (·.id)).Nodup
  polls : List.Forall₂ ReadsPoll s.votes r.polls
  polls_distinct : (r.polls.map (·.1)).Nodup
  records : List.Forall₂ (ReadsRecord r.polls) s.records r.records
  records_distinct : (r.records.map ReadRecord.key).Nodup
  votes : List.Forall₂ (fun p v => assemble r.records p.1 p.2 = .ok v) r.polls r.votes

/-- The ledger that holds what was read. -/
def Restoration.ledger (r : Restoration) (s : Snapshot) : Ledger where
  settings := r.settings
  register := ⟨counterOf s "thresholdId", r.entries⟩
  votes := r.votes.foldl insertVote []
  lastVote := (counterOf s "voteId").number?
  openVotes := (counterOf s "openVotes").number?

theorem foldlM_restoreThreshold {es : List Snapshot.ThresholdEntry} {out : Register} :
    es.foldlM restoreThreshold .empty = .ok out ↔
      ∃ entries, List.Forall₂ ReadsThreshold es entries ∧ (entries.map (·.id)).Nodup ∧
        out = ⟨.number 0, entries⟩ := by
  have hinsert : ∀ (entries : List Registration) (r : Register),
      entries.foldl Register.insert r = ⟨r.counter, r.entries ++ entries⟩ := by
    intro entries
    induction entries with
    | nil => simp
    | cons entry entries ih => simp [ih, Register.insert]
  rw [Checks.foldlM_distinct_eq_ok restoreThreshold ReadsThreshold (·.id)
    (fun r => r.entries.map (·.id)) Register.insert (by simp [Register.insert])
    fun _ _ _ => restoreThreshold_eq_ok]
  simp [hinsert, Register.empty]

theorem foldlM_restorePoll {es : List Snapshot.VoteEntry} {out : List (Number × Poll)} :
    es.foldlM restorePoll [] = .ok out ↔
      List.Forall₂ ReadsPoll es out ∧ (out.map (·.1)).Nodup := by
  rw [Checks.foldlM_distinct_eq_ok restorePoll ReadsPoll (·.1) (·.map (·.1))
    (fun polls p => polls ++ [p]) (by simp) fun _ _ _ => restorePoll_eq_ok]
  simp [← List.flatMap_def]

theorem foldlM_restoreRecord {polls : List (Number × Poll)} {es : List Snapshot.RecordEntry}
    {out : List ReadRecord} :
    es.foldlM (restoreRecord polls) [] = .ok out ↔
      List.Forall₂ (ReadsRecord polls) es out ∧ (out.map ReadRecord.key).Nodup := by
  rw [Checks.foldlM_distinct_eq_ok (restoreRecord polls) (ReadsRecord polls) ReadRecord.key
    (·.map ReadRecord.key) (fun records r => records ++ [r]) (by simp)
    fun _ _ _ => restoreRecord_eq_ok]
  simp [← List.flatMap_def]

/-- A snapshot is accepted exactly with what is read from it. -/
theorem restore_eq_ok {o : Options} {s : Snapshot} {l : Ledger} :
    restore o s = .ok l ↔ ∃ r : Restoration, r.Of o s ∧ l = r.ledger s := by
  simp only [restore, Checks.bind_eq_ok, Checks.forM_eq_ok, foldlM_restoreThreshold,
    foldlM_restorePoll, foldlM_restoreRecord, Checks.mapM_eq_ok, Checks.pure_eq_ok]
  constructor
  · rintro ⟨_, hversion, settings, hsettings, _, hcounters, _, ⟨entries, hentries, hdistinct, rfl⟩,
      polls, ⟨hpolls, hids⟩, records, ⟨hrecords, hkeys⟩, votes, hvotes, rfl⟩
    exact ⟨⟨settings, entries, polls, records, votes⟩, ⟨hversion, hsettings, hcounters, hentries,
      hdistinct, hpolls, hids, hrecords, hkeys, hvotes⟩, rfl⟩
  · rintro ⟨r, h, rfl⟩
    exact ⟨(), h.version, r.settings, h.settings, (), h.counters, _,
      ⟨r.entries, h.entries, h.entries_distinct, rfl⟩, r.polls, ⟨h.polls, h.polls_distinct⟩,
      r.records, ⟨h.records, h.records_distinct⟩, r.votes, h.votes, rfl⟩

end Ledger

end Plebiscite
