import Plebiscite.Proofs.Height
import Plebiscite.Proofs.Ledger.Conservation

/-!
# Storing and restoring

What a ledger stores is read back as it was, if it has the form in which ledgers are written:
members in order, known stances, bounds alone, heights and identifiers that pass, and everything in
ascending order.  The validating reader then finds nothing to refuse and nothing to change.

## Main definitions

- `Vote.Storable`, `Registration.Storable`, `Ledger.Storable`: what is read back as it was

## Main results

- `Ledger.restore_snapshot`: a ledger that is stored and restored is the same ledger
-/

namespace Plebiscite

/-- A vote that is read back as it was. -/
structure Vote.Storable (v : Vote) : Prop where
  sound : v.Sound
  id : (v.id.isSafeInteger && Number.le 1 v.id) = true
  named : ∀ seat ∈ v.seats, Plan.isNamed seat.member = true
  ascending : (v.seats.map Seat.name).Pairwise fun a b => Units.notAfter a b = true
  known : ∀ seat ∈ v.seats, seat.ballot.stance ∈ Stance.all
  bare : v.poll.threshold.remarks = []
  initialized : Guard.isBlockHeight (.number v.poll.initialized) = true
  ends : ∀ n ∈ v.poll.ends, Guard.isBlockHeight (.number n) = true

/-- A threshold that is read back as it was. -/
structure Registration.Storable (r : Registration) : Prop where
  id : ∃ n : Number, r.id = .number n ∧ (n.isSafeInteger && Number.le 1 n) = true
  electorate : Guard.isElectorate r.electorate.description = true
  copied : r.electorate.copy = r.electorate
  valid : r.rule.validate = .ok ()
  bare : r.rule.bare = r.rule

namespace Ledger

/-- A ledger that is read back as it was. -/
structure Storable (l : Ledger) : Prop where
  votes : ∀ v ∈ l.votes, v.Storable
  votes_ascending : (l.votes.map (·.id)).Pairwise fun a b => a.lt b = true
  entries : ∀ r ∈ l.register.entries, r.Storable
  entries_ascending : (l.register.entries.map (·.id)).Pairwise fun a b =>
    a.toNumber.lt b.toNumber = true
  lastVote : ∃ n, l.lastVote = some n ∧ (n.isSafeInteger && Number.le 0 n) = true
  openVotes : ∃ n, l.openVotes = some n ∧ (n.isSafeInteger && Number.le 0 n) = true
  counter : ∃ n, l.register.counter = .number n ∧ (n.isSafeInteger && Number.le 0 n) = true

variable {l : Ledger} {v : Vote}

/-! ## Everything in its place -/

/-- Ascending votes are put in order by leaving them where they are. -/
theorem foldl_insertVote {start votes : List Vote}
    (h : ((start ++ votes).map (·.id)).Pairwise fun a b => a.lt b = true) :
    votes.foldl insertVote start = start ++ votes := by
  induction votes generalizing start with
  | nil => simp
  | cons v votes ih =>
    have hlast : insertVote start v = start ++ [v] := by
      refine Keyed.insertBefore_of_forall fun u hu => ?_
      rw [List.map_append, List.pairwise_append] at h
      exact Number.not_precedes_of_lt
        (h.2.2 u.id (List.mem_map_of_mem hu) v.id (by simp))
    rw [List.foldl_cons, hlast, ih (by simpa using h), List.append_assoc, List.singleton_append]

theorem listed_eq (hl : l.Storable) : l.register.listed = l.register.entries := by
  refine Arrangement.arrange_of_pairwise (fun r hr => ?_) ?_
  · obtain ⟨n, hid, hn⟩ := (hl.entries r hr).id
    have hne : n ≠ .nan := by
      rintro rfl
      cases hn
    simp [Register.isNumbered, hid, Value.number?, hne]
  · exact (List.pairwise_map.mp hl.entries_ascending).imp Number.lt_asymm

/-- Members that are texts are all there, so none of them comes last. -/
theorem seated_of_named {seats : List Seat} (h : ∀ seat ∈ seats, Plan.isNamed seat.member = true) :
    seated seats = Arrangement.arrange (Plan.isNamed ·.member)
      (fun a b => a.member.before b.member) seats := by
  have habsent : ∀ seat ∈ seats, seat.member.isAbsent = false := fun seat hseat =>
    Plan.isAbsent_of_isNamed (h seat hseat)
  have hnone : seats.filter (·.member.isAbsent) = [] :=
    List.filter_eq_nil_iff.mpr fun seat hseat => by simp [habsent seat hseat]
  have hall : seats.filter (not ∘ (·.member.isAbsent)) = seats :=
    List.filter_eq_self.mpr fun seat hseat => by simp [habsent seat hseat]
  simp only [seated, List.partition_eq_filter_filter, hnone, hall, List.append_nil]

/-- Seats in the order of their members stay in that order. -/
theorem seated_eq {seats : List Seat} (hnamed : ∀ seat ∈ seats, Plan.isNamed seat.member = true)
    (hascending : (seats.map Seat.name).Pairwise fun a b => Units.notAfter a b = true) :
    seated seats = seats := by
  have hordered : seats.Pairwise fun a b => b.member.before a.member = false := by
    refine (List.pairwise_map.mp hascending).imp_of_mem fun {a b} ha hb hab => ?_
    have hbefore := (Plan.not_before (hnamed a ha) (hnamed b hb)).trans hab
    simpa using hbefore
  rw [seated_of_named hnamed]
  exact Arrangement.arrange_of_pairwise hnamed hordered

/-- Seats of members that are texts are put in the order of the members. -/
theorem ascending_seated {seats : List Seat}
    (h : ∀ seat ∈ seats, Plan.isNamed seat.member = true) :
    ((seated seats).map Seat.name).Pairwise fun a b => Units.notAfter a b = true := by
  rw [seated_of_named h]
  exact Plan.arrange_ascending h

/-- The seats of a vote that is restored from records of texts are in order, however the records are
listed. -/
theorem Restoration.Of.ascending {r : Restoration} {o : Options} {s : Snapshot} (hr : r.Of o s)
    (hmembers : ∀ e ∈ s.records, Plan.isNamed e.member = true) (hv : v ∈ r.votes) :
    (∀ seat ∈ v.seats, Plan.isNamed seat.member = true) ∧
      (v.seats.map Seat.name).Pairwise fun a b => Units.notAfter a b = true := by
  have hnamed : ∀ record ∈ r.records, Plan.isNamed record.seat.member = true := by
    intro record hrecord
    obtain ⟨e, he, -, -, hmember⟩ := Checks.exists_of_mem_right hr.records hrecord
    exact hmember ▸ hmembers e he
  obtain ⟨p, -, hassemble⟩ := Checks.exists_of_mem_right hr.votes hv
  constructor
  · intro seat hseat
    obtain ⟨record, hrecord, rfl⟩ := exists_record_of_assemble hassemble hseat
    exact hnamed record hrecord
  · obtain ⟨rfl, -⟩ := assemble_eq_ok.mp hassemble
    refine ascending_seated fun seat hseat => ?_
    obtain ⟨record, hrecord, rfl⟩ := List.mem_map.mp hseat
    exact hnamed record (List.mem_of_mem_filter hrecord)

/-! ## Records -/

/-- The polls of a ledger by identifier. -/
def polls (l : Ledger) : List (Number × Poll) :=
  l.votes.map fun v => (v.id, v.poll)

/-- The records of a ledger, vote by vote. -/
def readRecords (l : Ledger) : List ReadRecord :=
  l.votes.flatMap fun v => v.seats.map fun seat => ⟨v.id, seat⟩

theorem snapshot_records (l : Ledger) :
    l.snapshot.records =
      l.readRecords.map fun r => Snapshot.ofBallot r.voteId r.seat.member r.seat.ballot := by
  simp only [snapshot, readRecords, List.map_flatMap, List.map_map]
  rfl

theorem nodup_ids (hl : l.Storable) : (l.votes.map (·.id)).Nodup :=
  hl.votes_ascending.imp Number.ne_of_lt

theorem Storable.indexed (hl : l.Storable) : l.Indexed :=
  ⟨nodup_ids hl, fun v hv => (hl.votes v hv).sound.names⟩

theorem pollOf_polls (hl : l.Storable) (hv : v ∈ l.votes) :
    pollOf l.polls (.number v.id) = some (v.id, v.poll) := by
  have hkeys : (l.polls.map (·.1)).Nodup := by
    simpa [polls, Function.comp_def] using nodup_ids hl
  exact (Keyed.find?_key hkeys).mpr ⟨List.mem_map_of_mem hv, rfl⟩

theorem mem_readRecords {r : ReadRecord} :
    r ∈ l.readRecords ↔ ∃ v ∈ l.votes, r.voteId = v.id ∧ r.seat ∈ v.seats := by
  obtain ⟨id, seat⟩ := r
  simp only [readRecords, List.mem_flatMap, List.mem_map, ReadRecord.mk.injEq]
  constructor
  · rintro ⟨v, hv, _, hseat, rfl, rfl⟩
    exact ⟨v, hv, rfl, hseat⟩
  · rintro ⟨v, hv, rfl, hseat⟩
    exact ⟨v, hv, seat, hseat, rfl, rfl⟩

/-- The records of one vote are its seats, in their order. -/
theorem filter_readRecords (hl : l.Indexed) (hv : v ∈ l.votes) :
    (l.readRecords.filter (·.voteId = v.id)).map (·.seat) = v.seats := by
  have hfilter : l.readRecords.filter (·.voteId = v.id) =
      v.seats.map fun seat => (⟨v.id, seat⟩ : ReadRecord) := by
    refine Keyed.filter_flatMap hl.ids (fun u _ r hr => ?_) hv
    obtain ⟨seat, -, rfl⟩ := List.mem_map.mp hr
    rfl
  simp [hfilter, Function.comp_def]

theorem nodup_recordKeys (hl : l.Indexed) : (l.readRecords.map ReadRecord.key).Nodup := by
  have hkeys : l.readRecords.map ReadRecord.key =
      l.votes.flatMap fun v => (v.seats.map Seat.name).map (Prod.mk v.id) := by
    simp only [readRecords, List.map_flatMap, List.map_map]
    rfl
  rw [hkeys, List.nodup_flatMap]
  constructor
  · intro v hv
    exact (hl.names v hv).map (Prod.mk_right_injective v.id)
  · refine (List.pairwise_map.mp hl.ids).imp fun {u v} hne => ?_
    intro key hu hv
    obtain ⟨_, -, rfl⟩ := List.mem_map.mp hu
    obtain ⟨_, -, heq⟩ := List.mem_map.mp hv
    exact hne (congrArg Prod.fst heq).symm

/-! ## The whole ledger -/

theorem assemble_readRecords (hl : l.Storable) (hv : v ∈ l.votes) :
    assemble l.readRecords v.id v.poll = .ok v := by
  have hstorable := hl.votes v hv
  have hsound := hstorable.sound
  refine assemble_eq_ok.mpr ⟨?_, hsound.minted, hsound.inFavor.symm, hsound.against.symm⟩
  rw [filter_readRecords hl.indexed hv, seated_eq hstorable.named hstorable.ascending,
    ← hsound.issued]

theorem readsPoll_ofPoll (hv : v.Storable) :
    ReadsPoll (Snapshot.ofPoll v.id v.poll) (v.id, v.poll) := by
  have hread := Snapshot.readPoll_ofPoll hv.id hv.sound.inRange hv.initialized hv.ends
  rw [Threshold.bare_eq hv.bare] at hread
  refine ⟨hread, hv.sound.conserves.cast_le, ?_⟩
  exact Threshold.isWithin_iff.mpr fun b hb => (hv.sound.bounds b hb).2

theorem readsThreshold_ofRegistration {r : Registration} (hr : r.Storable) :
    ReadsThreshold (Snapshot.ofRegistration r) r := by
  obtain ⟨n, hid, hn⟩ := hr.id
  have hread := Snapshot.readRegistration_ofRegistration hid hn
    (hr.copied.symm ▸ hr.electorate) hr.valid
  rw [hr.bare, hr.copied] at hread
  refine ⟨r, hread, hr.valid, ?_⟩
  rw [hr.copied]

theorem readsRecord_ofBallot (hl : l.Storable) {r : ReadRecord} (hr : r ∈ l.readRecords) :
    ReadsRecord l.polls (Snapshot.ofBallot r.voteId r.seat.member r.seat.ballot) r := by
  obtain ⟨v, hv, hid, hseat⟩ := mem_readRecords.mp hr
  have hstorable := hl.votes v hv
  have hrange := (hstorable.sound.inRange_of_seat hseat)
  refine ⟨⟨v.poll, ?_⟩, ?_, rfl⟩
  · rw [hid]
    exact pollOf_polls hl hv
  · rw [hid]
    exact Snapshot.readBallot_ofBallot hstorable.id hrange (hstorable.known _ hseat)
      (hstorable.sound.stale _ hseat)

/-- A ledger of the form in which ledgers are written is restored as it was. -/
theorem restore_snapshot {o : Options} (hl : l.Storable) (ho : o.settings = .ok l.settings) :
    restore o l.snapshot = .ok l := by
  obtain ⟨lastVote, hlastVote, hlastVote_count⟩ := hl.lastVote
  obtain ⟨openVotes, hopenVotes, hopenVotes_count⟩ := hl.openVotes
  obtain ⟨counter, hcounter, hcounter_count⟩ := hl.counter
  -- All three counters are set, so all three are stored.
  have hcounters : l.counters = [("voteId", .number lastVote), ("thresholdId", .number counter),
      ("openVotes", .number openVotes)] := by
    simp [counters, hlastVote, hopenVotes, hcounter, Value.ofNumber?]
  refine restore_eq_ok.mpr
    ⟨⟨l.settings, l.register.entries, l.polls, l.readRecords, l.votes⟩, ⟨?_, ho, ?_, ?_, ?_, ?_,
      ?_, ?_, nodup_recordKeys hl.indexed, ?_⟩, ?_⟩
  · rfl
  · have hcheck : ∀ {name : String} {n : Number},
        (n.isSafeInteger && Number.le 0 n) = true → checkCounter (name, .number n) = .ok () :=
      fun hn => if_pos hn
    show ∀ counter ∈ l.counters, _
    rw [hcounters]
    simp [hcheck hlastVote_count, hcheck hopenVotes_count, hcheck hcounter_count]
  · show List.Forall₂ _ (l.register.listed.map _) _
    rw [listed_eq hl, List.forall₂_map_left_iff, List.forall₂_same]
    exact fun r hr => readsThreshold_ofRegistration (hl.entries r hr)
  · refine hl.entries_ascending.imp fun {a b} hab heq => ?_
    exact Number.ne_of_lt hab (congrArg Value.toNumber heq)
  · show List.Forall₂ _ (l.votes.map _) (l.votes.map _)
    rw [List.forall₂_map_left_iff, List.forall₂_map_right_iff, List.forall₂_same]
    exact fun v hv => readsPoll_ofPoll (hl.votes v hv)
  · simpa [polls, Function.comp_def] using nodup_ids hl
  · rw [snapshot_records, List.forall₂_map_left_iff, List.forall₂_same]
    exact fun r hr => readsRecord_ofBallot hl hr
  · show List.Forall₂ _ (l.votes.map _) _
    rw [List.forall₂_map_left_iff, List.forall₂_same]
    exact fun v hv => assemble_readRecords hl hv
  · have hcounterOf : ∀ name, counterOf l.snapshot name = (l.counters.lookup name).getD .absent :=
      fun _ => rfl
    have hvotes : l.votes.foldl insertVote [] = l.votes :=
      foldl_insertVote hl.votes_ascending
    have hregister : (⟨.number counter, l.register.entries⟩ : Register) = l.register := by
      rw [← hcounter]
    simp only [Restoration.ledger, hcounterOf, hcounters, hvotes]
    show l = ⟨l.settings, ⟨.number counter, l.register.entries⟩, l.votes, some lastVote,
      some openVotes⟩
    rw [hregister, ← hlastVote, ← hopenVotes]

end Ledger

end Plebiscite
