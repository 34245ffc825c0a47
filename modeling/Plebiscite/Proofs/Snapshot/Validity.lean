import Plebiscite.Proofs.Snapshot

/-!
# Valid snapshots

What a snapshot has to be so that it can be restored, said without the reader: which values are
identifiers, counts and amounts, what each entry holds, and how the entries fit together.  The
reader takes an entry exactly if it is one of these, and reads out of it what it says.

## Main definitions

- `Snapshot.IsId`, `Snapshot.IsCount`, `Snapshot.IsShare`, `Snapshot.IsAmount`: single values
- `Snapshot.ThresholdEntry.Valid`, `Snapshot.VoteEntry.Valid`, `Snapshot.RecordEntry.Valid`: the
  entries by themselves
- `Snapshot.WellFormed`, `Snapshot.Valid`: the whole, without and with the tallies

## Main results

- `Snapshot.exists_readRegistration`, `Snapshot.exists_readPoll`, `Snapshot.exists_readBallot`:
  which entries can be read
-/

namespace Plebiscite.Snapshot

/-! ## Single values -/

/-- A positive safe integer. -/
def IsId (v : Value) : Prop :=
  ∃ k : Nat, v = .number (.ofInt k) ∧ 1 ≤ k ∧ k ≤ Number.maxSafe

/-- A safe integer from zero on: a count, or a block height. -/
def IsCount (v : Value) : Prop :=
  ∃ k : Nat, v = .number (.ofInt k) ∧ k ≤ Number.maxSafe

/-- A whole number of parts per million. -/
def IsShare (v : Value) : Prop :=
  ∃ k : Nat, v = .number (.ofInt k) ∧ k ≤ 1000000

/-- The number that a run of decimal digits spells. -/
def amount : Value → Int
  | .text s => Nat.ofDigitChars 10 s.toList 0
  | _ => 0

/-- A run of decimal digits that spells an amount of signal. -/
def IsAmount (v : Value) : Prop :=
  ∃ s : String, v = .text s ∧ s ≠ "" ∧ (∀ c ∈ s.toList, c.isDigit = true) ∧
    amount v ≤ Signal.max

/-! ## Entries -/

/-- An identifier, an electorate with a known mode and a name, and bounds of the unit. -/
structure ThresholdEntry.Valid (e : ThresholdEntry) : Prop where
  id : IsId e.id
  mode : ∃ mode ∈ MintMode.all, e.electorate.kind = .text mode.text
  org : ∃ org : String, e.electorate.org = .text org ∧ org ≠ ""
  signal : e.kind = .text "signal" → ∀ b ∈ e.threshold.bounds, IsAmount b
  /-- Any other word for the unit means parts per million. -/
  share : e.kind ≠ .text "signal" → ∀ b ∈ e.threshold.bounds, IsShare b

/-- An identifier, heights, amounts, and bounds that the turnout can reach. -/
structure VoteEntry.Valid (e : VoteEntry) : Prop where
  id : IsId e.id
  initialized : IsCount e.initialized
  ends : ∀ v ∈ e.ends, IsCount v
  turnout : IsAmount e.turnout
  bounds : ∀ b ∈ e.threshold.bounds, IsAmount b ∧ amount b ≤ amount e.turnout
  inFavor : IsAmount e.inFavor
  against : IsAmount e.against

/-- A known stance, an amount, and a flag that only a ballot for a side may raise. -/
structure RecordEntry.Valid (e : RecordEntry) : Prop where
  stance : ∃ stance ∈ Stance.all, e.stance = .text stance.text
  flag : ∀ v ∈ e.stale, ∃ b : Bool, v = .bool b
  sided : e.stale = some (.bool true) → e.stance = .text "in_favor" ∨ e.stance = .text "against"
  magnitude : IsAmount e.magnitude

/-- The vote and the member that a record is about. -/
def RecordEntry.key (e : RecordEntry) : Value × String :=
  (e.voteId, e.member.display)

/-- Whether a record is cast for a side and not stale. -/
def RecordEntry.countsFor (e : RecordEntry) (side : Stance) : Bool :=
  decide (e.stance = .text side.text ∧ e.stale ≠ some (.bool true))

/-! ## Snapshots -/

/-- The records of a stored vote. -/
def recordsOf (s : Snapshot) (e : VoteEntry) : List RecordEntry :=
  s.records.filter (·.voteId = e.id)

/-- The signal that records hold. -/
def held (records : List RecordEntry) : Int :=
  Signal.total (records.map fun e => amount e.magnitude)

/-- All entries are valid, nothing is there twice, every record is about a vote that is there, and
the records of each vote hold what was minted for it. -/
structure WellFormed (s : Snapshot) : Prop where
  version : s.version = .number 1
  counters : ∀ counter ∈ s.counters, IsCount counter.2
  thresholds : ∀ e ∈ s.thresholds, e.Valid
  thresholds_distinct : (s.thresholds.map (·.id)).Nodup
  votes : ∀ e ∈ s.votes, e.Valid
  votes_distinct : (s.votes.map (·.id)).Nodup
  records : ∀ e ∈ s.records, e.Valid
  records_listed : ∀ e ∈ s.records, e.voteId ∈ s.votes.map (·.id)
  records_distinct : (s.records.map RecordEntry.key).Nodup
  minted : ∀ e ∈ s.votes, held (s.recordsOf e) = amount e.turnout

/-- Besides, the tallies of each vote are those of its records. -/
structure Valid (s : Snapshot) : Prop extends s.WellFormed where
  inFavor : ∀ e ∈ s.votes, held ((s.recordsOf e).filter (·.countsFor .inFavor)) = amount e.inFavor
  against : ∀ e ∈ s.votes, held ((s.recordsOf e).filter (·.countsFor .against)) = amount e.against

/-! ## Reading single values -/

section Values

variable {v : Value} {n : Number}

theorem isId_number : IsId (.number n) ↔ (n.isSafeInteger && Number.le 1 n) = true := by
  rw [IsId]
  simp only [Value.number.injEq]
  exact (Number.isSafeInteger_and_le_iff 1).symm

theorem isCount_number : IsCount (.number n) ↔ (n.isSafeInteger && Number.le 0 n) = true := by
  rw [IsCount]
  simp only [Value.number.injEq]
  have h := Number.isSafeInteger_and_le_iff (n := n) 0
  simp only [Nat.zero_le, true_and] at h
  exact h.symm

theorem isShare_number : IsShare (.number n) ↔ Guard.isPermill (.number n) = true := by
  constructor
  · rintro ⟨k, hk, hle⟩
    obtain rfl := Value.number.inj hk
    have hlow : Number.le 0 (.ofInt k) = true := (Number.ofInt_le 0 k).trans (by simp)
    have hhigh : (Number.ofInt k).le (.ofInt Guard.permillMax) = true := by
      simpa [Guard.permillMax] using hle
    have hint : (Number.ofInt k).isInteger = true := rfl
    simp [Guard.isPermill, hint, hlow, hhigh]
  · intro h
    obtain ⟨k, rfl, hlow, hhigh⟩ := Guard.exists_of_isPermill h
    exact ⟨k.toNat, by rw [Int.toNat_of_nonneg hlow], by omega⟩

/-- Only numbers are identifiers. -/
theorem IsId.exists_number (h : IsId v) : ∃ n, v = .number n := by
  obtain ⟨k, rfl, -⟩ := h
  exact ⟨_, rfl⟩

theorem IsCount.exists_number (h : IsCount v) : ∃ n, v = .number n := by
  obtain ⟨k, rfl, -⟩ := h
  exact ⟨_, rfl⟩

theorem IsId.isCount (h : IsId v) : IsCount v := by
  obtain ⟨k, hk, -, hle⟩ := h
  exact ⟨k, hk, hle⟩

theorem readId_iff {subject : String} : readId subject v = .ok n ↔ v = .number n ∧ IsId v := by
  rw [readId_eq_ok]
  constructor
  · rintro ⟨rfl, h⟩
    exact ⟨rfl, isId_number.mpr h⟩
  · rintro ⟨rfl, h⟩
    exact ⟨rfl, isId_number.mp h⟩

theorem height?_eq_some : height? v = some n ↔ v = .number n ∧ IsCount v := by
  cases v with
  | number m =>
    have hcount : IsCount (.number m) ↔ Guard.isBlockHeight (.number m) = true := isCount_number
    simp only [height?, hcount, Option.ite_none_right_eq_some, Option.some.injEq,
      Value.number.injEq]
    exact and_comm
  | _ => simp [height?]

theorem permill?_eq_some : permill? v = some n ↔ v = .number n ∧ IsShare v := by
  cases v with
  | number m =>
    simp only [permill?, ← isShare_number, Option.ite_none_right_eq_some, Option.some.injEq,
      Value.number.injEq]
    exact and_comm
  | _ => simp [permill?]

theorem amount_nonneg (v : Value) : 0 ≤ amount v := by
  unfold amount
  split
  · exact Int.natCast_nonneg _
  · exact le_refl 0

/-- The text of an amount is read as the number that it spells. -/
theorem parse_eq_ok {k : Int} : Signal.parse v = .ok k ↔ IsAmount v ∧ amount v = k := by
  cases v with
  | text s =>
    have hnumeral : Signal.isNumeral s = true ↔ s ≠ "" ∧ ∀ c ∈ s.toList, c.isDigit = true := by
      simp [Signal.isNumeral, Signal.isDigit_eq]
    have hvalue : ((Signal.numeralValue s.toList : Nat) : Int) = amount (.text s) := by
      rw [Signal.numeralValue_eq, amount]
    have hrange : Signal.inRange (amount (.text s)) = true ↔ amount (.text s) ≤ Signal.max := by
      rw [Signal.inRange_iff]
      exact and_iff_right (amount_nonneg _)
    have hamount : IsAmount (.text s) ↔
        Signal.isNumeral s = true ∧ Signal.inRange (amount (.text s)) = true := by
      rw [hnumeral, hrange, IsAmount]
      simp [and_assoc]
    -- The digits are checked before the range is.
    simp only [Signal.parse, hvalue, hamount]
    by_cases hdigits : Signal.isNumeral s = true
    · by_cases hin : Signal.inRange (amount (.text s)) = true
      · simp [hdigits, hin]
      · simp [hdigits, hin]
    · simp [hdigits]
  | _ => simp [Signal.parse, IsAmount]

theorem exists_readAmount (field : String) :
    (∃ k, readAmount field v = .ok k) ↔ IsAmount v := by
  simp only [readAmount_eq_ok, parse_eq_ok]
  exact ⟨fun ⟨_, h, _⟩ => h, fun h => ⟨_, h, rfl⟩⟩

end Values

/-! ## Reading thresholds -/

section Thresholds

variable {field : String} {t : Threshold Value}

theorem exists_readThreshold (field : String) :
    (∃ t', readThreshold field t = .ok t') ↔ ∀ b ∈ t.bounds, IsAmount b := by
  obtain ⟨inFavor, against, remarks⟩ := t
  cases against with
  | none => simp [readThreshold, Threshold.bounds, exists_readAmount]
  | some b =>
    have hboth : (∃ t', readThreshold field ⟨inFavor, some b, remarks⟩ = .ok t') ↔
        (∃ k, readAmount (field ++ ".inFavor") inFavor = .ok k) ∧
          ∃ j, readAmount (field ++ ".against") b = .ok j := by
      simp only [readThreshold, Checks.bind_eq_ok, Checks.pure_eq_ok]
      constructor
      · rintro ⟨_, k, hk, j, hj, -⟩
        exact ⟨⟨k, hk⟩, j, hj⟩
      · rintro ⟨⟨k, hk⟩, j, hj⟩
        exact ⟨_, k, hk, j, hj, rfl⟩
    rw [hboth, exists_readAmount, exists_readAmount]
    simp [Threshold.bounds]

/-- The bounds are read as the numbers that they spell. -/
theorem bounds_of_readThreshold {t' : Threshold Int} (h : readThreshold field t = .ok t') :
    t'.bounds = t.bounds.map amount := by
  obtain ⟨inFavor, against, remarks⟩ := t
  simp only [readThreshold, Checks.bind_eq_ok] at h
  obtain ⟨k, hk, h⟩ := h
  have hk : amount inFavor = k := (parse_eq_ok.mp (readAmount_eq_ok.mp hk)).2
  cases against with
  | none =>
    obtain rfl := Checks.pure_eq_ok.mp h
    simp [Threshold.bounds, hk]
  | some b =>
    simp only [Checks.bind_eq_ok, Checks.pure_eq_ok] at h
    obtain ⟨j, hj, rfl⟩ := h
    have hj : amount b = j := (parse_eq_ok.mp (readAmount_eq_ok.mp hj)).2
    simp [Threshold.bounds, hk, hj]

/-- Bounds are read as parts per million exactly if all of them are. -/
theorem percent?_eq_some {t' : Threshold Number} :
    percent? t = some t' ↔ t = t'.map Value.number ∧ ∀ b ∈ t.bounds, IsShare b := by
  obtain ⟨inFavor, against, remarks⟩ := t
  obtain ⟨inFavor', against', remarks'⟩ := t'
  have hread : percent? ⟨inFavor, against, remarks⟩ = some ⟨inFavor', against', remarks'⟩ ↔
      permill? inFavor = some inFavor' ∧ against.map permill? = against'.map some ∧
        remarks = remarks' := by
    cases hin : permill? inFavor with
    | none => simp [percent?, hin]
    | some n =>
      cases against with
      | none => cases against' <;> simp [percent?, hin]
      | some b => cases against' <;> cases hb : permill? b <;> simp [percent?, hin, hb]
  rw [hread, permill?_eq_some]
  cases against with
  | none =>
    cases against' with
    | none =>
      simp only [Threshold.map, Threshold.bounds, Threshold.mk.injEq, Option.map_none,
        Option.toList_none, List.forall_mem_singleton, true_and]
      tauto
    | some b' => simp [Threshold.map]
  | some b =>
    cases against' with
    | none => simp [Threshold.map]
    | some b' =>
      simp only [Threshold.map, Threshold.bounds, Threshold.mk.injEq, Option.map_some,
        Option.some.injEq, permill?_eq_some, Option.toList_some, List.forall_mem_cons]
      tauto

theorem exists_percent? : (∃ t', percent? t = some t') ↔ ∀ b ∈ t.bounds, IsShare b := by
  simp only [percent?_eq_some]
  constructor
  · rintro ⟨t', -, h⟩
    exact h
  · intro h
    obtain ⟨inFavor, against, remarks⟩ := t
    -- Shares are numbers, and a number is read as itself.
    obtain ⟨k, rfl, -⟩ := h inFavor (by simp [Threshold.bounds])
    cases against with
    | none => exact ⟨⟨.ofInt k, none, remarks⟩, rfl, h⟩
    | some b =>
      obtain ⟨j, rfl, -⟩ := h b (by simp [Threshold.bounds])
      exact ⟨⟨.ofInt k, some (.ofInt j), remarks⟩, rfl, h⟩

/-- What is read as parts per million passes the check for parts per million. -/
theorem validate_of_percent? {t' : Threshold Number} (h : percent? t = some t') :
    (Rule.percent t').validate = .ok () := by
  obtain ⟨rfl, hshares⟩ := percent?_eq_some.mp h
  rw [Threshold.bounds_map] at hshares
  apply Rule.validate_percent.mpr
  intro b hb
  exact isShare_number.mp (hshares _ (List.mem_map_of_mem hb))

theorem isSignalUnit_iff {v : Value} : Rule.isSignalUnit v = true ↔ v = .text "signal" := by
  cases v with
  | text s => simp [Rule.isSignalUnit]
  | _ => simp [Rule.isSignalUnit]

/-- An electorate names a mode that is known and an organization that has a name. -/
theorem isElectorate_iff {e : Electorate} :
    Guard.isElectorate e.description = true ↔
      (∃ mode ∈ MintMode.all, e.kind = .text mode.text) ∧
        ∃ org : String, e.org = .text org ∧ org ≠ "" := by
  have hmode : ∀ v : Value, Guard.isMintMode v = true ↔
      ∃ mode ∈ MintMode.all, v = .text mode.text := by
    intro v
    cases v with
    | text s =>
      simp only [Guard.isMintMode, MintMode.ofText?, List.find?_isSome, beq_iff_eq,
        Value.text.injEq, eq_comm (a := s)]
    | _ => simp [Guard.isMintMode]
  have horg : ∀ v : Value, Guard.isIdentifier v = true ↔ ∃ s : String, v = .text s ∧ s ≠ "" := by
    intro v
    cases v with
    | text s => simp [Guard.isIdentifier]
    | _ => simp [Guard.isIdentifier]
  rw [Guard.isElectorate, Bool.and_eq_true, Bool.and_eq_true, hmode, horg]
  constructor
  · intro h
    exact ⟨h.1.2, h.2⟩
  · intro h
    refine ⟨⟨?_, h.1⟩, h.2⟩
    -- Only an object has a property that is a text.
    obtain ⟨mode, -, hkind⟩ := h.1
    obtain ⟨description⟩ := e
    cases description with
    | object fields => rfl
    | _ => cases hkind

/-- A threshold is read exactly if it is valid. -/
theorem exists_readRegistration {e : ThresholdEntry} :
    (∃ r, readRegistration e = .ok r) ↔ e.Valid := by
  simp only [readRegistration, Checks.bind_eq_ok, ite_refuse_bind_eq_ok]
  constructor
  · rintro ⟨r, id, hid, helectorate, h⟩
    have hmember := isElectorate_iff.mp (by simpa using helectorate)
    by_cases hunit : Rule.isSignalUnit e.kind = true
    · rw [if_pos hunit, Checks.bind_eq_ok] at h
      obtain ⟨t, ht, -⟩ := h
      have hkind := isSignalUnit_iff.mp hunit
      exact ⟨(readId_iff.mp hid).2, hmember.1, hmember.2,
        fun _ => (exists_readThreshold _).mp ⟨t, ht⟩, fun hne => absurd hkind hne⟩
    · rw [if_neg hunit] at h
      have hkind : e.kind ≠ .text "signal" := mt isSignalUnit_iff.mpr hunit
      cases hpercent : percent? e.threshold with
      | none => simp [hpercent] at h
      | some t =>
        exact ⟨(readId_iff.mp hid).2, hmember.1, hmember.2, fun heq => absurd heq hkind,
          fun _ => exists_percent?.mp ⟨t, hpercent⟩⟩
  · intro h
    obtain ⟨n, hn⟩ := h.id.exists_number
    have hid : readId "threshold id" e.id = .ok n := readId_iff.mpr ⟨hn, h.id⟩
    have helectorate := isElectorate_iff.mpr ⟨h.mode, h.org⟩
    by_cases hunit : Rule.isSignalUnit e.kind = true
    · have hbounds := h.signal (isSignalUnit_iff.mp hunit)
      obtain ⟨t, ht⟩ := (exists_readThreshold s!"threshold {n.text}").mpr hbounds
      refine ⟨⟨.number n, e.electorate.copy, .signal t⟩, n, hid, by simpa using helectorate, ?_⟩
      rw [if_pos hunit, ht]
      rfl
    · have hbounds := h.share (mt isSignalUnit_iff.mpr hunit)
      obtain ⟨t, ht⟩ := exists_percent?.mpr hbounds
      refine ⟨⟨.number n, e.electorate.copy, .percent t⟩, n, hid, by simpa using helectorate, ?_⟩
      rw [if_neg hunit, ht]
      rfl

/-- A threshold keeps its identifier and its electorate, and its rule needs no further check. -/
theorem readRegistration_eq_ok {e : ThresholdEntry} {r : Registration}
    (h : readRegistration e = .ok r) :
    r.id = e.id ∧ r.electorate = e.electorate.copy ∧ r.rule.validate = .ok () := by
  simp only [readRegistration, Checks.bind_eq_ok, ite_refuse_bind_eq_ok] at h
  obtain ⟨n, hid, -, h⟩ := h
  have hid := (readId_iff.mp hid).1
  split at h
  · simp only [Checks.bind_eq_ok, Checks.pure_eq_ok] at h
    obtain ⟨t, ht, rfl⟩ := h
    exact ⟨hid.symm, rfl, Rule.validate_signal.mpr (readThreshold_inRange ht)⟩
  · cases hpercent : percent? e.threshold with
    | none => simp [hpercent] at h
    | some t =>
      simp only [hpercent, Checks.pure_eq_ok] at h
      subst h
      exact ⟨hid.symm, rfl, validate_of_percent? hpercent⟩

end Thresholds

/-! ## Reading votes -/

section Votes

variable {e : VoteEntry} {p : Number × Poll}

/-- The identifier and the heights of a vote are read as they are. -/
theorem head_of_readPoll (h : readPoll e = .ok p) :
    IsId (.number p.1) ∧ e.initialized = .number p.2.initialized ∧
      IsCount (.number p.2.initialized) ∧ e.ends = p.2.ends.map .number ∧
        ∀ n ∈ p.2.ends, IsCount (.number n) := by
  simp only [readPoll, Checks.bind_eq_ok] at h
  obtain ⟨n, hid, h⟩ := h
  obtain ⟨hn, hid⟩ := readId_iff.mp hid
  rw [hn] at hid
  cases hinitialized : height? e.initialized with
  | none => simp [hinitialized] at h
  | some initialized =>
    obtain ⟨hnumber, hcount⟩ := height?_eq_some.mp hinitialized
    rw [hnumber] at hcount
    cases hv : e.ends with
    | none =>
      simp only [hinitialized, hv, Checks.bind_eq_ok, Checks.pure_eq_ok] at h
      obtain ⟨_, rfl, _, -, _, -, _, -, _, -, rfl⟩ := h
      exact ⟨hid, hnumber, hcount, rfl, by simp⟩
    | some v =>
      cases hends : height? v with
      | none => simp [hinitialized, hv, hends] at h
      | some ends =>
        obtain ⟨rfl, hend⟩ := height?_eq_some.mp hends
        simp only [hinitialized, hv, hends, Checks.bind_eq_ok, Checks.pure_eq_ok] at h
        obtain ⟨_, rfl, _, -, _, -, _, -, _, -, rfl⟩ := h
        exact ⟨hid, hnumber, hcount, rfl, by simpa using hend⟩

/-- A vote is read exactly if its identifier, its heights and its amounts are. -/
theorem exists_readPoll :
    (∃ p, readPoll e = .ok p) ↔ IsId e.id ∧ IsCount e.initialized ∧ (∀ v ∈ e.ends, IsCount v) ∧
      IsAmount e.turnout ∧ (∀ b ∈ e.threshold.bounds, IsAmount b) ∧ IsAmount e.inFavor ∧
        IsAmount e.against := by
  constructor
  · rintro ⟨⟨id, p⟩, h⟩
    obtain ⟨hn, hspells⟩ := readPoll_eq_ok h
    obtain ⟨hid, hinitialized, hcount, hends, hcounts⟩ := head_of_readPoll h
    obtain ⟨field, hthreshold⟩ := hspells.threshold
    refine ⟨hn ▸ hid, hinitialized ▸ hcount, ?_, (parse_eq_ok.mp hspells.turnout).1,
      (exists_readThreshold _).mp ⟨_, hthreshold⟩, (parse_eq_ok.mp hspells.inFavor).1,
      (parse_eq_ok.mp hspells.against).1⟩
    rw [hends]
    simpa using hcounts
  · rintro ⟨hid, hinitialized, hends, hturnout, hbounds, hinFavor, hagainst⟩
    obtain ⟨n, hn⟩ := hid.exists_number
    obtain ⟨m, hm⟩ := hinitialized.exists_number
    have hread : readId "vote id" e.id = .ok n := readId_iff.mpr ⟨hn, hid⟩
    have hheight : height? e.initialized = some m := height?_eq_some.mpr ⟨hm, hinitialized⟩
    let field := s!"vote {n.text}"
    obtain ⟨turnout, hturnout⟩ :=
      (exists_readAmount (field ++ ".totalPossibleTurnout")).mpr hturnout
    obtain ⟨t, ht⟩ := (exists_readThreshold (field ++ ".threshold")).mpr hbounds
    obtain ⟨inFavor, hinFavor⟩ := (exists_readAmount (field ++ ".inFavor")).mpr hinFavor
    obtain ⟨against, hagainst⟩ := (exists_readAmount (field ++ ".against")).mpr hagainst
    simp only [field] at hturnout ht hinFavor hagainst
    cases hv : e.ends with
    | none =>
      exact ⟨(n, ⟨e.topic, turnout, t, inFavor, against, m, none⟩),
        by simp [readPoll, hread, hheight, hv, hturnout, ht, hinFavor, hagainst]⟩
    | some v =>
      obtain ⟨k, hk⟩ := (hends v hv).exists_number
      have hend : height? v = some k := height?_eq_some.mpr ⟨hk, hends v hv⟩
      exact ⟨(n, ⟨e.topic, turnout, t, inFavor, against, m, some k⟩),
        by simp [readPoll, hread, hheight, hv, hend, hturnout, ht, hinFavor, hagainst]⟩

/-- The amounts of a vote are read as the numbers that they spell. -/
theorem Spells.amounts {e : VoteEntry} {p : Poll} (h : Spells e p) :
    amount e.turnout = p.turnout ∧ p.threshold.bounds = e.threshold.bounds.map amount ∧
      amount e.inFavor = p.inFavor ∧ amount e.against = p.against :=
  ⟨(parse_eq_ok.mp h.turnout).2, bounds_of_readThreshold h.threshold.choose_spec,
    (parse_eq_ok.mp h.inFavor).2, (parse_eq_ok.mp h.against).2⟩

end Votes

/-! ## Reading records -/

section Records

variable {e : RecordEntry} {b : Ballot}

theorem stance?_eq_some {v : Value} {stance : Stance} :
    stance? v = some stance ↔ stance ∈ Stance.all ∧ v = .text stance.text := by
  constructor
  · intro h
    cases v with
    | text s =>
      have h : Stance.all.find? (·.text == s) = some stance := h
      have htext := List.find?_some h
      exact ⟨List.mem_of_find?_eq_some h, congrArg Value.text (eq_of_beq htext).symm⟩
    | _ => cases h
  · rintro ⟨hmem, rfl⟩
    -- The four words are different.
    cases stance with
    | other given => simp [Stance.all] at hmem
    | _ => decide

theorem flag?_eq_some {v : Option Value} {stale : Bool} :
    flag? v = some stale ↔ (v = none ∧ stale = false) ∨ v = some (.bool stale) := by
  cases v with
  | none => simp [flag?, eq_comm]
  | some v => cases v <;> simp [flag?]

theorem stale_iff_of_flag? {v : Option Value} {stale : Bool} (h : flag? v = some stale) :
    stale = true ↔ v = some (.bool true) := by
  rcases flag?_eq_some.mp h with ⟨rfl, rfl⟩ | rfl
  · simp
  · simp

/-- The stances for a side are those of two words. -/
theorem isSided_iff {stance : Stance} (h : stance ∈ Stance.all) :
    stance.isSided = true ↔
      Value.text stance.text = .text "in_favor" ∨ Value.text stance.text = .text "against" := by
  cases stance with
  | other given => simp [Stance.all] at h
  | _ => decide

/-- The fields of a record and the ballot that is read from them. -/
theorem readBallot_iff :
    readBallot e = .ok b ↔ IsId e.voteId ∧ stance? e.stance = some b.stance ∧
      flag? e.stale = some b.stale ∧ (b.stale = true → b.stance.isSided = true) ∧
        IsAmount e.magnitude ∧ amount e.magnitude = b.magnitude ∧
          e.justification = b.justification := by
  obtain ⟨magnitude, stance, justification, stale⟩ := b
  simp only [readBallot, Checks.bind_eq_ok]
  constructor
  · rintro ⟨n, hid, h⟩
    cases hstance : stance? e.stance with
    | none => simp [hstance] at h
    | some stance =>
      cases hstale : flag? e.stale with
      | none => simp [hstance, hstale] at h
      | some stale =>
        simp only [hstance, hstale, ite_refuse_bind_eq_ok, Checks.bind_eq_ok, Checks.pure_eq_ok,
          readAmount_eq_ok, parse_eq_ok] at h
        obtain ⟨hsided, _, ⟨hamount, rfl⟩, heq⟩ := h
        cases heq
        exact ⟨(readId_iff.mp hid).2, rfl, rfl, by simpa using hsided, hamount, rfl, rfl⟩
  · rintro ⟨hid, hstance, hstale, hsided, hamount, hmagnitude, hjustification⟩
    obtain ⟨n, hn⟩ := hid.exists_number
    refine ⟨n, readId_iff.mpr ⟨hn, hid⟩, ?_⟩
    simp only [hstance, hstale, ite_refuse_bind_eq_ok, Checks.bind_eq_ok, Checks.pure_eq_ok,
      readAmount_eq_ok, parse_eq_ok]
    exact ⟨by simpa using hsided, magnitude, ⟨hamount, hmagnitude⟩, by rw [hjustification]⟩

/-- A record is read exactly if it is valid and names an identifier. -/
theorem exists_readBallot : (∃ b, readBallot e = .ok b) ↔ IsId e.voteId ∧ e.Valid := by
  simp only [readBallot_iff]
  constructor
  · rintro ⟨b, hid, hstance, hflag, hsided, hamount, -⟩
    obtain ⟨hknown, hword⟩ := stance?_eq_some.mp hstance
    refine ⟨hid, ⟨b.stance, hknown, hword⟩, ?_, ?_, hamount⟩
    · intro v hv
      rcases flag?_eq_some.mp hflag with ⟨hnone, -⟩ | hsome
      · rw [hnone] at hv
        cases hv
      · exact ⟨b.stale, (Option.mem_some_iff.mp (hsome ▸ hv)).symm⟩
    · intro hstale
      rw [hword]
      exact (isSided_iff hknown).mp (hsided ((stale_iff_of_flag? hflag).mpr hstale))
  · rintro ⟨hid, h⟩
    obtain ⟨stance, hknown, hword⟩ := h.stance
    obtain ⟨stale, hflag⟩ : ∃ stale, flag? e.stale = some stale := by
      cases hv : e.stale with
      | none => exact ⟨false, rfl⟩
      | some v =>
        obtain ⟨b, rfl⟩ := h.flag v hv
        exact ⟨b, rfl⟩
    have hsided : stale = true → stance.isSided = true := by
      intro hstale
      have hside := h.sided ((stale_iff_of_flag? hflag).mp hstale)
      rw [hword] at hside
      exact (isSided_iff hknown).mpr hside
    exact ⟨⟨amount e.magnitude, stance, e.justification, stale⟩, hid,
      stance?_eq_some.mpr ⟨hknown, hword⟩, hflag, hsided, h.magnitude, rfl, rfl⟩

/-- A ballot is counted for a side exactly if its record is. -/
theorem counted_of_readBallot (h : readBallot e = .ok b) {side : Stance}
    (hside : side = .inFavor ∨ side = .against) :
    b.counted = side ↔ e.countsFor side = true := by
  obtain ⟨-, hstance, hflag, -⟩ := readBallot_iff.mp h
  obtain ⟨hknown, hword⟩ := stance?_eq_some.mp hstance
  have hsame : e.stance = .text side.text ↔ b.stance = side := by
    rw [hword, Value.text.injEq]
    cases hb : b.stance with
    | other given => simp [hb, Stance.all] at hknown
    | _ => rcases hside with rfl | rfl <;> decide
  have hfresh : e.stale ≠ some (.bool true) ↔ b.stale = false := by
    rw [Ne.eq_def, ← stale_iff_of_flag? hflag, Bool.not_eq_true]
  simp only [RecordEntry.countsFor, decide_eq_true_eq, hsame, hfresh, Ballot.counted]
  cases b.stale with
  | false => simp
  | true => rcases hside with rfl | rfl <;> simp

end Records

end Plebiscite.Snapshot
