import Plebiscite.Proofs.Snapshot.Validity

/-!
# The normal form of entries

An amount may be given with leading zeros, a flag may be given though it is not raised, and any word
but one names parts per million.  What is written is always the same: the digits of the amount, a
flag that is raised or none, and one of two words.  So an entry that is read and written again is
its normal form.

## Main definitions

- `Snapshot.trimmed`: an amount without leading zeros
- `Snapshot.ThresholdEntry.normal`, `Snapshot.VoteEntry.normal`, `Snapshot.RecordEntry.normal`: the
  entries as they are written

## Main results

- `Snapshot.ofAmount_amount`: an amount that was read is written without leading zeros
- `Snapshot.ofRegistration_of_read`, `Snapshot.ofPoll_of_read`, `Snapshot.ofBallot_of_read`: entries
  that were read are written in their normal forms
-/

namespace Plebiscite.Snapshot

/-! ## Amounts -/

/-- A run of digits without its leading zeros; where there is nothing else, one zero is left. -/
def trimmedDigits (cs : List Char) : List Char :=
  match cs.dropWhile (· = '0') with
  | [] => ['0']
  | c :: rest => c :: rest

/-- An amount without leading zeros. -/
def trimmed : Value → Value
  | .text s => .text (String.ofList (trimmedDigits s.toList))
  | v => v

theorem trimmedDigits_zero (cs : List Char) : trimmedDigits ('0' :: cs) = trimmedDigits cs := by
  simp [trimmedDigits]

theorem trimmedDigits_of_ne {c : Char} (hc : c ≠ '0') (cs : List Char) :
    trimmedDigits (c :: cs) = c :: cs := by
  simp [trimmedDigits, hc]

theorem trimmedDigits_trimmedDigits (cs : List Char) :
    trimmedDigits (trimmedDigits cs) = trimmedDigits cs := by
  induction cs with
  | nil => rfl
  | cons c cs ih =>
    by_cases hc : c = '0'
    · rw [hc, trimmedDigits_zero, ih]
    · rw [trimmedDigits_of_ne hc, trimmedDigits_of_ne hc]

@[simp]
theorem trimmed_trimmed (v : Value) : trimmed (trimmed v) = trimmed v := by
  cases v with
  | text s => simp [trimmed, trimmedDigits_trimmedDigits]
  | _ => rfl

/-- A digit is the digit of its value. -/
theorem digitChar_of_isDigit {c : Char} (hc : c.isDigit = true) :
    c.toNat - '0'.toNat < 10 ∧ Nat.digitChar (c.toNat - '0'.toNat) = c := by
  rw [← Signal.isDigit_eq, Signal.isDigit, decide_eq_true_eq] at hc
  have hzero : '0'.toNat = 48 := rfl
  have hlt : c.toNat - '0'.toNat < 10 := by omega
  refine ⟨hlt, Char.toNat_inj.mp ?_⟩
  rw [Nat.toNat_digitChar_of_lt_ten hlt]
  omega

/-- Digits after a number that is not zero are the last digits of what they make together. -/
theorem toDigits_ofDigitChars_append {n : Nat} (hn : 0 < n) {cs : List Char}
    (hcs : ∀ c ∈ cs, c.isDigit = true) :
    Nat.toDigits 10 (Nat.ofDigitChars 10 cs n) = Nat.toDigits 10 n ++ cs := by
  induction cs generalizing n with
  | nil => simp [Nat.ofDigitChars_eq_foldl]
  | cons c cs ih =>
    obtain ⟨hlt, hdigit⟩ := digitChar_of_isDigit (hcs c (by simp))
    have hlast : Nat.toDigits 10 (10 * n + (c.toNat - '0'.toNat)) = Nat.toDigits 10 n ++ [c] := by
      rw [← Nat.toDigits_append_toDigits (by decide) hn hlt, Nat.toDigits_of_lt_base hlt, hdigit]
    rw [Nat.ofDigitChars_cons, ih (by omega) fun d hd => hcs d (List.mem_cons_of_mem _ hd), hlast]
    simp

/-- The digits of the number that a run of digits spells are that run without leading zeros. -/
theorem toDigits_ofDigitChars {cs : List Char} (hcs : ∀ c ∈ cs, c.isDigit = true) :
    Nat.toDigits 10 (Nat.ofDigitChars 10 cs 0) = trimmedDigits cs := by
  induction cs with
  | nil => rfl
  | cons c cs ih =>
    have hrest := fun d hd => hcs d (List.mem_cons_of_mem _ hd)
    obtain ⟨hlt, hdigit⟩ := digitChar_of_isDigit (hcs c (by simp))
    rw [Nat.ofDigitChars_cons]
    by_cases hc : c = '0'
    · rw [hc, trimmedDigits_zero]
      exact ih hrest
    · have hpos : 0 < 10 * 0 + (c.toNat - '0'.toNat) := by
        by_contra hzero
        have hvalue : c.toNat - '0'.toNat = 0 := by omega
        rw [hvalue] at hdigit
        exact hc hdigit.symm
      rw [toDigits_ofDigitChars_append hpos hrest, trimmedDigits_of_ne hc, Nat.mul_zero,
        Nat.zero_add, Nat.toDigits_of_lt_base hlt, hdigit]
      rfl

/-- An amount that was read is written without leading zeros. -/
theorem ofAmount_amount {v : Value} (h : IsAmount v) : ofAmount (amount v) = trimmed v := by
  obtain ⟨s, rfl, -, hdigits, -⟩ := h
  rw [ofAmount, amount, Signal.format_natCast, toDigits_ofDigitChars hdigits]
  rfl

theorem ofAmount_of_parse {v : Value} {n : Int} (h : Signal.parse v = .ok n) :
    ofAmount n = trimmed v := by
  obtain ⟨hamount, rfl⟩ := parse_eq_ok.mp h
  exact ofAmount_amount hamount

/-! ## Entries -/

/-- A threshold as it is written: one of two words for the unit, and the bounds alone. -/
def ThresholdEntry.normal (e : ThresholdEntry) : ThresholdEntry :=
  if e.kind = .text "signal" then { e with threshold := e.threshold.bare.map trimmed }
  else { e with kind := .text "percent", threshold := e.threshold.bare }

/-- A vote as it is written: amounts without leading zeros, and the bounds alone. -/
def VoteEntry.normal (e : VoteEntry) : VoteEntry :=
  { e with
    turnout := trimmed e.turnout
    threshold := e.threshold.bare.map trimmed
    inFavor := trimmed e.inFavor
    against := trimmed e.against }

/-- A record as it is written: an amount without leading zeros, and a flag only if it is raised. -/
def RecordEntry.normal (e : RecordEntry) : RecordEntry :=
  { e with
    magnitude := trimmed e.magnitude
    stale := e.stale.filter (· = .bool true) }

theorem map_trimmed_trimmed (t : Threshold Value) :
    (t.bare.map trimmed).bare.map trimmed = t.bare.map trimmed := by
  obtain ⟨inFavor, against, remarks⟩ := t
  cases against <;> simp [Threshold.map, Threshold.bare]

@[simp]
theorem ThresholdEntry.normal_normal (e : ThresholdEntry) : e.normal.normal = e.normal := by
  unfold normal
  by_cases hkind : e.kind = .text "signal"
  · simp [hkind, map_trimmed_trimmed]
  · simp [hkind, Threshold.bare]

@[simp]
theorem VoteEntry.normal_normal (e : VoteEntry) : e.normal.normal = e.normal := by
  simp [normal, map_trimmed_trimmed]

@[simp]
theorem RecordEntry.normal_normal (e : RecordEntry) : e.normal.normal = e.normal := by
  simp [normal]

/-! ## What is read and written again -/

/-- Bounds that were read are written without leading zeros. -/
theorem ofThreshold_of_read {field : String} {t : Threshold Value} {t' : Threshold Int}
    (h : readThreshold field t = .ok t') : ofThreshold t' = t.bare.map trimmed := by
  obtain ⟨inFavor, against, remarks⟩ := t
  simp only [readThreshold, Checks.bind_eq_ok, readAmount_eq_ok] at h
  obtain ⟨n, hn, h⟩ := h
  cases against with
  | none =>
    cases h
    simp [ofThreshold, Threshold.bare, Threshold.map, ofAmount_of_parse hn]
  | some v =>
    simp only [Checks.bind_eq_ok, Checks.pure_eq_ok, readAmount_eq_ok] at h
    obtain ⟨k, hk, rfl⟩ := h
    simp [ofThreshold, Threshold.bare, Threshold.map, ofAmount_of_parse hn, ofAmount_of_parse hk]

/-- A threshold that was read is written in its normal form. -/
theorem ofRegistration_of_read {e : ThresholdEntry} {r : Registration}
    (h : readRegistration e = .ok r) : ofRegistration r = e.normal := by
  obtain ⟨hid, hcopy, -⟩ := readRegistration_eq_ok h
  have hvalid := exists_readRegistration.mp ⟨r, h⟩
  have hsame : e.electorate.copy = e.electorate :=
    Electorate.copy_eq (isElectorate_iff.mpr ⟨hvalid.mode, hvalid.org⟩)
  simp only [readRegistration, Checks.bind_eq_ok, ite_refuse_bind_eq_ok] at h
  obtain ⟨n, -, -, h⟩ := h
  split at h
  · rename_i hunit
    have hkind := isSignalUnit_iff.mp hunit
    simp only [Checks.bind_eq_ok, Checks.pure_eq_ok] at h
    obtain ⟨t, ht, rfl⟩ := h
    simp only at hid
    simp [ofRegistration, ThresholdEntry.normal, hkind, hid, hsame, ofRule, Rule.unit,
      ofThreshold_of_read ht]
  · rename_i hunit
    have hkind : e.kind ≠ .text "signal" := mt isSignalUnit_iff.mpr hunit
    cases hpercent : percent? e.threshold with
    | none => simp [hpercent] at h
    | some t =>
      simp only [hpercent, Checks.pure_eq_ok] at h
      subst h
      simp only at hid
      obtain ⟨hthreshold, -⟩ := percent?_eq_some.mp hpercent
      simp [ofRegistration, ThresholdEntry.normal, hkind, hid, hsame, ofRule, Rule.unit,
        hthreshold, Threshold.bare, Threshold.map]

/-- The topic of a vote is read as it is. -/
theorem topic_of_readPoll {e : VoteEntry} {p : Number × Poll} (h : readPoll e = .ok p) :
    p.2.topic = e.topic := by
  simp only [readPoll, Checks.bind_eq_ok] at h
  obtain ⟨n, -, h⟩ := h
  cases hinitialized : height? e.initialized with
  | none => simp [hinitialized] at h
  | some initialized =>
    -- Whatever the end is, the topic is passed on.
    simp only [hinitialized] at h
    split at h
    on_goal 2 => split at h
    all_goals
      simp only [Checks.bind_eq_ok, Checks.pure_eq_ok, refuse_ne_ok] at h
      obtain ⟨ends, -, turnout, -, threshold, -, inFavor, -, against, -, rfl⟩ := h
      rfl

/-- A vote that was read is written in its normal form. -/
theorem ofPoll_of_read {e : VoteEntry} {p : Number × Poll} (h : readPoll e = .ok p) :
    ofPoll p.1 p.2 = e.normal := by
  obtain ⟨hid, hspells⟩ := readPoll_eq_ok h
  obtain ⟨-, hinitialized, -, hends, -⟩ := head_of_readPoll h
  obtain ⟨field, hthreshold⟩ := hspells.threshold
  simp only [ofPoll, VoteEntry.normal, topic_of_readPoll h, ofThreshold_of_read hthreshold,
    ofAmount_of_parse hspells.turnout, ofAmount_of_parse hspells.inFavor,
    ofAmount_of_parse hspells.against, ← hinitialized, ← hends, hid]

/-- A record that was read is written in its normal form. -/
theorem ofBallot_of_read {e : RecordEntry} {b : Ballot} {id : Number}
    (hid : e.voteId = .number id) (h : readBallot e = .ok b) :
    ofBallot id e.member b = e.normal := by
  obtain ⟨-, hstance, hflag, -, hamount, hmagnitude, hjustification⟩ := readBallot_iff.mp h
  obtain ⟨hknown, hword⟩ := stance?_eq_some.mp hstance
  have hvalue : b.stance.toValue = .text b.stance.text := by
    cases hb : b.stance with
    | other given => simp [hb, Stance.all] at hknown
    | _ => rfl
  have hstale :
      (if b.stale then some (.bool true) else none) = e.stale.filter (· = .bool true) := by
    rcases flag?_eq_some.mp hflag with ⟨hnone, hfalse⟩ | hsome
    · simp [hnone, hfalse]
    · rw [hsome]
      cases b.stale <;> simp [Option.filter]
  simp only [ofBallot, RecordEntry.normal, hstale, hvalue, ← hword, ← hmagnitude,
    ofAmount_amount hamount, hid, hjustification]

end Plebiscite.Snapshot
