import Mathlib.Tactic.Common
import Plebiscite.Proofs.Checks
import Plebiscite.Proofs.Signal
import Plebiscite.Proofs.Threshold
import Plebiscite.Snapshot.Reader
import Plebiscite.Snapshot.Writer

/-!
# Entries that pass

An entry of a snapshot that is read gives amounts in range and known stances.  An entry that was
written from such things is read back as what it was.

## Main results

- `readPoll_eq_ok`, `readBallot_eq_ok`: what entries that pass hold
- `readPoll_ofPoll`, `readBallot_ofBallot`, `readRegistration_ofRegistration`: entries that were
  written
-/

namespace Plebiscite

@[simp]
theorem Electorate.copy_copy (e : Electorate) : e.copy.copy = e.copy :=
  rfl

/-- A description that names a mode is an object, and its copy is the same. -/
theorem Electorate.copy_eq {e : Electorate} (h : Guard.isElectorate e.description = true) :
    e.copy = e := by
  obtain ⟨description⟩ := e
  cases description with
  | object fields => rfl
  | _ => cases h

namespace Snapshot

variable {α β : Type}

@[simp]
theorem refuse_ne_ok {cause : SnapshotFault} {a : α} :
    (refuse cause : Except Fault α) = .ok a ↔ False := by
  simp [refuse]

@[simp]
theorem refuse_bind_ne_ok {cause : SnapshotFault} {f : β → Except Fault α} {a : α} :
    ((refuse cause : Except Fault β) >>= f) = .ok a ↔ False := by
  simp

/-- A refusal under a condition is passed exactly when the condition fails. -/
@[simp]
theorem ite_refuse_bind_eq_ok {p : Prop} [Decidable p] {cause : SnapshotFault}
    {f : β → Except Fault α} {x : Except Fault α} {a : α} :
    (if p then (refuse cause : Except Fault β) >>= f else x) = .ok a ↔ ¬ p ∧ x = .ok a := by
  by_cases hp : p <;> simp [hp, refuse, bind, Except.bind]

/-! ## What is read -/

theorem readId_eq_ok {subject : String} {v : Value} {n : Number} :
    readId subject v = .ok n ↔
      v = .number n ∧ (n.isSafeInteger && Number.le 1 n) = true := by
  cases v with
  | number m =>
    simp only [readId]
    split
    · rename_i h
      constructor
      · rintro ⟨⟩
        exact ⟨rfl, h⟩
      · rintro ⟨⟨⟩, -⟩
        rfl
    · rename_i h
      simp only [refuse_ne_ok, false_iff]
      rintro ⟨⟨⟩, h'⟩
      exact h h'
  | _ => simp [readId]

theorem readAmount_eq_ok {field : String} {v : Value} {n : Int} :
    readAmount field v = .ok n ↔ Signal.parse v = .ok n := by
  unfold readAmount
  cases Signal.parse v <;> simp

theorem readAmount_inRange {field : String} {v : Value} {n : Int}
    (h : readAmount field v = .ok n) : Signal.inRange n = true :=
  Signal.inRange_of_parse (readAmount_eq_ok.mp h)

theorem readThreshold_inRange {field : String} {t : Threshold Value} {t' : Threshold Int}
    (h : readThreshold field t = .ok t') : ∀ b ∈ t'.bounds, Signal.inRange b = true := by
  simp only [readThreshold, Checks.bind_eq_ok] at h
  obtain ⟨inFavor, hinFavor, h⟩ := h
  have hin := readAmount_inRange hinFavor
  cases hagainst : t.against with
  | none =>
    simp only [hagainst, Checks.pure_eq_ok] at h
    subst h
    simpa [Threshold.bounds] using hin
  | some v =>
    simp only [hagainst, Checks.bind_eq_ok, Checks.pure_eq_ok] at h
    obtain ⟨against, hread, rfl⟩ := h
    simpa [Threshold.bounds] using ⟨hin, readAmount_inRange hread⟩

/-- All amounts of a poll are in range. -/
structure InRange (p : Poll) : Prop where
  turnout : Signal.inRange p.turnout = true
  bounds : ∀ b ∈ p.threshold.bounds, Signal.inRange b = true
  inFavor : Signal.inRange p.inFavor = true
  against : Signal.inRange p.against = true

/-- The amounts of a poll are those that an entry spells. -/
structure Spells (e : VoteEntry) (p : Poll) : Prop where
  turnout : Signal.parse e.turnout = .ok p.turnout
  threshold : ∃ field, readThreshold field e.threshold = .ok p.threshold
  inFavor : Signal.parse e.inFavor = .ok p.inFavor
  against : Signal.parse e.against = .ok p.against

theorem Spells.inRange {e : VoteEntry} {p : Poll} (h : Spells e p) : InRange p :=
  ⟨Signal.inRange_of_parse h.turnout, readThreshold_inRange h.threshold.choose_spec,
    Signal.inRange_of_parse h.inFavor, Signal.inRange_of_parse h.against⟩

theorem readPoll_eq_ok {e : VoteEntry} {id : Number} {p : Poll}
    (h : readPoll e = .ok (id, p)) : e.id = .number id ∧ Spells e p := by
  simp only [readPoll, Checks.bind_eq_ok] at h
  obtain ⟨n, hid, h⟩ := h
  cases hinitialized : height? e.initialized with
  | none => simp [hinitialized] at h
  | some initialized =>
    -- Whatever the end is, the amounts are read in the same way.
    simp only [hinitialized] at h
    split at h
    on_goal 2 => split at h
    all_goals
      simp only [Checks.bind_eq_ok, Checks.pure_eq_ok, refuse_ne_ok, Prod.mk.injEq,
        readAmount_eq_ok] at h
      obtain ⟨ends, -, turnout, hturnout, threshold, hthreshold, inFavor, hinFavor, against,
        hagainst, rfl, rfl⟩ := h
      exact ⟨(readId_eq_ok.mp hid).1, hturnout, ⟨_, hthreshold⟩, hinFavor, hagainst⟩

/-- A ballot that is read has a known stance, and only a ballot for a side may be stale. -/
theorem readBallot_eq_ok {e : RecordEntry} {b : Ballot} (h : readBallot e = .ok b) :
    Signal.inRange b.magnitude = true ∧ (b.stale = true → b.stance.isSided = true) := by
  simp only [readBallot, Checks.bind_eq_ok] at h
  obtain ⟨n, -, h⟩ := h
  cases hstance : stance? e.stance with
  | none => simp [hstance] at h
  | some stance =>
    cases hstale : flag? e.stale with
    | none => simp [hstance, hstale] at h
    | some stale =>
      simp only [hstance, hstale, ite_refuse_bind_eq_ok, Checks.bind_eq_ok,
        Checks.pure_eq_ok] at h
      obtain ⟨hsided, magnitude, hmagnitude, rfl⟩ := h
      refine ⟨readAmount_inRange hmagnitude, fun hb => ?_⟩
      have hb : stale = true := hb
      simpa [hb] using hsided

/-! ## What is written is read back -/

theorem readAmount_ofAmount {field : String} {n : Int} (h : Signal.inRange n = true) :
    readAmount field (ofAmount n) = .ok n :=
  readAmount_eq_ok.mpr (Signal.parse_format h)

theorem readThreshold_ofThreshold {field : String} {t : Threshold Int}
    (h : ∀ b ∈ t.bounds, Signal.inRange b = true) :
    readThreshold field (ofThreshold t) = .ok t.bare := by
  obtain ⟨inFavor, against, remarks⟩ := t
  have hinFavor : Signal.inRange inFavor = true := h _ (by simp [Threshold.bounds])
  cases against with
  | none =>
    simp [readThreshold, ofThreshold, Threshold.bare, Threshold.map, readAmount_ofAmount hinFavor]
  | some b =>
    have hb : Signal.inRange b = true := h _ (by simp [Threshold.bounds])
    simp [readThreshold, ofThreshold, Threshold.bare, Threshold.map, readAmount_ofAmount hinFavor,
      readAmount_ofAmount hb]

/-- A height in stored form. -/
theorem height?_number {n : Number} (h : Guard.isBlockHeight (.number n) = true) :
    height? (.number n) = some n :=
  if_pos h

/-- A poll is read back with its bounds alone. -/
theorem readPoll_ofPoll {id : Number} {p : Poll}
    (hid : (id.isSafeInteger && Number.le 1 id) = true) (hp : InRange p)
    (hinitialized : Guard.isBlockHeight (.number p.initialized) = true)
    (hends : ∀ n ∈ p.ends, Guard.isBlockHeight (.number n) = true) :
    readPoll (ofPoll id p) = .ok (id, { p with threshold := p.threshold.bare }) := by
  have hread : readId "vote id" (.number id) = .ok id := readId_eq_ok.mpr ⟨rfl, hid⟩
  simp only [readPoll, ofPoll, hread, height?_number hinitialized, readAmount_ofAmount hp.turnout,
    readThreshold_ofThreshold hp.bounds, readAmount_ofAmount hp.inFavor,
    readAmount_ofAmount hp.against]
  cases hpends : p.ends with
  | none => simp
  | some n => simp [height?_number (hends n hpends)]

theorem stance?_toValue {stance : Stance} (h : stance ∈ Stance.all) :
    stance? stance.toValue = some stance := by
  cases stance with
  | other given => simp [Stance.all] at h
  | _ => decide

/-- A ballot is read back as it was. -/
theorem readBallot_ofBallot {voteId : Number} {member : Value} {b : Ballot}
    (hid : (voteId.isSafeInteger && Number.le 1 voteId) = true)
    (hmagnitude : Signal.inRange b.magnitude = true) (hstance : b.stance ∈ Stance.all)
    (hstale : b.stale = true → b.stance.isSided = true) :
    readBallot (ofBallot voteId member b) = .ok b := by
  have hread : readId "record vote id" (.number voteId) = .ok voteId :=
    readId_eq_ok.mpr ⟨rfl, hid⟩
  have hflag : flag? (if b.stale then some (.bool true) else none) = some b.stale := by
    cases b.stale <;> rfl
  have hsided : ¬ (b.stale && !b.stance.isSided) = true := by
    cases hb : b.stale with
    | false => simp
    | true => simp [hstale hb]
  simp [readBallot, ofBallot, hread, stance?_toValue hstance, hflag, hsided,
    readAmount_ofAmount hmagnitude]

theorem permill?_number {n : Number} (h : Guard.isPermill (.number n) = true) :
    permill? (.number n) = some n :=
  if_pos h

theorem percent?_bare {t : Threshold Number}
    (h : ∀ b ∈ t.bounds, Guard.isPermill (.number b) = true) :
    percent? (t.bare.map Value.number) = some t.bare := by
  obtain ⟨inFavor, against, remarks⟩ := t
  have hinFavor := permill?_number (h inFavor (by simp [Threshold.bounds]))
  cases against with
  | none => simp [percent?, Threshold.bare, Threshold.map, hinFavor]
  | some b =>
    have hb := permill?_number (h b (by simp [Threshold.bounds]))
    simp [percent?, Threshold.bare, Threshold.map, hinFavor, hb]

/-- A threshold is read back with its bounds alone. -/
theorem readRegistration_ofRegistration {r : Registration} {id : Number} (hr : r.id = .number id)
    (hid : (id.isSafeInteger && Number.le 1 id) = true)
    (helectorate : Guard.isElectorate r.electorate.copy.description = true)
    (hrule : r.rule.validate = .ok ()) :
    readRegistration (ofRegistration r) = .ok ⟨r.id, r.electorate.copy, r.rule.bare⟩ := by
  have hread : readId "threshold id" r.id = .ok id := readId_eq_ok.mpr ⟨hr, hid⟩
  obtain ⟨_, electorate, rule⟩ := r
  subst hr
  have hmember : ¬ (!Guard.isElectorate electorate.copy.description) = true := by
    simpa using helectorate
  cases rule with
  | signal t =>
    have hunit : Rule.isSignalUnit (.text (Rule.signal t).unit) = true := rfl
    simp [readRegistration, ofRegistration, hread, hmember, hunit, ofRule, Rule.bare,
      readThreshold_ofThreshold (Rule.validate_signal.mp hrule)]
  | percent t =>
    have hunit : Rule.isSignalUnit (.text (Rule.percent t).unit) = false := rfl
    simp [readRegistration, ofRegistration, hread, hmember, hunit, ofRule, Rule.bare,
      percent?_bare (Rule.validate_percent.mp hrule)]

end Snapshot

end Plebiscite
