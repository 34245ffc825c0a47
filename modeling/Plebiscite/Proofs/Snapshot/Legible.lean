import Plebiscite.Proofs.Canonical
import Plebiscite.Proofs.Snapshot.Validity

/-!
# Entries and their texts

A snapshot that a ledger writes holds texts, truth values and counts, and no two of these have the
same canonical text.  So the canonical text of such a snapshot tells everything that is in it.  What
it does not tell is the order in which an electorate was described.

## Main definitions

- `Value.Legible`: the values that are told by their texts
- `Snapshot.ThresholdEntry.Legible`, `Snapshot.VoteEntry.Legible`, `Snapshot.RecordEntry.Legible`,
  `Snapshot.Legible`: entries and snapshots that are made of these
- `Electorate.Same`: electorates with the same description, but for its order
- `Snapshot.Same`: snapshots that hold the same

## Main results

- `Canonical.chars_inj`: no two legible values have the same text
- `Snapshot.chars_toValue_iff`: the text of a snapshot tells what it holds
-/

namespace Plebiscite

/-- A value that is told by its canonical text: a text, a truth value or a count, or nothing. -/
inductive Value.Legible : Value → Prop where
  | absent : Legible .absent
  | bool (b : Bool) : Legible (.bool b)
  | text (s : String) : Legible (.text s)
  | count (k : Nat) (h : k ≤ Number.maxSafe) : Legible (.number (.ofInt k))

namespace Canonical

variable {v w : Value}

/-! ## Single values -/

theorem chars_count {k : Nat} (hk : k ≤ Number.maxSafe) :
    chars (.number (.ofInt k)) = Nat.toDigits 10 k := by
  have htext := congrArg String.toList (Number.text_ofInt hk)
  rw [String.toList_ofList] at htext
  exact htext

/-- The text of a count holds nothing but digits. -/
theorem chars_count_ne {k : Nat} (hk : k ≤ Number.maxSafe) {c : Char} {cs : List Char}
    (hc : c.isDigit = false) : chars (.number (.ofInt k)) ≠ c :: cs := by
  intro h
  rw [chars_count hk] at h
  apply Decimal.notMem_toDigits hc k
  rw [h]
  exact List.mem_cons_self

/-- No two legible values have the same text. -/
theorem chars_inj (hv : v.Legible) (hw : w.Legible) : chars v = chars w ↔ v = w := by
  refine ⟨fun h => ?_, congrArg chars⟩
  -- Values of different kinds differ in the first character, or one of them begins with a digit.
  cases hv with
  | absent =>
    cases hw with
    | absent => rfl
    | bool b => cases b <;> cases h
    | text s => cases h
    | count k hk => exact absurd h.symm (chars_count_ne hk (by decide))
  | bool b =>
    cases hw with
    | absent => cases b <;> cases h
    | bool b' => cases b <;> cases b' <;> first | rfl | cases h
    | text s => cases b <;> cases h
    | count k hk => cases b <;> exact absurd h.symm (chars_count_ne hk (by decide))
  | text s =>
    cases hw with
    | absent => cases h
    | bool b => cases b <;> cases h
    | text t => rw [quote_inj.mp h]
    | count k hk => exact absurd h.symm (chars_count_ne hk (by decide))
  | count k hk =>
    cases hw with
    | absent => exact absurd h (chars_count_ne hk (by decide))
    | bool b => cases b <;> exact absurd h (chars_count_ne hk (by decide))
    | text s => exact absurd h (chars_count_ne hk (by decide))
    | count j hj =>
      rw [chars_count hk, chars_count hj] at h
      rw [← @Nat.ofDigitChars_ten_toDigits k, h, Nat.ofDigitChars_ten_toDigits]

/-- Nor are they written in the same way, or left out. -/
theorem written_inj (hv : v.Legible) (hw : w.Legible) : written v = written w ↔ v = w := by
  have hpresent : ∀ {u : Value}, u.Legible → u ≠ .absent → written u = some (chars u) := by
    intro u hu hne
    cases hu with
    | absent => exact absurd rfl hne
    | _ => rfl
  refine ⟨fun h => ?_, congrArg written⟩
  -- Only what is absent is left out.
  by_cases hva : v = .absent
  · by_cases hwa : w = .absent
    · rw [hva, hwa]
    · rw [hva, hpresent hw hwa] at h
      cases h
  · by_cases hwa : w = .absent
    · rw [hwa, hpresent hv hva] at h
      cases h
    · rw [hpresent hv hva, hpresent hw hwa, Option.some.injEq] at h
      exact (chars_inj hv hw).mp h

/-- An optional value is told by what is written of it. -/
theorem written_getD_inj {v w : Option Value} (hv : ∀ u ∈ v, u.Legible ∧ u ≠ .absent)
    (hw : ∀ u ∈ w, u.Legible ∧ u ≠ .absent) :
    written (v.getD .absent) = written (w.getD .absent) ↔ v = w := by
  refine ⟨fun h => ?_, fun h => by rw [h]⟩
  have hlegible : ∀ {v : Option Value}, (∀ u ∈ v, u.Legible ∧ u ≠ .absent) →
      (v.getD .absent).Legible := by
    rintro (_ | u) hu
    · exact .absent
    · exact (hu u rfl).1
  have heq := (written_inj (hlegible hv) (hlegible hw)).mp h
  -- What is there is not taken for what is not.
  cases v with
  | none =>
    cases w with
    | none => rfl
    | some u => exact absurd heq.symm (hw u rfl).2
  | some u =>
    cases w with
    | none => exact absurd heq (hv u rfl).2
    | some u' => exact congrArg some heq

/-! ## Objects and sequences of legible values -/

/-- Properties of legible values have legible values under all names. -/
theorem legible_get {fs : List (String × Value)} (h : ∀ f ∈ fs, f.2.Legible) (name : String) :
    ((Value.object fs).get name).Legible := by
  induction fs with
  | nil => exact .absent
  | cons f fs ih =>
    rw [List.forall_mem_cons] at h
    rw [get_cons f.1 name f.2]
    split
    · exact h.1
    · exact ih h.2

/-- An object of legible values is told by its text, but for the order in which it is listed. -/
theorem chars_legible_iff {fs gs : List (String × Value)} (hfs : Regular fs) (hgs : Regular gs)
    (hf : ∀ f ∈ fs, f.2.Legible) (hg : ∀ g ∈ gs, g.2.Legible) :
    chars (.object fs) = chars (.object gs) ↔
      ∀ name, (Value.object fs).get name = (Value.object gs).get name := by
  rw [chars_object_iff hfs hgs]
  exact forall_congr' fun name => written_inj (legible_get hf name) (legible_get hg name)

/-- A sequence of values of one kind is told as far as each of them is. -/
theorem chars_array_iff {α : Type} {f : α → Value} {R : α → α → Prop} {as bs : List α}
    (h : ∀ a ∈ as, ∀ b ∈ bs, chars (f a) = chars (f b) ↔ R a b) :
    chars (.array (as.map f)) = chars (.array (bs.map f)) ↔ List.Forall₂ R as bs := by
  rw [chars_array_inj, List.map_map, List.map_map, ← List.forall₂_eq_eq_eq,
    List.forall₂_map_left_iff, List.forall₂_map_right_iff]
  exact Checks.forall₂_iff h

end Canonical

/-! ## Bounds and electorates -/

open Canonical

/-- Bounds alone, each of them legible and there. -/
structure Threshold.Legible (t : Threshold Value) : Prop where
  inFavor : t.inFavor.Legible
  against : ∀ b ∈ t.against, b.Legible ∧ b ≠ .absent
  bare : t.remarks = []

/-- Bounds are told by their text. -/
theorem Threshold.chars_toValue_inj {t t' : Threshold Value} (ht : t.Legible) (ht' : t'.Legible) :
    chars t.toValue = chars t'.toValue ↔ t = t' := by
  refine ⟨fun h => ?_, fun h => by rw [h]⟩
  obtain ⟨inFavor, against, remarks⟩ := t
  obtain ⟨inFavor', against', remarks'⟩ := t'
  obtain rfl : remarks = [] := ht.bare
  obtain rfl : remarks' = [] := ht'.bare
  have hregular : ∀ v w : Value, Regular [("inFavor", v), ("against", w)] :=
    fun v w => ⟨by simp, rfl⟩
  have hget := (chars_object_iff (hregular _ _) (hregular _ _)).mp h
  have hinFavor : inFavor = inFavor' :=
    (written_inj ht.inFavor ht'.inFavor).mp (hget "inFavor")
  have hagainst : against = against' :=
    (written_getD_inj ht.against ht'.against).mp (hget "against")
  rw [hinFavor, hagainst]

/-- Two electorates with the same description, whatever the order is in which it is listed. -/
def Electorate.Same (e e' : Electorate) : Prop :=
  ∀ name, e.description.get name = e'.description.get name

/-- An electorate that is described by texts under names of their own. -/
def Electorate.Legible (e : Electorate) : Prop :=
  ∃ fs, e.description = .object fs ∧ Regular fs ∧ ∀ f ∈ fs, f.2.Legible

/-- An electorate is told by its text, but for the order of its description. -/
theorem Electorate.chars_iff {e e' : Electorate} (he : e.Legible) (he' : e'.Legible) :
    chars e.description = chars e'.description ↔ e.Same e' := by
  obtain ⟨fs, hfs, hregular, hf⟩ := he
  obtain ⟨gs, hgs, hregular', hg⟩ := he'
  rw [Same, hfs, hgs]
  exact chars_legible_iff hregular hregular' hf hg

namespace Snapshot

/-! ## Entries -/

/-- A stored threshold that is told by its text. -/
structure ThresholdEntry.Legible (e : ThresholdEntry) : Prop where
  id : e.id.Legible
  electorate : e.electorate.Legible
  kind : e.kind.Legible
  threshold : e.threshold.Legible

/-- A stored vote that is told by its text. -/
structure VoteEntry.Legible (e : VoteEntry) : Prop where
  id : e.id.Legible
  topic : e.topic.Legible
  turnout : e.turnout.Legible
  threshold : e.threshold.Legible
  inFavor : e.inFavor.Legible
  against : e.against.Legible
  initialized : e.initialized.Legible
  ends : ∀ v ∈ e.ends, v.Legible ∧ v ≠ .absent

/-- A stored record that is told by its text. -/
structure RecordEntry.Legible (e : RecordEntry) : Prop where
  voteId : e.voteId.Legible
  member : e.member.Legible
  magnitude : e.magnitude.Legible
  stance : e.stance.Legible
  justification : e.justification.Legible
  stale : ∀ v ∈ e.stale, v.Legible ∧ v ≠ .absent

/-- Stored thresholds that hold the same. -/
structure ThresholdEntry.Same (e e' : ThresholdEntry) : Prop where
  id : e.id = e'.id
  electorate : e.electorate.Same e'.electorate
  kind : e.kind = e'.kind
  threshold : e.threshold = e'.threshold

variable {e e' : ThresholdEntry}

theorem ThresholdEntry.regular (e : ThresholdEntry) : Regular e.toValue.fields :=
  ⟨by simp [toValue, Value.fields], rfl⟩

theorem VoteEntry.regular (e : VoteEntry) : Regular e.toValue.fields :=
  ⟨by simp [toValue, Value.fields], rfl⟩

theorem RecordEntry.regular (e : RecordEntry) : Regular e.toValue.fields :=
  ⟨by simp [toValue, Value.fields], rfl⟩

/-- The unit of the bounds and the bounds are told by the text of the rule. -/
theorem ThresholdEntry.chars_rule_iff (he : e.Legible) (he' : e'.Legible) :
    chars (.object [("kind", e.kind), ("threshold", e.threshold.toValue)]) =
        chars (.object [("kind", e'.kind), ("threshold", e'.threshold.toValue)]) ↔
      e.kind = e'.kind ∧ e.threshold = e'.threshold := by
  have hregular : ∀ v w : Value, Regular [("kind", v), ("threshold", w)] :=
    fun v w => ⟨by simp, rfl⟩
  constructor
  · intro h
    have hget := (chars_object_iff (hregular _ _) (hregular _ _)).mp h
    have hthreshold := Option.some.inj (hget "threshold")
    exact ⟨(written_inj he.kind he'.kind).mp (hget "kind"),
      (Threshold.chars_toValue_inj he.threshold he'.threshold).mp hthreshold⟩
  · rintro ⟨hkind, hthreshold⟩
    rw [hkind, hthreshold]

/-- A stored threshold is told by its text. -/
theorem ThresholdEntry.chars_iff (he : e.Legible) (he' : e'.Legible) :
    chars e.toValue = chars e'.toValue ↔ e.Same e' := by
  refine (chars_object_iff e.regular e'.regular).trans ⟨fun h => ?_, fun h name => ?_⟩
  · obtain ⟨hkind, hthreshold⟩ := (chars_rule_iff he he').mp (Option.some.inj (h "rule"))
    have horg : written e.electorate.description = written e'.electorate.description := h "org"
    -- Both descriptions are objects, so both are written.
    obtain ⟨fs, hfs, -⟩ := he.electorate
    obtain ⟨gs, hgs, -⟩ := he'.electorate
    refine ⟨(written_inj he.id he'.id).mp (h "id"), ?_, hkind, hthreshold⟩
    apply (Electorate.chars_iff he.electorate he'.electorate).mp
    rw [hfs, hgs] at horg ⊢
    exact Option.some.inj horg
  · have horg := (Electorate.chars_iff he.electorate he'.electorate).mpr h.electorate
    obtain ⟨fs, hfs, -⟩ := he.electorate
    obtain ⟨gs, hgs, -⟩ := he'.electorate
    rw [hfs, hgs] at horg
    have hrule := (chars_rule_iff he he').mpr ⟨h.kind, h.threshold⟩
    simp only [Value.fields, toValue, get_cons, h.id, hfs, hgs]
    split_ifs
    · rfl
    · exact congrArg some horg
    · exact congrArg some hrule
    · rfl

/-- A stored vote is told by its text. -/
theorem VoteEntry.chars_inj {e e' : VoteEntry} (he : e.Legible) (he' : e'.Legible) :
    chars e.toValue = chars e'.toValue ↔ e = e' := by
  refine ⟨fun h => ?_, fun h => by rw [h]⟩
  have hget := (chars_object_iff e.regular e'.regular).mp h
  have hid := (written_inj he.id he'.id).mp (hget "id")
  have htopic := (written_inj he.topic he'.topic).mp (hget "topic")
  have hturnout := (written_inj he.turnout he'.turnout).mp (hget "totalPossibleTurnout")
  have hthreshold := (Threshold.chars_toValue_inj he.threshold he'.threshold).mp
    (Option.some.inj (hget "threshold"))
  have hinFavor := (written_inj he.inFavor he'.inFavor).mp (hget "inFavor")
  have hagainst := (written_inj he.against he'.against).mp (hget "against")
  have hinitialized := (written_inj he.initialized he'.initialized).mp (hget "initialized")
  have hends := (written_getD_inj he.ends he'.ends).mp (hget "ends")
  obtain ⟨⟩ := e
  obtain ⟨⟩ := e'
  simp only [VoteEntry.mk.injEq]
  exact ⟨hid, htopic, hturnout, hthreshold, hinFavor, hagainst, hinitialized, hends⟩

/-- A stored record is told by its text. -/
theorem RecordEntry.chars_inj {e e' : RecordEntry} (he : e.Legible) (he' : e'.Legible) :
    chars e.toValue = chars e'.toValue ↔ e = e' := by
  refine ⟨fun h => ?_, fun h => by rw [h]⟩
  have hget := (chars_object_iff e.regular e'.regular).mp h
  have hvoteId := (written_inj he.voteId he'.voteId).mp (hget "voteId")
  have hmember := (written_inj he.member he'.member).mp (hget "member")
  have hmagnitude := (written_inj he.magnitude he'.magnitude).mp (hget "magnitude")
  have hstance := (written_inj he.stance he'.stance).mp (hget "direction")
  have hjustification := (written_inj he.justification he'.justification).mp (hget "justification")
  have hstale := (written_getD_inj he.stale he'.stale).mp (hget "stale")
  obtain ⟨⟩ := e
  obtain ⟨⟩ := e'
  simp only [RecordEntry.mk.injEq]
  exact ⟨hvoteId, hmember, hmagnitude, hstance, hjustification, hstale⟩

/-! ## Snapshots -/

/-- A snapshot that is told by its text. -/
structure Legible (s : Snapshot) : Prop where
  version : s.version.Legible
  counters : ∀ counter ∈ s.counters, counter.2.Legible
  counters_regular : Regular s.counters
  thresholds : ∀ e ∈ s.thresholds, e.Legible
  votes : ∀ e ∈ s.votes, e.Legible
  records : ∀ e ∈ s.records, e.Legible

/-- Snapshots that hold the same. -/
structure Same (s s' : Snapshot) : Prop where
  version : s.version = s'.version
  counters : ∀ name, (Value.object s.counters).get name = (Value.object s'.counters).get name
  thresholds : List.Forall₂ ThresholdEntry.Same s.thresholds s'.thresholds
  votes : s.votes = s'.votes
  records : s.records = s'.records

theorem regular (s : Snapshot) : Regular s.toValue.fields :=
  ⟨by simp [toValue, Value.fields], rfl⟩

/-- A snapshot is told by its text. -/
theorem chars_toValue_iff {s s' : Snapshot} (hs : s.Legible) (hs' : s'.Legible) :
    chars s.toValue = chars s'.toValue ↔ s.Same s' := by
  have hcounters := chars_legible_iff hs.counters_regular hs'.counters_regular hs.counters
    hs'.counters
  have hthresholds := chars_array_iff (f := ThresholdEntry.toValue) fun e he e' he' =>
    ThresholdEntry.chars_iff (hs.thresholds e he) (hs'.thresholds e' he')
  have hvotes := chars_array_iff (f := VoteEntry.toValue) fun e he e' he' =>
    VoteEntry.chars_inj (hs.votes e he) (hs'.votes e' he')
  have hrecords := chars_array_iff (f := RecordEntry.toValue) fun e he e' he' =>
    RecordEntry.chars_inj (hs.records e he) (hs'.records e' he')
  simp only [List.forall₂_eq_eq_eq] at hvotes hrecords
  refine (chars_object_iff s.regular s'.regular).trans ⟨fun h => ?_, fun h name => ?_⟩
  · exact ⟨(written_inj hs.version hs'.version).mp (h "version"),
      hcounters.mp (Option.some.inj (h "counters")),
      hthresholds.mp (Option.some.inj (h "thresholds")),
      hvotes.mp (Option.some.inj (h "votes")),
      hrecords.mp (Option.some.inj (h "records"))⟩
  · have hcounters := hcounters.mpr h.counters
    have hthresholds := hthresholds.mpr h.thresholds
    simp only [Value.fields, toValue, get_cons, h.version, h.votes, h.records]
    split_ifs
    · rfl
    · exact congrArg some hcounters
    · exact congrArg some hthresholds
    all_goals rfl

end Snapshot

end Plebiscite
