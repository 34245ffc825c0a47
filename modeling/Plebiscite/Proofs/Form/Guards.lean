import Plebiscite.Form.Config
import Plebiscite.Proofs.Form
import Plebiscite.Proofs.Height

/-!
# What is read and what is checked

What callers hand in is read by forms, and what the ledger is given is checked by guards.  For
every value that there is the two come to the same end: a form accepts exactly the values that pass
the guard, and amounts of signal, which are texts in one place and whole numbers in the other, are
read in the same way as long as they are in range.  The largest identifier that a host may set is
one with which a ledger can be made.

## Main definitions

- `Form.Accepts`: values that a form accepts
- `Rule.toValue`: the value that a rule is
- `Form.OtherSettings`: an environment in which all but the largest identifier is in order

## Main results

- `Form.accepts_number_iff`, `Form.accepts_name_iff`, `Form.accepts_tagged_iff`,
  `Form.accepts_object_iff`: what forms of each kind accept
- `Form.accepts_threshold_iff`: a threshold is accepted if its bounds are
- `Form.accepts_config_iff`: which environments are accepted
- `Form.accepts_what_guards_pass`: forms and guards agree on every value
-/

namespace Plebiscite

namespace Verdict

variable {α β : Type}

theorem exists_map_iff {f : α → β} {x : Verdict α} :
    (∃ b, f <$> x = .accepted b) ↔ ∃ a, x = .accepted a := by
  simp only [map_eq_accepted]
  constructor
  · rintro ⟨_, a, ha, -⟩
    exact ⟨a, ha⟩
  · rintro ⟨a, ha⟩
    exact ⟨f a, a, ha, rfl⟩

theorem exists_seq_iff {f : Verdict (α → β)} {x : Verdict α} :
    (∃ b, f <*> x = .accepted b) ↔ (∃ g, f = .accepted g) ∧ ∃ a, x = .accepted a := by
  simp only [seq_eq_accepted]
  constructor
  · rintro ⟨_, g, a, hg, ha, -⟩
    exact ⟨⟨g, hg⟩, a, ha⟩
  · rintro ⟨⟨g, hg⟩, a, ha⟩
    exact ⟨g a, g, a, hg, ha, rfl⟩

end Verdict

namespace Form

variable {α β : Type} {form : Form α} {v : Value} {name : String}

/-- The form accepts the value, whatever it reads from it. -/
def Accepts (form : Form α) (v : Value) : Prop :=
  ∃ a, form v = .accepted a

/-! ## Single values -/

theorem accepts_number_iff {rules : List NumberRule} :
    (number (.whole :: rules)).Accepts v ↔ ∃ k : Int, v = .number (.ofInt k) ∧
      (∀ bound : Nat, .atLeast bound ∈ rules → bound ≤ k) ∧
        ∀ bound : Nat, .atMost bound ∈ rules → k ≤ bound := by
  constructor
  · rintro ⟨n, h⟩
    obtain ⟨k, rfl, hbounds⟩ := exists_of_number h
    exact ⟨k, eq_of_number h, hbounds⟩
  · rintro ⟨k, rfl, hlow, hhigh⟩
    have hnone : (NumberRule.whole :: rules).filterMap (·.objection (.ofInt k)) = [] := by
      refine List.filterMap_eq_nil_iff.mpr (List.forall_mem_cons.mpr ⟨rfl, fun rule hrule => ?_⟩)
      cases rule with
      | whole => rfl
      | atLeast bound => simpa [NumberRule.objection] using hlow bound hrule
      | atMost bound => simpa [NumberRule.objection] using hhigh bound hrule
    refine ⟨.ofInt k, ?_⟩
    show Verdict.weigh _ _ = _
    rw [hnone]
    rfl

theorem accepts_permill_iff : permill.Accepts v ↔ Guard.isPermill v = true := by
  constructor
  · rintro ⟨n, h⟩
    rw [eq_of_number h]
    exact isPermill_of_permill h
  · intro h
    cases v with
    | number n =>
      obtain ⟨k, rfl, hlow, hhigh⟩ := Guard.exists_of_isPermill h
      have hmax : k ≤ (Guard.permillMax : Nat) := hhigh
      exact accepts_number_iff.mpr ⟨k, rfl, by simpa using hlow, by simpa using hmax⟩
    | _ => cases h

theorem accepts_blocks_iff : blocks.Accepts v ↔ Guard.isBlockHeight v = true := by
  constructor
  · rintro ⟨n, h⟩
    rw [eq_of_number h]
    exact isBlockHeight_of_blocks h
  · intro h
    cases v with
    | number n =>
      obtain ⟨k, rfl, hhigh⟩ := Height.exists_of_isBlockHeight h
      exact accepts_number_iff.mpr ⟨k, rfl, by simp, by simpa using hhigh⟩
    | _ => cases h

/-- A text that is not empty has a code unit at least. -/
theorem length_pos_of_nonempty {s : String} (h : s.isEmpty = false) : 0 < Units.length s := by
  obtain ⟨c, cs, hs⟩ : ∃ c cs, s.toList = c :: cs := by
    refine List.exists_cons_of_ne_nil fun hnil => ?_
    rw [String.toList_eq_nil_iff.mp hnil] at h
    cases h
  have hchar : 0 < (Units.ofChar c).length := by
    unfold Units.ofChar
    split <;> simp
  rw [Units.length, Units.ofText, hs, List.flatMap_cons, List.length_append]
  omega

theorem accepts_name_iff : (text [.atLeast 1]).Accepts v ↔ Guard.isIdentifier v = true := by
  constructor
  · rintro ⟨s, h⟩
    rw [eq_of_text h]
    simp [Guard.isIdentifier, nonempty_of_text h]
  · intro h
    cases v with
    | text s =>
      have hnonempty : s.isEmpty = false := by simpa [Guard.isIdentifier] using h
      have hlength := length_pos_of_nonempty hnonempty
      refine ⟨s, ?_⟩
      simp [text, TextRule.objection, Verdict.weigh, Nat.ne_of_gt hlength]
    | _ => cases h

/-! ## Objects -/

/-- What has a property is an object. -/
theorem exists_object_of_get {w : Value} (h : v.get name = w) (hw : w.isAbsent = false) :
    ∃ fields, v = .object fields := by
  subst h
  cases v with
  | object fields => exact ⟨fields, rfl⟩
  | _ => cases hw

theorem accepts_object_iff {read : Value → Verdict α} :
    (object read).Accepts v ↔ (∃ fields, v = .object fields) ∧ ∃ a, read v = .accepted a := by
  cases v <;> simp [Accepts, object]

theorem accepts_field_iff :
    (∃ a, field v name form = .accepted a) ↔ form.Accepts (v.get name) := by
  simp only [field_eq_accepted, Accepts]

theorem accepts_optional_iff : (optional form).Accepts v ↔ v.isAbsent = true ∨ form.Accepts v := by
  cases v <;> simp [Accepts, optional, Value.isAbsent]

theorem tagged_eq_accepted {all : List α} {spelling : α → String} {read : α → Value → Verdict β}
    {b : β} : tagged all spelling read v = .accepted b ↔ ∃ s tag, v.get "kind" = .text s ∧
      all.find? (spelling · == s) = some tag ∧ read tag v = .accepted b := by
  constructor
  · intro h
    have hread := read_of_object h
    split at hread
    · rename_i s hkind
      split at hread
      · rename_i tag hfind
        exact ⟨s, tag, hkind, hfind, hread⟩
      · simp at hread
    · simp at hread
  · rintro ⟨s, tag, hkind, hfind, hread⟩
    obtain ⟨fields, rfl⟩ := exists_object_of_get hkind rfl
    simp only [tagged, object, hkind, hfind, hread]

theorem accepts_tagged_iff {all : List α} {spelling : α → String} {read : α → Value → Verdict β} :
    (tagged all spelling read).Accepts v ↔ ∃ s tag, v.get "kind" = .text s ∧
      all.find? (spelling · == s) = some tag ∧ ∃ b, read tag v = .accepted b := by
  simp only [Accepts, tagged_eq_accepted]
  constructor
  · rintro ⟨b, s, tag, hkind, hfind, hread⟩
    exact ⟨s, tag, hkind, hfind, b, hread⟩
  · rintro ⟨s, tag, hkind, hfind, b, hread⟩
    exact ⟨b, s, tag, hkind, hfind, hread⟩

/-- An electorate is accepted if it is one. -/
theorem accepts_electorate_iff : electorate.Accepts v ↔ Guard.isElectorate v = true := by
  simp only [electorate, accepts_tagged_iff, Verdict.exists_map_iff, accepts_field_iff,
    accepts_name_iff, Guard.isElectorate, Bool.and_eq_true]
  constructor
  · rintro ⟨s, mode, hkind, hfind, horg⟩
    obtain ⟨fields, rfl⟩ := exists_object_of_get hkind rfl
    refine ⟨⟨rfl, ?_⟩, horg⟩
    rw [hkind]
    exact Option.isSome_iff_exists.mpr ⟨mode, hfind⟩
  · rintro ⟨⟨-, hkind⟩, horg⟩
    cases hvalue : v.get "kind" with
    | text s =>
      rw [hvalue] at hkind
      obtain ⟨mode, hfind⟩ := Option.isSome_iff_exists.mp hkind
      exact ⟨s, mode, rfl, hfind, horg⟩
    | _ =>
      rw [hvalue] at hkind
      cases hkind

/-- A threshold is accepted if its bounds are. -/
theorem accepts_threshold_iff {bound : Form α} {isBound : Value → Bool}
    (hbound : ∀ w, bound.Accepts w ↔ isBound w = true) (habsent : isBound .absent = false) :
    (threshold bound).Accepts v ↔ Guard.isThreshold isBound v = true := by
  simp only [threshold, accepts_object_iff, Verdict.exists_seq_iff, Verdict.exists_map_iff,
    accepts_field_iff, accepts_optional_iff, hbound, Guard.isThreshold, Bool.and_eq_true,
    Bool.or_eq_true]
  constructor
  · rintro ⟨⟨fields, rfl⟩, hinFavor, hagainst⟩
    exact ⟨⟨rfl, hinFavor⟩, hagainst⟩
  · rintro ⟨⟨-, hinFavor⟩, hagainst⟩
    -- A sequence has no properties, so what passes with a bound in favor is an object.
    have hgiven : (v.get "inFavor").isAbsent = false := by
      cases hvalue : v.get "inFavor" with
      | absent =>
        rw [hvalue, habsent] at hinFavor
        cases hinFavor
      | _ => rfl
    exact ⟨exists_object_of_get rfl hgiven, hinFavor, hagainst⟩

/-! ## Rules -/

/-- A rule in parts per million is accepted if it is one. -/
theorem accepts_rule_iff (hkind : v.get "kind" = .text "percent") :
    rule.Accepts v ↔ Guard.isRule v = true := by
  -- Under the word for parts per million both look at the threshold alone.
  have hguard : Guard.isRule v = Guard.isPercentThreshold (v.get "threshold") := by
    simp [Guard.isRule, hkind]
  rw [hguard, Guard.isPercentThreshold,
    ← accepts_threshold_iff (fun _ => accepts_permill_iff) (rfl : Guard.isPermill .absent = false),
    rule, accepts_tagged_iff]
  constructor
  · rintro ⟨s, unit, hs, hfind, hread⟩
    obtain rfl := Value.text.inj (hkind.symm.trans hs)
    cases hfind
    rwa [Verdict.exists_map_iff, accepts_field_iff] at hread
  · intro hthreshold
    refine ⟨"percent", .percent, hkind, rfl, ?_⟩
    rwa [Verdict.exists_map_iff, accepts_field_iff]

end Form

/-- The value that a rule is. -/
def Rule.toValue (r : Rule) : Value :=
  let bounds := match r with
    | .signal t => t.map Value.integer
    | .percent t => t.map Value.number
  .object [("kind", .text r.unit), ("threshold", bounds.toValue)]

/-- Bounds that pass make a threshold that passes. -/
theorem Guard.isThreshold_toValue {isBound : Value → Bool} {t : Threshold Value}
    (h : ∀ b ∈ t.bounds, isBound b = true) : isThreshold isBound t.toValue = true := by
  obtain ⟨inFavor, against, remarks⟩ := t
  have hagainst : (against.getD .absent).isAbsent = true ∨
      isBound (against.getD .absent) = true := by
    cases against with
    | none => exact .inl rfl
    | some b => exact .inr (h b (by simp [Threshold.bounds]))
  simp only [isThreshold, Bool.and_eq_true, Bool.or_eq_true]
  exact ⟨⟨rfl, h inFavor (by simp [Threshold.bounds])⟩, hagainst⟩

namespace Form

variable {v : Value}

/-- What is read as a threshold passes, if what is read as a bound does. -/
theorem isThreshold_of_threshold {α : Type} {bound : Form α} {toValue : α → Value}
    {isBound : Value → Bool} {t : Threshold α}
    (hbound : ∀ {w b}, bound w = .accepted b → isBound (toValue b) = true)
    (h : threshold bound v = .accepted t) :
    Guard.isThreshold isBound (t.map toValue).toValue = true := by
  refine Guard.isThreshold_toValue fun b hb => ?_
  rw [Threshold.bounds_map] at hb
  obtain ⟨a, ha, rfl⟩ := List.mem_map.mp hb
  obtain ⟨side, -, hside⟩ := bound_of_threshold h a ha
  exact hbound hside

theorem isNatural_of_signal {n : Int} (h : signal v = .accepted n) :
    Guard.isNatural (.integer n) = true := by
  obtain ⟨s, -, rfl⟩ := text_of_signal h
  have hnonneg : (0 : Int) ≤ Signal.numeralValue s.toList := Int.natCast_nonneg _
  exact decide_eq_true hnonneg

/-- What is read as a rule is one, under the same word, whatever its unit. -/
theorem isRule_of_rule {r : Rule} (h : rule v = .accepted r) :
    v.get "kind" = .text r.unit ∧ Guard.isRule r.toValue = true := by
  obtain ⟨s, unit, hkind, hfind, hread⟩ := tagged_eq_accepted.mp h
  have hspelling := List.find?_some hfind
  rw [hkind, ← beq_iff_eq.mp hspelling]
  cases unit with
  | signal =>
    simp only [Verdict.map_eq_accepted, field_eq_accepted] at hread
    obtain ⟨t, ht, rfl⟩ := hread
    exact ⟨rfl, isThreshold_of_threshold isNatural_of_signal ht⟩
  | percent =>
    simp only [Verdict.map_eq_accepted, field_eq_accepted] at hread
    obtain ⟨t, ht, rfl⟩ := hread
    exact ⟨rfl, isThreshold_of_threshold isPermill_of_permill ht⟩

/-! ## Amounts of signal -/

/-- An amount is read from the same texts in the same way, except that the form knows no bound. -/
theorem parse_eq_ok_iff {n : Int} :
    Signal.parse v = .ok n ↔ signal v = .accepted n ∧ n ≤ Signal.max := by
  cases v with
  | text s =>
    by_cases hnumeral : Signal.isNumeral s = true
    · have hparse : Signal.parse (.text s) = .ok n ↔
          Signal.inRange (Signal.numeralValue s.toList) = true ∧
            (Signal.numeralValue s.toList : Int) = n := by
        simp only [Signal.parse, if_pos hnumeral]
        split
        · rename_i hrange
          simp [hrange]
        · rename_i hrange
          simp [hrange]
      have hsignal : signal (.text s) = .accepted n ↔
          (Signal.numeralValue s.toList : Int) = n := by
        simp [signal, text, TextRule.objection, hnumeral, Verdict.weigh]
      rw [hparse, hsignal, Signal.inRange_iff]
      omega
    · simp [Signal.parse, signal, text, TextRule.objection, hnumeral, Verdict.weigh]
  | _ => simp [Signal.parse, signal, text]

/-! ## Settings -/

/-- An environment in which everything but the largest identifier is in order. -/
structure OtherSettings (v : Value) : Prop where
  logLevel : (withDefault .info (word Journal.Level.all Journal.Level.text)).Accepts
    (v.get "LOG_LEVEL")
  stage : (withDefault .development (word Stage.all Stage.text)).Accepts (v.get "NODE_ENV")
  policy : (withDefault .resetBallots (word ResetPolicy.all ResetPolicy.text)).Accepts
    (v.get "TOPIC_RESET_POLICY")

/-- An environment is accepted if it is an object and every setting in it is in order. -/
theorem accepts_config_iff : config.Accepts v ↔ (∃ fields, v = .object fields) ∧ OtherSettings v ∧
    (withDefault (.ofInt Identifier.defaultCeiling) maxId).Accepts (v.get "MAX_ID") := by
  simp only [config, accepts_object_iff, Verdict.exists_seq_iff, Verdict.exists_map_iff,
    accepts_field_iff]
  constructor
  · rintro ⟨hobject, ⟨⟨hlevel, hstage⟩, hpolicy⟩, hmax⟩
    exact ⟨hobject, ⟨hlevel, hstage, hpolicy⟩, hmax⟩
  · rintro ⟨hobject, ⟨hlevel, hstage, hpolicy⟩, hmax⟩
    exact ⟨hobject, ⟨⟨hlevel, hstage⟩, hpolicy⟩, hmax⟩

/-- The number that is taken for the largest identifier is one, and nothing else is accepted. -/
theorem accepts_maxId_iff :
    maxId.Accepts v ↔ ∃ n, Identifier.readCeiling (.number v.toNumber) = .ok n := by
  have hceiling : (∃ n, Identifier.readCeiling (.number v.toNumber) = .ok n) ↔
      ∃ k : Nat, v.toNumber = .ofInt k ∧ 1 ≤ k ∧ k ≤ Number.maxSafe := by
    rw [← Number.isSafeInteger_and_le_iff 1, Identifier.readCeiling]
    split
    · rename_i hpasses
      exact iff_of_true ⟨_, rfl⟩ hpasses
    · rename_i hfails
      exact iff_of_false (fun ⟨_, h⟩ => by cases h) hfails
  have hnumber : maxId.Accepts v ↔ ∃ k : Int, Value.number v.toNumber = .number (.ofInt k) ∧
      (∀ bound : Nat, .atLeast bound ∈ [NumberRule.atLeast 1, .atMost Number.maxSafe] →
        bound ≤ k) ∧
      ∀ bound : Nat, .atMost bound ∈ [NumberRule.atLeast 1, .atMost Number.maxSafe] →
        k ≤ bound :=
    accepts_number_iff
  rw [hceiling, hnumber]
  simp only [Value.number.injEq, List.mem_cons, List.not_mem_nil, NumberRule.atLeast.injEq,
    NumberRule.atMost.injEq, reduceCtorEq, or_false, false_or, forall_eq]
  constructor
  · rintro ⟨k, hk, hlow, hhigh⟩
    exact ⟨k.toNat, by rw [Int.toNat_of_nonneg (by omega)]; exact hk, by omega, by omega⟩
  · rintro ⟨k, hk, hlow, hhigh⟩
    exact ⟨k, hk, by omega, by omega⟩

/-- The largest identifier of settings that were read is one with which a ledger can be made. -/
theorem exists_ledger_of_config {c : Config} (h : config v = .accepted c) :
    ∃ l, Ledger.empty ⟨.number c.maxId, c.policy.toValue⟩ = .ok l := by
  have hread := read_of_object h
  simp only [Verdict.seq_eq_accepted, Verdict.map_eq_accepted, field_eq_accepted] at hread
  obtain ⟨_, max, ⟨_, policy, ⟨_, stage, ⟨level, -, rfl⟩, -, rfl⟩, -, rfl⟩, hmax, rfl⟩ := hread
  have hceiling : ∃ n, Identifier.readCeiling (.number max) = .ok n := by
    unfold withDefault at hmax
    split at hmax
    · obtain rfl := Verdict.accepted.inj hmax
      exact ⟨_, rfl⟩
    · rw [← Value.number.inj (eq_of_number hmax)]
      exact accepts_maxId_iff.mp ⟨max, hmax⟩
  obtain ⟨n, hn⟩ := hceiling
  refine ⟨.blank ⟨n, (policy.toValue.given?.map ResetPolicy.ofValue).getD .resetBallots⟩, ?_⟩
  simp only [Ledger.empty, Ledger.Options.settings, Value.given?, Option.getD_some, hn]
  rfl

/-! ## All of it -/

/-- Parts per million, numbers of blocks, electorates, thresholds in parts per million and rules in
them are accepted exactly if they pass the guard, whatever value is handed in, and every rule that
is read passes.  Amounts of signal are those that are read by the form and are in range.  Where
everything else is in order and the largest identifier is given, settings are accepted exactly if
the number that is taken for it passes the check of the ledger; so with settings that were read a
ledger can always be made. -/
theorem accepts_what_guards_pass (v : Value) :
    (permill.Accepts v ↔ Guard.isPermill v = true) ∧
    (blocks.Accepts v ↔ Guard.isBlockHeight v = true) ∧
    (electorate.Accepts v ↔ Guard.isElectorate v = true) ∧
    ((threshold permill).Accepts v ↔ Guard.isPercentThreshold v = true) ∧
    (v.get "kind" = .text "percent" → (rule.Accepts v ↔ Guard.isRule v = true)) ∧
    (∀ r, rule v = .accepted r →
      v.get "kind" = .text r.unit ∧ Guard.isRule r.toValue = true) ∧
    (∀ n, Signal.parse v = .ok n ↔ signal v = .accepted n ∧ n ≤ Signal.max) ∧
    (OtherSettings v → (v.get "MAX_ID").isAbsent = false → (config.Accepts v ↔
      ∃ n, Identifier.readCeiling (.number (v.get "MAX_ID").toNumber) = .ok n)) ∧
    ∀ c, config v = .accepted c →
      ∃ l, Ledger.empty ⟨.number c.maxId, c.policy.toValue⟩ = .ok l := by
  refine ⟨accepts_permill_iff, accepts_blocks_iff, accepts_electorate_iff,
    accepts_threshold_iff (fun _ => accepts_permill_iff) rfl, accepts_rule_iff,
    fun _ => isRule_of_rule, fun _ => parse_eq_ok_iff, fun hothers hgiven => ?_,
    fun _ => exists_ledger_of_config⟩
  have hdefault : (withDefault (.ofInt Identifier.defaultCeiling) maxId).Accepts
      (v.get "MAX_ID") ↔ maxId.Accepts (v.get "MAX_ID") := by
    cases hvalue : v.get "MAX_ID" with
    | absent =>
      rw [hvalue] at hgiven
      cases hgiven
    | _ => exact Iff.rfl
  rw [accepts_config_iff, hdefault, accepts_maxId_iff]
  exact ⟨fun h => h.2.2, fun h => ⟨exists_object_of_get rfl hgiven, hothers, h⟩⟩

/-- Settings with a largest identifier that is written to the base of sixteen. -/
def hexadecimal : Value :=
  .object [("LOG_LEVEL", .text "warn"), ("MAX_ID", .text "0x20")]

/-- They are accepted, as is thirty-two. -/
theorem accepts_what_guards_pass_hexadecimal : OtherSettings hexadecimal ∧
    (hexadecimal.get "MAX_ID").isAbsent = false ∧ config.Accepts hexadecimal := by
  have hothers : OtherSettings hexadecimal := ⟨⟨_, rfl⟩, ⟨_, rfl⟩, ⟨_, rfl⟩⟩
  have hnumber : (hexadecimal.get "MAX_ID").toNumber = 32 := by decide +kernel
  obtain ⟨-, -, -, -, -, -, -, hconfig, -⟩ := accepts_what_guards_pass hexadecimal
  refine ⟨hothers, rfl, (hconfig hothers rfl).mpr ⟨32, ?_⟩⟩
  rw [hnumber]
  rfl

end Form

end Plebiscite
