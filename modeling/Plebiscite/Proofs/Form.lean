import Plebiscite.Form.Command
import Plebiscite.Proofs.Threshold

/-!
# Forms that were accepted

What is read from a form stands in the value that was handed in.  So the target of a command can be
told from its payload: the organization by the description of the electorate, votes and thresholds
by their identifiers.  And what is read passes the checks that are made on it later.

## Main definitions

- `Form.Requested`: what is read of a vote to be opened

## Main results

- `Form.org_of_electorate`: the organization is the one that the payload names
- `Form.isElectorate_of_electorate`, `Form.bare_of_rule`, `Form.mem_of_word`: electorates with a
  known mode, bounds alone, known words
- `Form.text_of_signal`, `Form.isPermill_of_permill`, `Form.isBlockHeight_of_blocks`: amounts that
  are what they have to be, of any size where signal is concerned
- `Form.fields_of_registerThreshold`, `Form.fields_of_request`, `Form.fields_of_invokeThreshold`,
  `Form.fields_of_submitVote`, `Form.fields_of_extendVote`: what a form reads
- `Form.target_of_registerThreshold`, `Form.target_of_request`, `Form.target_of_invokeThreshold`,
  `Form.target_of_submitVote`, `Form.target_of_extendVote`, `Form.target_of_updateTopic`: what a
  command is about
-/

namespace Plebiscite

/-! ## Verdicts -/

namespace Verdict

variable {α β : Type}

@[simp]
theorem map_eq_accepted {f : α → β} {x : Verdict α} {b : β} :
    f <$> x = .accepted b ↔ ∃ a, x = .accepted a ∧ f a = b := by
  show Verdict.ap (.accepted f) x = _ ↔ _
  cases x <;> simp [ap]

@[simp]
theorem seq_eq_accepted {f : Verdict (α → β)} {x : Verdict α} {b : β} :
    f <*> x = .accepted b ↔ ∃ g a, f = .accepted g ∧ x = .accepted a ∧ g a = b := by
  show f.ap x = _ ↔ _
  cases f <;> cases x <;> simp [ap]

@[simp]
theorem under_eq_accepted {x : Verdict α} {name : String} {a : α} :
    x.under name = .accepted a ↔ x = .accepted a := by
  cases x <;> simp [under]

@[simp]
theorem fail_ne_accepted {cause : Issue.Cause} {a : α} :
    (fail cause : Verdict α) = .accepted a ↔ False := by
  simp [fail]

theorem causes_of_weigh {causes : List Issue.Cause} {a b : α}
    (h : weigh causes a = .accepted b) : causes = [] := by
  cases causes with
  | nil => rfl
  | cons cause causes => cases h

theorem eq_of_weigh {causes : List Issue.Cause} {a b : α} (h : weigh causes a = .accepted b) :
    a = b := by
  cases causes with
  | nil => exact Verdict.accepted.inj h
  | cons cause causes => cases h

end Verdict

namespace Form

variable {α : Type} {v : Value}

/-! ## Parts -/

@[simp]
theorem mismatch_ne_accepted {expected : String} {a : α} :
    (mismatch expected v : Verdict α) = .accepted a ↔ False := by
  cases v <;> simp [mismatch]

@[simp]
theorem field_eq_accepted {name : String} {form : Form α} {a : α} :
    field v name form = .accepted a ↔ form (v.get name) = .accepted a :=
  Verdict.under_eq_accepted

theorem read_of_object {read : Value → Verdict α} {a : α} (h : object read v = .accepted a) :
    read v = .accepted a := by
  cases v with
  | object fields => exact h
  | _ => simp [object] at h

theorem eq_of_number {rules : List NumberRule} {n : Number} (h : number rules v = .accepted n) :
    v = .number n := by
  unfold number at h
  split at h
  · exact (mismatch_ne_accepted.mp h).elim
  · rw [Verdict.eq_of_weigh h]
  · exact (mismatch_ne_accepted.mp h).elim

/-- A number that is read is whole and within the bounds that are asked for. -/
theorem exists_of_number {rules : List NumberRule} {n : Number}
    (h : number (.whole :: rules) v = .accepted n) :
    ∃ k : Int, n = .ofInt k ∧ (∀ bound : Nat, .atLeast bound ∈ rules → bound ≤ k) ∧
      ∀ bound : Nat, .atMost bound ∈ rules → k ≤ bound := by
  rw [eq_of_number h] at h
  have hweigh : Verdict.weigh ((NumberRule.whole :: rules).filterMap (·.objection n)) n =
      .accepted n := by
    cases n with
    | nan => cases h
    | _ => exact h
  have hcauses := Verdict.causes_of_weigh hweigh
  rw [List.filterMap_eq_nil_iff, List.forall_mem_cons] at hcauses
  obtain ⟨hwhole, hrules⟩ := hcauses
  have hint : n.isInteger = true := by
    by_contra hint
    simp [NumberRule.objection, hint] at hwhole
  obtain ⟨k, rfl⟩ := Number.exists_of_isInteger hint
  refine ⟨k, rfl, fun bound hbound => ?_, fun bound hbound => ?_⟩
  · have hobjection := hrules _ hbound
    simpa [NumberRule.objection] using hobjection
  · have hobjection := hrules _ hbound
    simpa [NumberRule.objection] using hobjection

theorem eq_of_text {rules : List TextRule} {s : String} (h : text rules v = .accepted s) :
    v = .text s := by
  unfold text at h
  split at h
  · rw [Verdict.eq_of_weigh h]
  · exact (mismatch_ne_accepted.mp h).elim

/-- A text that is read has as many code units as it must have. -/
theorem nonempty_of_text {s : String} (h : text [.atLeast 1] v = .accepted s) :
    s.isEmpty = false := by
  rw [eq_of_text h] at h
  by_contra hempty
  obtain rfl := String.isEmpty_iff.mp (Bool.not_eq_false _ ▸ hempty)
  cases h

/-- Only words that are listed are read. -/
theorem mem_of_word {all : List α} {spelling : α → String} {a : α}
    (h : word all spelling v = .accepted a) : a ∈ all ∧ v = .text (spelling a) := by
  unfold word at h
  split at h
  · split at h
    · rename_i found
      obtain rfl := Verdict.accepted.inj h
      have hspelling := List.find?_some found
      exact ⟨List.mem_of_find?_eq_some found, congrArg Value.text (beq_iff_eq.mp hspelling).symm⟩
    · exact (Verdict.fail_ne_accepted.mp h).elim
  · exact (mismatch_ne_accepted.mp h).elim

/-- A truth value that holds was handed in, whatever stands for it when it is left out. -/
theorem eq_of_truth (h : withDefault false truth v = .accepted true) : v = .bool true := by
  cases v with
  | bool b => exact congrArg Value.bool (Verdict.accepted.inj h)
  | absent => cases h
  | _ => cases h

theorem read_of_tagged {β : Type} {all : List α} {spelling : α → String}
    {read : α → Value → Verdict β} {b : β} (h : tagged all spelling read v = .accepted b) :
    ∃ tag, read tag v = .accepted b := by
  have hread := read_of_object h
  split at hread
  · split at hread
    · exact ⟨_, hread⟩
    · simp at hread
  · simp at hread

/-- An electorate that is read is an organization in a mode, and nothing else. -/
theorem eq_of_electorate {e : Electorate} (h : electorate v = .accepted e) :
    ∃ mode org, e = .of mode org ∧ v.get "orgId" = .text org := by
  obtain ⟨mode, hread⟩ := read_of_tagged h
  simp only [Verdict.map_eq_accepted, field_eq_accepted] at hread
  obtain ⟨org, horg, rfl⟩ := hread
  exact ⟨mode, org, rfl, eq_of_text horg⟩

/-- The organization of an electorate is the one that is named in it. -/
theorem org_of_electorate {e : Electorate} (h : electorate v = .accepted e) :
    e.org = v.get "orgId" := by
  obtain ⟨mode, org, rfl, horg⟩ := eq_of_electorate h
  rw [horg]
  rfl

/-- An electorate that is read has a known mode and an organization that is named. -/
theorem isElectorate_of_electorate {e : Electorate} (h : electorate v = .accepted e) :
    Guard.isElectorate e.description = true := by
  obtain ⟨mode, hread⟩ := read_of_tagged h
  simp only [Verdict.map_eq_accepted, field_eq_accepted] at hread
  obtain ⟨org, horg, rfl⟩ := hread
  have hnamed : Guard.isIdentifier (.text org) = true := by
    simp [Guard.isIdentifier, nonempty_of_text horg]
  cases mode <;> exact hnamed

/-- An amount of signal is spelled by a text, and is not below zero. -/
theorem text_of_signal {n : Int} (h : signal v = .accepted n) :
    ∃ s, v = .text s ∧ n = Signal.numeralValue s.toList := by
  obtain ⟨s, hs, rfl⟩ := Verdict.map_eq_accepted.mp h
  exact ⟨s, eq_of_text hs, rfl⟩

theorem isPermill_of_permill {n : Number} (h : permill v = .accepted n) :
    Guard.isPermill (.number n) = true := by
  obtain ⟨k, rfl, hlow, hhigh⟩ := exists_of_number h
  have hzero : ((0 : Nat) : Int) ≤ k := hlow 0 (by simp)
  have hmax : k ≤ (Guard.permillMax : Int) := hhigh Guard.permillMax (by simp)
  have hfrom : Number.le 0 (.ofInt k) = true := (Number.ofInt_le 0 k).trans (by simpa using hzero)
  have hto : (Number.ofInt k).le (.ofInt Guard.permillMax) = true :=
    (Number.ofInt_le k _).trans (by simpa using hmax)
  simp only [Guard.isPermill, Bool.and_eq_true]
  exact ⟨⟨rfl, hfrom⟩, hto⟩

theorem isBlockHeight_of_blocks {n : Number} (h : blocks v = .accepted n) :
    Guard.isBlockHeight (.number n) = true := by
  obtain ⟨k, rfl, hlow, hhigh⟩ := exists_of_number h
  have hzero : ((0 : Nat) : Int) ≤ k := hlow 0 (by simp)
  have hmax : k ≤ (Number.maxSafe : Int) := hhigh Number.maxSafe (by simp)
  have hsafe : (Number.ofInt k).isSafeInteger = true := by
    rw [Number.isSafeInteger_ofInt, decide_eq_true_eq]
    omega
  have hfrom : Number.le 0 (.ofInt k) = true := (Number.ofInt_le 0 k).trans (by simpa using hzero)
  exact Bool.and_eq_true_iff.mpr ⟨hsafe, hfrom⟩

/-- A value that may be absent is absent or has its form. -/
theorem of_optional {form : Form α} {a : Option α} (h : optional form v = .accepted a) :
    v = .absent ∧ a = none ∨ ∃ x, form v = .accepted x ∧ a = some x := by
  unfold optional at h
  split at h
  · exact .inl ⟨rfl, (Verdict.accepted.inj h).symm⟩
  · obtain ⟨x, hx, rfl⟩ := Verdict.map_eq_accepted.mp h
    exact .inr ⟨x, hx, rfl⟩

/-- A duration is left out, or it is a number of blocks. -/
theorem blocks_of_optional {d : Option Number} (h : optional blocks v = .accepted d) :
    Value.ofNumber? d = .absent ∨
      ∃ n, Value.ofNumber? d = .number n ∧ Guard.isBlockHeight (.number n) = true := by
  rcases of_optional h with ⟨-, rfl⟩ | ⟨n, hn, rfl⟩
  · exact .inl rfl
  · exact .inr ⟨n, rfl, isBlockHeight_of_blocks hn⟩

/-- Every bound that is read stands under one of the two sides. -/
theorem bound_of_threshold {bound : Form α} {t : Threshold α}
    (h : threshold bound v = .accepted t) :
    ∀ b ∈ t.bounds, ∃ side ∈ ["inFavor", "against"], bound (v.get side) = .accepted b := by
  have hread := read_of_object h
  simp only [Verdict.seq_eq_accepted, Verdict.map_eq_accepted, field_eq_accepted] at hread
  obtain ⟨_, against, ⟨inFavor, hinFavor, rfl⟩, hagainst, rfl⟩ := hread
  intro b hb
  rcases List.mem_cons.mp hb with rfl | hb
  · exact ⟨"inFavor", by simp, hinFavor⟩
  · rcases of_optional hagainst with ⟨-, rfl⟩ | ⟨x, hx, rfl⟩
    · cases hb
    · obtain rfl := List.mem_singleton.mp hb
      exact ⟨"against", by simp, hx⟩

/-- Nothing is read with bounds. -/
theorem remarks_of_threshold {bound : Form α} {t : Threshold α}
    (h : threshold bound v = .accepted t) : t.remarks = [] := by
  have hread := read_of_object h
  simp only [Verdict.seq_eq_accepted, Verdict.map_eq_accepted] at hread
  obtain ⟨_, _, ⟨_, -, rfl⟩, -, rfl⟩ := hread
  rfl

/-- The bounds of a rule are read in its unit. -/
theorem threshold_of_rule {r : Rule} (h : rule v = .accepted r) :
    (∃ t, r = .signal t ∧ threshold signal (v.get "threshold") = .accepted t) ∨
      ∃ t, r = .percent t ∧ threshold permill (v.get "threshold") = .accepted t := by
  obtain ⟨unit, hread⟩ := read_of_tagged h
  cases unit with
  | signal =>
    simp only [Verdict.map_eq_accepted, field_eq_accepted] at hread
    obtain ⟨t, ht, rfl⟩ := hread
    exact .inl ⟨t, rfl, ht⟩
  | percent =>
    simp only [Verdict.map_eq_accepted, field_eq_accepted] at hread
    obtain ⟨t, ht, rfl⟩ := hread
    exact .inr ⟨t, rfl, ht⟩

/-- A rule that is read has its bounds alone. -/
theorem bare_of_rule {r : Rule} (h : rule v = .accepted r) : r.bare = r := by
  rcases threshold_of_rule h with ⟨t, rfl, ht⟩ | ⟨t, rfl, ht⟩
  · exact congrArg Rule.signal (Threshold.bare_eq (remarks_of_threshold ht))
  · exact congrArg Rule.percent (Threshold.bare_eq (remarks_of_threshold ht))

/-! ## Commands -/

/-- The fields of a threshold to be registered. -/
theorem fields_of_registerThreshold {c : RegisterThreshold}
    (h : registerThreshold v = .accepted c) :
    electorate (v.get "org") = .accepted c.electorate ∧
      rule (v.get "rule") = .accepted c.rule := by
  have hread := read_of_object h
  simp only [Verdict.seq_eq_accepted, Verdict.map_eq_accepted, field_eq_accepted] at hread
  obtain ⟨_, _, ⟨e, he, rfl⟩, hrule, rfl⟩ := hread
  exact ⟨he, hrule⟩

theorem electorate_of_registerThreshold {c : RegisterThreshold}
    (h : registerThreshold v = .accepted c) :
    electorate (v.get "org") = .accepted c.electorate :=
  (fields_of_registerThreshold h).1

theorem rule_of_registerThreshold {c : RegisterThreshold}
    (h : registerThreshold v = .accepted c) : rule (v.get "rule") = .accepted c.rule :=
  (fields_of_registerThreshold h).2

theorem target_of_registerThreshold {c : RegisterThreshold}
    (h : registerThreshold v = .accepted c) :
    c.electorate.org = (v.get "org").get "orgId" :=
  org_of_electorate (electorate_of_registerThreshold h)

/-- The fields of a vote to be opened. -/
structure Requested {α : Type} (bound : Form α) (v : Value) (r : Ledger.Request α) : Prop where
  electorate : electorate (v.get "org") = .accepted r.electorate
  threshold : threshold bound (v.get "threshold") = .accepted r.threshold
  duration : ∃ d, r.duration = .ofNumber? d ∧ optional blocks (v.get "duration") = .accepted d

theorem fields_of_request {bound : Form α} {r : Ledger.Request α}
    (h : request bound v = .accepted r) : Requested bound v r := by
  have hread := read_of_object h
  simp only [Verdict.seq_eq_accepted, Verdict.map_eq_accepted, field_eq_accepted] at hread
  obtain ⟨_, d, ⟨_, _, ⟨_, e, ⟨_, -, rfl⟩, he, rfl⟩, ht, rfl⟩, hd, rfl⟩ := hread
  exact ⟨he, ht, d, rfl, hd⟩

theorem target_of_request {bound : Form α} {r : Ledger.Request α}
    (h : request bound v = .accepted r) : r.electorate.org = (v.get "org").get "orgId" :=
  org_of_electorate (fields_of_request h).electorate

/-- The fields of a vote to be opened from a threshold. -/
theorem fields_of_invokeThreshold {c : InvokeThreshold} (h : invokeThreshold v = .accepted c) :
    v.get "thresholdId" = .number c.thresholdId ∧
      optional blocks (v.get "duration") = .accepted c.duration := by
  have hread := read_of_object h
  simp only [Verdict.seq_eq_accepted, Verdict.map_eq_accepted, field_eq_accepted] at hread
  obtain ⟨_, _, ⟨_, _, ⟨id, hid, rfl⟩, -, rfl⟩, hd, rfl⟩ := hread
  exact ⟨eq_of_number hid, hd⟩

theorem target_of_invokeThreshold {c : InvokeThreshold} (h : invokeThreshold v = .accepted c) :
    v.get "thresholdId" = .number c.thresholdId :=
  (fields_of_invokeThreshold h).1

/-- The fields of a ballot.  The stance is a known one, and its word stands in the payload. -/
theorem fields_of_submitVote {c : SubmitVote} (h : submitVote v = .accepted c) :
    v.get "voteId" = .number c.voteId ∧ c.stance ∈ Stance.all ∧
      v.get "direction" = .text c.stance.text := by
  have hread := read_of_object h
  simp only [Verdict.seq_eq_accepted, Verdict.map_eq_accepted, field_eq_accepted] at hread
  obtain ⟨_, _, ⟨_, _, ⟨id, hid, rfl⟩, hstance, rfl⟩, -, rfl⟩ := hread
  exact ⟨eq_of_number hid, mem_of_word hstance⟩

theorem target_of_submitVote {c : SubmitVote} (h : submitVote v = .accepted c) :
    v.get "voteId" = .number c.voteId :=
  (fields_of_submitVote h).1

/-- The fields of an end to be moved. -/
theorem fields_of_extendVote {c : ExtendVote} (h : extendVote v = .accepted c) :
    v.get "voteId" = .number c.voteId ∧ Guard.isBlockHeight (.number c.blocks) = true := by
  have hread := read_of_object h
  simp only [Verdict.seq_eq_accepted, Verdict.map_eq_accepted, field_eq_accepted] at hread
  obtain ⟨_, _, ⟨id, hid, rfl⟩, hblocks, rfl⟩ := hread
  exact ⟨eq_of_number hid, isBlockHeight_of_blocks hblocks⟩

theorem target_of_extendVote {c : ExtendVote} (h : extendVote v = .accepted c) :
    v.get "voteId" = .number c.voteId :=
  (fields_of_extendVote h).1

theorem target_of_updateTopic {c : UpdateTopic} (h : updateTopic v = .accepted c) :
    v.get "voteId" = .number c.voteId ∧
      (c.clearTallies = true → v.get "clearTallies" = .bool true) := by
  have hread := read_of_object h
  simp only [Verdict.seq_eq_accepted, Verdict.map_eq_accepted, field_eq_accepted] at hread
  obtain ⟨_, clear, ⟨_, _, ⟨id, hid, rfl⟩, -, rfl⟩, hclear, rfl⟩ := hread
  refine ⟨eq_of_number hid, ?_⟩
  rintro rfl
  exact eq_of_truth hclear

end Form

end Plebiscite
