import Plebiscite.Proofs.Ledger.Restorable

/-!
# Thresholds that are kept

A threshold that was registered is there from then on, under its own identifier and as it was
registered: later registrations take other identifiers, no command touches an entry, and what is
stored and opened again holds the same entries in the order of their identifiers.  So a vote that is
opened from a threshold is opened as it would be with the electorate and the rule themselves.

## Main definitions

- `Register.Distinct`: every entry has an identifier of its own
- `Ledger.Keeping`: the thresholds of a ledger are numbered apart
- `Ledger.openingBy`: the command that opens a vote with a rule

## Main results

- `Ledger.Keeping.move`: what moves do to a threshold
- `Ledger.perform_invokeThreshold`: a vote from a threshold and a vote from its rule
- `Ledger.threshold_kept`: a threshold after any moves
-/

namespace Plebiscite

open Snapshot

/-! ## Entries with identifiers of their own -/

namespace Register

/-- Every entry has an identifier, and no other entry has the same. -/
structure Distinct (r : Register) : Prop where
  ids : ∀ entry ∈ r.entries, IsId entry.id
  nodup : (r.entries.map (·.id)).Nodup

variable {r : Register} {entry : Registration}

/-- What is not structured is the same one if it is equal. -/
theorem same_eq {v id : Value} (hid : id.isStructured = false) : v.same id = decide (v = id) := by
  by_cases hv : v = id
  · simp [Value.same, hv, hid]
  · simp [Value.same, hv]

namespace Distinct

theorem empty : Register.empty.Distinct :=
  ⟨by simp [Register.empty], List.nodup_nil⟩

/-- An entry is found under its identifier. -/
theorem get?_eq_some (hr : r.Distinct) (hentry : entry ∈ r.entries) :
    r.get? entry.id = some entry := by
  obtain ⟨k, hk, -⟩ := hr.ids entry hentry
  have hid : entry.id.isStructured = false := by rw [hk]; rfl
  have hfind : r.get? entry.id = r.entries.find? fun other => other.id = entry.id := by
    simp only [get?, same_eq hid]
  rw [hfind]
  exact (Keyed.find?_key hr.nodup).mpr ⟨hentry, rfl⟩

/-- An entry with a fresh identifier is added. -/
theorem insert (hr : r.Distinct) (hid : IsId entry.id) (hfresh : entry.id ∉ r.entries.map (·.id)) :
    (r.insert entry).Distinct := by
  refine ⟨fun other hother => ?_, ?_⟩
  · rcases List.mem_append.mp hother with hother | hother
    · exact hr.ids other hother
    · rw [List.mem_singleton.mp hother]
      exact hid
  · have hlast : (r.insert entry).entries.map (·.id) = r.entries.map (·.id) ++ [entry.id] :=
      List.map_append
    rw [hlast]
    exact hr.nodup.append (List.nodup_singleton _) (by simpa using hfresh)

/-- The identifiers are numbers, and these are listed in ascending order. -/
theorem listed_ascending (hr : r.Distinct) :
    r.listed.Pairwise fun a b => a.id.toNumber.lt b.id.toNumber = true := by
  have hnumber : ∀ a ∈ r.entries, ∃ k : Nat, a.id = .number (.ofInt k) := fun a ha => by
    obtain ⟨k, hk, -⟩ := hr.ids a ha
    exact ⟨k, hk⟩
  have hplain : ∀ a ∈ r.entries, isNumbered a = true := by
    intro a ha
    obtain ⟨k, hk⟩ := hnumber a ha
    simp [isNumbered, hk, Value.number?, Number.ofInt]
  -- Whole numbers compare in both directions, so the order of the list is that of integers.
  have hkey : ∀ a ∈ r.entries, ∀ b ∈ r.entries, (!b.id.toNumber.lt a.id.toNumber) =
      decide (a.id.toNumber.toInt ≤ b.id.toNumber.toInt) := by
    intro a ha b hb
    obtain ⟨j, hj⟩ := hnumber a ha
    obtain ⟨k, hk⟩ := hnumber b hb
    simp [hj, hk, Value.toNumber, ← decide_not]
  have hweak : (r.listed.map fun a => a.id.toNumber.toInt).Pairwise fun x y =>
      decide (x ≤ y) = true := by
    apply Arrangement.arrange_pairwise hplain hkey
    · simpa using fun x y z => Int.le_trans
    · simpa using Int.le_total
  -- Identifiers are not shared, so the order is strict.
  have hne : r.listed.Pairwise fun a b => a.id ≠ b.id :=
    List.pairwise_map.mp (((Ledger.listed_perm r).map _).nodup_iff.mpr hr.nodup)
  refine ((List.pairwise_map.mp hweak).and hne).imp_of_mem ?_
  rintro a b ha hb ⟨hle, hdiffer⟩
  obtain ⟨j, hj⟩ := hnumber a ((Ledger.listed_perm r).subset ha)
  obtain ⟨k, hk⟩ := hnumber b ((Ledger.listed_perm r).subset hb)
  have hjk : j ≠ k := by
    rintro rfl
    exact hdiffer (hj.trans hk.symm)
  simp only [hj, hk, Value.toNumber, Number.toInt_ofInt, decide_eq_true_eq] at hle
  simp only [hj, hk, Value.toNumber, Number.ofInt_lt, decide_eq_true_eq]
  omega

/-- An entry is listed once. -/
theorem count_listed (hr : r.Distinct) (hentry : entry ∈ r.entries) : r.listed.count entry = 1 :=
  List.count_eq_one_of_mem ((Ledger.listed_perm r).nodup_iff.mpr (.of_map _ hr.nodup))
    ((Ledger.listed_perm r).mem_iff.mpr hentry)

end Distinct

end Register

/-- A threshold that is stored and read as it is: a rule that passes, without remarks, and an
electorate that is described by its parts. -/
structure Registration.Plain (entry : Registration) : Prop where
  copied : entry.electorate.copy = entry.electorate
  valid : entry.rule.validate = .ok ()
  bare : entry.rule.bare = entry.rule

/-- Only an electorate that passes is read. -/
theorem Registration.isElectorate_of_readsThreshold {entry other : Registration}
    (hread : Ledger.ReadsThreshold (ofRegistration entry) other) :
    Guard.isElectorate entry.electorate.copy.description = true := by
  have hvalid := Ledger.exists_readsThreshold.mp ⟨other, hread⟩
  exact isElectorate_iff.mpr ⟨hvalid.mode, hvalid.org⟩

/-- What is read of a plain threshold is the same threshold. -/
theorem Registration.Plain.eq_of_readsThreshold {entry other : Registration} (h : entry.Plain)
    (hid : IsId entry.id) (hread : Ledger.ReadsThreshold (ofRegistration entry) other) :
    other = entry := by
  obtain ⟨n, hn⟩ := hid.exists_number
  have hmember := isElectorate_of_readsThreshold hread
  obtain ⟨read, hread, -, rfl⟩ := hread
  rw [readRegistration_ofRegistration hn (isId_number.mp (hn ▸ hid)) hmember h.valid, h.copied,
    h.bare] at hread
  cases hread
  exact congrArg (fun e => (⟨entry.id, e, entry.rule⟩ : Registration)) h.copied

namespace Ledger

variable {l l' : Ledger} {env : Environment} {c : Command} {a : Answer} {entry : Registration}

/-! ## What moves do to thresholds -/

/-- The identifiers of thresholds are counted, and no two are the same. -/
structure Keeping (l : Ledger) : Prop where
  counting : ∃ m, l.Counting .thresholds m
  distinct : l.register.Distinct

/-- Only a registration touches the register, and it adds one entry. -/
theorem register_of_perform (h : perform env c l = .ok a l') :
    l'.register = l.register ∨ ∃ e rule entry,
      l.register.register (.number l.settings.ceiling) e rule = .ok (entry, l'.register) := by
  rcases perform_kinds h with ⟨_, _, -, -, -, rfl⟩ |
    ⟨e, rule, entry, register, -, hregister, -, rfl⟩ | ⟨-, -, hkeeps⟩
  · exact .inl rfl
  · exact .inr ⟨e, rule, entry, hregister⟩
  · exact .inl hkeeps.register

namespace Keeping

theorem perform (hl : l.Keeping) (h : perform env c l = .ok a l') : l'.Keeping := by
  obtain ⟨m, hm⟩ := hl.counting
  refine ⟨⟨m, hm.perform h⟩, ?_⟩
  rcases register_of_perform h with hsame | ⟨e, rule, entry, hregister⟩
  · rw [hsame]
    exact hl.distinct
  · -- The identifier is what the search found, so it is free.
    obtain ⟨n, hn⟩ := hm.last
    obtain ⟨hid, hfresh⟩ := hm.isId_of_nextIn ((issues_register hregister).next _ hn)
    have hinsert := hl.distinct.insert hid hfresh
    obtain ⟨-, -, -, hentries⟩ := eq_of_register hregister
    refine ⟨?_, ?_⟩ <;> rw [hentries]
    · exact hinsert.ids
    · exact hinsert.nodup

/-- An entry stays through every command. -/
theorem mem_of_perform (h : Ledger.perform env c l = .ok a l')
    (hentry : entry ∈ l.register.entries) : entry ∈ l'.register.entries := by
  rcases register_of_perform h with hsame | ⟨e, rule, added, hregister⟩
  · rw [hsame]
    exact hentry
  · rw [(eq_of_register hregister).2.2.2]
    exact List.mem_append_left _ hentry

theorem of_empty {o : Options} (h : Ledger.empty o = .ok l) : l.Keeping := by
  obtain ⟨m, hm⟩ := Numbered.of_empty h
  have hcounting : l.Counting .thresholds m :=
    ⟨hm.ceiling, hm.ceiling_pos, hm.ceiling_le, 0, hm.counter⟩
  obtain ⟨settings, -, rfl⟩ := Checks.exceptMap_eq_ok.mp h
  exact ⟨⟨m, hcounting⟩, .empty⟩

/-- Whatever was restored with its counter is numbered apart. -/
theorem of_restore {o : Options} {s : Snapshot} (h : restore o s = .ok l)
    (hcounter : (s.counters.lookup "thresholdId").isSome) : l.Keeping := by
  obtain ⟨m, hpos, hle, hceiling, -⟩ := ceiling_of_restore h
  obtain ⟨n, hn, -⟩ := @last_of_restore _ .thresholds _ _ h hcounter
  refine ⟨⟨m, hceiling, hpos, hle, n, hn⟩, ?_⟩
  obtain ⟨r, hr, rfl⟩ := restore_eq_ok.mp h
  refine ⟨fun entry hentry => ?_, hr.entries_distinct⟩
  obtain ⟨e, -, hreads⟩ := Checks.exists_of_mem_right hr.entries hentry
  exact (restorable_of_readsThreshold hreads).id

/-- A plain threshold is the same after the ledger was stored and opened again. -/
theorem mem_of_reopen (hl : l.Keeping) {o : Options} (h : restore o l.snapshot = .ok l')
    (hplain : entry.Plain) (hentry : entry ∈ l.register.entries) :
    entry ∈ l'.register.entries := by
  obtain ⟨r, hr, rfl⟩ := restore_eq_ok.mp h
  have hstored : ofRegistration entry ∈ l.snapshot.thresholds :=
    List.mem_map_of_mem ((listed_perm _).mem_iff.mpr hentry)
  obtain ⟨other, hother, hread⟩ := Checks.exists_of_mem_left hr.entries hstored
  exact hplain.eq_of_readsThreshold (hl.distinct.ids entry hentry) hread ▸ hother

/-- No move makes two thresholds share an identifier, and none removes or changes one. -/
theorem move (hl : l.Keeping) (m : Move) :
    (l.move m).Keeping ∧ ∀ entry : Registration, entry.Plain → entry ∈ l.register.entries →
      entry ∈ (l.move m).register.entries := by
  rcases l.move_outcomes m with h | ⟨env, c, a, -, h⟩ | ⟨o, -, h⟩
  · rw [h]
    exact ⟨hl, fun _ _ => id⟩
  · exact ⟨hl.perform h, fun _ _ => mem_of_perform h⟩
  · exact ⟨of_restore h rfl, fun _ => hl.mem_of_reopen h⟩

theorem run (hl : l.Keeping) (moves : List Move) :
    (l.run moves).Keeping ∧ ∀ entry : Registration, entry.Plain → entry ∈ l.register.entries →
      entry ∈ (l.run moves).register.entries := by
  induction moves generalizing l with
  | nil => exact ⟨hl, fun _ _ => id⟩
  | cons m moves ih =>
    obtain ⟨hmove, hmem⟩ := hl.move m
    obtain ⟨hrun, hrest⟩ := ih hmove
    exact ⟨hrun, fun entry hplain hentry => hrest entry hplain (hmem entry hplain hentry)⟩

end Keeping

/-! ## Votes from thresholds -/

/-- The command that opens a vote with a rule. -/
def openingBy (e : Electorate) (topic duration : Value) : Rule → Command
  | .signal threshold => .openVote ⟨topic, e, threshold, duration⟩
  | .percent threshold => .openPercentVote ⟨topic, e, threshold, duration⟩

/-- A vote from a threshold comes out as a vote from its electorate and its rule, accepted or
refused. -/
theorem perform_invokeThreshold (env : Environment) (topic duration : Value)
    (hentry : l.register.get? entry.id = some entry) :
    perform env (.invokeThreshold entry.id topic duration) l =
      perform env (openingBy entry.electorate topic duration entry.rule) l := by
  have hresolve : l.register.resolve entry.id = .ok entry := by
    rw [Register.resolve, hentry]
  obtain ⟨id, e, rule⟩ := entry
  cases rule with
  | signal threshold =>
    show (Answer.opened <$> (check (l.register.resolve id) >>= _)) l = _
    rw [hresolve]
    rfl
  | percent threshold =>
    show (Answer.opened <$> (check (l.register.resolve id) >>= _)) l = _
    rw [hresolve]
    rfl

/-- What a vote from a threshold is refused for: the bounds were checked when the threshold was
registered, and the threshold is there. -/
theorem invokeThreshold_failsWith (env : Environment) (topic duration : Value)
    (hentry : l.register.get? entry.id = some entry) (hvalid : entry.rule.validate = .ok ()) :
    Step.FailsOnly l (fun f => f.code ∉ [.thresholdNotFound, .invalidSignal, .invalidPercent])
      (perform env (.invokeThreshold entry.id topic duration)) := by
  have hnone : ∀ {α : Type} {codes : List Code} {x : Except Fault α}, FailsWith codes x →
      (∀ code ∈ codes, code ∉ [Code.thresholdNotFound, .invalidSignal, .invalidPercent]) →
      Checks.FailsOnly (fun f : Fault =>
        f.code ∉ [.thresholdNotFound, .invalidSignal, .invalidPercent]) x :=
    fun hx hcodes => Checks.FailsOnly.mono hx fun f hf => hcodes f.code hf
  have ho : l.opening? (.invokeThreshold entry.id topic duration) =
      some ⟨topic, entry.electorate, entry.rule, duration⟩ := by
    rw [opening?, hentry]
    rfl
  apply perform_failsOnly_of_opening ho
  · rw [hvalid]
    exact .ok ()
  · intro _
    apply openWith_failsOnly_of
    · exact hnone env.height_failsWith (by decide)
    · intro now _
      exact hnone (endOf_failsWith now duration) (by decide)
    · exact hnone (Plan.make_failsWith env.stakes entry.electorate) (by decide)
    · intro plan _ _
      simp [Fault.code]
    · exact hnone (next_failsWith _ _ _) (by decide)

/-- From nothing or from any snapshot with a counter of thresholds, through any calls and any number
of times that the ledger is stored and opened again, a threshold that was registered stays as it was
registered and is listed once, in the order of the identifiers; and a vote that is opened from it is
opened, or refused, as with its electorate and its rule, and never because the threshold is not
there or its bounds do not pass. -/
theorem threshold_kept {start registered : Ledger}
    (hstart : (∃ o, Ledger.empty o = .ok start) ∨
      ∃ o s, restore o s = .ok start ∧ (s.counters.lookup "thresholdId").isSome)
    {earlier : List Move} {e : Electorate} {rule : Rule} (he : e.copy = e)
    (hrule : rule.bare = rule)
    (h : perform env (.registerThreshold e rule) (start.run earlier) =
      .ok (.registered entry) registered) (later : List Move) :
    entry.electorate = e ∧ entry.rule = rule ∧
    (registered.run later).register.get? entry.id = some entry ∧
    ((registered.run later).register.listed.Pairwise fun a b =>
      a.id.toNumber.lt b.id.toNumber = true) ∧
    (registered.run later).register.listed.count entry = 1 ∧
    ∀ now topic duration,
      perform now (.invokeThreshold entry.id topic duration) (registered.run later) =
        perform now (openingBy e topic duration rule) (registered.run later) ∧
      ∀ f l', perform now (.invokeThreshold entry.id topic duration) (registered.run later) =
        .error f l' → f.code ∉ [.thresholdNotFound, .invalidSignal, .invalidPercent] := by
  have hbegins : start.Keeping := by
    rcases hstart with ⟨o, hempty⟩ | ⟨o, s, hrestore, hcounter⟩
    · exact .of_empty hempty
    · exact .of_restore hrestore hcounter
  have hregistered : registered.Keeping := (hbegins.run earlier).1.perform h
  obtain ⟨_, hadded, hanswer⟩ := Step.map_eq_ok.mp h
  cases hanswer
  obtain ⟨register, hregister, rfl⟩ := registerThreshold_eq_ok.mp hadded
  obtain ⟨hvalid, helectorate, hkept, hentries⟩ := eq_of_register hregister
  rw [he] at helectorate
  have hplain : entry.Plain := by
    refine ⟨?_, ?_, ?_⟩
    · rw [helectorate, he]
    · rw [hkept, hvalid]
    · rw [hkept, hrule]
  have hmem : entry ∈ register.entries := by
    rw [hentries]
    exact List.mem_append_right _ (List.mem_singleton_self _)
  -- From here on the threshold is followed through the moves.
  obtain ⟨hlater, hstays⟩ := hregistered.run later
  have hentry := hstays entry hplain hmem
  have hget := hlater.distinct.get?_eq_some hentry
  refine ⟨helectorate, hkept, hget, hlater.distinct.listed_ascending,
    hlater.distinct.count_listed hentry, fun now topic duration => ⟨?_, fun f l' hf => ?_⟩⟩
  · rw [perform_invokeThreshold now topic duration hget, helectorate, hkept]
  · exact (invokeThreshold_failsWith now topic duration hget hplain.valid).of_error hf

namespace Sample

/-- The counter stands at the ceiling of ten, and the first identifier is taken. -/
def wrapping : Snapshot :=
  ⟨.number 1, [("voteId", .number 0), ("thresholdId", .number 10), ("openVotes", .number 0)],
    [ofRegistration ⟨.number 1, .of .weighted "org", .percent threshold⟩], [], []⟩

/-- The ledger that it stores. -/
def wrapped : Ledger :=
  { start with register := ⟨.number 10, [⟨.number 1, .of .weighted "org", .percent threshold⟩]⟩ }

theorem restore_wrapping : restore options wrapping = .ok wrapped := by
  rfl

/-- The threshold of the two. -/
def twoThirds : Registration :=
  ⟨.number 2, .of .equal "org", .percent ⟨666667, none, []⟩⟩

/-- Another threshold, and the ledger stored and opened again under other options. -/
def reopening : List Move :=
  [.call host (.registerThreshold (.of .weighted "org") (.signal ⟨7, none, []⟩)),
   .reopen ⟨.number 3, .absent⟩]

end Sample

/-- Numbering starts over, and the threshold that comes after the first one is opened from. -/
theorem threshold_kept_wrapping :
    ∃ registered,
      restore Sample.options Sample.wrapping = .ok Sample.wrapped ∧
      perform Sample.host (.registerThreshold Sample.twoThirds.electorate Sample.twoThirds.rule)
        (Sample.wrapped.run []) = .ok (.registered Sample.twoThirds) registered ∧
      (registered.run Sample.reopening).register.get? (.number 2) = some Sample.twoThirds ∧
      perform Sample.host (.invokeThreshold (.number 2) (.text "topic") .absent)
          (registered.run Sample.reopening) =
        perform Sample.host (openingBy Sample.twoThirds.electorate (.text "topic") .absent
          Sample.twoThirds.rule) (registered.run Sample.reopening) := by
  have hregister : Sample.wrapped.register.register (.number 10) Sample.twoThirds.electorate
      Sample.twoThirds.rule = .ok (Sample.twoThirds,
        ⟨.number 2, Sample.wrapped.register.entries ++ [Sample.twoThirds]⟩) := by
    decide +kernel
  have hperform : perform Sample.host
      (.registerThreshold Sample.twoThirds.electorate Sample.twoThirds.rule)
      (Sample.wrapped.run []) = .ok (.registered Sample.twoThirds) _ :=
    Step.map_eq_ok.mpr ⟨_, registerThreshold_eq_ok.mpr ⟨_, hregister, rfl⟩, rfl⟩
  have hkept := threshold_kept
    (.inr ⟨_, _, Sample.restore_wrapping, by decide⟩) rfl rfl hperform Sample.reopening
  obtain ⟨-, -, hget, -, -, hinvoke⟩ := hkept
  exact ⟨_, Sample.restore_wrapping, hperform, hget,
    (hinvoke Sample.host (.text "topic") .absent).1⟩

end Ledger

end Plebiscite
