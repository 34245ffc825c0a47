import Plebiscite.Proofs.Ledger.Thresholds

/-!
# Thresholds that are registered and thresholds that are read

A rule is checked when it is registered, and a threshold is checked as a whole when it is read out
of a snapshot.  The identifiers that are given out and the rules that are registered pass the second
check too, and come back as they were.  The electorates do except for one thing: nobody asks for the
name of the organization when a threshold is registered, but one is asked for when it is read.  So a
ledger that can be restored cannot be restored any more, once a threshold is registered, exactly if
its organization has no name.

## Main definitions

- `Register.Reachable`: registers as they come about
- `Registration.Named`: a threshold that was registered for an organization of some name

## Main results

- `Register.Reachable.named`: what is known of a threshold that was registered
- `Registration.Named.readRegistration_iff`: when it is read back as it was
- `Ledger.snapshot_valid_insert_iff`: when a ledger with one more threshold can be restored
- `Ledger.register_readable_iff`: all of it together
-/

namespace Plebiscite

open Snapshot

/-! ## Electorates -/

namespace Electorate

variable {e : Electorate} {mode : MintMode} {org : String}

/-- A description that names a mode is an object, and its copy is the same. -/
theorem copy_of_kind (h : e.kind = .text mode.text) : e.copy = e := by
  obtain ⟨description⟩ := e
  cases description with
  | object fields => rfl
  | _ => cases h

/-- An electorate passes if its organization has a name. -/
theorem isElectorate_iff_org (hkind : e.kind = .text mode.text) (horg : e.org = .text org) :
    Guard.isElectorate e.description = true ↔ org ≠ "" := by
  have hknown : mode ∈ MintMode.all := by cases mode <;> decide
  rw [isElectorate_iff]
  constructor
  · rintro ⟨-, named, hnamed, hne⟩
    rw [horg] at hnamed
    exact Value.text.inj hnamed ▸ hne
  · intro hne
    exact ⟨⟨mode, hknown, hkind⟩, org, horg, hne⟩

end Electorate

/-! ## Registers -/

namespace Register

variable {ceiling : Value} {r register : Register} {e : Electorate} {rule : Rule}
  {entry : Registration}

/-- The registers that come about under a ceiling: rules are registered, entries are restored, and
the counter is set to a count. -/
inductive Reachable (ceiling : Value) : Register → Prop
  | empty : Reachable ceiling .empty
  | registered {r register : Register} {e : Electorate} {rule : Rule} {entry : Registration}
      (hr : Reachable ceiling r) (h : r.register ceiling e rule = .ok (entry, register)) :
      Reachable ceiling register
  | restored {r register : Register} {id : Value} {e : Electorate} {rule : Except Fault Rule}
      (hr : Reachable ceiling r) (h : r.restore id e rule = .ok register) :
      Reachable ceiling register
  | counted {r : Register} {v : Value} (hr : Reachable ceiling r) (hv : IsCount v) :
      Reachable ceiling { r with counter := v }

/-- A registration is a rule that passes under an identifier that the search found. -/
theorem register_eq_ok :
    r.register ceiling e rule = .ok (entry, register) ↔
      rule.validate = .ok () ∧ Identifier.nextOf r.counter ceiling r.contains = .ok entry.id ∧
        entry = ⟨entry.id, e.copy, rule⟩ ∧ register = ⟨entry.id, r.entries ++ [entry]⟩ := by
  simp only [Register.register, Checks.bind_eq_ok, Checks.pure_eq_ok, Prod.mk.injEq]
  constructor
  · rintro ⟨_, hvalid, id, hid, rfl, rfl⟩
    exact ⟨hvalid, hid, rfl, rfl⟩
  · rintro ⟨hvalid, hid, hentry, rfl⟩
    exact ⟨(), hvalid, entry.id, hid, hentry.symm, by rw [← hentry]; rfl⟩

/-- Counting on from a count gives an identifier that is free. -/
theorem isId_of_nextOf {counter id : Value} {isTaken : Value → Bool} (hcounter : IsCount counter)
    (hceiling : IsId ceiling) (h : Identifier.nextOf counter ceiling isTaken = .ok id) :
    IsId id ∧ isTaken id = false := by
  obtain ⟨n, rfl, -⟩ := hcounter
  obtain ⟨m, rfl, -, hm⟩ := hceiling
  rw [Identifier.nextOf_number, Checks.exceptMap_eq_ok] at h
  obtain ⟨_, hnext, rfl⟩ := h
  -- The search goes once around the identifiers, wherever the counter stands.
  obtain ⟨k, hk, rfl⟩ := (Identifier.next_eq_ok hm).mp hnext
  obtain ⟨hpos, hle⟩ := Identifier.mem_cycle.mp (List.mem_of_find?_eq_some hk)
  exact ⟨⟨k, rfl, hpos, hle.trans hm⟩, by simpa using List.find?_some hk⟩

/-- The counter of a register is a count. -/
theorem Reachable.isCount_counter (hceiling : IsId ceiling) (hr : r.Reachable ceiling) :
    IsCount r.counter := by
  -- Entries that are restored may be anything: the next identifier depends on the counter, and only
  -- a registration moves it by itself.
  induction hr with
  | empty => exact ⟨0, rfl, by decide⟩
  | registered _ h ih =>
    obtain ⟨-, hid, -, rfl⟩ := register_eq_ok.mp h
    exact (isId_of_nextOf ih hceiling hid).1.isCount
  | restored _ h ih =>
    simp only [Register.restore, Checks.bind_eq_ok, Checks.ite_throw_bind_eq_ok,
      Checks.pure_eq_ok] at h
    obtain ⟨-, _, -, _, -, rfl⟩ := h
    exact ih
  | counted _ hv => exact hv

end Register

/-- A threshold with its bounds alone. -/
def Registration.bare (entry : Registration) : Registration :=
  { entry with rule := entry.rule.bare }

/-- A threshold that was registered for an organization with some name, which may be empty. -/
structure Registration.Named (entry : Registration) (org : String) : Prop where
  id : IsId entry.id
  mode : ∃ mode : MintMode, entry.electorate.kind = .text mode.text
  org : entry.electorate.org = .text org
  valid : entry.rule.validate = .ok ()

namespace Registration.Named

variable {entry : Registration} {org : String}

theorem isStructured_id (h : entry.Named org) : entry.id.isStructured = false := by
  obtain ⟨k, hk, -⟩ := h.id
  rw [hk]
  rfl

theorem copied (h : entry.Named org) : entry.electorate.copy = entry.electorate := by
  obtain ⟨mode, hkind⟩ := h.mode
  exact Electorate.copy_of_kind hkind

/-- What is stored of it is valid if its organization has a name. -/
theorem valid_iff (h : entry.Named org) : (ofRegistration entry).Valid ↔ org ≠ "" := by
  obtain ⟨mode, hkind⟩ := h.mode
  rw [← Electorate.isElectorate_iff_org hkind h.org, ← h.copied]
  constructor
  · intro hvalid
    exact isElectorate_iff.mpr ⟨hvalid.mode, hvalid.org⟩
  · intro hmember
    exact Ledger.valid_ofRegistration ⟨h.id, hmember, h.valid⟩

/-- What is read of it, if it is read at all. -/
theorem eq_of_readRegistration (h : entry.Named org) {read : Registration}
    (hread : readRegistration (ofRegistration entry) = .ok read) : read = entry.bare := by
  have hvalid := exists_readRegistration.mp ⟨read, hread⟩
  obtain ⟨n, hn⟩ := h.id.exists_number
  rw [readRegistration_ofRegistration hn (isId_number.mp (hn ▸ h.id))
    (isElectorate_iff.mpr ⟨hvalid.mode, hvalid.org⟩) h.valid, h.copied] at hread
  cases hread
  rfl

/-- It is read back with its bounds alone if its organization has a name. -/
theorem readRegistration_iff (h : entry.Named org) :
    readRegistration (ofRegistration entry) = .ok entry.bare ↔ org ≠ "" := by
  rw [← h.valid_iff, ← exists_readRegistration]
  constructor
  · exact fun hread => ⟨_, hread⟩
  · rintro ⟨read, hread⟩
    rw [hread, h.eq_of_readRegistration hread]

/-- Otherwise it is refused as part of an invalid snapshot. -/
theorem refused (h : entry.Named "") : ∃ f,
    readRegistration (ofRegistration entry) = .error f ∧ f.code = .invalidSnapshot := by
  cases hread : readRegistration (ofRegistration entry) with
  | ok read => exact absurd rfl (h.valid_iff.mp (exists_readRegistration.mp ⟨read, hread⟩))
  | error f => exact ⟨f, rfl, (readRegistration_blames _).of_error hread⟩

/-- A register in which its identifier is free takes what is read. -/
theorem restoreThreshold_iff (h : entry.Named org) {other : Register}
    (hfree : other.contains entry.id = false) :
    Ledger.restoreThreshold other (ofRegistration entry) = .ok (other.insert entry.bare) ↔
      org ≠ "" := by
  rw [Ledger.restoreThreshold_eq_ok]
  constructor
  · rintro ⟨read, hread, -, -⟩
    exact h.valid_iff.mp (Ledger.exists_readsThreshold.mp ⟨read, hread⟩)
  · intro hname
    have hread := h.readRegistration_iff.mpr hname
    -- The electorate is copied once more when the threshold is kept.
    have hcopied : entry.bare.electorate.copy = entry.bare.electorate := h.copied
    refine ⟨entry.bare, ⟨entry.bare, hread, (readRegistration_eq_ok hread).2.2, ?_⟩, ?_, rfl⟩
    · rw [hcopied]
    · exact (Register.contains_eq_false h.isStructured_id).mp hfree

end Registration.Named

/-- What is known of a threshold that was registered, whatever was registered and restored
before. -/
theorem Register.Reachable.named {ceiling : Value} {r register : Register} {e : Electorate}
    {mode : MintMode} {org : String} {rule : Rule} {entry : Registration}
    (hceiling : IsId ceiling) (hr : r.Reachable ceiling) (hkind : e.kind = .text mode.text)
    (horg : e.org = .text org) (h : r.register ceiling e rule = .ok (entry, register)) :
    entry.Named org ∧ r.contains entry.id = false := by
  obtain ⟨hvalid, hid, hentry, -⟩ := register_eq_ok.mp h
  obtain ⟨hid, hfree⟩ := isId_of_nextOf (hr.isCount_counter hceiling) hceiling hid
  have helectorate : entry.electorate = e := by
    rw [hentry]
    exact Electorate.copy_of_kind hkind
  have hkept : entry.rule = rule := by rw [hentry]
  exact ⟨⟨hid, ⟨mode, helectorate ▸ hkind⟩, helectorate ▸ horg, hkept ▸ hvalid⟩, hfree⟩

namespace Ledger

variable {l l' : Ledger} {entry : Registration} {o : Options}

/-! ## Registers of ledgers -/

/-- Reading stored thresholds restores one after the other. -/
theorem reachable_foldlM {ceiling : Value} {r register : Register} {es : List ThresholdEntry}
    (hr : r.Reachable ceiling) (h : es.foldlM restoreThreshold r = .ok register) :
    register.Reachable ceiling := by
  induction es generalizing r with
  | nil =>
    cases h
    exact hr
  | cons e es ih =>
    rw [List.foldlM_cons, Checks.bind_eq_ok] at h
    obtain ⟨next, hnext, hrest⟩ := h
    simp only [restoreThreshold, Checks.bind_eq_ok] at hnext
    obtain ⟨_, -, hrestore⟩ := hnext
    exact ih (hr.restored hrestore) hrest

/-- A restored register is one that comes about, if its counter was stored. -/
theorem reachable_of_restore {s : Snapshot} (h : restore o s = .ok l)
    (hcounter : (s.counters.lookup "thresholdId").isSome) :
    l.register.Reachable (.number l.settings.ceiling) := by
  have hcount := isCount_counterOf h hcounter
  obtain ⟨r, hr, rfl⟩ := restore_eq_ok.mp h
  have hfold : s.thresholds.foldlM restoreThreshold .empty = .ok ⟨.number 0, r.entries⟩ :=
    foldlM_restoreThreshold.mpr ⟨_, hr.entries, hr.entries_distinct, rfl⟩
  exact (reachable_foldlM .empty hfold).counted hcount

theorem reachable_of_perform {env : Environment} {c : Command} {a : Answer}
    (hl : l.register.Reachable (.number l.settings.ceiling)) (h : perform env c l = .ok a l') :
    l'.register.Reachable (.number l'.settings.ceiling) := by
  have hsettings : l'.settings = l.settings := by
    rcases perform_cases h with ⟨_, _, -, -, hissues⟩ | ⟨-, -, hkeeps⟩
    · exact hissues.settings
    · exact hkeeps.settings
  rw [hsettings]
  rcases register_of_perform h with hsame | ⟨e, rule, entry, hregister⟩
  · rw [hsame]
    exact hl
  · exact hl.registered hregister

theorem reachable_move (hl : l.register.Reachable (.number l.settings.ceiling)) (m : Move) :
    (l.move m).register.Reachable (.number (l.move m).settings.ceiling) := by
  rcases l.move_outcomes m with h | ⟨env, c, a, -, h⟩ | ⟨o, -, h⟩
  · rw [h]
    exact hl
  · exact reachable_of_perform hl h
  · exact reachable_of_restore h rfl

/-- From nothing or from any snapshot with a counter of thresholds, the register of a ledger is one
that comes about, and its ceiling is an identifier. -/
theorem reachable_register {start : Ledger}
    (hstart : (∃ o, Ledger.empty o = .ok start) ∨
      ∃ o s, restore o s = .ok start ∧ (s.counters.lookup "thresholdId").isSome)
    (moves : List Move) :
    IsId (.number (start.run moves).settings.ceiling) ∧
      (start.run moves).register.Reachable (.number (start.run moves).settings.ceiling) := by
  have hbegins : start.Keeping ∧ start.register.Reachable (.number start.settings.ceiling) := by
    rcases hstart with ⟨o, hempty⟩ | ⟨o, s, hrestore, hcounter⟩
    · refine ⟨.of_empty hempty, ?_⟩
      obtain ⟨settings, -, rfl⟩ := Checks.exceptMap_eq_ok.mp hempty
      exact .empty
    · exact ⟨.of_restore hrestore hcounter, reachable_of_restore hrestore hcounter⟩
  -- Opening again may set another ceiling, so the one that counts is that of the last ledger.
  obtain ⟨m, hm⟩ := (hbegins.1.run moves).1.counting
  refine ⟨⟨m, congrArg Value.number hm.ceiling, hm.ceiling_pos, hm.ceiling_le⟩, ?_⟩
  exact run_induction (P := fun l => l.register.Reachable (.number l.settings.ceiling)) hbegins.2
    fun _ m _ hl => reachable_move hl m

/-! ## Ledgers with one more threshold -/

/-- Thresholds are stored under identifiers of their own if they are kept under such. -/
theorem nodup_stored_ids (r : Register) :
    ((r.listed.map ofRegistration).map (·.id)).Nodup ↔ (r.entries.map (·.id)).Nodup := by
  rw [List.map_map]
  exact ((listed_perm r).map (·.id)).nodup_iff

/-- A ledger that can be restored can be restored with one more threshold, under an identifier that
was free, exactly if that threshold can be read. -/
theorem snapshot_valid_insert_iff (h : l.snapshot.Valid) (hid : IsId entry.id)
    (hfree : entry.id ∉ l.register.entries.map (·.id)) :
    ({ l with register := ⟨entry.id, l.register.entries ++ [entry]⟩ } : Ledger).snapshot.Valid ↔
      (ofRegistration entry).Valid := by
  have hstored : ∀ {r : Register} {other : Registration}, other ∈ r.entries →
      ofRegistration other ∈ r.listed.map ofRegistration :=
    fun hother => List.mem_map_of_mem ((listed_perm _).mem_iff.mpr hother)
  constructor
  · intro hmore
    exact hmore.thresholds _ (hstored (List.mem_append_right _ (List.mem_singleton_self _)))
  · intro hentry
    -- Votes and records are stored as before, and so are the other two counters.
    refine { h with version := rfl, counters := ?_, thresholds := ?_, thresholds_distinct := ?_ }
    · obtain ⟨hlast, hopen⟩ := (counters_snapshot l).mp h.counters
      refine (counters_snapshot _).mpr ⟨fun series => ?_, hopen⟩
      cases series with
      | votes => exact hlast .votes
      | thresholds => exact hid.isCount
    · intro stored hmem
      obtain ⟨other, hother, rfl⟩ := List.mem_map.mp hmem
      rcases List.mem_append.mp ((listed_perm _).mem_iff.mp hother) with hother | hother
      · exact h.thresholds _ (hstored hother)
      · rw [List.mem_singleton.mp hother]
        exact hentry
    · refine (nodup_stored_ids _).mpr ?_
      rw [List.map_append, List.map_singleton]
      exact ((nodup_stored_ids _).mp h.thresholds_distinct).append (List.nodup_singleton _)
        (by simpa using hfree)

/-- A threshold that is registered, for an organization of any name and in any register that comes
about, is stored and read back as it was, with its bounds alone, exactly if the name is not empty,
and otherwise refused.  Every register in which its identifier is free takes what is read exactly
then.  And a ledger with this register, if it can be restored before the registration, can be
restored after it exactly then. -/
theorem register_readable_iff {ceiling : Number} {r register : Register} {e : Electorate}
    {mode : MintMode} {org : String} {rule : Rule} (hceiling : IsId (.number ceiling))
    (hr : r.Reachable (.number ceiling)) (hkind : e.kind = .text mode.text)
    (horg : e.org = .text org)
    (h : r.register (.number ceiling) e rule = .ok (entry, register)) :
    (rule.bare = rule → entry.bare = entry) ∧
    (readRegistration (ofRegistration entry) = .ok entry.bare ↔ org ≠ "") ∧
    (org = "" → ∃ f, readRegistration (ofRegistration entry) = .error f ∧
      f.code = .invalidSnapshot) ∧
    (∀ other : Register, other.contains entry.id = false →
      (restoreThreshold other (ofRegistration entry) = .ok (other.insert entry.bare) ↔
        org ≠ "")) ∧
    ∀ l env o, l.register = r → l.settings.ceiling = ceiling →
      (∃ restored, restore o l.snapshot = .ok restored) →
      perform env (.registerThreshold e rule) l = .ok (.registered entry) { l with register } ∧
      ((∃ restored, restore o ({ l with register } : Ledger).snapshot = .ok restored) ↔
        org ≠ "") := by
  obtain ⟨hnamed, hfree⟩ := hr.named hceiling hkind horg h
  obtain ⟨-, -, hentry, hregister⟩ := Register.register_eq_ok.mp h
  refine ⟨?_, hnamed.readRegistration_iff, ?_, fun other => hnamed.restoreThreshold_iff, ?_⟩
  · intro hbare
    rw [hentry, Registration.bare, hbare]
  · rintro rfl
    exact hnamed.refused
  · rintro l env o rfl rfl ⟨restored, hrestored⟩
    -- That the snapshot was accepted before says that all that is not new in it is valid.
    obtain ⟨_, hof, -⟩ := restore_eq_ok.mp hrestored
    have hfresh := (Register.contains_eq_false hnamed.isStructured_id).mp hfree
    refine ⟨Step.map_eq_ok.mpr ⟨_, registerThreshold_eq_ok.mpr ⟨_, h, rfl⟩, rfl⟩, ?_⟩
    rw [exists_restore_iff hof.settings, ← hnamed.valid_iff, hregister]
    exact snapshot_valid_insert_iff hof.valid hnamed.id hfresh

theorem Sample.settings_options : Sample.options.settings = .ok ⟨10, .keepBallots⟩ :=
  rfl

/-- The second threshold of a ledger that was restored is read back, and the ledger can be restored
with it. -/
theorem register_readable_wrapping :
    ∃ register,
      IsId (.number 10) ∧ Sample.wrapped.register.Reachable (.number 10) ∧
      Sample.wrapped.register.register (.number 10) Sample.twoThirds.electorate
        Sample.twoThirds.rule = .ok (Sample.twoThirds, register) ∧
      readRegistration (ofRegistration Sample.twoThirds) = .ok Sample.twoThirds ∧
      (∃ restored, restore Sample.options Sample.wrapped.snapshot = .ok restored) ∧
      ∃ restored, restore Sample.options ({ Sample.wrapped with register } : Ledger).snapshot =
        .ok restored := by
  have hregister : Sample.wrapped.register.register (.number 10) Sample.twoThirds.electorate
      Sample.twoThirds.rule = .ok (Sample.twoThirds,
        ⟨.number 2, Sample.wrapped.register.entries ++ [Sample.twoThirds]⟩) := by
    decide +kernel
  obtain ⟨hceiling, hreachable⟩ := reachable_register
    (.inr ⟨_, _, Sample.restore_wrapping, by decide⟩) []
  have hrestorable : Sample.wrapped.Restorable :=
    restorable_of_restore Sample.restore_wrapping fun series => by cases series <;> decide
  have hbefore : ∃ restored, restore Sample.options Sample.wrapped.snapshot = .ok restored :=
    (exists_restore_snapshot_iff hrestorable Sample.settings_options).mpr
      ⟨0, rfl, Nat.zero_le _⟩
  obtain ⟨hbare, hread, -, -, hledger⟩ := register_readable_iff hceiling hreachable
    (show Sample.twoThirds.electorate.kind = .text MintMode.equal.text from rfl)
    (show Sample.twoThirds.electorate.org = .text "org" from rfl) hregister
  obtain ⟨-, hafter⟩ := hledger Sample.wrapped Sample.host Sample.options rfl rfl hbefore
  refine ⟨_, hceiling, hreachable, hregister, ?_, hbefore, hafter.mpr (by decide)⟩
  rw [hread.mpr (by decide), hbare rfl]

namespace Sample

/-- A threshold of an organization without a name. -/
def nameless : Registration :=
  ⟨.number 1, .of .equal "", .signal ⟨1, none, []⟩⟩

theorem nameless_named : nameless.Named "" :=
  ⟨⟨1, rfl, by decide, by decide⟩, ⟨.equal, rfl⟩, rfl, by decide +kernel⟩

end Sample

/-- In a new ledger, which can be restored, a rule for an organization without a name is registered.
What is stored of it is refused, and so is what the ledger stores from then on. -/
theorem not_restored_with_nameless :
    ∃ l, Ledger.empty Sample.options = .ok Sample.start ∧
      (∃ restored, restore Sample.options Sample.start.snapshot = .ok restored) ∧
      perform Sample.host (.registerThreshold Sample.nameless.electorate Sample.nameless.rule)
        Sample.start = .ok (.registered Sample.nameless) l ∧
      (∃ f, readRegistration (ofRegistration Sample.nameless) = .error f) ∧
      ¬ ∃ restored, restore Sample.options l.snapshot = .ok restored := by
  have hregister : Sample.start.register.register (.number 10) Sample.nameless.electorate
      Sample.nameless.rule = .ok (Sample.nameless, ⟨.number 1, [Sample.nameless]⟩) := by
    decide +kernel
  have hperform : perform Sample.host
      (.registerThreshold Sample.nameless.electorate Sample.nameless.rule) Sample.start =
        .ok (.registered Sample.nameless) _ :=
    Step.map_eq_ok.mpr ⟨_, registerThreshold_eq_ok.mpr ⟨_, hregister, rfl⟩, rfl⟩
  obtain ⟨f, hf, -⟩ := Sample.nameless_named.refused
  have hbefore : ∃ restored, restore Sample.options Sample.start.snapshot = .ok restored :=
    (exists_restore_snapshot_iff (restorable_of_empty Sample.empty_options)
      Sample.settings_options).mpr ⟨0, rfl, Nat.zero_le _⟩
  refine ⟨_, Sample.empty_options, hbefore, hperform, ⟨f, hf⟩, ?_⟩
  rintro ⟨restored, hrestored⟩
  obtain ⟨_, hof, -⟩ := restore_eq_ok.mp hrestored
  have hvalid := hof.valid.thresholds (ofRegistration Sample.nameless)
    (List.mem_map_of_mem ((listed_perm _).mem_iff.mpr (List.mem_singleton_self _)))
  exact Sample.nameless_named.valid_iff.mp hvalid rfl

end Ledger

end Plebiscite
