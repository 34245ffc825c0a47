import Plebiscite.Proofs.Identifier.Cycle
import Plebiscite.Proofs.Ledger.Acceptance
import Plebiscite.Proofs.Ledger.Refusal
import Plebiscite.Proofs.Ledger.RoundTrip

/-!
# Identifiers of a restored ledger

A restored ledger may have gaps in its numbering, identifiers beyond its ceiling, and counters that
stand anywhere.  As long as a counter was stored, the identifiers that are given out from then on
are numbers up to the ceiling that were never in use, the first free one each time, and they run
out only when all are in use.

## Main definitions

- `Ledger.Series`: votes and thresholds, which are numbered apart
- `Ledger.used`, `Ledger.last`: the identifiers of a series, and its counter
- `Ledger.Keeps`: what a command does that gives out no identifier
- `Ledger.Counting`: the ceiling and the counter are whole numbers

## Main results

- `Ledger.perform_kinds`, `Ledger.perform_cases`: what commands do to identifiers
- `Ledger.issued_after_restore`: the identifiers of a restored ledger
-/

namespace Plebiscite.Ledger

/-! ## Series of identifiers -/

/-- What is numbered. -/
inductive Series where
  | votes
  | thresholds
deriving DecidableEq, Repr

/-- The name under which the counter of a series is stored. -/
def Series.counter : Series → String
  | .votes => "voteId"
  | .thresholds => "thresholdId"

/-- The series that a command takes an identifier of. -/
def Command.series? : Command → Option Series
  | .registerThreshold _ _ => some .thresholds
  | .openVote _ => some .votes
  | .openPercentVote _ => some .votes
  | .invokeThreshold _ _ _ => some .votes
  | _ => none

/-- The identifier that was given out. -/
def Answer.issued? : Answer → Option Value
  | .registered entry => some entry.id
  | .opened id => some (.number id)
  | _ => none

/-- The identifiers that are in use. -/
def used (l : Ledger) : Series → List Value
  | .votes => l.votes.map fun v => .number v.id
  | .thresholds => l.register.entries.map (·.id)

/-- The last identifier that was given out. -/
def last (l : Ledger) : Series → Value
  | .votes => .ofNumber? l.lastVote
  | .thresholds => l.register.counter

/-- The search for the next identifier of a series. -/
def nextIn (l : Ledger) (series : Series) : Except Fault Value :=
  Identifier.nextOf (l.last series) (.number l.settings.ceiling) fun id => id ∈ l.used series

variable {l l' : Ledger} {env : Environment} {c : Command} {a : Answer} {series : Series}

theorem hasVote_eq (l : Ledger) (n : Number) :
    l.hasVote n = decide (.number n ∈ l.used .votes) := by
  rw [Bool.eq_iff_iff, decide_eq_true_eq, ← not_iff_not, Bool.not_eq_true, hasVote_eq_false, vote?,
    Keyed.find?_key_eq_none]
  simp [used]

theorem contains_eq (l : Ledger) (n : Number) :
    l.register.contains (.number n) = decide (.number n ∈ l.used .thresholds) := by
  rw [Bool.eq_iff_iff, decide_eq_true_eq, ← not_iff_not, Bool.not_eq_true,
    Register.contains_eq_false rfl]
  rfl

/-! ## What commands do to identifiers -/

/-- Only what is said about votes changes. -/
structure Keeps (l l' : Ledger) : Prop where
  settings : l'.settings = l.settings
  register : l'.register = l.register
  ids : l'.votes.map (·.id) = l.votes.map (·.id)
  lastVote : l'.lastVote = l.lastVote
  openVotes : l'.openVotes = l.openVotes

namespace Keeps

theorem trans {l₁ l₂ l₃ : Ledger} (h : Keeps l₁ l₂) (h' : Keeps l₂ l₃) : Keeps l₁ l₃ :=
  ⟨h'.settings.trans h.settings, h'.register.trans h.register, h'.ids.trans h.ids,
    h'.lastVote.trans h.lastVote, h'.openVotes.trans h.openVotes⟩

/-- Votes are updated in their places. -/
theorem updateVote (l : Ledger) (id : Number) {f : Vote → Vote} (hf : ∀ v, (f v).id = v.id) :
    Keeps l (l.updateVote id f) := by
  refine ⟨rfl, rfl, ?_, rfl, rfl⟩
  apply Keyed.map_key_eq
  intro v _
  split
  · exact hf v
  · rfl

theorem used_eq (h : Keeps l l') (series : Series) : l'.used series = l.used series := by
  cases series with
  | votes =>
    have hids := congrArg (List.map Value.number) h.ids
    rw [List.map_map, List.map_map] at hids
    exact hids
  | thresholds => rw [used, h.register, used]

theorem last_eq (h : Keeps l l') (series : Series) : l'.last series = l.last series := by
  cases series with
  | votes => rw [last, h.lastVote, last]
  | thresholds => rw [last, h.register, last]

end Keeps

theorem keeps_of_applyVote {id voter justification : Value} {stance : Stance} {receipt : Receipt}
    (h : applyVote env id voter stance justification l = .ok receipt l') : Keeps l l' := by
  simp only [applyVote, Step.bind_eq_ok, Step.get_eq_ok, Step.check_eq_ok] at h
  obtain ⟨_, _, ⟨rfl, rfl⟩, v, _, ⟨-, rfl⟩, now, _, ⟨-, rfl⟩, h⟩ := h
  cases hopen : v.poll.endedBy? now with
  | some ends => simp [hopen] at h
  | none =>
    cases hseat : v.ballot? voter.display with
    | none => simp [hopen, hseat] at h
    | some previous =>
      simp only [hopen, hseat, Step.bind_eq_ok, Step.check_eq_ok, writeBallot_eq_ok,
        writePoll_eq_ok, Step.pure_eq_ok] at h
      obtain ⟨ballot, _, ⟨-, rfl⟩, poll, _, ⟨-, rfl⟩, _, _, rfl, _, _, rfl, -, rfl⟩ := h
      have hballot : Keeps l (l.updateVote v.id fun w => w.setBallot voter.display ballot) :=
        Keeps.updateVote _ _ fun _ => rfl
      exact hballot.trans (Keeps.updateVote _ _ fun _ => rfl)

theorem keeps_of_extendVote {id additional : Value} {poll : Poll}
    (h : extendVote env id additional l = .ok poll l') : Keeps l l' := by
  simp only [extendVote, Step.bind_eq_ok, Step.get_eq_ok, Step.check_eq_ok, writePoll_eq_ok,
    Step.pure_eq_ok] at h
  obtain ⟨_, _, ⟨rfl, rfl⟩, v, _, ⟨-, rfl⟩, now, _, ⟨-, rfl⟩, candidate, _, ⟨-, rfl⟩, _, _, rfl,
    -, rfl⟩ := h
  exact Keeps.updateVote _ _ fun _ => rfl

/-- Ballots are reset one after the other, which gives out no identifier either. -/
theorem keeps_of_updateTopic {id topic : Value} {clear : Bool} {poll : Poll}
    (h : updateTopic id topic clear l = .ok poll l') : Keeps l l' := by
  simp only [updateTopic, Step.bind_eq_ok, Step.get_eq_ok, Step.check_eq_ok] at h
  obtain ⟨_, _, ⟨rfl, rfl⟩, v, _, ⟨-, rfl⟩, h⟩ := h
  cases clear with
  | false =>
    simp only [Bool.false_eq_true, if_false, Step.bind_eq_ok, writePoll_eq_ok,
      Step.pure_eq_ok] at h
    obtain ⟨_, _, rfl, -, rfl⟩ := h
    exact Keeps.updateVote _ _ fun _ => rfl
  | true =>
    simp only [if_true, Step.bind_eq_ok, forM_writeBallot, writePoll_eq_ok, Step.pure_eq_ok] at h
    obtain ⟨_, _, rfl, _, _, rfl, -, rfl⟩ := h
    exact (Keeps.updateVote _ _ fun _ => Vote.foldl_setBallot_id _ _ _).trans
      (Keeps.updateVote _ _ fun _ => rfl)

/-- Revising a vote gives out no identifier. -/
theorem keeps_of_perform (hc : c.series? = none) (h : perform env c l = .ok a l') :
    Keeps l l' ∧ a.issued? = none := by
  cases c with
  | applyVote id voter stance justification =>
    obtain ⟨receipt, hcast, rfl⟩ := Step.map_eq_ok.mp h
    exact ⟨keeps_of_applyVote hcast, rfl⟩
  | extendVote id additional =>
    obtain ⟨poll, hextend, rfl⟩ := Step.map_eq_ok.mp h
    exact ⟨keeps_of_extendVote hextend, rfl⟩
  | updateTopic id topic clear =>
    obtain ⟨poll, hupdate, rfl⟩ := Step.map_eq_ok.mp h
    exact ⟨keeps_of_updateTopic hupdate, rfl⟩
  | _ => cases hc

/-- What a command does that gives out an identifier: it counts on, and nothing else is numbered
anew. -/
structure Issues (l l' : Ledger) (series : Series) (id : Value) : Prop where
  settings : l'.settings = l.settings
  last : l'.last series = id
  others : ∀ other, other ≠ series → l'.last other = l.last other
  used : ∀ other v, v ∈ l'.used other ↔ v ∈ l.used other ∨ other = series ∧ v = id
  /-- A counter that was never set is no number. -/
  next : ∀ n, l.last series = .number n → l.nextIn series = .ok id

theorem last_votes {n : Number} : l.last .votes = .number n ↔ l.lastVote = some n := by
  cases h : l.lastVote <;> simp [last, h, Value.ofNumber?]

theorem nextIn_votes {n : Number} (h : l.lastVote = some n) :
    l.nextIn .votes = (Identifier.next l.lastVote l.settings.ceiling l.hasVote).map .number := by
  have hlast : l.last .votes = .number n := last_votes.mpr h
  have htaken : l.hasVote = fun k => decide (.number k ∈ l.used .votes) := funext (hasVote_eq l)
  rw [nextIn, hlast, Identifier.nextOf_number, h, htaken]

theorem nextIn_thresholds {n : Number} (h : l.register.counter = .number n) :
    l.nextIn .thresholds = Identifier.nextOf l.register.counter (.number l.settings.ceiling)
      l.register.contains := by
  have hlast : l.last .thresholds = .number n := h
  rw [nextIn, hlast, h, Identifier.nextOf_number, Identifier.nextOf_number]
  simp only [contains_eq]

theorem issues_addVote {o : Opening} {v : Vote} (h : Opens env l o v) :
    Issues l (l.addVote v) .votes (.number v.id) where
  settings := rfl
  last := rfl
  others other hother := by
    cases other with
    | votes => exact absurd rfl hother
    | thresholds => rfl
  used other w := by
    cases other with
    | votes =>
      have hperm := ((addVote_perm l v).map fun u => Value.number u.id).mem_iff (a := w)
      rw [List.map_cons, List.mem_cons] at hperm
      simp only [true_and]
      exact hperm.trans or_comm
    | thresholds => simp [used, addVote]
  next n hn := by
    rw [nextIn_votes (last_votes.mp hn), h.free]
    rfl

theorem issues_register {e : Electorate} {r : Rule} {entry : Registration} {register : Register}
    (h : l.register.register (.number l.settings.ceiling) e r = .ok (entry, register)) :
    Issues l { l with register } .thresholds entry.id := by
  simp only [Register.register, Checks.bind_eq_ok, Checks.pure_eq_ok, Prod.mk.injEq] at h
  obtain ⟨_, -, id, hid, rfl, rfl⟩ := h
  refine ⟨rfl, rfl, ?_, ?_, ?_⟩
  · intro other hother
    cases other with
    | votes => rfl
    | thresholds => exact absurd rfl hother
  · intro other v
    cases other with
    | votes => simp [used]
    | thresholds => simp [used, Register.insert]
  · intro n hn
    rw [nextIn_thresholds hn]
    exact hid

/-- An accepted command opens a vote, keeps a rule, or gives out no identifier. -/
theorem perform_kinds (h : perform env c l = .ok a l') :
    (∃ o v, l.opening? c = some o ∧ Opens env l o v ∧ a = .opened v.id ∧ l' = l.addVote v) ∨
    (∃ e rule entry register, c = .registerThreshold e rule ∧
      l.register.register (.number l.settings.ceiling) e rule = .ok (entry, register) ∧
      a = .registered entry ∧ l' = { l with register }) ∨
    c.series? = none ∧ a.issued? = none ∧ Keeps l l' := by
  cases ho : l.opening? c with
  | some o =>
    obtain ⟨v, hopens, rfl, rfl⟩ := (perform_eq_ok_of_opening ho).mp h
    exact .inl ⟨o, v, rfl, hopens, rfl, rfl⟩
  | none =>
    cases c with
    | registerThreshold e rule =>
      obtain ⟨entry, hentry, rfl⟩ := Step.map_eq_ok.mp h
      obtain ⟨register, hregister, rfl⟩ := registerThreshold_eq_ok.mp hentry
      exact .inr (.inl ⟨e, rule, entry, register, rfl, hregister, rfl, rfl⟩)
    | openVote request => cases ho
    | openPercentVote request => cases ho
    | invokeThreshold id topic duration =>
      obtain ⟨n, hinvoke, rfl⟩ := Step.map_eq_ok.mp h
      exact absurd hinvoke (invokeThreshold_ne_ok (Option.map_eq_none_iff.mp ho))
    | _ =>
      obtain ⟨hkeeps, hanswer⟩ := keeps_of_perform rfl h
      exact .inr (.inr ⟨rfl, hanswer, hkeeps⟩)

/-- A command that opens a vote takes an identifier of a vote. -/
theorem series_of_opening {o : Opening} (ho : l.opening? c = some o) :
    c.series? = some .votes := by
  cases c with
  | openVote | openPercentVote | invokeThreshold => rfl
  | _ => cases ho

/-- A command gives out one identifier of its series, or none at all. -/
theorem perform_cases (h : perform env c l = .ok a l') :
    (∃ series id, c.series? = some series ∧ a.issued? = some id ∧ Issues l l' series id) ∨
      c.series? = none ∧ a.issued? = none ∧ Keeps l l' := by
  rcases perform_kinds h with ⟨o, v, ho, hopens, rfl, rfl⟩ |
    ⟨e, rule, entry, register, rfl, hregister, rfl, rfl⟩ | hkeeps
  · exact .inl ⟨.votes, _, series_of_opening ho, rfl, issues_addVote hopens⟩
  · exact .inl ⟨.thresholds, _, rfl, rfl, issues_register hregister⟩
  · exact .inr hkeeps

/-- A command finds no identifier left only if the search for one does. -/
theorem nextIn_of_exhausted {f : Fault} (hn : ∀ series ∈ c.series?, ∃ n, l.last series = .number n)
    (h : perform env c l = .error f l') (hf : f.code = .idSpaceExhausted) :
    ∃ series, c.series? = some series ∧ l.nextIn series = .error f := by
  cases ho : l.opening? c with
  | some o =>
    have hnext := (perform_opening_failsOnly ho).of_error h hf
    have hc := series_of_opening ho
    obtain ⟨n, hlast⟩ := hn .votes hc
    refine ⟨.votes, hc, ?_⟩
    rw [nextIn_votes (last_votes.mp hlast), hnext]
    rfl
  | none =>
    by_cases hregister : ∃ e r, c = .registerThreshold e r
    · obtain ⟨e, r, rfl⟩ := hregister
      have hsearch := (registerThreshold_failsOnly (l := l) e r).andThen fun entry =>
        Step.succeeds_pure (Answer.registered entry)
      obtain ⟨n, hlast⟩ := hn .thresholds rfl
      refine ⟨.thresholds, rfl, ?_⟩
      rw [nextIn_thresholds hlast]
      exact hsearch.of_error h hf
    · have hother := perform_other_failsOnly env ho fun e r hc => hregister ⟨e, r, hc⟩
      exact absurd hf (hother.of_error h)

/-! ## Runs -/

/-- The ceiling and the counter of a series are whole numbers. -/
structure Counting (l : Ledger) (series : Series) (m : Nat) : Prop where
  ceiling : l.settings.ceiling = .ofInt m
  ceiling_pos : 1 ≤ m
  ceiling_le : m ≤ Number.maxSafe
  last : ∃ n : Nat, l.last series = .number (.ofInt n)

namespace Counting

variable {m : Nat}

/-- The search goes through the identifiers in cyclic order. -/
theorem nextIn_eq_ok (hl : l.Counting series m) {n : Nat} (hn : l.last series = .number (.ofInt n))
    {id : Value} : l.nextIn series = .ok id ↔
      ∃ k, (Identifier.cycle m n).find? (fun k => .number (.ofInt (k : Nat)) ∉ l.used series) =
        some k ∧ id = .number (.ofInt k) := by
  rw [nextIn, hn, hl.ceiling, Identifier.nextOf_number, Checks.exceptMap_eq_ok]
  simp only [Identifier.next_eq_ok hl.ceiling_le, ← decide_not]
  constructor
  · rintro ⟨_, ⟨k, hk, rfl⟩, rfl⟩
    exact ⟨k, hk, rfl⟩
  · rintro ⟨k, hk, rfl⟩
    exact ⟨_, ⟨k, hk, rfl⟩, rfl⟩

/-- The search fails only if everything is in use. -/
theorem used_of_nextIn (hl : l.Counting series m) {f : Fault} (h : l.nextIn series = .error f)
    {k : Nat} (hpos : 1 ≤ k) (hle : k ≤ m) : .number (.ofInt k) ∈ l.used series := by
  obtain ⟨n, hn⟩ := hl.last
  rw [nextIn, hn, hl.ceiling, Identifier.nextOf_number] at h
  cases hnext : Identifier.next (some (.ofInt n)) (.ofInt m)
      fun k => decide (.number k ∈ l.used series) with
  | ok id =>
    rw [hnext] at h
    cases h
  | error g =>
    obtain ⟨htaken, -⟩ := (Identifier.next_eq_error hl.ceiling_le).mp hnext
    exact of_decide_eq_true (htaken k hpos hle)

/-- What the search finds is an identifier, and it is not in use. -/
theorem isId_of_nextIn (hl : l.Counting series m) {id : Value} (h : l.nextIn series = .ok id) :
    Snapshot.IsId id ∧ id ∉ l.used series := by
  obtain ⟨n, hn⟩ := hl.last
  obtain ⟨k, hk, rfl⟩ := (hl.nextIn_eq_ok hn).mp h
  obtain ⟨hlow, hhigh⟩ := Identifier.mem_cycle.mp (List.mem_of_find?_eq_some hk)
  have hfree := List.find?_some hk
  exact ⟨⟨k, rfl, hlow, hhigh.trans hl.ceiling_le⟩, of_decide_eq_true hfree⟩

theorem perform (hl : l.Counting series m) (h : perform env c l = .ok a l') :
    l'.Counting series m := by
  obtain ⟨n, hn⟩ := hl.last
  rcases perform_cases h with ⟨issued, id, -, -, hissues⟩ | ⟨-, -, hkeeps⟩
  · refine ⟨hissues.settings ▸ hl.ceiling, hl.ceiling_pos, hl.ceiling_le, ?_⟩
    -- A counter moves only in its own series, and then to what the search found.
    by_cases heq : series = issued
    · subst heq
      obtain ⟨k, -, hk⟩ := (hl.nextIn_eq_ok hn).mp (hissues.next _ hn)
      exact ⟨k, hissues.last.trans hk⟩
    · exact ⟨n, (hissues.others series heq).trans hn⟩
  · exact ⟨hkeeps.settings ▸ hl.ceiling, hl.ceiling_pos, hl.ceiling_le, n,
      (hkeeps.last_eq series).trans hn⟩

end Counting

theorem Counting.serve {m : Nat} (hl : l.Counting series m) (calls : List Call) :
    (l.serve calls).Counting series m :=
  serve_induction (P := fun l => l.Counting series m) hl fun _ _ _ _ _ h hl => hl.perform h

/-- An identifier that is in use stays in use. -/
theorem mem_used_serve {v : Value} (hv : v ∈ l.used series) (calls : List Call) :
    v ∈ (l.serve calls).used series := by
  refine serve_induction (P := fun l => v ∈ l.used series) hv fun l call _ a l' h hv => ?_
  rcases perform_cases h with ⟨issued, id, -, -, hissues⟩ | ⟨-, -, hkeeps⟩
  · exact (hissues.used series v).mpr (.inl hv)
  · exact hkeeps.used_eq series ▸ hv

/-- A ledger is restored with the ceiling that the options name. -/
theorem ceiling_of_restore {o : Options} {s : Snapshot} (h : restore o s = .ok l) :
    ∃ m : Nat, 1 ≤ m ∧ m ≤ Number.maxSafe ∧ l.settings.ceiling = .ofInt m ∧
      o.settings.map (·.ceiling) = .ok (.ofInt m) := by
  obtain ⟨r, hr, rfl⟩ := restore_eq_ok.mp h
  have hsettings := hr.settings
  simp only [Options.settings, Checks.bind_eq_ok, Checks.pure_eq_ok] at hsettings
  obtain ⟨ceiling, hread, heq⟩ := hsettings
  obtain ⟨m, rfl, hpos, hle⟩ := Identifier.exists_of_readCeiling hread
  have hceiling : r.settings.ceiling = .ofInt m := by rw [← heq]
  refine ⟨m, hpos, hle, hceiling, ?_⟩
  rw [hr.settings, ← hceiling]
  rfl

/-- A counter that was stored is a count. -/
theorem isCount_counterOf {o : Options} {s : Snapshot} (h : restore o s = .ok l) {name : String}
    (hname : (s.counters.lookup name).isSome) : Snapshot.IsCount (counterOf s name) := by
  obtain ⟨r, hr, -⟩ := restore_eq_ok.mp h
  -- The counter that is looked up is one of those that were checked.
  obtain ⟨v, hv⟩ := Option.isSome_iff_exists.mp hname
  obtain ⟨before, after, hmem, -⟩ := List.lookup_eq_some_iff.mp hv
  have hcheck := checkCounter_eq_ok.mp (hr.counters (name, v) (by simp [hmem]))
  rw [counterOf, hv]
  exact hcheck

theorem last_of_restore {o : Options} {s : Snapshot} (h : restore o s = .ok l)
    (hseries : (s.counters.lookup series.counter).isSome) : Snapshot.IsCount (l.last series) := by
  obtain ⟨n, hn, hle⟩ := isCount_counterOf h hseries
  obtain ⟨r, -, rfl⟩ := restore_eq_ok.mp h
  refine ⟨n, ?_, hle⟩
  cases series with
  | votes => exact last_votes.mpr (congrArg Value.number? hn)
  | thresholds => exact hn

/-- In a ledger that was restored, an identifier that is given out is the first free one in cyclic
order after its counter, and it was never in use; and no identifier is left only if all are in
use.  This takes a counter that was stored. -/
theorem issued_after_restore {o : Options} {s : Snapshot} (h : restore o s = .ok l)
    (hcounter : ∀ series ∈ c.series?, (s.counters.lookup series.counter).isSome)
    (calls : List Call) :
    ∃ m : Nat, 1 ≤ m ∧ o.settings.map (·.ceiling) = .ok (.ofInt m) ∧
      (∀ a l', perform env c (l.serve calls) = .ok a l' → ∀ series ∈ c.series?, ∃ n k : Nat,
        (l.serve calls).last series = .number (.ofInt n) ∧
        (Identifier.cycle m n).find?
          (fun k => .number (.ofInt k) ∉ (l.serve calls).used series) = some k ∧
        1 ≤ k ∧ k ≤ m ∧ a.issued? = some (.number (.ofInt k)) ∧
        ∀ earlier, earlier <+: calls → .number (.ofInt k) ∉ (l.serve earlier).used series) ∧
      (∀ f l', perform env c (l.serve calls) = .error f l' → f.code = .idSpaceExhausted →
        ∃ series ∈ c.series?, ∀ k : Nat, 1 ≤ k → k ≤ m →
          .number (.ofInt k) ∈ (l.serve calls).used series) := by
  obtain ⟨m, hpos, hle, hceiling, hoption⟩ := ceiling_of_restore h
  have hcounting : ∀ series ∈ c.series?, (l.serve calls).Counting series m := by
    intro series hseries
    obtain ⟨n, hn, -⟩ := last_of_restore h (hcounter series hseries)
    exact Counting.serve ⟨hceiling, hpos, hle, n, hn⟩ calls
  refine ⟨m, hpos, hoption, ?_, ?_⟩
  · intro a l' hperform series hseries
    have hnow := hcounting series hseries
    obtain ⟨n, hn⟩ := hnow.last
    rcases perform_cases hperform with ⟨issued, id, hissued, hid, hissues⟩ | ⟨hnone, -⟩
    · obtain rfl : issued = series := Option.some.inj (hissued.symm.trans hseries)
      obtain ⟨k, hk, rfl⟩ := (hnow.nextIn_eq_ok hn).mp (hissues.next _ hn)
      have hfree := List.find?_some hk
      obtain ⟨hlow, hhigh⟩ := Identifier.mem_cycle.mp (List.mem_of_find?_eq_some hk)
      refine ⟨n, k, hn, hk, hlow, hhigh, hid, ?_⟩
      rintro earlier ⟨later, rfl⟩ hused
      rw [serve_append] at hfree
      exact of_decide_eq_true hfree (mem_used_serve hused later)
    · cases hnone.symm.trans hseries
  · intro f l' hperform hf
    have hlast : ∀ series ∈ c.series?, ∃ n, (l.serve calls).last series = .number n := by
      intro series hseries
      obtain ⟨n, hn⟩ := (hcounting series hseries).last
      exact ⟨_, hn⟩
    obtain ⟨series, hseries, hnext⟩ := nextIn_of_exhausted hlast hperform hf
    refine ⟨series, hseries, fun k hlow hhigh => ?_⟩
    exact (hcounting series hseries).used_of_nextIn hnext hlow hhigh

/-! ## Counters that were stored, or not -/

namespace Sample

/-- A snapshot of nothing but counters. -/
def countersOnly (counters : List (String × Value)) : Snapshot :=
  ⟨.number 1, counters, [], [], []⟩

/-- The last vote has an identifier beyond the ceiling. -/
def beyond : Snapshot :=
  countersOnly [("voteId", .number 12), ("thresholdId", .number 0), ("openVotes", .number 0)]

/-- The ledger before anything happens, but for its counters. -/
def counted (lastVote openVotes : Counter) : Ledger :=
  { start with lastVote, openVotes }

theorem restore_beyond : restore options beyond = .ok (counted (some 12) (some 0)) := by
  rfl

end Sample

/-- A counter beyond the ceiling of ten leads back to an identifier up to ten. -/
theorem issued_after_restore_beyond :
    ∃ l a l', restore Sample.options Sample.beyond = .ok l ∧
      perform Sample.host (.openPercentVote Sample.request) l = .ok a l' ∧
      ∃ k : Nat, 1 ≤ k ∧ k ≤ 10 ∧ a.issued? = some (.number (.ofInt k)) := by
  have hperform := @Sample.perform_request_of_next (Sample.counted (some 12) (some 0)) 1 (by decide +kernel)
  obtain ⟨m, -, hceiling, hissued, -⟩ := @issued_after_restore _ Sample.host
    (.openPercentVote Sample.request) _ _ Sample.restore_beyond (by decide) []
  have hten : Sample.options.settings.map (·.ceiling) = .ok (.ofInt (10 : Nat)) := by
    rfl
  obtain rfl : m = 10 := by
    have hm := Number.ofInt_inj.mp (Except.ok.inj (hceiling.symm.trans hten))
    omega
  obtain ⟨n, k, -, -, hlow, hhigh, hid, -⟩ := hissued _ _ hperform .votes rfl
  exact ⟨_, _, _, Sample.restore_beyond, hperform, k, hlow, hhigh, hid⟩

/-- Without a counter, the first vote is given no number at all. -/
theorem opened_nan :
    ∃ l l', restore Sample.options (Sample.countersOnly
        [("thresholdId", .number 0), ("openVotes", .number 0)]) = .ok l ∧
      perform Sample.host (.openPercentVote Sample.request) l = .ok (.opened .nan) l' ∧
      ∀ k : Nat, Number.nan ≠ .ofInt k := by
  have hrestore : restore Sample.options (Sample.countersOnly
      [("thresholdId", .number 0), ("openVotes", .number 0)]) = .ok (Sample.counted none (some 0)) := by
    rfl
  refine ⟨_, _, hrestore, Sample.perform_request_of_next (by decide +kernel), ?_⟩
  intro k h
  cases h

end Plebiscite.Ledger
