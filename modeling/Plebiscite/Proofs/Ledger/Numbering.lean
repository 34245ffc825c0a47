import Plebiscite.Proofs.Identifier
import Plebiscite.Proofs.Ledger.Run

/-!
# Numbering without gaps

Nothing is ever removed from a ledger.  So as long as it is only called, its votes are numbered from
one on without gaps, the counters hold how many there are, and likewise for thresholds.  When the
last identifier is given out, opening fails for good.

## Main definitions

- `Ledger.Gapless`: everything is numbered without gaps
- `Ledger.Numbered`: and up to a ceiling

## Main results

- `Ledger.Gapless.opened`, `Ledger.Gapless.registered`: what takes the next number
- `Ledger.Numbered.accepts`: accepted commands keep to the numbering
-/

namespace Plebiscite.Ledger

/-- The numbers from one to `n`. -/
def upTo (n : Nat) : List Number :=
  (List.range n).map fun k => .ofInt ((k + 1 : Nat) : Int)

/-- `n` votes and `k` thresholds are numbered from one on, and the counters say how far. -/
structure Gapless (l : Ledger) (n k : Nat) : Prop where
  ids : l.votes.map (·.id) = upTo n
  lastVote : l.lastVote = some (.ofInt n)
  openVotes : l.openVotes = some (.ofInt n)
  entries : l.register.entries.map (·.id) = (upTo k).map .number
  counter : l.register.counter = .number (.ofInt k)

/-- Up to a ceiling `m`, `n` votes and `k` thresholds are numbered from one on, and the counters say
how far. -/
structure Numbered (l : Ledger) (m n k : Nat) : Prop where
  ceiling : l.settings.ceiling = .ofInt m
  ceiling_pos : 1 ≤ m
  ceiling_le : m ≤ Number.maxSafe
  votes_le : n ≤ m
  thresholds_le : k ≤ m
  ids : l.votes.map (·.id) = upTo n
  lastVote : l.lastVote = some (.ofInt n)
  openVotes : l.openVotes = some (.ofInt n)
  entries : l.register.entries.map (·.id) = (upTo k).map .number
  counter : l.register.counter = .number (.ofInt k)

theorem upTo_succ (n : Nat) : upTo (n + 1) = upTo n ++ [.ofInt ((n + 1 : Nat) : Int)] := by
  simp [upTo, List.range_succ]

theorem mem_upTo {n : Nat} {id : Number} :
    id ∈ upTo n ↔ ∃ k : Nat, id = .ofInt k ∧ 1 ≤ k ∧ k ≤ n := by
  simp only [upTo, List.mem_map, List.mem_range]
  constructor
  · rintro ⟨j, hj, rfl⟩
    exact ⟨j + 1, rfl, by omega, by omega⟩
  · rintro ⟨k, rfl, hpos, hle⟩
    exact ⟨k - 1, by omega, by rw [Nat.sub_add_cancel hpos]⟩

theorem ofInt_mem_upTo {n k : Nat} : .ofInt k ∈ upTo n ↔ 1 ≤ k ∧ k ≤ n := by
  simp [mem_upTo, Number.ofInt_inj]

theorem upTo_ascending (n : Nat) : (upTo n).Pairwise fun a b => a.lt b = true := by
  rw [upTo, List.pairwise_map]
  refine List.pairwise_lt_range.imp ?_
  intro a b hab
  simpa using hab

/-- An identifier of the numbering can be read back. -/
theorem isId_of_mem_upTo {n : Nat} {id : Number} (hn : n ≤ Number.maxSafe) (h : id ∈ upTo n) :
    (id.isSafeInteger && Number.le 1 id) = true := by
  obtain ⟨k, rfl, hpos, hle⟩ := mem_upTo.mp h
  have hlow : Number.le 1 (.ofInt k) = true := (Number.ofInt_le 1 k).trans (by simpa using hpos)
  rw [hlow, Number.isSafeInteger_ofInt]
  simpa using hle.trans hn

variable {l l' : Ledger} {env : Environment} {c : Command} {a : Answer} {m n k : Nat}

/-! ## Without gaps -/

namespace Gapless

theorem hasVote (hl : l.Gapless n k) (j : Nat) :
    l.hasVote (.ofInt j) = decide (1 ≤ j ∧ j ≤ n) := by
  have hfree : l.hasVote (.ofInt j) = false ↔ ¬ (1 ≤ j ∧ j ≤ n) := by
    rw [hasVote_eq_false, vote?, Keyed.find?_key_eq_none, hl.ids, ofInt_mem_upTo]
  rw [Bool.eq_iff_iff, decide_eq_true_eq, ← not_iff_not, Bool.not_eq_true, hfree]

theorem contains (hl : l.Gapless n k) (j : Nat) :
    l.register.contains (.number (.ofInt j)) = decide (1 ≤ j ∧ j ≤ k) := by
  have hfree : l.register.contains (.number (.ofInt j)) = false ↔ ¬ (1 ≤ j ∧ j ≤ k) := by
    rw [Register.contains_eq_false rfl, hl.entries, ← ofInt_mem_upTo]
    simp
  rw [Bool.eq_iff_iff, decide_eq_true_eq, ← not_iff_not, Bool.not_eq_true, hfree]

/-- The next vote takes the next number, as long as there is one, and comes last. -/
theorem opened (hl : l.Gapless n k) (hceiling : l.settings.ceiling = .ofInt m)
    (hm : m ≤ Number.maxSafe) {o : Opening} {vote : Vote} (h : Opens env l o vote) :
    n < m ∧ (l.addVote vote).votes = l.votes ++ [vote] ∧ (l.addVote vote).Gapless (n + 1) k := by
  have hfree := h.free
  rw [hl.lastVote, hceiling] at hfree
  obtain ⟨hlt, hid⟩ := (Identifier.next_eq_ok_of_filled hm hl.hasVote).mp hfree
  have hlast : (l.addVote vote).votes = l.votes ++ [vote] := by
    refine Keyed.insertBefore_of_forall fun v hv => ?_
    have hmem : v.id ∈ upTo n := hl.ids ▸ List.mem_map_of_mem hv
    obtain ⟨j, hj, -, hle⟩ := mem_upTo.mp hmem
    rw [hid, hj, Number.ofInt_precedes]
    simpa using by omega
  refine ⟨hlt, hlast, ?_, congrArg some hid, ?_, hl.entries, hl.counter⟩
  · rw [hlast, List.map_append, hl.ids, upTo_succ, List.map_singleton, hid]
  · have hsum : Number.ofInt n + .ofInt (1 : Nat) = .ofInt ((n + 1 : Nat) : Int) :=
      Number.ofInt_add (by omega)
    show some (Counter.succ l.openVotes) = _
    rw [hl.openVotes]
    exact congrArg some hsum

/-- The next threshold takes the next number, as long as there is one, and comes last. -/
theorem registered (hl : l.Gapless n k) (hceiling : l.settings.ceiling = .ofInt m)
    (hm : m ≤ Number.maxSafe) {e : Electorate} {r : Rule} {entry : Registration}
    {register : Register}
    (h : l.register.register (.number l.settings.ceiling) e r = .ok (entry, register)) :
    k < m ∧ r.validate = .ok () ∧ entry.electorate = e.copy ∧ entry.rule = r ∧
      register.entries = l.register.entries ++ [entry] ∧
      ({ l with register } : Ledger).Gapless n (k + 1) := by
  simp only [Register.register, Checks.bind_eq_ok, Checks.pure_eq_ok, Prod.mk.injEq] at h
  obtain ⟨_, hvalid, id, hid, rfl, rfl⟩ := h
  rw [hl.counter, hceiling, Identifier.nextOf_number, Checks.exceptMap_eq_ok] at hid
  obtain ⟨number, hnext, rfl⟩ := hid
  obtain ⟨hlt, rfl⟩ := (Identifier.next_eq_ok_of_filled hm hl.contains).mp hnext
  refine ⟨hlt, hvalid, rfl, rfl, rfl, hl.ids, hl.lastVote, hl.openVotes, ?_, rfl⟩
  show (l.register.entries ++ [_]).map _ = _
  rw [List.map_append, hl.entries, upTo_succ, List.map_append]
  rfl

/-- A vote that is opened has an identifier that can be read back. -/
theorem isId_of_opens (hl : l.Gapless n k) (hceiling : l.settings.ceiling = .ofInt m)
    (hm : m ≤ Number.maxSafe) {o : Opening} {vote : Vote} (h : Opens env l o vote) :
    (vote.id.isSafeInteger && Number.le 1 vote.id) = true := by
  obtain ⟨hlt, hlast, hnext⟩ := hl.opened hceiling hm h
  apply isId_of_mem_upTo (hlt.trans_le hm)
  rw [← hnext.ids, hlast]
  simp

/-- So has a threshold that is registered. -/
theorem isId_of_register (hl : l.Gapless n k) (hceiling : l.settings.ceiling = .ofInt m)
    (hm : m ≤ Number.maxSafe) {e : Electorate} {r : Rule} {entry : Registration}
    {register : Register}
    (h : l.register.register (.number l.settings.ceiling) e r = .ok (entry, register)) :
    ∃ id : Number, entry.id = .number id ∧ (id.isSafeInteger && Number.le 1 id) = true := by
  obtain ⟨hlt, -, -, -, hentries, hnext⟩ := hl.registered hceiling hm h
  have hmem : entry.id ∈ (upTo (k + 1)).map Value.number := by
    rw [← hnext.entries, hentries]
    simp
  obtain ⟨id, hid, hentry⟩ := List.mem_map.mp hmem
  exact ⟨id, hentry.symm, isId_of_mem_upTo (hlt.trans_le hm) hid⟩

theorem replaceVote (hl : l.Gapless n k) (v : Vote) : (l.replaceVote v).Gapless n k := by
  refine ⟨?_, hl.lastVote, hl.openVotes, hl.entries, hl.counter⟩
  rw [replaceVote_ids]
  exact hl.ids

/-- Whatever is accepted leaves no gap, and nothing is numbered beyond what is exact. -/
theorem accepts (hl : l.Gapless n k) (hceiling : l.settings.ceiling = .ofInt m)
    (hm : m ≤ Number.maxSafe) (hn : n ≤ Number.maxSafe) (hk : k ≤ Number.maxSafe)
    (h : Accepts env l c a l') :
    ∃ n' k', l'.Gapless n' k' ∧ n' ≤ Number.maxSafe ∧ k' ≤ Number.maxSafe := by
  cases h with
  | registered h =>
    obtain ⟨hlt, -, -, -, -, hnext⟩ := hl.registered hceiling hm h
    exact ⟨n, k + 1, hnext, hn, hlt.trans_le hm⟩
  | opened _ h =>
    obtain ⟨hlt, -, hnext⟩ := hl.opened hceiling hm h
    exact ⟨n + 1, k, hnext, hlt.trans_le hm, hk⟩
  | revised => exact ⟨n, k, hl.replaceVote _, hn, hk⟩

end Gapless

/-! ## Up to a ceiling -/

namespace Numbered

theorem gapless (hl : l.Numbered m n k) : l.Gapless n k :=
  ⟨hl.ids, hl.lastVote, hl.openVotes, hl.entries, hl.counter⟩

theorem hasVote (hl : l.Numbered m n k) (j : Nat) :
    l.hasVote (.ofInt j) = decide (1 ≤ j ∧ j ≤ n) :=
  hl.gapless.hasVote j

/-- The next vote takes the next number, as long as there is one, and comes last. -/
theorem opened (hl : l.Numbered m n k) {o : Opening} {vote : Vote} (h : Opens env l o vote) :
    (l.addVote vote).votes = l.votes ++ [vote] ∧ (l.addVote vote).Numbered m (n + 1) k := by
  obtain ⟨hlt, hlast, hnext⟩ := hl.gapless.opened hl.ceiling hl.ceiling_le h
  exact ⟨hlast, hl.ceiling, hl.ceiling_pos, hl.ceiling_le, hlt, hl.thresholds_le, hnext.ids,
    hnext.lastVote, hnext.openVotes, hnext.entries, hnext.counter⟩

/-- The next threshold takes the next number, as long as there is one, and comes last. -/
theorem registered (hl : l.Numbered m n k) {e : Electorate} {r : Rule} {entry : Registration}
    {register : Register}
    (h : l.register.register (.number l.settings.ceiling) e r = .ok (entry, register)) :
    r.validate = .ok () ∧ entry.electorate = e.copy ∧ entry.rule = r ∧
      register.entries = l.register.entries ++ [entry] ∧
      ({ l with register } : Ledger).Numbered m n (k + 1) := by
  obtain ⟨hlt, hvalid, helectorate, hrule, hentries, hnext⟩ :=
    hl.gapless.registered hl.ceiling hl.ceiling_le h
  exact ⟨hvalid, helectorate, hrule, hentries, hl.ceiling, hl.ceiling_pos, hl.ceiling_le,
    hl.votes_le, hlt, hnext.ids, hnext.lastVote, hnext.openVotes, hnext.entries, hnext.counter⟩

theorem replaceVote (hl : l.Numbered m n k) (v : Vote) : (l.replaceVote v).Numbered m n k := by
  have hsame := hl.gapless.replaceVote v
  exact ⟨hl.ceiling, hl.ceiling_pos, hl.ceiling_le, hl.votes_le, hl.thresholds_le, hsame.ids,
    hsame.lastVote, hsame.openVotes, hsame.entries, hsame.counter⟩

/-- Whatever is accepted keeps to the numbering. -/
theorem accepts (hl : l.Numbered m n k) (h : Accepts env l c a l') :
    ∃ n' k', l'.Numbered m n' k' := by
  cases h with
  | registered h => exact ⟨n, k + 1, (hl.registered h).2.2.2.2⟩
  | opened _ h => exact ⟨n + 1, k, (hl.opened h).2⟩
  | revised h => exact ⟨n, k, hl.replaceVote _⟩

/-- A ledger starts with nothing numbered. -/
theorem of_empty {o : Options} (h : Ledger.empty o = .ok l) : ∃ m, l.Numbered m 0 0 := by
  obtain ⟨settings, hsettings, rfl⟩ := Checks.exceptMap_eq_ok.mp h
  simp only [Options.settings, Checks.bind_eq_ok, Checks.pure_eq_ok] at hsettings
  obtain ⟨ceiling, hceiling, rfl⟩ := hsettings
  obtain ⟨m, rfl, hpos, hle⟩ := Identifier.exists_of_readCeiling hceiling
  exact ⟨m, rfl, hpos, hle, m.zero_le, m.zero_le, rfl, rfl, rfl, rfl, rfl⟩

end Numbered

end Plebiscite.Ledger
