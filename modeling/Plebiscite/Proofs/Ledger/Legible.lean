import Plebiscite.Proofs.Ledger.Thresholds
import Plebiscite.Proofs.Snapshot.Legible

/-!
# Ledgers whose snapshots can be told apart

A ledger that started with nothing, and that was only called with arguments of the right types,
holds nothing that its snapshot would leave out or write in the same way as something else.  It may
also be stored and opened again at any time, under any options: opening it again succeeds only where
it gives back the same ledger, under the settings that the new options amount to.

## Main definitions

- `Vote.Legible`, `Registration.Legible`, `Ledger.Legible`: what is told by what is stored of it
- `Ledger.Command.Legible`, `Ledger.Move.Legible`: arguments of the right types

## Main results

- `Ledger.Legible.eq_of_reopen`: a ledger that is opened again is the same one
- `Ledger.Legible.run`: moves with arguments of the right types keep a ledger legible
-/

namespace Plebiscite

open Snapshot

/-- A vote that is stored as it is, with a topic and justifications that are told by their texts. -/
structure Vote.Legible (v : Vote) : Prop where
  storable : v.Storable
  topic : v.poll.topic.Legible
  justified : ∀ seat ∈ v.seats, seat.ballot.justification.Legible

/-- A threshold with bounds that pass, kept for an electorate that is told by its description.
Nobody has to know the mode or the organization. -/
structure Registration.Legible (r : Registration) : Prop where
  id : IsId r.id
  electorate : r.electorate.Legible
  valid : r.rule.validate = .ok ()
  bare : r.rule.bare = r.rule

/-- What is described as an object is described part by part. -/
theorem Electorate.Legible.copy_eq {e : Electorate} (he : e.Legible) : e.copy = e := by
  obtain ⟨fs, hfs, -⟩ := he
  obtain ⟨description⟩ := e
  obtain rfl : description = .object fs := hfs
  rfl

/-- A ballot that is reset loses what was said with it, or keeps it. -/
theorem ResetPolicy.justification_reset (policy : ResetPolicy) (b : Ballot) :
    (policy.reset b).justification = b.justification ∨ (policy.reset b).justification = .absent := by
  by_cases hkeep : policy = .keepBallots
  · rw [hkeep]
    exact .inl (reset_keep b).2.1
  · rcases policy.reset_anew b hkeep with ⟨-, hsame⟩ | hanew
    · exact .inl (by rw [hsame])
    · exact .inr (by rw [hanew, Ballot.mint])

namespace Ledger

variable {l l' : Ledger} {env : Environment} {c : Command} {a : Answer} {v w : Vote}

/-- A ledger that is numbered without gaps and holds nothing but what is told by its text. -/
structure Legible (l : Ledger) : Prop where
  ceiling : ∃ m : Nat, l.settings.ceiling = .ofInt m ∧ m ≤ Number.maxSafe
  numbered : ∃ n k, l.Gapless n k ∧ n ≤ Number.maxSafe ∧ k ≤ Number.maxSafe
  votes : ∀ v ∈ l.votes, v.Legible
  entries : ∀ r ∈ l.register.entries, r.Legible

/-- Arguments of the right types: what nobody looks into is told by its text, a stance is known, and
with bounds nothing else is said.  An electorate has to be told by its description only if it is
kept. -/
def Command.Legible : Command → Prop
  | .registerThreshold electorate rule => electorate.Legible ∧ rule.bare = rule
  | .openVote request => request.topic.Legible ∧ request.threshold.remarks = []
  | .openPercentVote request => request.topic.Legible
  | .invokeThreshold _ topic _ => topic.Legible
  | .applyVote _ _ stance justification => stance ∈ Stance.all ∧ justification.Legible
  | .extendVote _ _ => True
  | .updateTopic _ topic _ => topic.Legible

/-- A call with arguments of the right types, to a source of stakes that lists texts, or the ledger
stored and opened again. -/
def Move.Legible : Move → Prop
  | .call env c => env.stakes.WellTyped ∧ c.Legible
  | .reopen _ => True

/-! ## Votes -/

theorem Command.Legible.topic_of_opening (hc : c.Legible) {o : Opening}
    (ho : l.opening? c = some o) : o.topic.Legible := by
  cases c with
  | openVote r =>
    cases ho
    exact hc.1
  | openPercentVote r =>
    cases ho
    exact hc
  | invokeThreshold id topic duration =>
    obtain ⟨entry, -, rfl⟩ := Option.map_eq_some_iff.mp ho
    exact hc
  | _ => cases ho

/-- A vote is opened with ballots on which nothing was said. -/
theorem Opens.legible {o : Opening} (h : Opens env l o v) (htopic : o.topic.Legible)
    (hv : v.Storable) : v.Legible := by
  refine ⟨hv, ?_, ?_⟩
  · rw [h.topic]
    exact htopic
  · obtain ⟨plan, -, -, -, hseats⟩ := h.minted
    intro seat hseat
    rw [hseats] at hseat
    obtain ⟨allocation, -, rfl⟩ := List.mem_map.mp hseat
    exact .absent

/-- What revises a vote keeps no rule, so nothing is asked of an electorate. -/
theorem Revises.storable_command (h : Revises env l c v w a) (hc : c.Legible) : c.Storable := by
  cases h with
  | cast => exact hc.1
  | extended | retitled | cleared => trivial

/-- A revision puts the topic or the justification of the command in the place of another. -/
theorem Revises.legible (h : Revises env l c v w a) (hc : c.Legible) (hv : v.Legible) :
    w.Legible := by
  have hstorable := h.storable (h.storable_command hc) hv.storable
  cases h with
  | cast _ _ _ _ hchange htransfer =>
    obtain ⟨rfl, -⟩ := Poll.eq_of_transfer htransfer
    refine ⟨hstorable, hv.topic, fun seat hseat => ?_⟩
    rcases Vote.mem_setBallot hseat with hseat | hseat
    · exact hv.justified seat hseat
    · rw [hseat, Ballot.eq_of_change hchange]
      exact hc.2
  | extended =>
    refine ⟨hstorable, ?_, hv.justified⟩
    rw [Poll.extend_eq]
    exact hv.topic
  | retitled => exact ⟨hstorable, hc, hv.justified⟩
  | cleared =>
    refine ⟨hstorable, hc, fun seat hseat => ?_⟩
    obtain ⟨old, hold, hreset⟩ := Vote.mem_resetBallots hseat
    rw [hreset]
    rcases l.settings.policy.justification_reset old.ballot with hkept | hgone
    · rw [hkept]
      exact hv.justified old hold
    · rw [hgone]
      exact .absent

/-! ## Ledgers -/

namespace Legible

theorem of_empty {o : Options} (h : Ledger.empty o = .ok l) : l.Legible := by
  obtain ⟨m, hnum⟩ := Numbered.of_empty h
  obtain ⟨settings, -, rfl⟩ := Checks.exceptMap_eq_ok.mp h
  exact ⟨⟨m, hnum.ceiling, hnum.ceiling_le⟩, ⟨0, 0, hnum.gapless, Nat.zero_le _, Nat.zero_le _⟩,
    by simp [blank], by simp [blank, Register.empty]⟩

theorem ids_ascending (hl : l.Legible) :
    (l.votes.map (·.id)).Pairwise fun a b => a.lt b = true := by
  obtain ⟨n, k, hnum, -, -⟩ := hl.numbered
  rw [hnum.ids]
  exact upTo_ascending n

theorem indexed (hl : l.Legible) : l.Indexed :=
  ⟨hl.ids_ascending.imp Number.ne_of_lt, fun v hv => (hl.votes v hv).storable.sound.names⟩

/-- All that keeps a legible ledger from being stored as it is are electorates that nobody knows. -/
theorem storable (hl : l.Legible)
    (h : ∀ r ∈ l.register.entries, Guard.isElectorate r.electorate.description = true) :
    l.Storable := by
  obtain ⟨n, k, hnum, hn, hk⟩ := hl.numbered
  refine ⟨fun v hv => (hl.votes v hv).storable, hl.ids_ascending, fun r hr => ?_, ?_,
    ⟨_, hnum.lastVote, Height.isBlockHeight_ofInt hn⟩,
    ⟨_, hnum.openVotes, Height.isBlockHeight_ofInt hn⟩,
    ⟨_, hnum.counter, Height.isBlockHeight_ofInt hk⟩⟩
  · have hentry := hl.entries r hr
    obtain ⟨id, hid⟩ := hentry.id.exists_number
    exact ⟨⟨id, hid, isId_number.mp (hid ▸ hentry.id)⟩, h r hr, hentry.electorate.copy_eq,
      hentry.valid, hentry.bare⟩
  · rw [hnum.entries, List.pairwise_map]
    exact upTo_ascending k

/-- A ledger that is opened again is the same one, up to what the host decides anew. -/
theorem eq_of_reopen (hl : l.Legible) {o : Options} (h : restore o l.snapshot = .ok l') :
    o.settings = .ok l'.settings ∧ l' = { l with settings := l'.settings } := by
  obtain ⟨r, hr, rfl⟩ := restore_eq_ok.mp h
  -- Everything that was stored was read, so also every electorate.
  have hread : ∀ entry ∈ l.register.entries,
      Guard.isElectorate entry.electorate.description = true := by
    intro entry hentry
    have hstored : ofRegistration entry ∈ l.snapshot.thresholds :=
      List.mem_map_of_mem ((listed_perm _).mem_iff.mpr hentry)
    obtain ⟨other, -, hother⟩ := Checks.exists_of_mem_left hr.entries hstored
    have hpasses := Registration.isElectorate_of_readsThreshold hother
    rw [(hl.entries entry hentry).electorate.copy_eq] at hpasses
    exact hpasses
  have hstorable := hl.storable hread
  -- What is stored does not depend on the settings.
  have hagain : ({ l with settings := r.settings } : Ledger).Storable :=
    ⟨hstorable.votes, hstorable.votes_ascending, hstorable.entries, hstorable.entries_ascending,
      hstorable.lastVote, hstorable.openVotes, hstorable.counter⟩
  have hrestored := restore_snapshot hagain hr.settings
  exact ⟨hr.settings, Except.ok.inj (h.symm.trans hrestored)⟩

/-- An accepted command keeps a ledger legible. -/
theorem accepts (hl : l.Legible) (henv : env.stakes.WellTyped) (hc : c.Legible)
    (h : Accepts env l c a l') : l'.Legible := by
  obtain ⟨m, hm, hle⟩ := hl.ceiling
  obtain ⟨n, k, hnum, hn, hk⟩ := hl.numbered
  refine ⟨⟨m, h.settings_eq ▸ hm, hle⟩, hnum.accepts hm hle hn hk h,
    h.forall_votes hl.votes ?_ ?_, h.forall_entries hl.entries ?_⟩
  · intro o v ho hopens
    have hbare : ∀ t, o.rule = .signal t → t.remarks = [] := by
      intro t ht
      apply bare_of_opening (fun r hr => (hl.entries r hr).bare) _ ho ht
      rintro r rfl
      exact hc.2
    apply hopens.legible (hc.topic_of_opening ho)
    exact hopens.storable henv hbare (hnum.isId_of_opens hm hle hopens)
  · intro v w hrevises hv
    exact hrevises.legible hc hv
  · rintro e r entry register rfl hregister
    obtain ⟨hvalid, helectorate, hrule, -⟩ := eq_of_register hregister
    obtain ⟨id, hentry, hid⟩ := hnum.isId_of_register hm hle hregister
    refine ⟨hentry ▸ isId_number.mpr hid, ?_, hrule ▸ hvalid, hrule ▸ hc.2⟩
    rw [helectorate, hc.1.copy_eq]
    exact hc.1

/-- One move: a command that is accepted, the ledger opened again, or nothing. -/
theorem move (hl : l.Legible) {m : Move} (hm : m.Legible) : (l.move m).Legible := by
  rcases move_cases hl.indexed m with hsame | ⟨env, c, a, rfl, haccepts⟩ | ⟨o, rfl, hrestore⟩
  · rw [hsame]
    exact hl
  · exact hl.accepts hm.1 hm.2 haccepts
  · obtain ⟨-, heq⟩ := hl.eq_of_reopen hrestore
    obtain ⟨m, -, hle, hceiling, -⟩ := ceiling_of_restore hrestore
    obtain ⟨n, k, hnum, hn, hk⟩ := hl.numbered
    rw [heq]
    refine ⟨⟨m, hceiling, hle⟩, ⟨n, k, ?_, hn, hk⟩, hl.votes, hl.entries⟩
    exact ⟨hnum.ids, hnum.lastVote, hnum.openVotes, hnum.entries, hnum.counter⟩

/-- Moves with arguments of the right types keep a ledger legible. -/
theorem run (hl : l.Legible) {moves : List Move} (hmoves : ∀ m ∈ moves, m.Legible) :
    (l.run moves).Legible :=
  run_induction hl fun _ m hm hl => hl.move (hmoves m hm)

end Legible

end Ledger

end Plebiscite
