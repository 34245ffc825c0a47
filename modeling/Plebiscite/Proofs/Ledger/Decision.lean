import Plebiscite.Proofs.Ledger.Casting
import Plebiscite.Proofs.Ledger.Expiry
import Plebiscite.Proofs.Ledger.Rejection

/-!
# How a ballot is decided

A ballot passes five checks in a fixed order: the vote must exist, it must not be over, the member
must hold signal in it, the ballot must change, and it must not be withdrawn.  The first check that
fails decides, and a ballot that passes all of them is accepted.  Behind these there are guards on
the tallies, and these never fire.

## Main definitions

- `Ballot.weight`: what a ballot counts for on one side
- `Ledger.Casting.cast`, `Ledger.Casting.tally`, `Ledger.Casting.write`: the ballot that is kept,
  the tallies with it, and the vote with both
- `Ledger.Casting.verdict`: the first check that fails, if one does
- `Ledger.Casting.Decides`: how the ballot of a member with a seat is decided

## Main results

- `Ledger.Casting.result_eq_ok`: what an accepted ballot comes to
- `Ledger.Casting.refusedWith_iff`: a ballot is refused for the first check that fails
- `Ledger.decides_of_reachable`: every ballot is decided by the five checks
-/

namespace Plebiscite

/-! ## Weights -/

namespace Ballot

/-- What a ballot counts for on one side: its signal if it is cast for that side and not stale. -/
def weight (b : Ballot) (side : Stance) : Int :=
  if b.stance = side ∧ b.stale = false then b.magnitude else 0

theorem weight_eq_share (b : Ballot) {side : Stance} (hside : side.isSided = true) :
    b.weight side = side.share b.counted b.magnitude := by
  simp only [weight, Stance.share, Vote.counted_eq_iff hside]

end Ballot

/-- A vote that is not over takes ballots. -/
theorem Poll.endedBy?_eq_none {p : Poll} {now : Number} :
    p.endedBy? now = none ↔ ∀ e ∈ p.ends, e.lt now = false := by
  simp [endedBy?, Option.filter_eq_none_iff]

/-- A known stance is refused a second time exactly if it is the same. -/
theorem Stance.repeats_iff {held wanted : Stance} (hwanted : wanted ∈ Stance.all) :
    held.repeats wanted = true ↔ held = wanted := by
  refine ⟨Stance.eq_of_repeats, ?_⟩
  rintro rfl
  revert hwanted held
  decide

namespace Ledger

variable {l l' : Ledger} {env : Environment} {v : Vote} {now : Number}

namespace Casting

/-- The ballot that is kept in the place of an old one. -/
def cast (x : Casting) (old : Ballot) : Ballot :=
  ⟨old.magnitude, x.stance, x.justification, false⟩

/-- The tallies without the old ballot and with the new one. -/
def tally (x : Casting) (p : Poll) (old : Ballot) : Poll :=
  { p with
    inFavor := p.inFavor - old.weight .inFavor + (x.cast old).weight .inFavor
    against := p.against - old.weight .against + (x.cast old).weight .against }

/-- The vote with the new ballot in the seat of its member, and with the new tallies. -/
def write (x : Casting) (v : Vote) (old : Ballot) : Vote :=
  { v.setBallot x.voter.display (x.cast old) with poll := x.tally v.poll old }

/-- A ballot that says again what is counted already. -/
def Repeats (x : Casting) (old : Ballot) : Prop :=
  old.stance = x.stance ∧ old.stale = false

instance (x : Casting) (old : Ballot) : Decidable (x.Repeats old) :=
  inferInstanceAs (Decidable (_ ∧ _))

/-- The code of the first check that fails in a vote that exists. -/
def verdict (x : Casting) (v : Vote) (now : Number) : Option Code :=
  match v.poll.endedBy? now, v.ballot? x.voter.display with
  | some _, _ => some .voteExpired
  | none, none => some .noSignalForVoter
  | none, some old =>
    if x.Repeats old then some .noChange
    else if x.stance = .uninitialized then some .unsupportedTransition
    else none

variable {x : Casting} {b : Ballot}

/-! ## Verdicts -/

theorem verdict_of_ended {e : Number} (h : v.poll.endedBy? now = some e) :
    x.verdict v now = some .voteExpired := by
  rw [verdict, h]

theorem verdict_of_unenrolled (hopen : v.poll.endedBy? now = none)
    (h : v.ballot? x.voter.display = none) : x.verdict v now = some .noSignalForVoter := by
  rw [verdict, hopen, h]

theorem verdict_of_enrolled (hopen : v.poll.endedBy? now = none) {old : Ballot}
    (h : v.ballot? x.voter.display = some old) :
    x.verdict v now = if x.Repeats old then some .noChange
      else if x.stance = .uninitialized then some .unsupportedTransition else none := by
  rw [verdict, hopen, h]

/-- A vote that exists is known, and a vote that is over or a member without signal is found out
before anything else is looked at. -/
theorem verdict_cases (x : Casting) (v : Vote) (now : Number) :
    x.verdict v now ≠ some .voteStateNotFound ∧
      (x.verdict v now = some .voteExpired ↔ (v.poll.endedBy? now).isSome = true) ∧
      (x.verdict v now = some .noSignalForVoter ↔
        v.poll.endedBy? now = none ∧ v.ballot? x.voter.display = none) := by
  cases hends : v.poll.endedBy? now with
  | some e => simp [verdict_of_ended hends]
  | none =>
    cases hseat : v.ballot? x.voter.display with
    | none => simp [verdict_of_unenrolled hends hseat]
    | some old =>
      rw [verdict_of_enrolled hends hseat]
      split
      · simp
      · split <;> simp

/-! ## Results and refusals -/

/-- What a ballot comes to is what the command is refused for. -/
theorem perform_eq_error {f : Fault} :
    (∃ l', perform env x.command l = .error f l') ↔ x.result env l = .error f := by
  have hperform : ∀ l', perform env x.command l = .error f l' ↔
      applyVote env x.id x.voter x.stance x.justification l = .error f l' := by
    intro l'
    refine Step.bind_eq_error.trans ⟨?_, .inl⟩
    rintro (h | ⟨receipt, l₁, -, h⟩)
    · exact h
    · cases h
  simp only [hperform, result]
  cases applyVote env x.id x.voter x.stance x.justification l with
  | ok receipt l₁ => simp
  | error g l₁ => simp

/-- The new ballot weighs what it holds, on the side that it is cast for. -/
theorem weight_cast (x : Casting) (old : Ballot) (side : Stance) :
    (x.cast old).weight side = side.share x.stance old.magnitude := by
  simp [cast, Ballot.weight, Stance.share]

/-- Tallies that let a ballot through are the ones without the old ballot and with the new one. -/
theorem eq_tally_of_transfer {p q : Poll}
    (h : p.transfer b.magnitude b.counted x.stance = .ok q) : q = x.tally p b := by
  rw [(Poll.eq_of_transfer h).1, tally, weight_cast, weight_cast, b.weight_eq_share rfl,
    b.weight_eq_share rfl]

/-- An accepted ballot is kept with what its member holds, and only it and the tallies change. -/
theorem result_eq_ok (hl : l.Sound) {s : Stance} (h : x.result env l = .ok (s, b)) :
    ∃ v old, l.require x.id = .ok v ∧ v.ballot? x.voter.display = some old ∧
      perform env x.command l =
        .ok (.cast ⟨v.id, x.voter, old.stance, x.cast old, x.tally v.poll old⟩)
          (l.replaceVote (x.write v old)) := by
  cases hcast : applyVote env x.id x.voter x.stance x.justification l with
  | error f l' =>
    rw [result, hcast] at h
    cases h
  | ok receipt l' =>
    obtain ⟨v, v', hrevises, rfl⟩ := (applyVote_eq_ok hl.indexed).mp hcast
    cases hrevises with
    | @cast _ _ _ _ _ now previous ballot poll hvote hnow hopen hseat hchange htransfer =>
      obtain rfl : ballot = x.cast previous := Ballot.eq_of_change hchange
      obtain rfl := eq_tally_of_transfer htransfer
      exact ⟨v, previous, hvote, hseat, Step.map_eq_ok.mpr ⟨_, hcast, rfl⟩⟩

/-! ## The order of the checks -/

theorem result_of_unknown (hl : l.Sound) (h : ∀ v ∈ l.votes, x.id ≠ .number v.id) :
    x.result env l = .error (.unknownVote x.id) := by
  cases hvote : x.id.number?.bind l.vote? with
  | some v =>
    have hrequire : l.require x.id = .ok v := by rw [require, hvote]
    obtain ⟨hmem, hid⟩ := mem_of_require hrequire
    exact absurd hid (h v hmem)
  | none =>
    rw [result_eq hl, standing?, key, hvote]
    rfl

/-- In a vote that exists, a ballot is refused for the first check that fails, or is accepted. -/
theorem result_cases (hl : l.Sound) (hnow : env.height = .ok now) (hv : v ∈ l.votes)
    (hid : x.id = .number v.id) (hstance : x.stance ∈ Stance.all) :
    (∃ f, x.result env l = .error f ∧ x.verdict v now = some f.code ∧
      ∀ held wanted, f ≠ .brokenTally held wanted) ∨
    ((∃ r, x.result env l = .ok r) ∧ x.verdict v now = none) := by
  have hvote : l.vote? v.id = some v := (vote?_iff hl.indexed).mpr ⟨hv, rfl⟩
  have hresult : x.result env l =
      x.judge env (some ⟨v.id, v.poll.ends, v.ballot? x.voter.display⟩) := by
    rw [result_eq hl, key, hid, standing?_eq hvote]
  simp only [hresult, judge, verdict, Poll.endedBy?, hnow, bind, Except.bind]
  cases v.poll.ends.filter fun ends => ends.lt now with
  | some ends => exact .inl ⟨_, rfl, rfl, by simp⟩
  | none =>
    cases v.ballot? x.voter.display with
    | none => exact .inl ⟨_, rfl, rfl, by simp⟩
    | some old =>
      have hrepeats : (old.stance.repeats x.stance && !old.stale) = true ↔ x.Repeats old := by
        rw [Bool.and_eq_true, Stance.repeats_iff hstance, Bool.not_eq_true', Repeats]
      simp only [Ballot.change, hrepeats]
      by_cases hold : x.Repeats old
      · simp only [if_pos hold]
        exact .inl ⟨_, rfl, rfl, by simp⟩
      · simp only [if_neg hold]
        by_cases hwithdrawn : x.stance = .uninitialized
        · simp only [if_pos hwithdrawn]
          exact .inl ⟨_, rfl, rfl, by simp⟩
        · simp only [if_neg hwithdrawn]
          exact .inr ⟨⟨_, rfl⟩, trivial⟩

/-- What a ballot is refused for is what it comes to nothing for. -/
theorem refusedWith_iff_result {code : Code} :
    RefusedWith code env l x.command ↔ ∃ f, x.result env l = .error f ∧ f.code = code := by
  constructor
  · rintro ⟨f, l', h, hcode⟩
    exact ⟨f, perform_eq_error.mp ⟨l', h⟩, hcode⟩
  · rintro ⟨f, h, hcode⟩
    obtain ⟨l', h⟩ := perform_eq_error.mpr h
    exact ⟨f, l', h, hcode⟩

/-- A ballot for a vote that exists is refused with the code of the first check that fails. -/
theorem refusedWith_iff (hl : l.Sound) (hnow : env.height = .ok now) (hv : v ∈ l.votes)
    (hid : x.id = .number v.id) (hstance : x.stance ∈ Stance.all) {code : Code} :
    RefusedWith code env l x.command ↔ x.verdict v now = some code := by
  rw [refusedWith_iff_result]
  rcases result_cases hl hnow hv hid hstance with ⟨f, hf, hcode, -⟩ | ⟨⟨r, hr⟩, hnone⟩
  · simp [hf, hcode]
  · simp [hr, hnone]

/-- A refusal never speaks of the tallies. -/
theorem eq_unknown_or_verdict (hl : l.Sound) (hnow : env.height = .ok now)
    (hstance : x.stance ∈ Stance.all) {f : Fault} (h : x.result env l = .error f) :
    (∀ v ∈ l.votes, x.id ≠ .number v.id) ∧ f = .unknownVote x.id ∨
      ∃ v ∈ l.votes, x.id = .number v.id ∧ x.verdict v now = some f.code ∧
        ∀ held wanted, f ≠ .brokenTally held wanted := by
  by_cases hknown : ∃ v ∈ l.votes, x.id = .number v.id
  · obtain ⟨v, hv, hid⟩ := hknown
    right
    rcases result_cases hl hnow hv hid hstance with ⟨g, hg, hcode⟩ | ⟨⟨r, hr⟩, -⟩
    · rw [h] at hg
      obtain rfl := Except.error.inj hg
      exact ⟨v, hv, hid, hcode⟩
    · rw [h] at hr
      cases hr
  · have hunknown : ∀ v ∈ l.votes, x.id ≠ .number v.id := fun v hv hid => hknown ⟨v, hv, hid⟩
    left
    rw [result_of_unknown hl hunknown] at h
    exact ⟨hunknown, (Except.error.inj h).symm⟩

/-- How the ballot of a member that holds one is decided, in a vote that takes ballots. -/
structure Decides (env : Environment) (l : Ledger) (x : Casting) (v : Vote) (old : Ballot) :
    Prop where
  unchanged : RefusedWith .noChange env l x.command ↔ x.Repeats old
  withdrawn : ¬x.Repeats old →
    (RefusedWith .unsupportedTransition env l x.command ↔ x.stance = .uninitialized)
  accepted : ¬x.Repeats old → x.stance ≠ .uninitialized →
    perform env x.command l =
      .ok (.cast ⟨v.id, x.voter, old.stance, x.cast old, x.tally v.poll old⟩)
        (l.replaceVote (x.write v old))

theorem decides_of_sound (hl : l.Sound) (hnow : env.height = .ok now) (hv : v ∈ l.votes)
    (hid : x.id = .number v.id) (hstance : x.stance ∈ Stance.all)
    (hopen : v.poll.endedBy? now = none) {old : Ballot}
    (hold : v.ballot? x.voter.display = some old) : x.Decides env l v old := by
  have hverdict : x.verdict v now = if x.Repeats old then some .noChange
      else if x.stance = .uninitialized then some .unsupportedTransition else none :=
    verdict_of_enrolled hopen hold
  refine ⟨?_, fun hchange => ?_, fun hchange hcast => ?_⟩
  · rw [refusedWith_iff hl hnow hv hid hstance, hverdict]
    split
    · simp [*]
    · split <;> simp [*]
  · rw [refusedWith_iff hl hnow hv hid hstance, hverdict, if_neg hchange]
    split <;> simp [*]
  · rw [if_neg hchange, if_neg hcast] at hverdict
    rcases result_cases hl hnow hv hid hstance with ⟨f, -, hcode, -⟩ | ⟨⟨r, hr⟩, -⟩
    · rw [hverdict] at hcode
      cases hcode
    · -- The vote and the old ballot that the result speaks of are the ones at hand.
      obtain ⟨w, b, hw, hb, hperform⟩ := result_eq_ok hl hr
      obtain ⟨hmem, hnumber⟩ := mem_of_require hw
      have hsame : w.id = v.id := (Value.number.inj (hid.symm.trans hnumber)).symm
      obtain rfl := eq_of_id hl.indexed hmem hv hsame
      rw [hold] at hb
      obtain rfl := Option.some.inj hb
      exact hperform

end Casting

/-! ## Reachable ledgers -/

open Casting

/-- Every ballot is decided by the five checks, in their order: an unknown vote, a vote that is
over, a member without signal, a ballot that says nothing new, a withdrawal.  What passes them is
kept with its signal and moves exactly that signal, and no guard on the tallies ever fires. -/
theorem decides_of_reachable (hl : l.Reachable) (hnow : env.now = .number now)
    (hheight : Guard.isBlockHeight (.number now) = true) (x : Casting)
    (hstance : x.stance ∈ Stance.all) :
    (RefusedWith .voteStateNotFound env l x.command ↔ ∀ v ∈ l.votes, x.id ≠ .number v.id) ∧
    (∀ v ∈ l.votes, x.id = .number v.id →
      (RefusedWith .voteExpired env l x.command ↔ ∃ e ∈ v.poll.ends, e.lt now = true) ∧
      ((∀ e ∈ v.poll.ends, e.lt now = false) →
        (RefusedWith .noSignalForVoter env l x.command ↔ v.ballot? x.voter.display = none) ∧
        ∀ old, v.ballot? x.voter.display = some old → x.Decides env l v old)) ∧
    ∀ f l', perform env x.command l = .error f l' →
      f.code ∈ [.voteStateNotFound, .voteExpired, .noSignalForVoter, .noChange,
        .unsupportedTransition] ∧ ∀ held wanted, f ≠ .brokenTally held wanted := by
  have hsound := hl.sound
  have hclock := height_of_now hnow hheight
  refine ⟨⟨fun h => ?_, fun h => ?_⟩, fun v hv hid => ?_, fun f l' hf => ⟨?_, ?_⟩⟩
  · obtain ⟨f, hf, hcode⟩ := refusedWith_iff_result.mp h
    rcases eq_unknown_or_verdict hsound hclock hstance hf with ⟨hunknown, -⟩ | ⟨v, -, -, hv, -⟩
    · exact hunknown
    · exact absurd (hcode ▸ hv) (verdict_cases x v now).1
  · exact refusedWith_iff_result.mpr ⟨_, result_of_unknown hsound h, rfl⟩
  · obtain ⟨-, hover, hunenrolled⟩ := verdict_cases x v now
    simp only [refusedWith_iff hsound hclock hv hid hstance, hover, hunenrolled]
    refine ⟨Poll.isPastEnd_iff, fun hopen => ?_⟩
    have hends := Poll.endedBy?_eq_none.mpr hopen
    exact ⟨and_iff_right hends, fun old hold =>
      decides_of_sound hsound hclock hv hid hstance hends hold⟩
  · have hrejects : Step.FailsOnly l _ (perform env x.command) :=
      .andThen (applyVote_rejects hsound.votes hnow hheight x.id x.voter x.stance x.justification)
        fun _ => Step.succeeds_pure _
    rcases hrejects.of_error hf with hcode | ⟨hcode, -⟩
    · simp only [List.mem_cons, List.not_mem_nil, or_false] at hcode ⊢
      tauto
    · simp [hcode]
  · rcases eq_unknown_or_verdict hsound hclock hstance (perform_eq_error.mp ⟨l', hf⟩) with
      ⟨-, rfl⟩ | ⟨v, -, -, -, hguards⟩
    · exact nofun
    · exact hguards

/-- The ballot of bob turned stale when the topic was replaced. -/
def Sample.recast : Casting :=
  ⟨.number 1, .text "bob", .inFavor, .absent⟩

/-- A stale ballot is cast again as it was, and counts from then on. -/
theorem decides_recast :
    perform Sample.host Sample.recast.command (Sample.opened.run Sample.later) =
      .ok (.cast ⟨1, .text "bob", .inFavor, ⟨1, .inFavor, .absent, false⟩,
          ⟨.text "other", 2, ⟨2, some 1, []⟩, 1, 1, 5, none⟩⟩)
        ((Sample.opened.run Sample.later).replaceVote
          (Sample.recast.write Sample.laterVote ⟨1, .inFavor, .absent, true⟩)) := by
  have hvote : Sample.laterVote ∈ (Sample.opened.run Sample.later).votes := by
    rw [Sample.run_later]
    exact List.mem_singleton_self _
  have hreachable := Sample.reachable_opened.run Sample.later_wellTyped
  obtain ⟨-, hknown, -⟩ :=
    @decides_of_reachable _ Sample.host 5 hreachable rfl (by decide) Sample.recast (by decide)
  obtain ⟨-, hcast⟩ := (hknown Sample.laterVote hvote rfl).2 (by decide)
  exact (hcast ⟨1, .inFavor, .absent, true⟩ (by decide)).accepted (by decide) (by decide)

end Ledger

end Plebiscite
