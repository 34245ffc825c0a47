import Mathlib.Order.Basic
import Plebiscite.Proofs.Ledger.RoundTrip

/-!
# Voting is monotone

An outcome is the better for the motion the closer it is to approval.  A ballot in favor takes
nothing from the side in favor and adds nothing to the side against, whatever the member said
before, so it never makes the outcome worse; a ballot against never makes it better.  Ballots on
other votes and a later end leave it as it is.

## Main definitions

- `Outcome.rank`: how close an outcome is to approval, which orders the outcomes
- `Outcome.Toward`: a change of the outcome toward one side
- `Ledger.Command.Leans`: a command that moves a vote to one side, if it moves it at all

## Main results

- `Poll.outcome_mono`: more in favor and less against
- `Ledger.Sound.outcome_leans`: one command that leans to a side
- `Ledger.Sound.outcome_serve_leans`: any number of them
- `Ledger.outcome_monotone`: ballots on a vote, ballots on other votes, and a later end
-/

namespace Plebiscite

/-! ## The order of outcomes -/

namespace Outcome

/-- How close an outcome is to approval. -/
def rank : Outcome → Nat
  | .rejected => 0
  | .pending => 1
  | .approved => 2

theorem rank_injective : Function.Injective rank := by
  intro a b h
  cases a <;> cases b <;> first | rfl | cases h

/-- Outcomes are ordered by how close they are to approval. -/
instance : LinearOrder Outcome :=
  LinearOrder.lift' rank rank_injective

theorem rejected_le (o : Outcome) : .rejected ≤ o :=
  Nat.zero_le o.rank

theorem le_approved (o : Outcome) : o ≤ .approved := by
  cases o <;> decide

/-- A change of the outcome toward one side, or none. -/
structure Toward (side : Stance) (a b : Outcome) : Prop where
  inFavor : side = .inFavor → a ≤ b
  against : side = .against → b ≤ a

namespace Toward

variable {side : Stance} {a b c : Outcome}

theorem refl (side : Stance) (a : Outcome) : Toward side a a :=
  ⟨fun _ => le_rfl, fun _ => le_rfl⟩

theorem trans (hab : Toward side a b) (hbc : Toward side b c) : Toward side a c :=
  ⟨fun h => (hab.inFavor h).trans (hbc.inFavor h), fun h => (hbc.against h).trans (hab.against h)⟩

/-- What changes toward both sides does not change. -/
theorem antisymm (hfor : Toward .inFavor a b) (hcontra : Toward .against a b) : b = a :=
  le_antisymm (hcontra.against rfl) (hfor.inFavor rfl)

end Toward

end Outcome

/-! ## Tallies -/

namespace Stance

variable {magnitude : Int}

theorem share_nonneg (side stance : Stance) (h : 0 ≤ magnitude) :
    0 ≤ side.share stance magnitude := by
  unfold share
  split
  · exact h
  · exact le_rfl

theorem share_le (side stance : Stance) (h : 0 ≤ magnitude) :
    side.share stance magnitude ≤ magnitude := by
  unfold share
  split
  · exact le_rfl
  · exact h

end Stance

namespace Poll

variable {p q : Poll} {magnitude : Int} {held wanted : Stance}

theorem rejected_iff : p.outcome = .rejected ↔ ∃ b ∈ p.threshold.against, b ≤ p.against := by
  unfold outcome
  cases p.threshold.against with
  | none =>
    simp only [Option.any_none, Bool.false_eq_true, if_false]
    split <;> simp
  | some b =>
    by_cases h : b ≤ p.against
    · simp [h]
    · simp only [Option.any_some, h, decide_false, Bool.false_eq_true, if_false]
      split <;> simp [h]

theorem approved_iff :
    p.outcome = .approved ↔ p.outcome ≠ .rejected ∧ p.threshold.inFavor ≤ p.inFavor := by
  unfold outcome
  split
  · simp
  · split <;> simp [*]

/-- More in favor and less against never make the outcome of the same bounds worse. -/
theorem outcome_mono (hthreshold : q.threshold = p.threshold) (hfor : p.inFavor ≤ q.inFavor)
    (hcontra : q.against ≤ p.against) : p.outcome ≤ q.outcome := by
  -- A bound against that is still met was met before.
  have hrejected : q.outcome = .rejected → p.outcome = .rejected := by
    rw [rejected_iff, rejected_iff, hthreshold]
    rintro ⟨b, hb, hle⟩
    exact ⟨b, hb, hle.trans hcontra⟩
  have happroved : p.outcome = .approved → q.outcome = .approved := by
    rw [approved_iff, approved_iff, hthreshold]
    rintro ⟨hopen, hle⟩
    exact ⟨fun h => hopen (hrejected h), hle.trans hfor⟩
  cases hp : p.outcome with
  | rejected => exact Outcome.rejected_le _
  | approved => exact (happroved hp).ge
  | pending =>
    cases hq : q.outcome with
    | rejected => exact absurd (hrejected hq) (by simp [hp])
    | pending => exact le_rfl
    | approved => exact Outcome.le_approved _

/-- Whatever a ballot said before, casting it for a side moves the outcome toward that side. -/
theorem toward_of_transfer (hmagnitude : 0 ≤ magnitude)
    (h : p.transfer magnitude held wanted = .ok q) :
    Outcome.Toward wanted p.outcome q.outcome := by
  obtain ⟨rfl, -⟩ := eq_of_transfer h
  have hfor := Stance.share_nonneg .inFavor held hmagnitude
  have hcontra := Stance.share_nonneg .against held hmagnitude
  have hfor' := Stance.share_le .inFavor held hmagnitude
  have hcontra' := Stance.share_le .against held hmagnitude
  constructor
  · rintro rfl
    refine outcome_mono ?_ ?_ ?_
    · rfl
    · show p.inFavor ≤ p.inFavor - Stance.share .inFavor held magnitude + magnitude
      omega
    · show p.against - Stance.share .against held magnitude + 0 ≤ p.against
      omega
  · rintro rfl
    refine outcome_mono ?_ ?_ ?_
    · rfl
    · show p.inFavor - Stance.share .inFavor held magnitude + 0 ≤ p.inFavor
      omega
    · show p.against ≤ p.against - Stance.share .against held magnitude + magnitude
      omega

/-- The end has no part in the outcome. -/
theorem outcome_extend (p : Poll) (candidate : Number) :
    (p.extend candidate).outcome = p.outcome := by
  rw [extend_eq]
  rfl

end Poll

/-! ## Commands -/

namespace Ledger

variable {env : Environment} {l l' : Ledger} {c : Command} {a : Answer} {v w : Vote}
  {side : Stance} {id : Number} {before : Outcome}

/-- A command that moves a vote to one side, if it moves it at all: a ballot for that side, a ballot
on another vote, or a later end. -/
def Command.Leans (side : Stance) (id : Number) : Command → Prop
  | .applyVote vote _ stance _ => vote = .number id → stance = side
  | .extendVote .. => True
  | _ => False

theorem outcome_eq_ok {o : Outcome} :
    l.outcome (.number id) = .ok o ↔ ∃ v, l.vote? id = some v ∧ v.poll.outcome = o := by
  simp only [outcome, Checks.exceptMap_eq_ok, require_number]

/-- A vote that is revised moves to the side that the command leans to. -/
theorem Revises.toward (h : Revises env l c v w a) (hv : v.Sound) (hc : c.Leans side v.id) :
    Outcome.Toward side v.poll.outcome w.poll.outcome := by
  cases h with
  | @cast _ _ _ _ _ _ previous _ _ hvote _ _ hseat _ htransfer =>
    -- The ballot is one on this vote, so it is cast for the side.
    obtain rfl := hc (mem_of_require hvote).2
    obtain ⟨seat, hmem, -, rfl⟩ := Vote.exists_seat_of_ballot? hseat
    exact Poll.toward_of_transfer (hv.nonneg seat hmem) htransfer
  | extended =>
    rw [Poll.outcome_extend]
    exact .refl side _
  | retitled | cleared => exact hc.elim

/-- A command that leans to a side moves the outcome of a vote toward that side. -/
theorem Sound.outcome_leans (hl : l.Sound) (hbefore : l.outcome (.number id) = .ok before)
    (h : perform env c l = .ok a l') :
    ∃ after, l'.outcome (.number id) = .ok after ∧
      ∀ side, c.Leans side id → Outcome.Toward side before after := by
  obtain ⟨v, hvote, rfl⟩ := outcome_eq_ok.mp hbefore
  obtain ⟨hv, rfl⟩ := mem_of_vote? hvote
  have haccepts := (perform_eq_ok hl.indexed).mp h
  obtain ⟨w, hw, hstep⟩ := exists_of_accepts hl.indexed haccepts hv
  have hids := haccepts.nodup_ids hl.ids
  have hfound : ∀ w ∈ l'.votes, w.id = v.id →
      l'.outcome (.number v.id) = .ok w.poll.outcome := fun w hw hid =>
    outcome_eq_ok.mpr ⟨w, (Keyed.find?_key hids).mpr ⟨hw, hid⟩, rfl⟩
  rcases hstep with rfl | hrevises
  · exact ⟨_, hfound w hw rfl, fun side _ => .refl side _⟩
  · exact ⟨_, hfound w hw hrevises.id_eq, fun _ hc => hrevises.toward (hl.votes v hv) hc⟩

/-- Any number of commands that lean to a side, accepted or refused, move the outcome of a vote
toward that side. -/
theorem Sound.outcome_serve_leans (hl : l.Sound)
    (hbefore : l.outcome (.number id) = .ok before) {calls : List Call}
    (hcalls : ∀ call ∈ calls, call.env.stakes.WellTyped ∧ call.command.Leans side id) :
    ∃ after, (l.serve calls).outcome (.number id) = .ok after ∧
      Outcome.Toward side before after := by
  -- The invariant carries along that the ledger stays sound, which the next step needs.
  have hboth : (l.serve calls).Sound ∧ ∃ after,
      (l.serve calls).outcome (.number id) = .ok after ∧ Outcome.Toward side before after := by
    refine serve_induction (P := fun l' => l'.Sound ∧ ∃ after,
        l'.outcome (.number id) = .ok after ∧ Outcome.Toward side before after)
      ⟨hl, before, hbefore, .refl side before⟩ ?_
    rintro l₁ call hcall a l₂ h ⟨hl₁, between, hbetween, htoward⟩
    obtain ⟨henv, hc⟩ := hcalls call hcall
    obtain ⟨after, hafter, hleans⟩ := hl₁.outcome_leans hbetween h
    have haccepts := (perform_eq_ok hl₁.indexed).mp h
    exact ⟨hl₁.accepts henv haccepts, after, hafter, htoward.trans (hleans side hc)⟩
  exact hboth.2

/-- In every ledger that comes about, a ballot in favor that is accepted never makes the outcome of
its vote worse, and a ballot against never makes it better.  A ballot on another vote and a later
end change nothing about it. -/
theorem outcome_monotone (hl : l.Reachable) (hbefore : l.outcome (.number id) = .ok before)
    (h : perform env c l = .ok a l') :
    ∃ after, l'.outcome (.number id) = .ok after ∧
      (∀ voter justification, c = .applyVote (.number id) voter .inFavor justification →
        before ≤ after) ∧
      (∀ voter justification, c = .applyVote (.number id) voter .against justification →
        after ≤ before) ∧
      (∀ vote voter stance justification, c = .applyVote vote voter stance justification →
        vote ≠ .number id → after = before) ∧
      (∀ vote additional, c = .extendVote vote additional → after = before) := by
  obtain ⟨after, hafter, hleans⟩ := hl.sound.outcome_leans hbefore h
  refine ⟨after, hafter, ?_, ?_, ?_, ?_⟩
  · rintro voter justification rfl
    exact (hleans .inFavor fun _ => rfl).1 rfl
  · rintro voter justification rfl
    exact (hleans .against fun _ => rfl).2 rfl
  · -- Such a ballot leans to both sides.
    rintro vote voter stance justification rfl hother
    exact Outcome.Toward.antisymm (hleans .inFavor fun hid => absurd hid hother)
      (hleans .against fun hid => absurd hid hother)
  · rintro vote additional rfl
    exact Outcome.Toward.antisymm (hleans .inFavor trivial) (hleans .against trivial)

namespace Sample

/-- The vote once alice, who was against, is in favor.  The ballot of bob is still stale. -/
def turnedVote : Vote :=
  { laterVote with
    poll := { laterVote.poll with inFavor := 1, against := 0 }
    seats := [⟨.text "alice", ⟨1, .inFavor, .text "why", false⟩⟩,
      ⟨.text "bob", ⟨1, .inFavor, .absent, true⟩⟩] }

theorem vote?_later : (opened.run later).vote? 1 = some laterVote := by
  rw [vote?, run_later]
  rfl

theorem perform_turn :
    perform host (.applyVote (.number 1) (.text "alice") .inFavor (.text "why"))
        (opened.run later) =
      .ok (.cast ⟨1, .text "alice", .against, ⟨1, .inFavor, .text "why", false⟩, turnedVote.poll⟩)
        ((opened.run later).replaceVote turnedVote) := by
  have hindexed : (opened.run later).Indexed :=
    (reachable_opened.run later_wellTyped).sound.indexed
  have hvote : (opened.run later).require (.number 1) = .ok laterVote :=
    require_number.mpr vote?_later
  have hheight : host.height = .ok 5 := rfl
  have hseat : laterVote.ballot? (Value.text "alice").display =
      some ⟨1, .against, .absent, false⟩ := by
    decide
  have hchange : Ballot.change ⟨1, .against, .absent, false⟩ .inFavor (.text "why") =
      .ok ⟨1, .inFavor, .text "why", false⟩ := rfl
  have htransfer : laterVote.poll.transfer 1 .against .inFavor = .ok turnedVote.poll := rfl
  have hrevises := Revises.cast hvote hheight rfl hseat hchange htransfer
  exact (perform_eq_ok hindexed).mpr (.revised hrevises)

end Sample

/-- One ballot that turns takes a vote from rejected to pending, and no further. -/
theorem outcome_monotone_turned :
    (Sample.opened.run Sample.later).outcome (.number 1) = .ok .rejected ∧
      ((Sample.opened.run Sample.later).replaceVote Sample.turnedVote).outcome (.number 1) =
        .ok .pending ∧ Outcome.rejected ≤ .pending := by
  have hreachable := Sample.reachable_opened.run Sample.later_wellTyped
  have hbefore : (Sample.opened.run Sample.later).outcome (.number 1) = .ok .rejected :=
    outcome_eq_ok.mpr ⟨Sample.laterVote, Sample.vote?_later, rfl⟩
  have hafter : ((Sample.opened.run Sample.later).replaceVote Sample.turnedVote).outcome
      (.number 1) = .ok .pending := by
    rw [replaceVote, updateVote, Sample.run_later]
    rfl
  obtain ⟨after, hoks, hfor, -⟩ := outcome_monotone hreachable hbefore Sample.perform_turn
  obtain rfl : .pending = after := Except.ok.inj (hafter.symm.trans hoks)
  exact ⟨hbefore, hafter, hfor _ _ rfl⟩

end Ledger

end Plebiscite
