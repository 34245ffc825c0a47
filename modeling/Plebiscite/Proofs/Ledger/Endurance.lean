import Plebiscite.Proofs.Ledger.Membership
import Plebiscite.Proofs.Ledger.Restorable

/-!
# What stays of a vote

A vote is minted once and is never removed.  Ballots are cast, put aside and handed out anew, topics
change, and more votes are minted from stakes that are no longer the same; the members, their
signal, the bounds and the height at which the vote was opened stay what they were.  Only the end
may move, and only to a later height.

## Main definitions

- `Poll.Endures`, `Vote.Endures`, `Ledger.Endures`: what stays of a poll, of a vote, and of what a
  ledger says of a vote
- `Ledger.Timely`: all ends are heights

## Main results

- `Ledger.Revises.endures`: what stays of a vote that is revised
- `Ledger.Timely.serve`: what stays of a vote after any calls
- `Ledger.minted_once`: a vote is new when it is opened, and stays
-/

namespace Plebiscite

/-! ## What stays -/

/-- The later of two states of one poll: what was fixed when the vote was opened is the same, an end
is not taken away and not given, and it moves only to a later height. -/
structure Poll.Endures (p q : Poll) : Prop where
  turnout : q.turnout = p.turnout
  threshold : q.threshold = p.threshold
  initialized : q.initialized = p.initialized
  endless : p.ends = none → q.ends = none
  ends : ∀ e ∈ p.ends, ∃ e' ∈ q.ends, e.le e' = true

/-- The members of seats, each with its signal. -/
def Seat.shares (seats : List Seat) : List (Value × Int) :=
  seats.map fun seat => (seat.member, seat.ballot.magnitude)

/-- The later of two states of one vote: the same members hold the same signal. -/
structure Vote.Endures (v w : Vote) : Prop where
  id : w.id = v.id
  shares : Seat.shares w.seats = Seat.shares v.seats
  issued : w.issued = v.issued
  poll : v.poll.Endures w.poll

/-- The later of two ledgers says of a vote what the earlier one said. -/
structure Ledger.Endures (id : Number) (l l' : Ledger) : Prop where
  hasVote : l'.hasVote id = true
  shares : Seat.shares (l'.ballots id) = Seat.shares (l.ballots id)
  issuance : l'.issuance? id = l.issuance? id
  poll : ∀ p ∈ l.poll? id, ∃ q ∈ l'.poll? id, p.Endures q

namespace Poll

variable {p q r : Poll}

/-- Whatever is done to a poll that leaves its end where it is. -/
theorem Endures.of_ends (hp : ∀ n ∈ p.ends, Guard.isBlockHeight (.number n) = true)
    (hturnout : q.turnout = p.turnout) (hthreshold : q.threshold = p.threshold)
    (hinitialized : q.initialized = p.initialized) (hends : q.ends = p.ends) : p.Endures q where
  turnout := hturnout
  threshold := hthreshold
  initialized := hinitialized
  endless h := hends.trans h
  ends e he := by
    obtain ⟨k, rfl, -⟩ := Height.exists_of_isBlockHeight (hp e he)
    exact ⟨_, hends ▸ he, by simp⟩

theorem Endures.trans (hpq : p.Endures q) (hqr : q.Endures r) : p.Endures r where
  turnout := hqr.turnout.trans hpq.turnout
  threshold := hqr.threshold.trans hpq.threshold
  initialized := hqr.initialized.trans hpq.initialized
  endless h := hqr.endless (hpq.endless h)
  ends e he := by
    obtain ⟨e', he', hle⟩ := hpq.ends e he
    obtain ⟨e'', he'', hle'⟩ := hqr.ends e' he'
    exact ⟨e'', he'', Number.le_trans hle hle'⟩

/-- A candidate that is no later than the end is passed over. -/
theorem endures_extend (hp : ∀ n ∈ p.ends, Guard.isBlockHeight (.number n) = true)
    {candidate : Number} (hcandidate : Guard.isBlockHeight (.number candidate) = true) :
    p.Endures (p.extend candidate) := by
  cases hends : p.ends with
  | none =>
    refine .of_ends hp ?_ ?_ ?_ ?_ <;> simp [extend, hends]
  | some e =>
    obtain ⟨j, rfl, -⟩ := Height.exists_of_isBlockHeight (hp e hends)
    obtain ⟨k, rfl, -⟩ := Height.exists_of_isBlockHeight hcandidate
    by_cases hle : (k : Int) ≤ j
    · refine .of_ends hp ?_ ?_ ?_ ?_ <;> simp [extend, hends, hle]
    · refine ⟨?_, ?_, ?_, ?_, ?_⟩ <;> simp [extend, hends, hle]
      omega

end Poll

namespace Vote

variable {u v w : Vote}

theorem Endures.self (hv : ∀ n ∈ v.poll.ends, Guard.isBlockHeight (.number n) = true) :
    v.Endures v :=
  ⟨rfl, rfl, rfl, .of_ends hv rfl rfl rfl rfl⟩

theorem Endures.trans (huv : u.Endures v) (hvw : v.Endures w) : u.Endures w where
  id := hvw.id.trans huv.id
  shares := hvw.shares.trans huv.shares
  issued := hvw.issued.trans huv.issued
  poll := huv.poll.trans hvw.poll

/-- A ballot of the same signal leaves every share as it is. -/
theorem shares_setBallot (hnames : (v.seats.map Seat.name).Nodup) {name : String}
    {previous ballot : Ballot} (hseat : v.ballot? name = some previous)
    (hmagnitude : ballot.magnitude = previous.magnitude) :
    Seat.shares (v.setBallot name ballot).seats = Seat.shares v.seats := by
  obtain ⟨held, hheld, hname, hprevious⟩ := exists_seat_of_ballot? hseat
  simp only [Seat.shares, setBallot, List.map_map]
  refine List.map_congr_left fun seat hmem => ?_
  simp only [Function.comp_apply]
  split
  · rename_i hsame
    obtain rfl : seat = held :=
      List.inj_on_of_nodup_map hnames hmem hheld (hsame.trans hname.symm)
    rw [hmagnitude, hprevious]
  · rfl

theorem shares_resetBallots (policy : ResetPolicy) :
    Seat.shares (v.resetBallots policy).seats = Seat.shares v.seats := by
  simp [Seat.shares, resetBallots, Function.comp_def]

end Vote

namespace Ledger

variable {env : Environment} {l l' : Ledger} {c : Command} {a : Answer} {v w : Vote}

/-! ## One step -/

/-- Each vote is known by its identifier and each seat by its name, and all ends are heights. -/
structure Timely (l : Ledger) : Prop where
  indexed : l.Indexed
  ends : ∀ v ∈ l.votes, ∀ n ∈ v.poll.ends, Guard.isBlockHeight (.number n) = true

/-- A revision leaves of a vote whatever was fixed when it was opened. -/
theorem Revises.endures (h : Revises env l c v w a) (hl : l.Timely) : v.Endures w := by
  have hends := hl.ends v h.mem
  cases h with
  | @cast _ voter _ _ _ _ previous ballot _ hvote _ _ hseat hchange htransfer =>
    obtain ⟨rfl, -⟩ := Poll.eq_of_transfer htransfer
    have hmagnitude : ballot.magnitude = previous.magnitude := by
      rw [Ballot.eq_of_change hchange]
    have hnames := hl.indexed.names v (mem_of_require hvote).1
    exact ⟨rfl, Vote.shares_setBallot hnames hseat hmagnitude, rfl,
      .of_ends hends rfl rfl rfl rfl⟩
  | extended _ _ hcandidate =>
    exact ⟨rfl, rfl, rfl, Poll.endures_extend hends (Height.isBlockHeight_of_add hcandidate)⟩
  | retitled => exact ⟨rfl, rfl, rfl, .of_ends hends rfl rfl rfl rfl⟩
  | cleared =>
    exact ⟨rfl, Vote.shares_resetBallots l.settings.policy, rfl, .of_ends hends rfl rfl rfl rfl⟩

namespace Timely

theorem accepts (hl : l.Timely) (henv : env.stakes.Named) (h : Accepts env l c a l') :
    l'.Timely := by
  refine ⟨hl.indexed.accepts henv h, ?_⟩
  apply h.forall_votes hl.ends
  · intro o v _ hopens
    exact isBlockHeight_of_endOf hopens.ends
  · intro v w hrevises hv n hn
    rcases hrevises.poll.2.2 n hn with hn | hn
    · exact hv n hn
    · exact hn

/-- No accepted command removes a vote, and none changes what was fixed of one. -/
theorem exists_endures (hl : l.Timely) (h : Accepts env l c a l') (hv : v ∈ l.votes) :
    ∃ w ∈ l'.votes, v.Endures w := by
  obtain ⟨w, hw, hstep⟩ := exists_of_accepts hl.indexed h hv
  rcases hstep with rfl | hrevises
  · exact ⟨w, hw, .self (hl.ends w hv)⟩
  · exact ⟨w, hw, hrevises.endures hl⟩

end Timely

/-! ## Runs -/

/-- A ledger that was restored has heights for ends, whatever counters it was given. -/
theorem timely_of_restore {o : Options} {s : Snapshot} (h : restore o s = .ok l) : l.Timely := by
  refine ⟨(sound_of_restore h).indexed, fun v hv n hn => ?_⟩
  obtain ⟨r, hr, rfl⟩ := restore_eq_ok.mp h
  obtain ⟨k, hk, hle⟩ := (hr.restorable ((r.votes_perm s).subset hv)).ends n hn
  rw [hk]
  exact Height.isBlockHeight_ofInt hle

theorem timely_of_empty {o : Options} (h : Ledger.empty o = .ok l) : l.Timely := by
  obtain ⟨settings, -, rfl⟩ := Checks.exceptMap_eq_ok.mp h
  exact ⟨⟨List.nodup_nil, by simp [blank]⟩, by simp [blank]⟩

namespace Timely

variable {calls : List Call}

theorem serve (hl : l.Timely) (hcalls : ∀ call ∈ calls, call.env.stakes.Named) :
    (l.serve calls).Timely := by
  refine serve_induction hl fun l call hcall a l' h hl => ?_
  exact hl.accepts (hcalls call hcall) ((perform_eq_ok hl.indexed).mp h)

/-- A vote outlives any calls. -/
theorem exists_endures_serve (hl : l.Timely) (hcalls : ∀ call ∈ calls, call.env.stakes.Named)
    (hv : v ∈ l.votes) : ∃ w ∈ (l.serve calls).votes, v.Endures w := by
  -- The invariant carries along that the ledger stays timely, which the next step needs.
  have hboth : (l.serve calls).Timely ∧ ∃ w ∈ (l.serve calls).votes, v.Endures w := by
    refine serve_induction (P := fun l' => l'.Timely ∧ ∃ w ∈ l'.votes, v.Endures w)
      ⟨hl, v, hv, .self (hl.ends v hv)⟩ fun l₁ call hcall a l₂ h ⟨hl₁, w, hw, hendures⟩ => ?_
    have haccepts := (perform_eq_ok hl₁.indexed).mp h
    obtain ⟨w', hw', hstep⟩ := hl₁.exists_endures haccepts hw
    exact ⟨hl₁.accepts (hcalls call hcall) haccepts, w', hw', hendures.trans hstep⟩
  exact hboth.2

end Timely

theorem hasVote_addVote : (l.addVote v).hasVote v.id = true := by
  simp only [hasVote, vote?, List.find?_isSome, decide_eq_true_eq]
  exact ⟨v, mem_addVote.mpr (.inl rfl), rfl⟩

/-- What a vote keeps is what a ledger says of it. -/
theorem endures_of_vote (hl' : l'.Indexed) (hv : l.vote? v.id = some v) (hw : w ∈ l'.votes)
    (h : v.Endures w) : Endures v.id l l' := by
  have hw' : l'.vote? v.id = some w := (vote?_iff hl').mpr ⟨hw, h.id⟩
  refine ⟨?_, ?_, ?_, ?_⟩
  · simp [hasVote, hw']
  · simpa [ballots, hv, hw'] using h.shares
  · simpa [issuance?, hv, hw'] using h.issued
  · simpa [poll?, hv, hw'] using h.poll

/-- From nothing or from any snapshot that is accepted, through any calls with any clock and any
stakes: a vote is opened under an identifier that was not taken, and a vote that exists stays, with
the members, the signal, the bounds and the height that it has, without an end if it has none, and
otherwise with an end that is no earlier. -/
theorem minted_once {o : Options} {start : Ledger}
    (hstart : Ledger.empty o = .ok start ∨ ∃ s, restore o s = .ok start) {calls more : List Call}
    (hcalls : ∀ call ∈ calls ++ more, call.env.stakes.Named) :
    (∀ env c id l', perform env c (start.serve calls) = .ok (.opened id) l' →
      (start.serve calls).hasVote id = false ∧ l'.hasVote id = true) ∧
    ∀ id, (start.serve calls).hasVote id = true →
      Endures id (start.serve calls) (start.serve (calls ++ more)) := by
  have hstart : start.Timely := by
    rcases hstart with h | ⟨s, h⟩
    · exact timely_of_empty h
    · exact timely_of_restore h
  have hl := hstart.serve fun call hcall => hcalls call (List.mem_append_left _ hcall)
  have hmore : ∀ call ∈ more, call.env.stakes.Named := fun call hcall =>
    hcalls call (List.mem_append_right _ hcall)
  constructor
  · intro env c id l' h
    cases (perform_eq_ok hl.indexed).mp h with
    | opened _ hopens =>
      exact ⟨Identifier.not_taken_of_next hopens.free, hasVote_addVote⟩
    | revised hrevises => cases hrevises
  · intro id hid
    obtain ⟨v, hv⟩ := Option.isSome_iff_exists.mp hid
    obtain ⟨hmem, rfl⟩ := mem_of_vote? hv
    rw [serve_append]
    obtain ⟨w, hw, hendures⟩ := hl.exists_endures_serve hmore hmem
    exact endures_of_vote (hl.serve hmore).indexed hv hw hendures

/-! ## A vote with an end -/

namespace Sample

/-- The vote of the two, to be over after three blocks. -/
def brief : Vote :=
  { vote with poll := { vote.poll with ends := some 8 } }

/-- What it is opened with. -/
def briefly : Call :=
  ⟨host, .openPercentVote { request with duration := .number 3 }⟩

theorem serve_briefly : start.serve [briefly] = start.addVote brief := by
  have hopens : Opens host start
      ⟨.text "topic", .of .equal "org", .percent threshold, .number 3⟩ brief :=
    ⟨opens.valid, opens.initialized, by decide +kernel, opens.minted, opens.topic,
      opens.threshold, opens.within, opens.uncounted, opens.free⟩
  have hperform : perform host briefly.command start =
      .ok (.opened brief.id) (start.addVote brief) :=
    (perform_eq_ok_of_opening rfl).mpr ⟨brief, hopens, rfl, rfl⟩
  rw [serve_cons, serve_nil]
  exact after_of_ok hperform

/-- A ballot, another topic, and an end that is moved while the clock stands earlier than when the
vote was opened. -/
def meddling : List Call :=
  [⟨host, .applyVote (.number 1) (.text "bob") .inFavor .absent⟩,
   ⟨host, .updateTopic (.number 1) (.text "other") true⟩,
   ⟨⟨.number 2, source⟩, .extendVote (.number 1) (.number 10)⟩,
   ⟨⟨.number 2, source⟩, .extendVote (.number 1) (.number 1)⟩]

end Sample

/-- The vote keeps its two members, and the later of the two ends that it was given. -/
theorem minted_once_briefly :
    Ledger.empty Sample.options = .ok Sample.start ∧
    (∀ call ∈ [Sample.briefly] ++ Sample.meddling, call.env.stakes.Named) ∧
    Endures 1 (Sample.start.serve [Sample.briefly])
      (Sample.start.serve ([Sample.briefly] ++ Sample.meddling)) ∧
    ((Sample.start.serve ([Sample.briefly] ++ Sample.meddling)).poll? 1).bind (·.ends) =
      some 12 := by
  have hnamed : ∀ call ∈ [Sample.briefly] ++ Sample.meddling, call.env.stakes.Named := by
    simpa [Sample.briefly, Sample.meddling, Sample.host] using Sample.source_wellTyped.named
  have hkept := minted_once (.inl Sample.empty_options) hnamed
  refine ⟨Sample.empty_options, hnamed, hkept.2 1 ?_, ?_⟩
  · rw [Sample.serve_briefly]
    rfl
  · rw [serve_append, Sample.serve_briefly]
    decide +kernel

end Ledger

end Plebiscite
