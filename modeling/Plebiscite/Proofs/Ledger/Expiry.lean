import Plebiscite.Proofs.Ledger.Endurance
import Plebiscite.Proofs.Ledger.Refusal
import Plebiscite.Proofs.Ledger.Reopening

/-!
# The end of a vote

A ledger reads the clock of its host, and that clock never goes back.  So a vote that is over stays
over, and what was counted stays counted, until its end is moved; and an end that was moved holds
at least until then.  A ballot is refused for the end of the vote exactly when the vote is over,
whoever casts it, because that is checked first.

## Main definitions

- `Ledger.Clocked`: a ledger with the clock that it reads, and its runs
- `Clocked.Expired`: a vote that is over
- `Clocked.Extends`, `Clocked.Move.Clears`: the moves that may let a vote that is over go on, and
  start its count anew
- `Ledger.CountedAlike`: two ledgers that count the same for a vote

## Main results

- `Ledger.refusedWith_voteExpired_iff`: which ballots are refused for the end of the vote
- `Clocked.Steady.exists_follows`: what one move does to a vote
- `Clocked.Steady.exists_run`: what moves do to the end of a vote
- `Ledger.expiry_final`: what is over stays over, and what is extended stays open
-/

namespace Plebiscite

/-! ## Counts and ends -/

/-- Two states of a vote that are counted alike: the same tallies, the same ballots, and bounds that
differ in nothing that counts. -/
structure Vote.Tied (v w : Vote) : Prop where
  inFavor : w.poll.inFavor = v.poll.inFavor
  against : w.poll.against = v.poll.against
  bounds : w.poll.threshold.bare = v.poll.threshold.bare
  seats : w.seats = v.seats

theorem Vote.Tied.self (v : Vote) : v.Tied v :=
  ⟨rfl, rfl, rfl, rfl⟩

theorem Vote.Tied.outcome {v w : Vote} (h : v.Tied w) : w.poll.outcome = v.poll.outcome := by
  obtain ⟨hfor, hagainst, -⟩ := Threshold.mk.inj h.bounds
  simp only [Poll.outcome, h.inFavor, h.against, hfor, hagainst]

namespace Poll

variable {p q : Poll} {now : Number}

theorem isPastEnd_iff : p.isPastEnd now = true ↔ ∃ e ∈ p.ends, e.lt now = true := by
  simp only [isPastEnd, endedBy?, Option.isSome_filter]
  cases p.ends <;> simp

/-- What is over at some height is over at any later one. -/
theorem isPastEnd_mono {later : Number} (h : p.isPastEnd now = true) (hle : now.le later = true) :
    p.isPastEnd later = true := by
  obtain ⟨e, he, hlt⟩ := isPastEnd_iff.mp h
  exact isPastEnd_iff.mpr ⟨e, he, Number.lt_of_lt_of_le hlt hle⟩

/-- A vote is not over as long as its end is not passed. -/
theorem isPastEnd_eq_false {e : Number} (he : e ∈ p.ends) (hle : now.le e = true) :
    p.isPastEnd now = false := by
  rw [← Bool.not_eq_true, isPastEnd_iff]
  rintro ⟨e', he', hlt⟩
  obtain rfl := Option.mem_unique he he'
  rw [Number.not_lt_of_le hle] at hlt
  cases hlt

/-- An end that is moved is not before the height that it is moved to. -/
theorem exists_end_extend {e candidate : Number} (he : p.ends = some e)
    (hcandidate : Guard.isBlockHeight (.number candidate) = true) :
    ∃ e' ∈ (p.extend candidate).ends, candidate.le e' = true := by
  simp only [extend, he]
  split
  · rename_i hle
    exact ⟨e, he, hle⟩
  · obtain ⟨k, rfl, -⟩ := Height.exists_of_isBlockHeight hcandidate
    exact ⟨.ofInt k, rfl, by simp⟩

end Poll

namespace Ledger

variable {l l' : Ledger} {env : Environment} {c : Command} {a : Answer} {v w : Vote}

/-! ## Ballots that come too late -/

theorem isExpired_eq_ok {id : Value} {past : Bool} :
    l.isExpired env id = .ok past ↔
      ∃ v now, l.require id = .ok v ∧ env.height = .ok now ∧ v.poll.isPastEnd now = past := by
  simp only [isExpired, Checks.bind_eq_ok, Checks.pure_eq_ok]
  constructor
  · rintro ⟨v, hv, now, hnow, hover⟩
    exact ⟨v, now, hv, hnow, hover⟩
  · rintro ⟨v, now, hv, hnow, hover⟩
    exact ⟨v, hv, now, hnow, hover⟩

/-- A ballot for a vote that is over is refused for that, before anything else is looked at. -/
theorem applyVote_of_isExpired {id : Value} (voter : Value) (stance : Stance)
    (justification : Value) (h : l.isExpired env id = .ok true) :
    RefusedWith .voteExpired env l (.applyVote id voter stance justification) := by
  obtain ⟨v, now, hv, hnow, hover⟩ := isExpired_eq_ok.mp h
  obtain ⟨ends, hends⟩ := Option.isSome_iff_exists.mp hover
  have hcast : applyVote env id voter stance justification l = .error (.ended v.id ends) l := by
    simp only [applyVote, bind, EStateM.bind, Step.get_eq, check, hv, hnow, hends]
    rfl
  refine ⟨.ended v.id ends, l, ?_, rfl⟩
  show (Answer.cast <$> applyVote env id voter stance justification) l = _
  simp only [Functor.map, EStateM.map, hcast]

/-- No other ballot is refused for that. -/
theorem applyVote_failsOnly_of_voteExpired (id voter : Value) (stance : Stance)
    (justification : Value) :
    Step.FailsOnly l (fun f => f.code = .voteExpired → l.isExpired env id = .ok true)
      (applyVote env id voter stance justification) := by
  refine .get_bind (.check_bind ?_ fun v hv => .check_bind ?_ fun now hnow => ?_)
  · exact failsOnly_of_codes (require_failsWith l id) (by decide)
  · exact failsOnly_of_codes env.height_failsWith (by decide)
  cases hends : v.poll.endedBy? now with
  | some ends =>
    have hover : v.poll.isPastEnd now = true := by
      rw [Poll.isPastEnd, hends]
      rfl
    exact .throw_bind fun _ => isExpired_eq_ok.mpr ⟨v, now, hv, hnow, hover⟩
  | none =>
    -- None of the checks that are left speaks of the end.
    dsimp only
    cases v.ballot? voter.display with
    | none => exact .throw (by simp [Fault.code])
    | some previous =>
      refine .check_bind ?_ fun ballot _ => .check_bind ?_ fun poll _ => .of_succeeds ?_
      · exact failsOnly_of_codes (Ballot.change_failsWith _ _ _) (by decide)
      · exact failsOnly_of_codes (Poll.transfer_failsWith _ _ _ _) (by decide)
      · exact (Step.succeeds_modify _).bind fun _ => (Step.succeeds_modify _).bind fun _ =>
          Step.succeeds_pure _

/-- The ballots that are refused for the end of a vote are those for a vote that is over. -/
theorem refusedWith_voteExpired_iff {id voter : Value} {stance : Stance} {justification : Value} :
    RefusedWith .voteExpired env l (.applyVote id voter stance justification) ↔
      l.isExpired env id = .ok true := by
  constructor
  · rintro ⟨f, l', hf, hcode⟩
    have hcast : Step.FailsOnly l (fun f => f.code = .voteExpired → l.isExpired env id = .ok true)
        (perform env (.applyVote id voter stance justification)) :=
      .andThen (applyVote_failsOnly_of_voteExpired id voter stance justification) fun _ =>
        Step.succeeds_pure _
    exact hcast.of_error hf hcode
  · exact applyVote_of_isExpired voter stance justification

/-! ## A ledger and its clock -/

/-- A ledger with the clock that it reads. -/
structure Clocked where
  ledger : Ledger
  clock : Clock

namespace Clocked

/-- What may happen to a ledger and its clock. -/
inductive Move where
  | advanceTo (height : Value)
  | advanceBy (blocks : Value)
  /-- A call, with the stakes of that moment. -/
  | call (stakes : StakeSource) (c : Command)
  /-- The ledger is stored and opened again. -/
  | reopen (o : Options)

/-- What a command reads from outside. -/
def host (s : Clocked) (stakes : StakeSource) : Environment :=
  ⟨.number s.clock.height, stakes⟩

/-- The clock after a move, which stays as it is where it cannot be moved. -/
def tick (s : Clocked) (clock : Except Fault Clock) : Clocked :=
  match clock with
  | .ok clock => { s with clock }
  | .error _ => s

/-- The ledger and its clock after a move. -/
def move (s : Clocked) : Move → Clocked
  | .advanceTo height => s.tick (s.clock.advanceTo height)
  | .advanceBy blocks => s.tick (s.clock.advanceBy blocks)
  | .call stakes c => { s with ledger := s.ledger.after (s.host stakes) c }
  | .reopen o => { s with ledger := s.ledger.move (.reopen o) }

/-- The ledger and its clock after several moves. -/
def run (s : Clocked) (moves : List Move) : Clocked :=
  moves.foldl move s

/-- Whatever source of stakes is asked lists texts, and stances are known. -/
def Move.Typed : Move → Prop
  | .call stakes c => stakes.WellTyped ∧ c.Known
  | _ => True

/-- The ledgers with their clocks that come about, from nothing or from any snapshot of ballots of
texts. -/
inductive Reachable : Clocked → Prop
  | empty {o : Options} {height : Value} {l : Ledger} {clock : Clock}
      (hl : Ledger.empty o = .ok l) (hclock : Clock.start height = .ok clock) :
      Reachable ⟨l, clock⟩
  | restored {o : Options} {height : Value} {stored : Snapshot} {l : Ledger} {clock : Clock}
      (hl : restore o stored = .ok l)
      (hmembers : ∀ e ∈ stored.records, Plan.isNamed e.member = true)
      (hclock : Clock.start height = .ok clock) : Reachable ⟨l, clock⟩
  | moved {s : Clocked} {m : Move} (hs : Reachable s) (hm : m.Typed) : Reachable (s.move m)

/-- A vote is over, by the clock of the ledger. -/
def Expired (s : Clocked) (id : Number) : Prop :=
  ∀ stakes, s.ledger.isExpired (s.host stakes) (.number id) = .ok true

/-- A move that is a call to move the end of a vote, and is accepted. -/
def Extends (s : Clocked) (id : Number) (m : Move) : Prop :=
  ∃ stakes additional a l', m = .call stakes (.extendVote (.number id) additional) ∧
    perform (s.host stakes) (.extendVote (.number id) additional) s.ledger = .ok a l'

/-- Moves by which the end of a vote is not moved. -/
def Unextended (s : Clocked) (id : Number) : List Move → Prop
  | [] => True
  | m :: moves => ¬ s.Extends id m ∧ (s.move m).Unextended id moves

/-- A move that is a call to start the tallies of a vote anew. -/
def Move.Clears (id : Number) (m : Move) : Prop :=
  ∃ stakes topic, m = .call stakes (.updateTopic (.number id) topic true)

variable {s : Clocked} {m : Move}

@[simp]
theorem run_nil : s.run [] = s :=
  rfl

@[simp]
theorem run_cons (m : Move) (moves : List Move) : s.run (m :: moves) = (s.move m).run moves :=
  rfl

theorem tick_ledger (s : Clocked) (clock : Except Fault Clock) :
    (s.tick clock).ledger = s.ledger := by
  cases clock <;> rfl

/-! ## One move -/

/-- A ledger whose votes can be stored as they are and end at heights, with a clock that shows a
height. -/
structure Steady (s : Clocked) : Prop where
  orderly : s.ledger.Orderly
  timely : s.ledger.Timely
  height : Guard.isBlockHeight (.number s.clock.height) = true

/-- What a move does to a vote: its end is not taken back and moves only where it is extended, and
once the vote is over it is counted anew only where its tallies are cleared. -/
structure Follows (s : Clocked) (m : Move) (v w : Vote) : Prop where
  id : w.id = v.id
  later : ∀ e ∈ v.poll.ends, ∃ e' ∈ w.poll.ends, e.le e' = true
  ends : ¬ s.Extends v.id m → w.poll.ends = v.poll.ends
  tied : v.poll.isPastEnd s.clock.height = true → ¬ m.Clears v.id → v.Tied w

namespace Steady

theorem host_height (hs : s.Steady) (stakes : StakeSource) :
    (s.host stakes).height = .ok s.clock.height :=
  Height.read_eq_ok.mpr ⟨rfl, hs.height⟩

theorem ends_later (hs : s.Steady) (hv : v ∈ s.ledger.votes) :
    ∀ e ∈ v.poll.ends, ∃ e' ∈ v.poll.ends, e.le e' = true :=
  (Vote.Endures.self (hs.timely.ends v hv)).poll.ends

/-- A vote that is left as it is. -/
theorem follows_self (hs : s.Steady) (hv : v ∈ s.ledger.votes) : Follows s m v v :=
  ⟨rfl, hs.ends_later hv, fun _ => rfl, fun _ _ => .self v⟩

/-- A vote that was stored and opened again. -/
theorem follows_bare (hs : s.Steady) (hv : v ∈ s.ledger.votes) : Follows s m v v.bare :=
  ⟨rfl, hs.ends_later hv, fun _ => rfl, fun _ _ => ⟨rfl, rfl, rfl, rfl⟩⟩

/-- A vote that is over takes no ballots, so only clearing it changes the count. -/
theorem follows_of_revises (hs : s.Steady) {stakes : StakeSource}
    (h : Revises (s.host stakes) s.ledger c v w a) : Follows s (.call stakes c) v w := by
  have hperform := (perform_eq_ok hs.orderly.sound.indexed).mpr (.revised h)
  have hlater := (h.endures hs.timely).poll.ends
  cases h with
  | cast hvote hnow hopen hseat hchange htransfer =>
    obtain ⟨rfl, -⟩ := Poll.eq_of_transfer htransfer
    refine ⟨rfl, hlater, fun _ => rfl, fun hover => ?_⟩
    -- The ballot was taken, so the vote was not over.
    obtain rfl := Except.ok.inj (hnow.symm.trans (hs.host_height stakes))
    rw [Poll.isPastEnd, hopen] at hover
    cases hover
  | @extended id additional _ _ _ hvote =>
    obtain rfl := (mem_of_require hvote).2
    refine ⟨rfl, hlater, fun hnot => ?_, fun _ _ => ?_⟩
    · exact absurd ⟨stakes, additional, _, _, rfl, hperform⟩ hnot
    · rw [Poll.extend_eq]
      exact ⟨rfl, rfl, rfl, rfl⟩
  | retitled => exact ⟨rfl, hlater, fun _ => rfl, fun _ _ => ⟨rfl, rfl, rfl, rfl⟩⟩
  | @cleared id topic _ hvote =>
    obtain rfl := (mem_of_require hvote).2
    refine ⟨rfl, hlater, fun _ => rfl, fun _ hnot => ?_⟩
    exact absurd ⟨stakes, topic, rfl⟩ hnot

/-- Every vote is there after a move, and the move did to it what moves do. -/
theorem exists_follows (hs : s.Steady) (m : Move) (hv : v ∈ s.ledger.votes) :
    ∃ w ∈ (s.move m).ledger.votes, Follows s m v w := by
  cases m with
  | advanceTo height => exact ⟨v, (tick_ledger s _).symm ▸ hv, hs.follows_self hv⟩
  | advanceBy blocks => exact ⟨v, (tick_ledger s _).symm ▸ hv, hs.follows_self hv⟩
  | call stakes c =>
    have hindexed := hs.orderly.sound.indexed
    rcases after_cases hindexed (s.host stakes) c with hsame | ⟨a, haccepts⟩
    · refine ⟨v, ?_, hs.follows_self hv⟩
      simp only [move, hsame]
      exact hv
    · obtain ⟨w, hw, hstep⟩ := exists_of_accepts hindexed haccepts hv
      rcases hstep with rfl | hrevises
      · exact ⟨w, hw, hs.follows_self hv⟩
      · exact ⟨w, hw, hs.follows_of_revises hrevises⟩
  | reopen o =>
    -- What is stored leaves out nothing of a vote but what else was said with its bounds.
    simp only [move, Ledger.move]
    cases h : restore o s.ledger.snapshot with
    | ok l' => exact ⟨v.bare, (hs.orderly.mem_of_reopen h).mpr ⟨v, hv, rfl⟩, hs.follows_bare hv⟩
    | error f => exact ⟨v, hv, hs.follows_self hv⟩

theorem tick (hs : s.Steady) {clock : Except Fault Clock}
    (h : ∀ c, clock = .ok c → s.clock.Later c) :
    (s.tick clock).Steady ∧ s.clock.Later (s.tick clock).clock := by
  cases clock with
  | ok c => exact ⟨⟨hs.orderly, hs.timely, (h c rfl).height⟩, h c rfl⟩
  | error f => exact ⟨hs, .self hs.height⟩

/-- No move takes the clock back. -/
theorem move (hs : s.Steady) (hm : m.Typed) :
    (s.move m).Steady ∧ s.clock.Later (s.move m).clock := by
  cases m with
  | advanceTo height => exact hs.tick fun c hc => Clock.later_of_advanceTo hs.height hc
  | advanceBy blocks => exact hs.tick fun c hc => Clock.later_of_advanceBy hs.height hc
  | call stakes c =>
    obtain ⟨htyped, hknown⟩ := hm
    refine ⟨⟨hs.orderly.after htyped hknown, ?_, hs.height⟩, .self hs.height⟩
    rcases after_cases hs.timely.indexed (s.host stakes) c with hsame | ⟨a, haccepts⟩
    · simp only [Clocked.move, hsame]
      exact hs.timely
    · exact hs.timely.accepts htyped.named haccepts
  | reopen o =>
    refine ⟨⟨hs.orderly.reopen o, ?_, hs.height⟩, .self hs.height⟩
    simp only [Clocked.move, Ledger.move]
    cases h : restore o s.ledger.snapshot with
    | ok l' => exact timely_of_restore h
    | error f => exact hs.timely

/-- Whatever comes about is steady. -/
theorem of_reachable (hs : s.Reachable) : s.Steady := by
  induction hs with
  | empty hl hclock =>
    exact ⟨.of_empty hl, timely_of_empty hl, Clock.isBlockHeight_of_start hclock⟩
  | restored hl hmembers hclock =>
    exact ⟨.of_restore hl hmembers, timely_of_restore hl, Clock.isBlockHeight_of_start hclock⟩
  | moved _ hm ih => exact (ih.move hm).1

/-! ## Runs -/

theorem run (hs : s.Steady) {moves : List Move} (hmoves : ∀ m ∈ moves, m.Typed) :
    (s.run moves).Steady ∧ s.clock.Later (s.run moves).clock := by
  induction moves generalizing s with
  | nil => exact ⟨hs, .self hs.height⟩
  | cons m moves ih =>
    obtain ⟨hstep, hlater⟩ := hs.move (hmoves m List.mem_cons_self)
    obtain ⟨hrest, hlater'⟩ := ih hstep fun m' hm' => hmoves m' (List.mem_cons_of_mem m hm')
    exact ⟨hrest, hlater.trans hlater'⟩

/-- After any moves a vote is there with an end that is no earlier, and with the same end unless it
was extended. -/
theorem exists_run (hs : s.Steady) {moves : List Move} (hmoves : ∀ m ∈ moves, m.Typed)
    (hv : v ∈ s.ledger.votes) :
    ∃ w ∈ (s.run moves).ledger.votes, w.id = v.id ∧
      (∀ e ∈ v.poll.ends, ∃ e' ∈ w.poll.ends, e.le e' = true) ∧
      (s.Unextended v.id moves → w.poll.ends = v.poll.ends) := by
  induction moves generalizing s v with
  | nil => exact ⟨v, hv, rfl, hs.ends_later hv, fun _ => rfl⟩
  | cons m moves ih =>
    -- The vote after the first move is the one that the rest is about.
    obtain ⟨u, hu, hstep⟩ := hs.exists_follows m hv
    have hsteady := (hs.move (hmoves m List.mem_cons_self)).1
    obtain ⟨w, hw, hid, hlater, hends⟩ :=
      ih hsteady (fun m' hm' => hmoves m' (List.mem_cons_of_mem m hm')) hu
    refine ⟨w, hw, hid.trans hstep.id, fun e he => ?_, fun hnot => ?_⟩
    · obtain ⟨e', he', hle⟩ := hstep.later e he
      obtain ⟨e'', he'', hle'⟩ := hlater e' he'
      exact ⟨e'', he'', Number.le_trans hle hle'⟩
    · obtain ⟨hfirst, hrest⟩ := hnot
      rw [hends (hstep.id ▸ hrest), hstep.ends hfirst]

/-! ## Votes that are over -/

theorem expired_iff (hs : s.Steady) {id : Number} :
    s.Expired id ↔
      ∃ v ∈ s.ledger.votes, v.id = id ∧ v.poll.isPastEnd s.clock.height = true := by
  constructor
  · intro h
    obtain ⟨v, now, hv, hnow, hover⟩ := isExpired_eq_ok.mp (h ⟨fun _ => none, fun _ => none⟩)
    obtain rfl := Except.ok.inj (hnow.symm.trans (hs.host_height _))
    obtain ⟨hmem, hid⟩ := mem_of_vote? (require_number.mp hv)
    exact ⟨v, hmem, hid, hover⟩
  · rintro ⟨v, hv, rfl, hover⟩ stakes
    have hvote := (vote?_iff hs.timely.indexed).mpr ⟨hv, rfl⟩
    exact isExpired_eq_ok.mpr
      ⟨v, s.clock.height, require_number.mpr hvote, hs.host_height stakes, hover⟩

/-- A vote that is over stays over unless it is extended. -/
theorem expired_run (hs : s.Steady) {moves : List Move} (hmoves : ∀ m ∈ moves, m.Typed)
    {id : Number} (h : s.Expired id) (hnot : s.Unextended id moves) :
    (s.run moves).Expired id := by
  obtain ⟨v, hv, rfl, hover⟩ := hs.expired_iff.mp h
  obtain ⟨hsteady, hlater⟩ := hs.run hmoves
  obtain ⟨w, hw, hid, -, hends⟩ := hs.exists_run hmoves hv
  refine hsteady.expired_iff.mpr ⟨w, hw, hid, ?_⟩
  obtain ⟨e, he, hlt⟩ := Poll.isPastEnd_iff.mp (Poll.isPastEnd_mono hover hlater.le)
  exact Poll.isPastEnd_iff.mpr ⟨e, hends hnot ▸ he, hlt⟩

end Steady

end Clocked

/-- Two ledgers count the same for a vote: the tallies, the ballots and the outcome. -/
structure CountedAlike (id : Number) (l l' : Ledger) : Prop where
  tallies : (l'.poll? id).map (fun p => (p.inFavor, p.against)) =
    (l.poll? id).map fun p => (p.inFavor, p.against)
  ballots : l'.ballots id = l.ballots id
  outcome : l'.outcome (.number id) = l.outcome (.number id)

theorem countedAlike_of_tied (hl : l.Indexed) (hl' : l'.Indexed) (hv : v ∈ l.votes)
    (hw : w ∈ l'.votes) (hid : w.id = v.id) (h : v.Tied w) : CountedAlike v.id l l' := by
  have hvote : l.vote? v.id = some v := (vote?_iff hl).mpr ⟨hv, rfl⟩
  have hvote' : l'.vote? v.id = some w := (vote?_iff hl').mpr ⟨hw, hid⟩
  refine ⟨?_, ?_, ?_⟩
  · simp [poll?, hvote, hvote', h.inFavor, h.against]
  · simp [Ledger.ballots, hvote, hvote', h.seats]
  · simp only [Ledger.outcome, require_number.mpr hvote, require_number.mpr hvote', Except.map,
      h.outcome]

namespace Clocked

variable {s : Clocked} {id now : Number}

/-- Nothing but clearing changes the count of a vote that is over. -/
theorem Steady.countedAlike (hs : s.Steady) (h : s.Expired id) {m : Move} (hm : m.Typed)
    (hnot : ¬ m.Clears id) : CountedAlike id s.ledger (s.move m).ledger := by
  obtain ⟨v, hv, rfl, hover⟩ := hs.expired_iff.mp h
  obtain ⟨w, hw, hstep⟩ := hs.exists_follows m hv
  exact countedAlike_of_tied hs.timely.indexed (hs.move hm).1.timely.indexed hv hw hstep.id
    (hstep.tied hover hnot)

/-- A vote that has an end is extended by a number of blocks from what the clock shows, to an end
that is no earlier than that. -/
theorem Steady.exists_of_extended (hs : s.Steady) {stakes : StakeSource} {additional : Value}
    {a : Answer} (hends : ((s.ledger.poll? id).bind (·.ends)).isSome = true)
    (h : perform (s.host stakes) (.extendVote (.number id) additional) s.ledger = .ok a l') :
    ∃ j k : Nat, s.clock.height = .ofInt j ∧ additional = .number (.ofInt k) ∧
      j + k ≤ Number.maxSafe ∧ ∃ w ∈ l'.votes, w.id = id ∧
        ∃ e ∈ w.poll.ends, (Number.ofInt ((j + k : Nat) : Int)).le e = true := by
  cases accepts_of_perform hs.timely.indexed h with
  | opened ho => cases ho
  | @revised _ v w _ hrevises =>
    have hw : w ∈ (s.ledger.replaceVote w).votes :=
      (mem_replaceVote hrevises.mem hrevises.id_eq).mpr (.inl rfl)
    cases hrevises with
    | @extended _ _ _ now candidate hvote hnow hcandidate =>
      have hheight := Height.isBlockHeight_of_add hcandidate
      obtain ⟨j, k, hj, rfl, rfl, hle⟩ := Height.exists_of_add hcandidate
      obtain rfl := Except.ok.inj (hnow.symm.trans (hs.host_height stakes))
      obtain rfl := Value.number.inj (mem_of_require hvote).2
      simp only [poll?, require_number.mp hvote, Option.map_some, Option.bind_some,
        Option.isSome_iff_exists] at hends
      obtain ⟨e, he⟩ := hends
      exact ⟨j, k, Value.number.inj hj, rfl, hle, _, hw, rfl,
        Poll.exists_end_extend he hheight⟩

/-- As long as its end is not passed a vote is not over, whatever happens in between. -/
theorem Steady.isExpired_eq_false (hs : s.Steady) (hv : v ∈ s.ledger.votes) {e : Number}
    (he : e ∈ v.poll.ends) {moves : List Move} (hmoves : ∀ m ∈ moves, m.Typed)
    (hnow : env.height = .ok now) (hle : now.le e = true) :
    (s.run moves).ledger.isExpired env (.number v.id) = .ok false := by
  obtain ⟨w, hw, hid, hlater, -⟩ := hs.exists_run hmoves hv
  obtain ⟨e', he', hle'⟩ := hlater e he
  have hvote := (vote?_iff (hs.run hmoves).1.timely.indexed).mpr ⟨hw, hid⟩
  exact isExpired_eq_ok.mpr ⟨w, now, require_number.mpr hvote, hnow,
    Poll.isPastEnd_eq_false he' (Number.le_trans hle hle')⟩

end Clocked

/-- A ledger from nothing or from any snapshot, with a clock that its host moves, through any calls
and any number of times that it is stored and opened again.  A vote is over exactly when a ballot
for it would be refused for that, whoever casts it.  Once it is over it stays over, takes no ballot,
and keeps its tallies, its ballots and its outcome unless the tallies are cleared, until it is
extended.  And a vote with an end that is extended is open up to the height that it is extended
to. -/
theorem expiry_final {s : Clocked} (hs : s.Reachable) (id : Number) :
    (∀ stakes voter stance justification,
      s.ledger.isExpired (s.host stakes) (.number id) = .ok true ↔
        RefusedWith .voteExpired (s.host stakes) s.ledger
          (.applyVote (.number id) voter stance justification)) ∧
    (s.Expired id → ∀ moves : List Clocked.Move, (∀ m ∈ moves, m.Typed) →
      s.Unextended id moves →
        (s.run moves).Expired id ∧
        (∀ stakes voter stance justification,
          RefusedWith .voteExpired ((s.run moves).host stakes) (s.run moves).ledger
            (.applyVote (.number id) voter stance justification)) ∧
        ∀ m : Clocked.Move, m.Typed → ¬ m.Clears id →
          CountedAlike id (s.run moves).ledger ((s.run moves).move m).ledger) ∧
    ∀ (stakes : StakeSource) (additional : Value) (a : Answer) (l' : Ledger),
      stakes.WellTyped → ((s.ledger.poll? id).bind (·.ends)).isSome = true →
      perform (s.host stakes) (.extendVote (.number id) additional) s.ledger = .ok a l' →
        ∃ j k : Nat, s.clock.height = .ofInt j ∧ additional = .number (.ofInt k) ∧
          ∀ moves : List Clocked.Move, (∀ m ∈ moves, m.Typed) → ∀ n ≤ j + k, ∀ later,
            (s.run (.call stakes (.extendVote (.number id) additional) :: moves)).ledger.isExpired
              ⟨.number (.ofInt n), later⟩ (.number id) = .ok false := by
  have hsteady := Clocked.Steady.of_reachable hs
  refine ⟨fun stakes voter stance justification => refusedWith_voteExpired_iff.symm,
    fun hover moves hmoves hnot => ?_, fun stakes additional a l' hstakes hends h => ?_⟩
  · have hstill := hsteady.expired_run hmoves hover hnot
    refine ⟨hstill, fun stakes voter stance justification => ?_, fun m hm hclears => ?_⟩
    · exact refusedWith_voteExpired_iff.mpr (hstill stakes)
    · exact (hsteady.run hmoves).1.countedAlike hstill hm hclears
  · -- From the extension on, no move takes the end back before the height that it names.
    obtain ⟨j, k, hj, hk, hle, w, hw, rfl, e, he, hend⟩ := hsteady.exists_of_extended hends h
    refine ⟨j, k, hj, hk, fun moves hmoves n hn later => ?_⟩
    have hcall : (Clocked.Move.call stakes (.extendVote (.number w.id) additional)).Typed :=
      ⟨hstakes, trivial⟩
    have hafter : (s.move (.call stakes (.extendVote (.number w.id) additional))).ledger = l' :=
      after_of_ok h
    have hnow : Environment.height ⟨.number (.ofInt n), later⟩ = .ok (.ofInt n) :=
      Height.read_eq_ok.mpr ⟨rfl, Height.isBlockHeight_ofInt (hn.trans hle)⟩
    have hsooner : (Number.ofInt n).le (.ofInt ((j + k : Nat) : Int)) = true := by
      simp only [Number.ofInt_le, decide_eq_true_eq]
      omega
    rw [Clocked.run_cons]
    exact (hsteady.move hcall).1.isExpired_eq_false (hafter ▸ hw) he hmoves hnow
      (Number.le_trans hsooner hend)

namespace Sample

/-- The vote of the two that is over after three blocks, four blocks later. -/
def late : Clocked :=
  ⟨start.addVote brief, ⟨9⟩⟩

theorem reachable_late : late.Reachable := by
  have hclock : Clock.start (.number 5) = .ok ⟨5⟩ := rfl
  have hstart : Clocked.Reachable ⟨start, ⟨5⟩⟩ := .empty empty_options hclock
  have hcall := hstart.moved (m := .call source briefly.command) ⟨source_wellTyped, trivial⟩
  have hhost : Clocked.host ⟨start, ⟨5⟩⟩ source = briefly.env := rfl
  have hopened := serve_briefly
  rw [serve_cons, serve_nil] at hopened
  rw [Clocked.move, hhost, hopened] at hcall
  have hadvanced : Clock.advanceTo ⟨5⟩ (.number 9) = .ok ⟨9⟩ := by
    decide +kernel
  have hlate := hcall.moved (m := .advanceTo (.number 9)) trivial
  rw [Clocked.move, hadvanced] at hlate
  exact hlate

/-- A ballot that comes too late, another topic, and a clock that is not to be taken back, with the
ledger stored and opened again under other options. -/
def tampering : List Clocked.Move :=
  [.call source (.applyVote (.number 1) (.text "bob") .inFavor .absent),
   .call source (.updateTopic (.number 1) (.text "other") false),
   .reopen ⟨.number 3, .absent⟩,
   .advanceTo (.number 2)]

theorem tampering_typed : ∀ m ∈ tampering, m.Typed := by
  simp [tampering, Clocked.Move.Typed, Command.Known, Stance.all, source_wellTyped]

end Sample

/-- The vote stays over, and takes ballots again for the ten blocks that it is then given. -/
theorem expiry_final_late :
    Sample.late.Reachable ∧ Sample.late.Expired 1 ∧
    (Sample.late.run Sample.tampering).Expired 1 ∧
    (Sample.late.run (.call Sample.source (.extendVote (.number 1) (.number 10)) ::
      Sample.tampering)).ledger.isExpired ⟨.number 19, Sample.source⟩ (.number 1) =
        .ok false := by
  have hfinal := expiry_final Sample.reachable_late 1
  have hover : Sample.late.Expired 1 := fun _ => rfl
  have hnot : Sample.late.Unextended 1 Sample.tampering := by
    refine ⟨?_, ?_, ?_, ?_, trivial⟩ <;> rintro ⟨_, _, _, _, h, -⟩ <;> cases h
  have hindexed := (Clocked.Steady.of_reachable Sample.reachable_late).timely.indexed
  have hnow : (Sample.late.host Sample.source).height = .ok 9 := by
    decide +kernel
  have hend : Height.add (.number 9) (.number 10) = .ok 19 := by
    decide +kernel
  have hrevises : Revises (Sample.late.host Sample.source) Sample.late.ledger
      (.extendVote (.number 1) (.number 10)) Sample.brief _ _ :=
    .extended (by decide +kernel) hnow hend
  have hextended := perform_of_accepts hindexed (.revised hrevises)
  obtain ⟨j, k, hj, hk, hopen⟩ :=
    hfinal.2.2 _ _ _ _ Sample.source_wellTyped (by decide +kernel) hextended
  have hj : (9 : Int) = j := Number.ofInt_inj.mp hj
  have hk : (10 : Int) = k := Number.ofInt_inj.mp (Value.number.inj hk)
  exact ⟨Sample.reachable_late, hover,
    (hfinal.2.1 hover Sample.tampering Sample.tampering_typed hnot).1,
    hopen Sample.tampering Sample.tampering_typed 19 (by omega) Sample.source⟩

end Ledger

end Plebiscite
