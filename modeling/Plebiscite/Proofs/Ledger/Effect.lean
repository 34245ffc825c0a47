import Mathlib.Data.List.Nodup
import Mathlib.Tactic.Common
import Plebiscite.Proofs.Checks
import Plebiscite.Proofs.Identifier
import Plebiscite.Proofs.Keyed
import Plebiscite.Proofs.Ledger.Step
import Plebiscite.Proofs.Threshold

/-!
# What commands do

An accepted command does one of three things: it keeps a rule, it opens a vote, or it revises one
vote.  This is said once here, with everything that was checked before; whatever holds of all
ledgers follows from it.

## Main definitions

- `Ledger.Opening`, `Ledger.opening?`: what a command opens a vote with
- `Ledger.Opens`, `Vote.Revises`: the vote that is opened, and the vote that is revised
- `Ledger.Accepts`: what an accepted command does
- `Ledger.Indexed`: every vote is known by its identifier, every seat by its name

## Main results

- `Ledger.perform_eq_ok`: a command is accepted exactly with these effects
-/

namespace Plebiscite

/-- The vote with the ballots handed out or put aside as a policy says. -/
def Vote.resetBallots (policy : ResetPolicy) (v : Vote) : Vote :=
  { v with seats := v.seats.map fun seat => { seat with ballot := policy.reset seat.ballot } }

namespace Ledger

/-- What a vote is opened with. -/
structure Opening where
  topic : Value
  electorate : Electorate
  rule : Rule
  duration : Value

/-- What a command opens a vote with, if it is to open one. -/
def opening? (l : Ledger) : Command → Option Opening
  | .openVote r => some ⟨r.topic, r.electorate, .signal r.threshold, r.duration⟩
  | .openPercentVote r => some ⟨r.topic, r.electorate, .percent r.threshold, r.duration⟩
  | .invokeThreshold id topic duration =>
    (l.register.get? id).map fun entry => ⟨topic, entry.electorate, entry.rule, duration⟩
  | _ => none

/-- The ledger with a vote that was just opened. -/
def addVote (l : Ledger) (vote : Vote) : Ledger :=
  { l with
    votes := insertVote l.votes vote
    lastVote := some vote.id
    openVotes := some (Counter.succ l.openVotes) }

/-- The ledger with another vote in the place of the one with its identifier. -/
def replaceVote (l : Ledger) (vote : Vote) : Ledger :=
  l.updateVote vote.id fun _ => vote

/-- A vote that can be opened with what was asked for: everything was checked. -/
structure Opens (env : Environment) (l : Ledger) (o : Opening) (vote : Vote) : Prop where
  valid : o.rule.validate = .ok ()
  initialized : env.height = .ok vote.poll.initialized
  ends : endOf vote.poll.initialized o.duration = .ok vote.poll.ends
  minted : ∃ plan, Plan.make env.stakes o.electorate = .ok plan ∧ vote.issued = plan.total ∧
    vote.poll.turnout = plan.total ∧ vote.seats = seatsOf plan
  topic : vote.poll.topic = o.topic
  threshold : vote.poll.threshold = o.rule.boundsAt vote.poll.turnout
  within : vote.poll.threshold.isWithin vote.poll.turnout = true
  uncounted : vote.poll.inFavor = 0 ∧ vote.poll.against = 0
  free : Identifier.next l.lastVote l.settings.ceiling l.hasVote = .ok vote.id

/-- Every vote is known by its identifier, and every seat of a vote by its name. -/
structure Indexed (l : Ledger) : Prop where
  ids : (l.votes.map (·.id)).Nodup
  names : ∀ v ∈ l.votes, (v.seats.map Seat.name).Nodup

/-- A command that revises a vote, with the revised vote and the answer. -/
inductive Revises (env : Environment) (l : Ledger) :
    Command → Vote → Vote → Answer → Prop
  /-- A ballot is cast or changed. -/
  | cast {id voter : Value} {stance : Stance} {justification : Value} {v : Vote} {now : Number}
      {previous ballot : Ballot} {poll : Poll}
      (hvote : l.require id = .ok v) (hnow : env.height = .ok now)
      (hopen : v.poll.endedBy? now = none) (hseat : v.ballot? voter.display = some previous)
      (hchange : previous.change stance justification = .ok ballot)
      (htransfer : v.poll.transfer previous.magnitude previous.counted stance = .ok poll) :
      Revises env l (.applyVote id voter stance justification) v
        { v.setBallot voter.display ballot with poll }
        (.cast ⟨v.id, voter, previous.stance, ballot, poll⟩)
  /-- The end moves later. -/
  | extended {id additional : Value} {v : Vote} {now candidate : Number}
      (hvote : l.require id = .ok v) (hnow : env.height = .ok now)
      (hcandidate : Height.add (.number now) additional = .ok candidate) :
      Revises env l (.extendVote id additional) v { v with poll := v.poll.extend candidate }
        (.updated (v.poll.extend candidate))
  /-- The topic is replaced. -/
  | retitled {id topic : Value} {v : Vote} (hvote : l.require id = .ok v) :
      Revises env l (.updateTopic id topic false) v { v with poll := v.poll.retitle topic false }
        (.updated (v.poll.retitle topic false))
  /-- The topic is replaced, and the tallies start from nothing. -/
  | cleared {id topic : Value} {v : Vote} (hvote : l.require id = .ok v) :
      Revises env l (.updateTopic id topic true) v
        { v.resetBallots l.settings.policy with poll := v.poll.retitle topic true }
        (.updated (v.poll.retitle topic true))

/-- What an accepted command answers and does. -/
inductive Accepts (env : Environment) (l : Ledger) : Command → Answer → Ledger → Prop
  /-- A rule is kept. -/
  | registered {e : Electorate} {r : Rule} {entry : Registration} {register : Register}
      (h : l.register.register (.number l.settings.ceiling) e r = .ok (entry, register)) :
      Accepts env l (.registerThreshold e r) (.registered entry) { l with register }
  /-- A vote is opened. -/
  | opened {c : Command} {o : Opening} {vote : Vote} (ho : l.opening? c = some o)
      (h : Opens env l o vote) : Accepts env l c (.opened vote.id) (l.addVote vote)
  /-- A vote is revised. -/
  | revised {c : Command} {v v' : Vote} {a : Answer} (h : Revises env l c v v' a) :
      Accepts env l c a (l.replaceVote v')

/-! ## Votes in their places -/

section Places

variable {l : Ledger} {v w : Vote} {id : Value}

theorem mem_of_vote? {n : Number} (h : l.vote? n = some v) : v ∈ l.votes ∧ v.id = n :=
  Keyed.mem_of_find?_key h

theorem vote?_iff (hl : l.Indexed) {n : Number} :
    l.vote? n = some v ↔ v ∈ l.votes ∧ v.id = n :=
  Keyed.find?_key hl.ids

theorem mem_of_require (h : l.require id = .ok v) : v ∈ l.votes ∧ id = .number v.id := by
  unfold require at h
  split at h
  · rename_i vote hfind
    cases h
    obtain ⟨n, hn, hvote⟩ := Option.bind_eq_some_iff.mp hfind
    have hid : id = .number n := by
      cases id <;> simp_all [Value.number?]
    obtain ⟨hmem, rfl⟩ := mem_of_vote? hvote
    exact ⟨hmem, hid⟩
  · cases h

theorem require_number {n : Number} : l.require (.number n) = .ok v ↔ l.vote? n = some v := by
  unfold require
  simp only [Value.number?, Option.bind_some]
  cases l.vote? n <;> simp

theorem eq_of_id (hl : l.Indexed) (hv : v ∈ l.votes) (hw : w ∈ l.votes) (h : v.id = w.id) :
    v = w :=
  List.inj_on_of_nodup_map hl.ids hv hw h

/-- Only one vote has the identifier, so only one is updated. -/
theorem updateVote_eq (hl : l.Indexed) (hv : v ∈ l.votes) {f : Vote → Vote} (hf : f v = w)
    (hid : w.id = v.id) : l.updateVote v.id f = l.replaceVote w := by
  unfold replaceVote updateVote
  rw [hid]
  congr 1
  refine List.map_congr_left fun u hu => ?_
  split
  · rename_i huv
    rw [eq_of_id hl hu hv huv, hf]
  · rfl

end Places

/-! ## Opening -/

variable {env : Environment} {l l' : Ledger}

theorem mint_eq_ok {vote : Vote} {u : Unit} :
    mint vote l = .ok u l' ↔
      l.vote? vote.id = none ∧ l' = { l with votes := insertVote l.votes vote } := by
  simp [mint, issuance?, eq_comm (b := l')]

theorem hasVote_eq_false {n : Number} : l.hasVote n = false ↔ l.vote? n = none := by
  simp [hasVote]

/-- Opening a vote succeeds exactly with a vote for which everything was checked.  The identifier
is free, so nothing was ever minted for it. -/
theorem openWith_eq_ok {o : Opening} {id : Number} (hvalid : o.rule.validate = .ok ()) :
    openWith env o.topic o.electorate o.duration o.rule.boundsAt l = .ok id l' ↔
      ∃ vote, Opens env l o vote ∧ id = vote.id ∧ l' = l.addVote vote := by
  simp only [openWith, Step.bind_eq_ok, Step.check_eq_ok, Step.ite_throw_bind_eq_ok,
    Step.get_eq_ok, mint_eq_ok, Step.modify_eq_ok, Step.pure_eq_ok]
  constructor
  · rintro ⟨now, _, ⟨hnow, rfl⟩, ends, _, ⟨hends, rfl⟩, plan, _, ⟨hplan, rfl⟩, hwithin, _, _,
      ⟨rfl, rfl⟩, _, _, ⟨hid, rfl⟩, _, _, ⟨-, rfl⟩, _, _, rfl, rfl, rfl⟩
    refine ⟨⟨_, .create o.topic plan.total (o.rule.boundsAt plan.total) now ends, plan.total,
      seatsOf plan⟩, ?_, rfl, rfl⟩
    have hreached : (o.rule.boundsAt plan.total).isWithin plan.total = true := by
      simpa using hwithin
    exact ⟨hvalid, hnow, hends, ⟨plan, hplan, rfl, rfl, rfl⟩, rfl, rfl, hreached, ⟨rfl, rfl⟩,
      hid⟩
  · rintro ⟨vote, h, rfl, rfl⟩
    obtain ⟨plan, hplan, hissued, hturnout, hseats⟩ := h.minted
    -- What was checked leaves only the identifier open.
    have hvote : vote = ⟨vote.id, .create o.topic plan.total (o.rule.boundsAt plan.total)
        vote.poll.initialized vote.poll.ends, plan.total, seatsOf plan⟩ := by
      obtain ⟨id, ⟨topic, turnout, threshold, inFavor, against, initialized, ends⟩, issued,
        seats⟩ := vote
      obtain ⟨hfor, hagainst⟩ := h.uncounted
      have htopic := h.topic
      have hthreshold := h.threshold
      simp_all [Poll.create]
    have hfree := hasVote_eq_false.mp (Identifier.not_taken_of_next h.free)
    have hwithin := h.within
    rw [h.threshold, hturnout] at hwithin
    refine ⟨_, _, ⟨h.initialized, rfl⟩, _, _, ⟨h.ends, rfl⟩, plan, _, ⟨hplan, rfl⟩,
      by simpa using hwithin, _, _, ⟨rfl, rfl⟩, _, _, ⟨h.free, rfl⟩, (), _, ⟨hfree, rfl⟩, (), _,
      rfl, rfl, ?_⟩
    rw [← hvote]
    rfl

/-- The three commands that open a vote differ only in what they open it with. -/
theorem perform_eq_ok_of_opening {c : Command} {o : Opening} (ho : l.opening? c = some o)
    {a : Answer} :
    perform env c l = .ok a l' ↔
      ∃ vote, Opens env l o vote ∧ a = .opened vote.id ∧ l' = l.addVote vote := by
  have hperform : perform env c l = .ok a l' ↔ ∃ id, (check o.rule.validate >>= fun _ =>
      openWith env o.topic o.electorate o.duration o.rule.boundsAt) l = .ok id l' ∧
        .opened id = a := by
    cases c with
    | openVote r =>
      cases ho
      exact Step.map_eq_ok
    | openPercentVote r =>
      cases ho
      exact Step.map_eq_ok
    | invokeThreshold id topic duration =>
      obtain ⟨entry, hentry, rfl⟩ := Option.map_eq_some_iff.mp ho
      have hinvoke : invokeThreshold env id topic duration l = (check entry.rule.validate >>=
          fun _ => openWith env topic entry.electorate duration entry.rule.boundsAt) l := by
        -- Both kinds of rules are checked and opened in the same way.
        show ((check (l.register.resolve id)) >>= _) l = _
        rw [Register.resolve, hentry]
        cases hrule : entry.rule <;> simp only [bind, EStateM.bind, check, hrule] <;> rfl
      rw [← hinvoke]
      exact Step.map_eq_ok
    | _ => cases ho
  simp only [hperform, Step.bind_eq_ok, Step.check_eq_ok]
  constructor
  · rintro ⟨id, ⟨_, _, ⟨hvalid, rfl⟩, hopen⟩, rfl⟩
    obtain ⟨vote, h, rfl, hvote⟩ := (openWith_eq_ok hvalid).mp hopen
    exact ⟨vote, h, rfl, hvote⟩
  · rintro ⟨vote, h, rfl, hvote⟩
    exact ⟨vote.id, ⟨(), l, ⟨h.valid, rfl⟩, (openWith_eq_ok h.valid).mpr ⟨vote, h, rfl, hvote⟩⟩,
      rfl⟩

/-! ## Voting -/

theorem updateVote_updateVote {id : Number} {f : Vote → Vote} (g : Vote → Vote)
    (hf : ∀ w, w.id = id → (f w).id = id) :
    (l.updateVote id f).updateVote id g = l.updateVote id fun w => g (f w) := by
  unfold updateVote
  simp only [List.map_map]
  congr 1
  refine List.map_congr_left fun w _ => ?_
  by_cases hw : w.id = id
  · simp [hw, hf w hw]
  · simp [hw]

@[simp]
theorem writeBallot_eq_ok {id : Number} {name : String} {ballot : Ballot} {u : Unit} :
    writeBallot id name ballot l = .ok u l' ↔
      l' = l.updateVote id fun w => w.setBallot name ballot := by
  simp [writeBallot, eq_comm (b := l')]

@[simp]
theorem writePoll_eq_ok {id : Number} {poll : Poll} {u : Unit} :
    writePoll id poll l = .ok u l' ↔ l' = l.updateVote id fun w => { w with poll } := by
  simp [writePoll, eq_comm (b := l')]

theorem applyVote_eq_ok (hl : l.Indexed) {id voter : Value} {stance : Stance}
    {justification : Value} {receipt : Receipt} :
    applyVote env id voter stance justification l = .ok receipt l' ↔
      ∃ v v', Revises env l (.applyVote id voter stance justification) v v' (.cast receipt) ∧
        l' = l.replaceVote v' := by
  -- The ballot and the tallies are written apart, but to the same vote.
  have hwrites : ∀ {v : Vote} (ballot : Ballot) (poll : Poll), v ∈ l.votes →
      (l.updateVote v.id fun w => w.setBallot voter.display ballot).updateVote v.id
          (fun w => { w with poll }) =
        l.replaceVote { v.setBallot voter.display ballot with poll } := by
    intro v ballot poll hv
    have hid : ∀ w : Vote, w.id = v.id → (w.setBallot voter.display ballot).id = v.id :=
      fun _ hw => hw
    rw [updateVote_updateVote _ hid]
    exact updateVote_eq hl hv rfl rfl
  simp only [applyVote, Step.bind_eq_ok, Step.get_eq_ok, Step.check_eq_ok]
  constructor
  · rintro ⟨_, _, ⟨rfl, rfl⟩, v, _, ⟨hvote, rfl⟩, now, _, ⟨hnow, rfl⟩, h⟩
    cases hopen : v.poll.endedBy? now with
    | some ends => simp [hopen] at h
    | none =>
      cases hseat : v.ballot? voter.display with
      | none => simp [hopen, hseat] at h
      | some previous =>
        simp only [hopen, hseat, Step.bind_eq_ok, Step.check_eq_ok, writeBallot_eq_ok,
          writePoll_eq_ok, Step.pure_eq_ok] at h
        obtain ⟨ballot, _, ⟨hchange, rfl⟩, poll, _, ⟨htransfer, rfl⟩, _, _, rfl, _, _, rfl, rfl,
          rfl⟩ := h
        rw [hwrites _ _ (mem_of_require hvote).1]
        exact ⟨v, _, .cast hvote hnow hopen hseat hchange htransfer, rfl⟩
  · rintro ⟨v, _, h, rfl⟩
    cases h with
    | @cast _ _ _ _ _ now previous ballot poll hvote hnow hopen hseat hchange htransfer =>
      refine ⟨_, _, ⟨rfl, rfl⟩, v, _, ⟨hvote, rfl⟩, now, _, ⟨hnow, rfl⟩, ?_⟩
      simp only [hopen, hseat, Step.bind_eq_ok, Step.check_eq_ok, writeBallot_eq_ok,
        writePoll_eq_ok, Step.pure_eq_ok]
      exact ⟨ballot, _, ⟨hchange, rfl⟩, poll, _, ⟨htransfer, rfl⟩, (), _, rfl, (), _, rfl, rfl,
        hwrites _ _ (mem_of_require hvote).1⟩

theorem extendVote_eq_ok (hl : l.Indexed) {id additional : Value} {poll : Poll} :
    extendVote env id additional l = .ok poll l' ↔
      ∃ v v', Revises env l (.extendVote id additional) v v' (.updated poll) ∧
        l' = l.replaceVote v' := by
  simp only [extendVote, Step.bind_eq_ok, Step.get_eq_ok, Step.check_eq_ok,
    writePoll_eq_ok, Step.pure_eq_ok]
  constructor
  · rintro ⟨_, _, ⟨rfl, rfl⟩, v, _, ⟨hvote, rfl⟩, now, _, ⟨hnow, rfl⟩, candidate, _,
      ⟨hcandidate, rfl⟩, _, _, rfl, rfl, rfl⟩
    refine ⟨v, _, .extended hvote hnow hcandidate, ?_⟩
    exact updateVote_eq hl (mem_of_require hvote).1 rfl rfl
  · rintro ⟨v, _, h, rfl⟩
    cases h with
    | @extended _ _ _ now candidate hvote hnow hcandidate =>
      refine ⟨_, _, ⟨rfl, rfl⟩, v, _, ⟨hvote, rfl⟩, now, _, ⟨hnow, rfl⟩, candidate, _,
        ⟨hcandidate, rfl⟩, (), _, rfl, rfl, ?_⟩
      exact updateVote_eq hl (mem_of_require hvote).1 rfl rfl

end Ledger

/-! ## Clearing -/

namespace Vote

@[simp]
theorem setBallot_names (v : Vote) (name : String) (ballot : Ballot) :
    (v.setBallot name ballot).seats.map Seat.name = v.seats.map Seat.name := by
  refine Keyed.map_key_eq fun seat _ => ?_
  split <;> rfl

@[simp]
theorem resetBallots_names (v : Vote) (policy : ResetPolicy) :
    (v.resetBallots policy).seats.map Seat.name = v.seats.map Seat.name :=
  Keyed.map_key_eq fun _ _ => rfl

theorem mem_resetBallots {v : Vote} {policy : ResetPolicy} {seat : Seat}
    (h : seat ∈ (v.resetBallots policy).seats) :
    ∃ old ∈ v.seats, seat.ballot = policy.reset old.ballot := by
  obtain ⟨old, hold, rfl⟩ := List.mem_map.mp h
  exact ⟨old, hold, rfl⟩

theorem foldl_setBallot_id (reset : Ballot → Ballot) (todo : List Seat) (v : Vote) :
    (todo.foldl (fun w seat => w.setBallot seat.name (reset seat.ballot)) v).id = v.id := by
  induction todo generalizing v with
  | nil => rfl
  | cons seat todo ih => exact ih _

/-- Ballots that are written one after the other, for the seats that are still to do. -/
theorem foldl_setBallot {reset : Ballot → Ballot} {v : Vote} {done todo : List Seat}
    (hseats : v.seats = done ++ todo) (hnames : (v.seats.map Seat.name).Nodup) :
    todo.foldl (fun w seat => w.setBallot seat.name (reset seat.ballot)) v =
      { v with
        seats := done ++ todo.map fun seat => { seat with ballot := reset seat.ballot } } := by
  induction todo generalizing v done with
  | nil => simp [← hseats]
  | cons seat todo ih =>
    have hnew : seat.name ∉ done.map Seat.name ++ todo.map Seat.name := by
      rw [hseats, List.map_append, List.map_cons, List.nodup_middle] at hnames
      exact (List.nodup_cons.mp hnames).1
    obtain ⟨hdone, htodo⟩ := not_or.mp (mt List.mem_append.mpr hnew)
    -- No other seat has this name, so only this one is written.
    have hset : (v.setBallot seat.name (reset seat.ballot)).seats =
        (done ++ [{ seat with ballot := reset seat.ballot }]) ++ todo := by
      have hothers : ∀ seats : List Seat, seat.name ∉ seats.map Seat.name →
          (seats.map fun s : Seat =>
            if s.name = seat.name then { s with ballot := reset seat.ballot } else s) = seats := by
        intro seats hseat
        conv_rhs => rw [← List.map_id seats]
        refine List.map_congr_left fun s hs => if_neg fun h => hseat ?_
        exact h ▸ List.mem_map_of_mem hs
      simp [setBallot, hseats, hothers done hdone, hothers todo htodo]
    rw [List.foldl_cons, ih hset (by rwa [setBallot_names])]
    simp [setBallot]

theorem foldl_reset {policy : ResetPolicy} {v : Vote} (hnames : (v.seats.map Seat.name).Nodup) :
    v.seats.foldl (fun w seat => w.setBallot seat.name (policy.reset seat.ballot)) v =
      v.resetBallots policy :=
  foldl_setBallot (List.nil_append _).symm hnames

end Vote

namespace Ledger

variable {env : Environment} {l l' : Ledger}

theorem forM_writeBallot {id : Number} {reset : Ballot → Ballot} {todo : List Seat} {u : Unit} :
    (todo.forM fun seat => writeBallot id seat.name (reset seat.ballot)) l = .ok u l' ↔
      l' = l.updateVote id fun v =>
        todo.foldl (fun w seat => w.setBallot seat.name (reset seat.ballot)) v := by
  induction todo generalizing l with
  | nil =>
    have hnone : (l.updateVote id fun v => v) = l := by
      simp [updateVote]
    show (pure () : Step Unit) l = .ok u l' ↔ _
    simp [hnone, eq_comm]
  | cons seat todo ih =>
    show (writeBallot id seat.name (reset seat.ballot) >>= fun _ =>
      todo.forM fun seat => writeBallot id seat.name (reset seat.ballot)) l = .ok u l' ↔ _
    have hrest := @updateVote_updateVote l id (fun w => w.setBallot seat.name (reset seat.ballot))
      (fun w => todo.foldl (fun w seat => w.setBallot seat.name (reset seat.ballot)) w)
      fun _ hw => hw
    simp only [Step.bind_eq_ok, writeBallot_eq_ok, List.foldl_cons]
    constructor
    · rintro ⟨_, _, rfl, h⟩
      exact (ih.mp h).trans hrest
    · intro h
      exact ⟨(), _, rfl, ih.mpr (h.trans hrest.symm)⟩

theorem updateTopic_eq_ok (env : Environment) (hl : l.Indexed) {id topic : Value} {clear : Bool}
    {poll : Poll} :
    updateTopic id topic clear l = .ok poll l' ↔
      ∃ v v', Revises env l (.updateTopic id topic clear) v v' (.updated poll) ∧
        l' = l.replaceVote v' := by
  simp only [updateTopic, Step.bind_eq_ok, Step.get_eq_ok, Step.check_eq_ok]
  -- The ballots are written one by one before the tallies are.
  have hcleared : ∀ {v : Vote}, v ∈ l.votes →
      (l.updateVote v.id fun w => v.seats.foldl (fun w seat =>
          w.setBallot seat.name (l.settings.policy.reset seat.ballot)) w).updateVote v.id
          (fun w => { w with poll := v.poll.retitle topic true }) =
        l.replaceVote
          { v.resetBallots l.settings.policy with poll := v.poll.retitle topic true } := by
    intro v hv
    rw [updateVote_updateVote _ fun w hw => (Vote.foldl_setBallot_id _ _ w).trans hw]
    exact updateVote_eq hl hv (by rw [Vote.foldl_reset (hl.names v hv)]) rfl
  cases clear with
  | false =>
    constructor
    · rintro ⟨_, _, ⟨rfl, rfl⟩, v, _, ⟨hvote, rfl⟩, h⟩
      simp only [Bool.false_eq_true, if_false, writePoll_eq_ok, Step.bind_eq_ok,
        Step.pure_eq_ok] at h
      obtain ⟨_, _, rfl, rfl, rfl⟩ := h
      exact ⟨v, _, .retitled hvote, updateVote_eq hl (mem_of_require hvote).1 rfl rfl⟩
    · rintro ⟨v, _, h, rfl⟩
      cases h with
      | retitled hvote =>
        refine ⟨_, _, ⟨rfl, rfl⟩, v, _, ⟨hvote, rfl⟩, ?_⟩
        simp only [Bool.false_eq_true, if_false, writePoll_eq_ok, Step.bind_eq_ok,
          Step.pure_eq_ok]
        exact ⟨(), _, rfl, trivial, updateVote_eq hl (mem_of_require hvote).1 rfl rfl⟩
  | true =>
    constructor
    · rintro ⟨_, _, ⟨rfl, rfl⟩, v, _, ⟨hvote, rfl⟩, h⟩
      simp only [if_true, writePoll_eq_ok, Step.bind_eq_ok, forM_writeBallot,
        Step.pure_eq_ok] at h
      obtain ⟨_, _, rfl, _, _, rfl, rfl, rfl⟩ := h
      exact ⟨v, _, .cleared hvote, hcleared (mem_of_require hvote).1⟩
    · rintro ⟨v, _, h, rfl⟩
      cases h with
      | cleared hvote =>
        refine ⟨_, _, ⟨rfl, rfl⟩, v, _, ⟨hvote, rfl⟩, ?_⟩
        simp only [if_true, writePoll_eq_ok, Step.bind_eq_ok, forM_writeBallot,
          Step.pure_eq_ok]
        exact ⟨(), _, rfl, (), _, rfl, trivial, hcleared (mem_of_require hvote).1⟩

/-! ## Every command -/

theorem registerThreshold_eq_ok {e : Electorate} {r : Rule} {entry : Registration} :
    registerThreshold e r l = .ok entry l' ↔
      ∃ register, l.register.register (.number l.settings.ceiling) e r = .ok (entry, register) ∧
        l' = { l with register } := by
  simp only [registerThreshold, Step.bind_eq_ok, Step.get_eq_ok, Step.check_eq_ok,
    Step.set_eq_ok, Step.pure_eq_ok]
  constructor
  · rintro ⟨_, _, ⟨rfl, rfl⟩, ⟨_, register⟩, _, ⟨h, rfl⟩, _, _, rfl, rfl, rfl⟩
    exact ⟨register, h, rfl⟩
  · rintro ⟨register, h, rfl⟩
    exact ⟨l, l, ⟨rfl, rfl⟩, (entry, register), l, ⟨h, rfl⟩, (), _, rfl, rfl, rfl⟩

theorem invokeThreshold_ne_ok {id topic duration : Value} (h : l.register.get? id = none)
    {n : Number} : invokeThreshold env id topic duration l ≠ .ok n l' := by
  intro hok
  simp only [invokeThreshold, Step.bind_eq_ok, Step.get_eq_ok, Step.check_eq_ok] at hok
  obtain ⟨_, _, ⟨rfl, rfl⟩, entry, _, ⟨hentry, -⟩, -⟩ := hok
  simp [Register.resolve, h] at hentry

variable {c : Command} {a : Answer}

theorem accepts_of_perform (hl : l.Indexed) (h : perform env c l = .ok a l') :
    Accepts env l c a l' := by
  cases ho : l.opening? c with
  | some o =>
    obtain ⟨vote, hopens, rfl, rfl⟩ := (perform_eq_ok_of_opening ho).mp h
    exact .opened ho hopens
  | none =>
    cases c with
    | registerThreshold e r =>
      obtain ⟨entry, hentry, rfl⟩ := Step.map_eq_ok.mp h
      obtain ⟨register, hregister, rfl⟩ := registerThreshold_eq_ok.mp hentry
      exact .registered hregister
    | openVote r => cases ho
    | openPercentVote r => cases ho
    | invokeThreshold id topic duration =>
      -- Nothing is kept under this identifier.
      obtain ⟨n, hinvoke, rfl⟩ := Step.map_eq_ok.mp h
      exact absurd hinvoke (invokeThreshold_ne_ok (Option.map_eq_none_iff.mp ho))
    | applyVote id voter stance justification =>
      obtain ⟨receipt, hcast, rfl⟩ := Step.map_eq_ok.mp h
      obtain ⟨v, v', hrevises, rfl⟩ := (applyVote_eq_ok hl).mp hcast
      exact .revised hrevises
    | extendVote id additional =>
      obtain ⟨poll, hpoll, rfl⟩ := Step.map_eq_ok.mp h
      obtain ⟨v, v', hrevises, rfl⟩ := (extendVote_eq_ok hl).mp hpoll
      exact .revised hrevises
    | updateTopic id topic clear =>
      obtain ⟨poll, hpoll, rfl⟩ := Step.map_eq_ok.mp h
      obtain ⟨v, v', hrevises, rfl⟩ := (updateTopic_eq_ok env hl).mp hpoll
      exact .revised hrevises

theorem perform_of_accepts (hl : l.Indexed) (h : Accepts env l c a l') :
    perform env c l = .ok a l' := by
  cases h with
  | registered h =>
    exact Step.map_eq_ok.mpr ⟨_, registerThreshold_eq_ok.mpr ⟨_, h, rfl⟩, rfl⟩
  | opened ho h => exact (perform_eq_ok_of_opening ho).mpr ⟨_, h, rfl, rfl⟩
  | revised h =>
    have hrevises := h
    cases h with
    | cast =>
      exact Step.map_eq_ok.mpr ⟨_, (applyVote_eq_ok hl).mpr ⟨_, _, hrevises, rfl⟩, rfl⟩
    | extended =>
      exact Step.map_eq_ok.mpr ⟨_, (extendVote_eq_ok hl).mpr ⟨_, _, hrevises, rfl⟩, rfl⟩
    | retitled | cleared =>
      exact Step.map_eq_ok.mpr ⟨_, (updateTopic_eq_ok env hl).mpr ⟨_, _, hrevises, rfl⟩, rfl⟩

/-- A command is accepted exactly with the effects that accepted commands have. -/
theorem perform_eq_ok (hl : l.Indexed) : perform env c l = .ok a l' ↔ Accepts env l c a l' :=
  ⟨accepts_of_perform hl, perform_of_accepts hl⟩

end Ledger

end Plebiscite
