import Plebiscite.Proofs.Ledger.Aligned
import Plebiscite.Proofs.Ledger.RoundTrip

/-!
# Reset policies count alike

When the tallies of a vote are cleared, one policy hands its ballots out anew and another keeps them
as stale.  Side by side, two ledgers under these policies hold the same votes with the same tallies
for good.  Only who casts for neither side can tell them apart: a ballot that was kept may be
refused as no change.

## Main definitions

- `Ledger.verdict`: what a command is answered, or the code that it is refused with
- `Ledger.Concur`, `Ledger.SameCount`: how verdicts may differ, and what does not differ at all

## Main results

- `Ledger.perform_alike`: a command goes the same way at ledgers that are aligned
- `Ledger.policies_concur`: the two policies side by side, after any calls
-/

namespace Plebiscite.Ledger

variable {cleared : List Value} {l l' : Ledger} {v v' : Vote} {env : Environment}

/-! ## Casting a ballot -/

/-- How casting one ballot may come apart at a vote whose tallies were cleared. -/
inductive CastApart (cleared : Prop) (stance : Stance) :
    Except Fault Receipt → Except Fault Receipt → Prop
  /-- A stance for neither side is held already, from before. -/
  | repeated {receipt : Receipt} {f : Fault} (hcleared : cleared)
      (hunsided : stance.isSided = false) (hcast : stance ≠ .uninitialized)
      (hf : f.code = .noChange) : CastApart cleared stance (.ok receipt) (.error f)
  /-- A ballot is withdrawn that was handed out anew and not yet cast. -/
  | withdrawn {f g : Fault} (hcleared : cleared) (hstance : stance = .uninitialized)
      (hf : f.code = .noChange) (hg : g.code = .unsupportedTransition) :
      CastApart cleared stance (.error f) (.error g)

/-- The same receipt, whatever was held before. -/
def Receipt.Alike (r r' : Receipt) : Prop :=
  r' = { r with previous := r'.previous }

/-- What remains of casting a ballot once it is known which one is held. -/
def recast (v : Vote) (voter : Value) (previous : Ballot) (stance : Stance)
    (justification : Value) : Step Receipt := do
  let ballot ← check (previous.change stance justification)
  let poll ← check (v.poll.transfer previous.magnitude previous.counted stance)
  writeBallot v.id voter.display ballot
  writePoll v.id poll
  return ⟨v.id, voter, previous.stance, ballot, poll⟩

section Cast

open Step

variable {voter justification : Value} {previous previous' : Ballot} {stance : Stance}
  {E : Except Fault Receipt → Except Fault Receipt → Prop}

/-- Where the checks go the same way, so does the rest. -/
theorem recast_alike_of_agree (h : l.Aligned cleared l') (hv : v.Aligned cleared v')
    (hchange : Agree Eq (previous.change stance justification)
      (previous'.change stance justification))
    (htransfer : Agree Eq (v.poll.transfer previous.magnitude previous.counted stance)
      (v.poll.transfer previous'.magnitude previous'.counted stance)) :
    Alike (Aligned cleared) Receipt.Alike E (recast v voter previous stance justification l)
      (recast v' voter previous' stance justification l') := by
  unfold recast
  rw [hv.poll, hv.id]
  -- The new ballot does not depend on what was held, but for the magnitude, which is the same.
  refine .check_bind hchange h fun ballot _ hballot _ heq => ?_
  subst heq
  refine .check_bind htransfer h fun poll _ hpoll _ heq => ?_
  subst heq
  have hfresh : ballot.stale = false := by
    rw [Ballot.eq_of_change hballot]
  -- From here on both ledgers write the same.
  have hballots := h.writeBallot v.id voter.display (Ballot.Aligned.self hfresh)
  have hwritten := hballots.writePoll v.id (hv.covered.transfer hpoll)
  exact .modify_bind (.modify_bind (.passed rfl hwritten))

theorem recast_eq_ok {ballot : Ballot} {poll : Poll}
    (hchange : previous.change stance justification = .ok ballot)
    (htransfer : v.poll.transfer previous.magnitude previous.counted stance = .ok poll) :
    recast v voter previous stance justification l =
      .ok ⟨v.id, voter, previous.stance, ballot, poll⟩
        ((l.updateVote v.id fun w => w.setBallot voter.display ballot).updateVote v.id
          fun w => { w with poll }) := by
  unfold recast
  rw [hchange, htransfer]
  rfl

theorem recast_eq_error {f : Fault} (h : previous.change stance justification = .error f) :
    recast v voter previous stance justification l = .error f l := by
  unfold recast
  rw [h]
  rfl

/-- Only a stance for neither side can be held already where the other ballot was handed out
anew. -/
theorem recast_alike_of_repeated (h : l.Aligned cleared l') (hv : v.Aligned cleared v')
    (hmem : v' ∈ l'.votes) (hseat : v'.ballot? voter.display = some previous')
    (hcleared : .number v.id ∈ cleared)
    (hballots : previous.Aligned (.number v.id ∈ cleared) previous')
    (hanew : previous.stance = .uninitialized) (hunsided : previous'.counted.isSided = false)
    (hcast : stance ≠ .uninitialized) {f : Fault}
    (hchange : previous'.change stance justification = .error f) :
    Alike (Aligned cleared) Receipt.Alike (CastApart (.number v.id ∈ cleared) stance)
      (recast v voter previous stance justification l)
      (recast v' voter previous' stance justification l') := by
  -- What is refused is held already, and so it is counted for no side.
  obtain ⟨hcurrent, hheld, hcode⟩ := Ballot.change_eq_error hchange
  rw [Ballot.counted_of_fresh hcurrent, hheld] at hunsided
  -- Nothing is held where the ballot was handed out anew, so there it is accepted.
  have hballot : previous.change stance justification =
      .ok ⟨previous.magnitude, stance, justification, false⟩ := by
    rw [Ballot.change, hanew, Stance.uninitialized_repeats, decide_eq_false hcast,
      Bool.false_and, if_neg Bool.false_ne_true]
  have huncounted : previous.counted.isSided = false := by
    rw [Ballot.counted_of_fresh hballots.fresh, hanew]
    rfl
  have hpoll : v.poll.transfer previous.magnitude previous.counted stance = .ok v.poll :=
    Poll.transfer_of_unsided hv.covered huncounted hunsided hcast
  rw [recast_eq_ok hballot hpoll, recast_eq_error hchange]
  refine .apart (.repeated hcleared hunsided hcast hcode) ?_
  -- The ledger that refuses holds what the other one writes.
  have hsame : (l'.updateVote v.id fun w => w.setBallot voter.display previous').updateVote v.id
      (fun w => { w with poll := v.poll }) = l' := by
    rw [← hv.id, updateVote_of_fixed h.ids hmem (hv.setBallot_self hseat),
      updateVote_of_fixed h.ids hmem]
    rw [← hv.poll]
  have haligned : Ballot.Aligned (.number v.id ∈ cleared)
      ⟨previous.magnitude, stance, justification, false⟩ previous' :=
    ⟨hballots.magnitude, rfl, .inl ⟨hcurrent, hheld⟩⟩
  have hwritten := (h.writeBallot v.id voter.display haligned).writePoll v.id hv.covered
  rw [hsame] at hwritten
  exact hwritten

/-- A ballot cannot be withdrawn, but one that was handed out anew counts as withdrawn already. -/
theorem recast_alike_of_withdrawn (h : l.Aligned cleared l') (hcleared : .number v.id ∈ cleared)
    (hfresh : previous.stale = false) (hanew : previous.stance = .uninitialized)
    (hstance : stance = .uninitialized) :
    Alike (Aligned cleared) Receipt.Alike (CastApart (.number v.id ∈ cleared) stance)
      (recast v voter previous stance justification l)
      (recast v' voter previous' stance justification l') := by
  have hrefused : previous.change stance justification = .error (.unchanged stance) := by
    rw [Ballot.change, hanew, Stance.uninitialized_repeats, hstance, hfresh]
    rfl
  rw [recast_eq_error hrefused]
  -- A kept ballot may have no stance either, or one that cannot be taken back.
  cases hchange : previous'.change stance justification with
  | error f =>
    rw [recast_eq_error hchange]
    exact .refused (Ballot.change_eq_error hchange).2.2 h
  | ok ballot' =>
    have hwithdrawal : recast v' voter previous' stance justification l' =
        .error (.withdrawal previous'.counted) l' := by
      unfold recast
      rw [hchange, hstance]
      rfl
    rw [hwithdrawal]
    exact .apart (.withdrawn hcleared hstance rfl rfl) h

/-- Whoever casts a ballot is answered alike, but for a ballot that was put aside in one ledger and
handed out anew in the other. -/
theorem recast_alike (h : l.Aligned cleared l') (hv : v.Aligned cleared v') (hmem : v' ∈ l'.votes)
    (hseat : v'.ballot? voter.display = some previous')
    (hballots : previous.Aligned (.number v.id ∈ cleared) previous') :
    Alike (Aligned cleared) Receipt.Alike (CastApart (.number v.id ∈ cleared) stance)
      (recast v voter previous stance justification l)
      (recast v' voter previous' stance justification l') := by
  have hmagnitude := hballots.magnitude
  have hfresh := hballots.fresh
  rcases hballots.held with ⟨hcurrent, hstance⟩ | ⟨hcleared, hanew, hunsided⟩
  · -- The ballots differ in their justifications at most.
    apply recast_alike_of_agree h hv
    · rw [Ballot.change, Ballot.change, hmagnitude, hcurrent, hstance, hfresh]
      exact .refl _
    · rw [Ballot.counted_of_fresh hcurrent, Ballot.counted_of_fresh hfresh, hmagnitude, hstance]
      exact .refl _
  · by_cases hcast : stance = .uninitialized
    · exact recast_alike_of_withdrawn h hcleared hfresh hanew hcast
    · cases hchange : previous'.change stance justification with
      | error f =>
        exact recast_alike_of_repeated h hv hmem hseat hcleared hballots hanew hunsided hcast
          hchange
      | ok ballot' =>
        -- Both ballots leave no side and join the same one.
        apply recast_alike_of_agree h hv
        · rw [hchange, Ballot.eq_of_change hchange, Ballot.change, hanew,
            Stance.uninitialized_repeats, decide_eq_false hcast, hmagnitude]
          exact .ok rfl
        · rw [hmagnitude]
          refine Poll.transfer_agree _ _ _ ?_ hunsided
          rw [Ballot.counted_of_fresh hfresh, hanew]
          rfl

theorem applyVote_alike (h : l.Aligned cleared l') (env : Environment) (id voter : Value)
    (stance : Stance) (justification : Value) :
    Alike (Aligned cleared) Receipt.Alike (CastApart (id ∈ cleared) stance)
      (applyVote env id voter stance justification l)
      (applyVote env id voter stance justification l') := by
  refine .get_bind (.check_bind (h.require id) h fun v v' hv hv' halign => ?_)
  obtain ⟨-, rfl⟩ := mem_of_require hv
  refine .same_bind h fun now _ => ?_
  -- Aligned votes end at the same height, and the same members have a seat in them.
  have hends : v'.poll.endedBy? now = v.poll.endedBy? now := by
    rw [halign.poll]
  rw [hends]
  cases v.poll.endedBy? now with
  | some ends => exact .throw_bind h rfl
  | none =>
    dsimp only
    rcases halign.ballot?_cases voter.display with
      ⟨hnone, hnone'⟩ | ⟨previous, previous', hseat, hseat', hheld⟩
    · rw [hnone, hnone']
      exact .refused rfl h
    · rw [hseat, hseat']
      exact recast_alike h halign (mem_of_require hv').1 hseat' hheld

end Cast

/-! ## Other commands -/

section Commands

open Step

theorem extendVote_alike (h : l.Aligned cleared l') (env : Environment) (id additional : Value) :
    Alike (Aligned cleared) Eq Never (extendVote env id additional l)
      (extendVote env id additional l') := by
  refine .get_bind (.check_bind (h.require id) h fun v v' _ _ halign => ?_)
  refine .same_bind h fun now _ => .same_bind h fun candidate _ => ?_
  rw [halign.poll, halign.id]
  exact .modify_bind (.passed rfl (h.writePoll v.id (halign.covered.extend candidate)))

theorem updateTopic_alike (h : l.Aligned cleared l') (id topic : Value) :
    Alike (Aligned cleared) Eq Never (updateTopic id topic false l)
      (updateTopic id topic false l') := by
  refine .get_bind (.check_bind (h.require id) h fun v v' _ _ halign => ?_)
  rw [halign.poll, halign.id]
  exact .modify_bind (.passed rfl (h.writePoll v.id (halign.covered.retitle topic false)))

/-- Clearing the tallies hands out the ballots of one vote anew and puts those of the other
aside. -/
theorem updateTopic_clear_alike (h : l.Aligned cleared l') (id topic : Value)
    (hid : id ∈ cleared) :
    Alike (Aligned cleared) Eq Never (updateTopic id topic true l)
      (updateTopic id topic true l') := by
  refine .get_bind (.check_bind (h.require id) h fun v v' hv _ halign => ?_)
  obtain ⟨-, rfl⟩ := mem_of_require hv
  rw [halign.poll, halign.id, h.handsOut, h.keeps]
  -- The loop keeps the ledgers aligned round by round, seat beside seat.
  refine .forM_bind halign.seats h ?_ ?_
  · intro s s' l l' hs h
    rw [hs.name]
    exact h.writeBallot v.id s.name (hs.ballot.reset hid)
  · intro l l' h
    exact .modify_bind (.passed rfl (h.writePoll v.id (halign.covered.retitle topic true)))

theorem registerThreshold_alike (h : l.Aligned cleared l') (e : Electorate) (r : Rule) :
    Alike (Aligned cleared) Eq Never (registerThreshold e r l) (registerThreshold e r l') := by
  refine .get_bind ?_
  rw [h.register, h.ceiling]
  refine .same_bind h fun added _ => .passed rfl ?_
  exact ⟨h.handsOut, h.keeps, h.ceiling, rfl, h.lastVote, h.openVotes, h.votes, h.ids⟩

theorem mint_alike (h : l.Aligned cleared l') (hv : v.Aligned cleared v) :
    Alike (Aligned cleared) Eq Never (mint v l) (mint v l') := by
  refine .get_bind ?_
  have hcases := h.vote? v.id
  unfold issuance?
  generalize hfound : l.vote? v.id = found, hfound' : l'.vote? v.id = found' at hcases
  cases hcases with
  | none => exact .passed rfl (h.insertVote hv hfound')
  | some _ =>
    -- Signal was minted for it in both.
    exact .throw_bind h rfl

/-- The seats that are handed out are the same under both policies. -/
theorem seatsOf_aligned (plan : Plan) (cleared : Prop) :
    List.Forall₂ (Seat.Aligned cleared) (seatsOf plan) (seatsOf plan) := by
  refine List.forall₂_same.mpr fun s hs => ?_
  obtain ⟨a, -, rfl⟩ := List.mem_map.mp hs
  exact ⟨rfl, Ballot.Aligned.self rfl⟩

theorem shared_seatsOf (plan : Plan) :
    ∀ s ∈ seatsOf plan, ∀ t ∈ seatsOf plan, s.name = t.name → s.ballot = t.ballot := by
  intro s hs t ht hname
  obtain ⟨a, -, rfl⟩ := List.mem_map.mp hs
  obtain ⟨b, -, rfl⟩ := List.mem_map.mp ht
  simp only [Seat.name] at hname
  rw [hname]

/-- A vote that is opened in both ledgers is the same in both. -/
theorem openWith_alike (h : l.Aligned cleared l') (env : Environment) (topic : Value)
    (e : Electorate) (duration : Value) (bounds : Int → Threshold Int) :
    Alike (Aligned cleared) Eq Never (openWith env topic e duration bounds l)
      (openWith env topic e duration bounds l') := by
  refine .same_bind h fun now _ => .same_bind h fun ends _ => .same_bind h fun plan hplan => ?_
  by_cases hwithin : (!(bounds plan.total).isWithin plan.total) = true
  · rw [if_pos hwithin]
    exact .throw_bind h rfl
  · rw [if_neg hwithin]
    refine .get_bind ?_
    -- The search starts from the same counter and skips the same identifiers.
    rw [h.lastVote, h.ceiling, h.hasVote]
    refine .same_bind h fun id _ => ?_
    have hnonneg := Plan.nonneg_of_make hplan
    have hvote : Vote.Aligned cleared
        ⟨id, .create topic plan.total (bounds plan.total) now ends, plan.total, seatsOf plan⟩
        ⟨id, .create topic plan.total (bounds plan.total) now ends, plan.total, seatsOf plan⟩ :=
      ⟨rfl, rfl, rfl, ⟨hnonneg, hnonneg⟩, seatsOf_aligned plan _, shared_seatsOf plan⟩
    refine (mint_alike h hvote).bind fun _ _ l l' _ h => .modify_bind (.passed rfl ?_)
    exact ⟨h.handsOut, h.keeps, h.ceiling, h.register, rfl, by rw [h.openVotes], h.votes, h.ids⟩

theorem openVote_alike (h : l.Aligned cleared l') (env : Environment) (r : Request Int) :
    Alike (Aligned cleared) Eq Never (openVote env r l) (openVote env r l') :=
  .same_bind h fun _ _ => openWith_alike h _ _ _ _ _

theorem openPercentVote_alike (h : l.Aligned cleared l') (env : Environment)
    (r : Request Number) :
    Alike (Aligned cleared) Eq Never (openPercentVote env r l) (openPercentVote env r l') :=
  .same_bind h fun _ _ => openWith_alike h _ _ _ _ _

theorem invokeThreshold_alike (h : l.Aligned cleared l') (env : Environment)
    (id topic duration : Value) :
    Alike (Aligned cleared) Eq Never (invokeThreshold env id topic duration l)
      (invokeThreshold env id topic duration l') := by
  refine .get_bind ?_
  rw [h.register]
  refine .same_bind h fun entry _ => ?_
  cases entry.rule with
  | signal t => exact openVote_alike h env _
  | percent t => exact openPercentVote_alike h env _

end Commands

/-! ## Every command -/

/-- The vote whose tallies a command is to clear. -/
def Command.clears : Command → List Value
  | .updateTopic id _ true => [id]
  | _ => []

/-- The votes whose tallies are to be cleared by some call. -/
def clearedBy (calls : List Call) : List Value :=
  calls.flatMap (·.command.clears)

/-- The answer, less the stance that was held before. -/
def Answer.withoutPrevious : Answer → Answer
  | .cast receipt => .cast { receipt with previous := .uninitialized }
  | answer => answer

/-- What is told of an answer or a refusal. -/
def told : Except Fault Answer → Except Code Answer
  | .ok a => .ok a.withoutPrevious
  | .error f => .error f.code

/-- What a command is answered, less the stance that was held before, or the code that it is refused
with. -/
def verdict (l : Ledger) (env : Environment) (c : Command) : Except Code Answer :=
  told (Step.outcome (perform env c l))

/-- The verdicts on a command where ballots are handed out anew, and where they are kept.  They are
the same, but on whoever casts for neither side in a vote whose tallies were cleared. -/
inductive Concur (cleared : List Value) : Command → Except Code Answer → Except Code Answer → Prop
  | same {c : Command} {answer : Except Code Answer} : Concur cleared c answer answer
  /-- A stance for neither side, such as to abstain, is held already, from before. -/
  | repeated {id voter justification : Value} {stance : Stance} {a : Answer}
      (hcleared : id ∈ cleared) (hunsided : stance.isSided = false)
      (hcast : stance ≠ .uninitialized) :
      Concur cleared (.applyVote id voter stance justification) (.ok a) (.error .noChange)
  /-- Both refuse to withdraw the ballot, one of them since it holds none. -/
  | withdrawn {id voter justification : Value} (hcleared : id ∈ cleared) :
      Concur cleared (.applyVote id voter .uninitialized justification) (.error .noChange)
        (.error .unsupportedTransition)

theorem concur_of_castApart {id voter justification : Value} {stance : Stance}
    {r r' : Except Fault Receipt} (h : CastApart (id ∈ cleared) stance r r') :
    Concur cleared (.applyVote id voter stance justification) (told (r.map .cast))
      (told (r'.map .cast)) := by
  cases h with
  | repeated hcleared hunsided hcast hf =>
    simp only [Except.map, told, hf]
    exact .repeated hcleared hunsided hcast
  | withdrawn hcleared hstance hf hg =>
    simp only [Except.map, told, hf, hg, hstance]
    exact .withdrawn hcleared

section Perform

open Step

/-- Commands that cannot come apart are answered the same. -/
theorem alike_of_strict {α : Type} {m : Step α} {c : Command} (g : α → Answer)
    (hm : Alike (Aligned cleared) Eq Never (m l) (m l')) {earlier : List Value} :
    Alike (Aligned cleared) (fun a a' => a'.withoutPrevious = a.withoutPrevious)
      (fun r r' => Concur earlier c (told r) (told r')) ((g <$> m) l) ((g <$> m) l') := by
  refine hm.map ?_ fun _ _ hnever => hnever.elim
  intro a b hab
  rw [hab]

/-- Whatever is called goes the same way under both policies, or it casts a ballot for neither
side. -/
theorem perform_alike (h : l.Aligned cleared l') (env : Environment) (c : Command) :
    Alike (Aligned (cleared ++ c.clears)) (fun a a' => a'.withoutPrevious = a.withoutPrevious)
      (fun r r' => Concur cleared c (told r) (told r')) (perform env c l) (perform env c l') := by
  have hmore := h.mono (List.subset_append_left cleared c.clears)
  cases c with
  | registerThreshold e r => exact alike_of_strict .registered (registerThreshold_alike hmore e r)
  | openVote r => exact alike_of_strict .opened (openVote_alike hmore env r)
  | openPercentVote r => exact alike_of_strict .opened (openPercentVote_alike hmore env r)
  | invokeThreshold id topic duration =>
    exact alike_of_strict .opened (invokeThreshold_alike hmore env id topic duration)
  | applyVote id voter stance justification =>
    -- This is the one command that may come apart, and it clears nothing.
    simp only [Command.clears, List.append_nil]
    refine (applyVote_alike h env id voter stance justification).map ?_ ?_
    · intro r r' hr
      rw [hr]
      rfl
    · intro _ _ hapart
      exact concur_of_castApart hapart
  | extendVote id additional =>
    exact alike_of_strict .updated (extendVote_alike hmore env id additional)
  | updateTopic id topic clear =>
    cases clear with
    | false => exact alike_of_strict .updated (updateTopic_alike hmore id topic)
    | true =>
      have hid : id ∈ cleared ++ Command.clears (.updateTopic id topic true) := by
        simp [Command.clears]
      exact alike_of_strict .updated (updateTopic_clear_alike hmore id topic hid)

end Perform

/-! ## Runs -/

theorem told_of_agree {r r' : Except Fault Answer}
    (h : Agree (fun a a' : Answer => a'.withoutPrevious = a.withoutPrevious) r r') :
    told r' = told r := by
  cases h with
  | ok h => exact congrArg Except.ok h
  | error h => exact congrArg Except.error h

/-- What two ledgers have in common if votes are counted alike in them: all but the ballots. -/
structure SameCount (l l' : Ledger) : Prop where
  ids : l'.votes.map (·.id) = l.votes.map (·.id)
  polls : ∀ id, l'.poll? id = l.poll? id
  outcomes : ∀ id, l'.outcome id = l.outcome id
  issued : ∀ id, l'.issuance? id = l.issuance? id
  register : l'.register = l.register
  lastVote : l'.lastVote = l.lastVote
  openVotes : l'.openVotes = l.openVotes

namespace Aligned

theorem sameCount (h : l.Aligned cleared l') : SameCount l l' := by
  refine ⟨?_, ?_, ?_, ?_, h.register, h.lastVote, h.openVotes⟩
  · exact Checks.map_eq_map h.votes fun v v' hv => hv.id
  · intro id
    have hid := h.vote? id
    unfold Ledger.poll?
    generalize l.vote? id = found, l'.vote? id = found' at hid
    cases hid with
    | none => rfl
    | some hv => exact congrArg some hv.poll
  · intro id
    unfold Ledger.outcome Ledger.require
    cases id.number? with
    | none => rfl
    | some n =>
      have hn := h.vote? n
      simp only [Option.bind_some]
      generalize l.vote? n = found, l'.vote? n = found' at hn
      cases hn with
      | none => rfl
      | some hv => exact congrArg (fun poll => Except.ok poll.outcome) hv.poll
  · intro id
    have hid := h.vote? id
    unfold Ledger.issuance?
    generalize l.vote? id = found, l'.vote? id = found' at hid
    cases hid with
    | none => rfl
    | some hv => exact congrArg some hv.issued

theorem concur (h : l.Aligned cleared l') (env : Environment) (c : Command) :
    Concur cleared c (l.verdict env c) (l'.verdict env c) := by
  rcases (perform_alike h env c).outcome with hagree | hapart
  · rw [verdict, verdict, told_of_agree hagree]
    exact .same
  · exact hapart

theorem after (h : l.Aligned cleared l') (env : Environment) (c : Command) :
    (l.after env c).Aligned (cleared ++ c.clears) (l'.after env c) := by
  have hleft : ∀ l : Ledger, l.after env c = Step.left (perform env c l) := by
    intro l
    unfold Ledger.after
    cases perform env c l <;> rfl
  rw [hleft, hleft]
  exact (perform_alike h env c).left

theorem serve (h : l.Aligned cleared l') (calls : List Call) :
    (l.serve calls).Aligned (cleared ++ clearedBy calls) (l'.serve calls) := by
  -- What was cleared grows with every call, so it is generalized along with the ledgers.
  induction calls generalizing cleared l l' with
  | nil =>
    rw [clearedBy, List.flatMap_nil, List.append_nil]
    exact h
  | cons call calls ih =>
    rw [clearedBy, List.flatMap_cons, ← List.append_assoc]
    exact ih (h.after call.env call.command)

/-- Two ledgers without votes are aligned. -/
theorem of_empty {ceiling : Value}
    (h : Ledger.empty ⟨ceiling, ResetPolicy.resetBallots.toValue⟩ = .ok l)
    (h' : Ledger.empty ⟨ceiling, ResetPolicy.keepBallots.toValue⟩ = .ok l') :
    l.Aligned [] l' := by
  obtain ⟨settings, hsettings, rfl⟩ := Checks.exceptMap_eq_ok.mp h
  obtain ⟨settings', hsettings', rfl⟩ := Checks.exceptMap_eq_ok.mp h'
  simp only [Options.settings, Checks.bind_eq_ok, Checks.pure_eq_ok] at hsettings hsettings'
  obtain ⟨n, hn, rfl⟩ := hsettings
  obtain ⟨n', hn', rfl⟩ := hsettings'
  -- The ceiling is read from the same option.
  obtain rfl := Except.ok.inj (hn.symm.trans hn')
  have hreset : ResetPolicy.ofValue (ResetPolicy.toValue .resetBallots) = .resetBallots := by
    decide
  have hkeep : ResetPolicy.ofValue (ResetPolicy.toValue .keepBallots) = .keepBallots := by
    decide
  exact ⟨hreset, hkeep, rfl, rfl, rfl, rfl, .nil, .nil⟩

end Aligned

/-- Two ledgers that start without votes, one under each reset policy, count alike after any calls:
they have the same votes, tallies, outcomes, thresholds and counters.  And any further command is
answered alike or refused with the same code, but for ballots that are cast for neither side in a
vote whose tallies were cleared. -/
theorem policies_concur {ceiling : Value}
    (h : Ledger.empty ⟨ceiling, ResetPolicy.resetBallots.toValue⟩ = .ok l)
    (h' : Ledger.empty ⟨ceiling, ResetPolicy.keepBallots.toValue⟩ = .ok l') (calls : List Call) :
    SameCount (l.serve calls) (l'.serve calls) ∧
      ∀ env c, Concur (clearedBy calls) c ((l.serve calls).verdict env c)
        ((l'.serve calls).verdict env c) := by
  have haligned := (Aligned.of_empty h h').serve calls
  rw [List.nil_append] at haligned
  exact ⟨haligned.sameCount, haligned.concur⟩

namespace Sample

/-- One of the two votes for neither side. -/
def abstaining : Command :=
  .applyVote (.number 1) (.text "bob") .abstain .absent

/-- The vote of the two, a ballot for neither side, and then another topic. -/
def clearing : List Call :=
  [⟨host, .openPercentVote request⟩,
   ⟨host, abstaining⟩,
   ⟨host, .updateTopic (.number 1) (.text "other") true⟩]

/-- The ledger before anything happens, under a policy. -/
def startUnder (policy : ResetPolicy) : Ledger :=
  blank ⟨10, policy⟩

theorem serve_clearing (policy : ResetPolicy) : (startUnder policy).serve clearing =
    ((startUnder policy).addVote vote).serve (clearing.drop 1) := by
  rw [clearing, serve_cons, after_of_ok (@perform_request_of_next (startUnder policy) 1 opens.free)]
  rfl

end Sample

/-- Whoever abstained before the tallies were cleared abstains again where ballots are handed out
anew, and changes nothing where they are kept. -/
theorem policies_concur_abstaining :
    ∃ l l', Ledger.empty ⟨.number 10, ResetPolicy.resetBallots.toValue⟩ = .ok l ∧
      Ledger.empty ⟨.number 10, ResetPolicy.keepBallots.toValue⟩ = .ok l' ∧
      SameCount (l.serve Sample.clearing) (l'.serve Sample.clearing) ∧
      (∃ a, (l.serve Sample.clearing).verdict Sample.host Sample.abstaining = .ok a) ∧
      (l'.serve Sample.clearing).verdict Sample.host Sample.abstaining = .error .noChange := by
  have hreset : Ledger.empty ⟨.number 10, ResetPolicy.resetBallots.toValue⟩ =
      .ok (Sample.startUnder .resetBallots) := by
    rfl
  have hkeep : Ledger.empty ⟨.number 10, ResetPolicy.keepBallots.toValue⟩ =
      .ok (Sample.startUnder .keepBallots) := by
    rfl
  obtain ⟨hcount, hconcur⟩ := policies_concur hreset hkeep Sample.clearing
  have hverdict := hconcur Sample.host Sample.abstaining
  have hrefused : ((Sample.startUnder .keepBallots).serve Sample.clearing).verdict Sample.host
      Sample.abstaining = .error .noChange := by
    rw [Sample.serve_clearing]
    decide +kernel
  have haccepted : ((Sample.startUnder .resetBallots).serve Sample.clearing).verdict Sample.host
      Sample.abstaining ≠ .error .noChange := by
    rw [Sample.serve_clearing]
    decide +kernel
  rw [hrefused] at hverdict
  -- Only a stance that is held from before is refused in one of them alone.
  generalize hanswer : ((Sample.startUnder .resetBallots).serve Sample.clearing).verdict
    Sample.host Sample.abstaining = answer at haccepted hverdict
  cases hverdict with
  | same => exact absurd rfl haccepted
  | @repeated _ _ _ _ a => exact ⟨_, _, hreset, hkeep, hcount, ⟨a, hanswer⟩, hrefused⟩

end Plebiscite.Ledger
