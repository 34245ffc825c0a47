import Plebiscite.Proofs.Assembly.Fold
import Plebiscite.Proofs.Assembly.Run

/-!
# The history of a run tells the ledger

An assembly that starts with nothing recorded keeps two accounts of what happens: the ledger, which
changes, and the history, which only grows.  After every run the one can be read from the other:
the votes and thresholds with their electorates, what every member holds, and the ends and topics.

## Main definitions

- `Event.opening?`, `Event.registration?`, `Event.replaced?`: what an event says of a new vote, of a
  new threshold, and of what a ballot takes the place of
- `Assembly.Tells`: a history with the ledger that it tells
- `Assembly.Timed`: events at heights that never decrease
- `Assembly.Hosted.Told`: an assembly whose history tells its ledger, up to the present height

## Main results

- `Assembly.Tells.performs`: accepted commands keep the two accounts together
- `Assembly.Hosted.Told.move`: whatever happens does
- `Assembly.history_tells`: after every run the history tells the ledger
-/

namespace Plebiscite

/-! ## New votes and thresholds -/

namespace Event

/-- The identifier, the electorate and the height of a vote, if one was opened. -/
def opening? : Event → Option (Number × Option Electorate × Number)
  | .voteOpened voteId electorate _ _ height => some (voteId, some electorate, height)
  | _ => none

/-- The identifier and the electorate of a threshold, if one was registered. -/
def registration? : Event → Option (Value × Electorate)
  | .thresholdSet thresholdId electorate _ _ => some (thresholdId, electorate)
  | _ => none

/-- The vote, the member and what that held before, if a ballot was cast. -/
def replaced? : Event → Option (Number × String × Stance)
  | .voteCast voteId voter previous _ _ _ => some (voteId, voter.display, previous)
  | _ => none

theorem opening?_eq_none {e : Event} {id : Number} (h : e.revised? = some id) :
    e.opening? = none ∧ e.registration? = none := by
  cases e with
  | thresholdSet | voteOpened | given => cases h
  | _ => exact ⟨rfl, rfl⟩

end Event

namespace Assembly

open Chronicle

/-- Every ballot that was cast tells what its member held just before. -/
def TellsPrevious (policy : ResetPolicy) (history : List Event) : Prop :=
  ∀ before e id name previous, before ++ [e] <+: history →
    e.replaced? = some (id, name, previous) → previous = (held policy before id name).1

/-- A history tells a ledger: every vote and every threshold is listed once, with the electorate on
record and the height, and what happened to the votes is told. -/
structure Tells (history : List Event) (electorates : Index Electorate) (l : Ledger) : Prop where
  opened : history.filterMap Event.opening? = l.votes.map fun v =>
    (v.id, electorates.get? (.number v.id), v.poll.initialized)
  registered : history.filterMap Event.registration? = l.register.entries.map fun entry =>
    (entry.id, entry.electorate)
  votes : ∀ v ∈ l.votes, v.ToldBy l.settings.policy history
  previous : TellsPrevious l.settings.policy history
  known : ∀ e ∈ history, ∀ id, e.revised? = some id → id ∈ l.votes.map (·.id)

variable {policy : ResetPolicy} {history : List Event} {e : Event}
  {electorates : Index Electorate} {l l' : Ledger} {env : Ledger.Environment}

theorem TellsPrevious.append (h : TellsPrevious policy history)
    (he : ∀ id name previous, e.replaced? = some (id, name, previous) →
      previous = (held policy history id name).1) : TellsPrevious policy (history ++ [e]) := by
  intro before e' id name previous hbefore he'
  -- The ballot is either the new event or one that the history had before.
  rcases List.prefix_concat_iff.mp hbefore with heq | hbefore
  · obtain ⟨rfl, hlast⟩ := List.append_inj' heq rfl
    obtain rfl := List.singleton_inj.mp hlast
    exact he _ _ _ he'
  · exact h _ _ _ _ _ hbefore he'

namespace Tells

theorem empty {o : Ledger.Options} (h : Ledger.empty o = .ok l) : Tells [] [] l := by
  obtain ⟨settings, -, rfl⟩ := Checks.exceptMap_eq_ok.mp h
  refine ⟨rfl, rfl, ?_, ?_, ?_⟩
  · intro v hv
    cases hv
  · intro before e id name previous hbefore
    simp at hbefore
  · intro e he
    cases he

/-- One more event happens to a vote that is listed, or to none. -/
theorem known_append {ids ids' : List Number}
    (h : ∀ e ∈ history, ∀ id, e.revised? = some id → id ∈ ids) (hids : ids ⊆ ids')
    (he : ∀ id, e.revised? = some id → id ∈ ids') :
    ∀ e' ∈ history ++ [e], ∀ id, e'.revised? = some id → id ∈ ids' := by
  intro e' he' id hid
  rcases List.mem_append.mp he' with he' | he'
  · exact hids (h e' he' id hid)
  · obtain rfl := List.mem_singleton.mp he'
    exact he id hid

/-- A threshold that is registered is listed last. -/
theorem registration (h : Tells history electorates l) {m n k : Nat} (hl : l.Numbered m n k)
    {electorate : Electorate} {rule : Rule} {entry : Registration} {register : Register}
    (hregister : l.register.register (.number l.settings.ceiling) electorate rule =
      .ok (entry, register)) (setter : Value) (height : Number) :
    Tells (history ++ [.thresholdSet entry.id entry.electorate setter height]) electorates
      { l with register } := by
  obtain ⟨-, -, -, hentries, -⟩ := hl.registered hregister
  refine ⟨?_, ?_, ?_, ?_, ?_⟩
  · rw [List.filterMap_append, h.opened]
    simp [Event.opening?]
  · rw [List.filterMap_append, h.registered, hentries, List.map_append]
    rfl
  · intro v hv
    exact (h.votes v hv).append nofun
  · exact h.previous.append nofun
  · exact known_append h.known (List.Subset.refl _) nofun

/-- A vote that is opened is listed last, and so far nothing happened to it. -/
theorem opening (h : Tells history electorates l) {m n k : Nat} (hl : l.Numbered m n k)
    {o : Ledger.Opening} {vote : Vote} (hopens : Ledger.Opens env l o vote) (creator : Value)
    (thresholdId : Option Value) :
    Tells (history ++ [.voteOpened vote.id o.electorate creator thresholdId
      vote.poll.initialized]) (electorates.put (.number vote.id) o.electorate)
      (l.addVote vote) := by
  obtain ⟨hvotes, -⟩ := hl.opened hopens
  have hfree := hopens.fresh
  -- Events happen to votes that are listed, so none of them happened to the new one.
  have hnew : ∀ e ∈ history, e.revised? ≠ some vote.id :=
    fun e he hid => hfree (h.known e he vote.id hid)
  have hput : ∀ id, (electorates.put (.number vote.id) o.electorate).get? (.number id) =
      if id = vote.id then some o.electorate else electorates.get? (.number id) := by
    intro id
    rw [Index.get?_put rfl]
    simp only [Value.number.injEq]
  refine ⟨?_, ?_, ?_, ?_, ?_⟩
  · rw [hvotes, List.filterMap_append, h.opened, List.map_append]
    refine congrArg₂ (· ++ ·) (List.map_congr_left fun v hv => ?_) ?_
    · have hne : v.id ≠ vote.id := fun hid => hfree (hid ▸ List.mem_map_of_mem hv)
      rw [hput, if_neg hne]
    · rw [List.map_singleton, hput, if_pos rfl]
      rfl
  · rw [List.filterMap_append, h.registered]
    simp [Event.registration?, Ledger.addVote]
  · intro v hv
    rcases Ledger.mem_addVote.mp hv with rfl | hv
    · refine (Vote.ToldBy.opened hnew ?_).append nofun
      intro seat hseat
      obtain ⟨plan, -, -, -, hseats⟩ := hopens.minted
      rw [hseats] at hseat
      obtain ⟨allocation, -, rfl⟩ := List.mem_map.mp hseat
      exact ⟨_, rfl⟩
    · exact (h.votes v hv).append nofun
  · exact h.previous.append nofun
  · rw [hvotes, List.map_append]
    exact known_append h.known (List.subset_append_left _ _) nofun

/-- A vote that is revised is told by an event that happened to it. -/
theorem revision (h : Tells history electorates l) (hl : l.Indexed) {c : Ledger.Command}
    {a : Ledger.Answer} {v w : Vote} (hrevises : Ledger.Revises env l c v w a)
    (he : e.revised? = some v.id) (htold : w.ToldBy l.settings.policy (history ++ [e]))
    (hprevious : ∀ id name previous, e.replaced? = some (id, name, previous) →
      previous = (held l.settings.policy history id name).1) :
    Tells (history ++ [e]) electorates (l.replaceVote w) := by
  have hmem := hrevises.mem
  have hid := hrevises.id_eq
  -- The event opens and registers nothing, so both lists stay; only the revised vote is told anew.
  obtain ⟨hopening, hregistration⟩ := Event.opening?_eq_none he
  refine ⟨?_, ?_, ?_, ?_, ?_⟩
  · rw [List.filterMap_append, h.opened]
    simp only [List.filterMap_cons, hopening, List.filterMap_nil, List.append_nil,
      Ledger.replaceVote, Ledger.updateVote, List.map_map]
    refine List.map_congr_left fun u hu => ?_
    rw [Function.comp_apply]
    split
    · rename_i huw
      obtain rfl := Ledger.eq_of_id hl hu hmem (huw.trans hid)
      rw [hid, hrevises.poll.2.1]
    · rfl
  · rw [List.filterMap_append, h.registered]
    simp [hregistration, Ledger.replaceVote, Ledger.updateVote]
  · intro u hu
    rcases (Ledger.mem_replaceVote hmem hid).mp hu with rfl | ⟨hu, hne⟩
    · exact htold
    · refine (h.votes u hu).append fun h' => hne ?_
      rw [he] at h'
      exact (Option.some.inj h').symm.trans hid.symm
  · exact h.previous.append hprevious
  · rw [Ledger.replaceVote_ids]
    refine known_append h.known (List.Subset.refl _) fun id hid' => ?_
    rw [he] at hid'
    exact Option.some.inj hid' ▸ List.mem_map_of_mem hmem

theorem cast (h : Tells history electorates l) (hl : l.Indexed) {id voter justification : Value}
    {stance : Stance} {receipt : Ledger.Receipt} {v w : Vote}
    (hrevises : Ledger.Revises env l (.applyVote id voter stance justification) v w (.cast receipt))
    (height : Number) :
    Tells (history ++ [.voteCast receipt.voteId voter receipt.previous receipt.ballot.stance
      receipt.ballot.justification height]) electorates (l.replaceVote w) := by
  have htold := h.votes v hrevises.mem
  refine h.revision hl hrevises ?_ ?_ ?_
  · cases hrevises
    rfl
  · cases hrevises with
    | cast hvote hnow hopen hseat hchange htransfer =>
      obtain rfl := Ballot.eq_of_change hchange
      obtain ⟨rfl, -⟩ := Poll.eq_of_transfer htransfer
      exact htold.cast (Poll.wanted_of_transfer htransfer) rfl rfl rfl
  · intro id' name' previous' heq
    cases hrevises with
    | cast hvote hnow hopen hseat hchange htransfer =>
      -- The stance before is that of the seat, which the events up to now tell.
      obtain ⟨seat, hmem, hname, rfl⟩ := Vote.exists_seat_of_ballot? hseat
      cases heq
      rw [← hname]
      exact congrArg Prod.fst (htold.held seat hmem)

theorem extended (h : Tells history electorates l) (hl : l.Indexed) {id : Number}
    {additional : Value} {poll : Poll} {v w : Vote}
    (hrevises : Ledger.Revises env l (.extendVote (.number id) additional) v w (.updated poll))
    (height : Number) :
    Tells (history ++ [.voteExtended id poll.ends height]) electorates (l.replaceVote w) := by
  have htold := h.votes v hrevises.mem
  cases hrevises with
  | extended hvote hnow hcandidate =>
    obtain rfl := Value.number.inj (Ledger.mem_of_require hvote).2
    refine h.revision hl (.extended hvote hnow hcandidate) rfl ?_ nofun
    exact htold.extended (by rw [Poll.extend_eq])

theorem retitled (h : Tells history electorates l) (hl : l.Indexed) {id : Number}
    {topic : String} {clear : Bool} {poll : Poll} {v w : Vote}
    (hrevises : Ledger.Revises env l (.updateTopic (.number id) (.text topic) clear) v w
      (.updated poll)) (height : Number) :
    Tells (history ++ [.topicUpdated id topic clear height]) electorates (l.replaceVote w) := by
  have htold := h.votes v hrevises.mem
  refine h.revision hl hrevises ?_ ?_ nofun
  · cases hrevises with
    | retitled hvote | cleared hvote =>
      exact congrArg some (Value.number.inj (Ledger.mem_of_require hvote).2)
  · cases hrevises with
    | retitled hvote =>
      obtain rfl := Value.number.inj (Ledger.mem_of_require hvote).2
      exact htold.retitled
    | cleared hvote =>
      obtain rfl := Value.number.inj (Ledger.mem_of_require hvote).2
      exact htold.cleared

end Tells

/-! ## Commands -/

variable {host : Host} {a a' : Assembly} {command : Command} {caller payload : Value}

theorem initialized_of_opens {o : Ledger.Opening} {vote : Vote}
    (h : Ledger.Opens host.environment l o vote) : vote.poll.initialized = host.now := by
  obtain ⟨hnow, -⟩ := Height.read_eq_ok.mp h.initialized
  exact (Value.number.inj hnow).symm

/-- Whatever is accepted, the history goes on telling the ledger. -/
theorem Tells.performs {m n k : Nat} {answer : Ledger.Answer} {c : Ledger.Command}
    {event : Event} {line : Journal.Line} (h : Tells a.history a.electorates a.ledger)
    (hnumbered : a.ledger.Numbered m n k) (hindexed : a.ledger.Indexed)
    (hperforms : Performs host a command caller payload answer a' c event line) :
    Tells a'.history a'.electorates a'.ledger := by
  have hchanges := hperforms.changes hindexed
  rw [hperforms.assembly]
  show Tells (a.history ++ [event]) (reassign a.electorates event) a'.ledger
  generalize a'.ledger = l' at hchanges
  cases hchanges with
  | registered _ _ hregister => exact h.registration hnumbered hregister caller host.now
  | opened _ hopens =>
    rw [← initialized_of_opens hopens]
    exact h.opening hnumbered hopens caller _
  | revised haccepts hrevises =>
    -- The event is that of the command which revised the vote.
    cases haccepts with
    | registered | opened => cases hrevises
    | cast => exact h.cast hindexed hrevises host.now
    | extended => exact h.extended hindexed hrevises host.now
    | retitled => exact h.retitled hindexed hrevises host.now

/-- A ballot tells what its member held just before. -/
theorem Performs.previous {answer : Ledger.Answer} {c : Ledger.Command} {event : Event}
    {line : Journal.Line} (h : Performs host a command caller payload answer a' c event line)
    (hindexed : a.ledger.Indexed) {id : Number} {name : String} {previous : Stance}
    (hreplaced : event.replaced? = some (id, name, previous)) :
    (a.ledger.ballot? id name).map (·.stance) = some previous := by
  have hchanges := h.changes hindexed
  generalize a'.ledger = l' at hchanges
  cases hchanges with
  | registered | opened => cases hreplaced
  | revised haccepts hrevises =>
    cases haccepts with
    | cast hform =>
      cases hreplaced
      cases hrevises with
      | cast hvote hnow hopen hseat hchange htransfer =>
        obtain ⟨hmem, -⟩ := Ledger.mem_of_require hvote
        rw [Ledger.ballot?, (Ledger.vote?_iff hindexed).mpr ⟨hmem, rfl⟩, Option.bind_some, hseat]
        rfl
    | _ => cases hreplaced

/-! ## Heights -/

/-- Events at heights that never decrease, up to the present one. -/
structure Timed (history : List Event) (now : Number) : Prop where
  present : ∃ k : Nat, now = .ofInt k
  past : ∀ e ∈ history, ∃ k : Nat, e.height? = some (.ofInt k) ∧ (Number.ofInt k).le now = true
  ascending : (history.filterMap Event.height?).Pairwise fun x y => x.le y = true

namespace Timed

variable {now : Number}

theorem nil (h : ∃ k : Nat, now = .ofInt k) : Timed [] now :=
  ⟨h, by simp, List.Pairwise.nil⟩

/-- What happens now comes last. -/
theorem append (h : Timed history now) (he : e.height? = some now) :
    Timed (history ++ [e]) now := by
  obtain ⟨k, rfl⟩ := h.present
  refine ⟨⟨k, rfl⟩, ?_, ?_⟩
  · intro e' he'
    rcases List.mem_append.mp he' with he' | he'
    · exact h.past e' he'
    · obtain rfl := List.mem_singleton.mp he'
      exact ⟨k, he, by simp⟩
  · rw [List.filterMap_append, List.pairwise_append]
    -- All that happened before happened no later than now.
    refine ⟨h.ascending, by simp [he], ?_⟩
    intro x hx y hy
    obtain ⟨e', he', hx⟩ := List.mem_filterMap.mp hx
    obtain ⟨j, hj, hle⟩ := h.past e' he'
    have hy : y = .ofInt k := by simpa [he] using hy
    rw [hy, Option.some.inj (hx.symm.trans hj)]
    exact hle

/-- Time passes. -/
theorem later {j k : Nat} (h : Timed history (.ofInt j)) (hjk : j ≤ k) :
    Timed history (.ofInt k) := by
  refine ⟨⟨k, rfl⟩, ?_, h.ascending⟩
  intro e he
  obtain ⟨i, hi, hle⟩ := h.past e he
  refine ⟨i, hi, ?_⟩
  simp only [Number.ofInt_le, decide_eq_true_eq, Nat.cast_le] at hle ⊢
  exact hle.trans hjk

end Timed

/-! ## Runs -/

namespace Hosted

/-- The history tells the ledger, and when everything happened. -/
structure Told (s : Hosted) : Prop where
  numbered : ∃ m n k, s.assembly.ledger.Numbered m n k
  indexed : s.assembly.ledger.Indexed
  tells : Tells s.assembly.history s.assembly.electorates s.assembly.ledger
  timed : Timed s.assembly.history s.clock.height

variable {s : Hosted}

theorem Told.start {o : Ledger.Options} {height : Value} {clock : Clock}
    (hledger : Ledger.empty o = .ok l) (hclock : Clock.start height = .ok clock)
    (level : Journal.Level) : Told ⟨around l level, clock⟩ where
  numbered := by
    obtain ⟨m, hnumbered⟩ := Ledger.Numbered.of_empty hledger
    exact ⟨m, 0, 0, hnumbered⟩
  indexed := (Ledger.Reachable.empty hledger).sound.indexed
  tells := Tells.empty hledger
  timed := Timed.nil (Clock.exists_of_start hclock)

/-- Whatever happens, the history goes on telling the ledger. -/
theorem Told.move (h : s.Told) {m : Move} (hm : m.Named) : (s.move m).Told := by
  obtain ⟨i, n, k, hnumbered⟩ := h.numbered
  rcases s.move_cases m with ⟨hledger, hhistory, helectorates⟩ |
    ⟨stakes, isSupervisor, command, caller, payload, answer, c, event, line, rfl, -, hperforms⟩
  · -- Nothing was recorded, but the clock may have moved on.
    obtain ⟨j, hj⟩ := h.timed.present
    obtain ⟨j', hj', hle⟩ := move_height hj m
    have htimed := h.timed
    rw [hj] at htimed
    constructor
    · rw [hledger]
      exact ⟨i, n, k, hnumbered⟩
    · rw [hledger]
      exact h.indexed
    · rw [hledger, hhistory, helectorates]
      exact h.tells
    · rw [hhistory, hj']
      exact htimed.later hle
  · -- One event was recorded at the present height, and the clock stands still.
    have haccepts := (Ledger.perform_eq_ok h.indexed).mp hperforms.ledger
    have hnamed : (s.host stakes isSupervisor).environment.stakes.Named := hm
    obtain ⟨n', k', hnumbered'⟩ := hnumbered.accepts haccepts
    refine ⟨⟨i, n', k', hnumbered'⟩, h.indexed.accepts hnamed haccepts, ?_, ?_⟩
    · exact h.tells.performs hnumbered h.indexed hperforms
    · rw [hperforms.assembly]
      exact h.timed.append hperforms.accepts.event_kind.2

/-- Where the next event tells of a ballot, it tells what the ledger held until then. -/
theorem Told.previous (h : s.Told) {m : Move} {e : Event} {id : Number} {name : String}
    {previous : Stance} (hnext : (s.move m).assembly.history = s.assembly.history ++ [e])
    (hreplaced : e.replaced? = some (id, name, previous)) :
    (s.assembly.ledger.ballot? id name).map (·.stance) = some previous := by
  rcases s.move_cases m with ⟨-, hhistory, -⟩ |
    ⟨stakes, isSupervisor, command, caller, payload, answer, c, event, line, rfl, -, hperforms⟩
  · rw [hhistory] at hnext
    simp at hnext
  · rw [hperforms.assembly] at hnext
    obtain rfl := List.singleton_inj.mp (List.append_cancel_left hnext)
    exact hperforms.previous h.indexed hreplaced

end Hosted

/-- Whatever happens to an assembly that starts with nothing, its history tells its ledger: which
votes and thresholds there are, what every member holds in every vote, the ends and the topics, and
when all of this happened.  The next ballot, too, tells what its member held until then. -/
theorem history_tells {o : Ledger.Options} {height : Value} {clock : Clock}
    {moves : List Hosted.Move} (hledger : Ledger.empty o = .ok l)
    (hclock : Clock.start height = .ok clock) (hmoves : ∀ m ∈ moves, m.Named)
    (level : Journal.Level) :
    let s := Hosted.run ⟨around l level, clock⟩ moves
    s.Told ∧ ∀ m e id name previous,
      (s.move m).assembly.history = s.assembly.history ++ [e] →
      e.replaced? = some (id, name, previous) →
      (s.assembly.ledger.ballot? id name).map (·.stance) = some previous := by
  intro s
  have htold : s.Told :=
    Hosted.run_induction (Hosted.Told.start hledger hclock level) fun _ m hm h =>
      h.move (hmoves m hm)
  exact ⟨htold, fun _ _ _ _ _ => htold.previous⟩

namespace Sample

/-- An organization of one. -/
def sole : StakeSource where
  group? _ := some [.text "alice"]
  stakes? _ := none

/-- A command of the supervisor, or a ballot of alice. -/
def soleMove (command : Command) (caller : String) (payload : List (String × Value)) :
    Hosted.Move :=
  .command sole supervised.isSupervisor command (.text caller) (.object payload)

/-- The vote of alice, her ballot, and then another topic. -/
def soleMoves : List Hosted.Move :=
  [soleMove .openVote "supervisor"
    [("org", .object [("kind", .text "equal"), ("orgId", .text "org")]),
     ("threshold", .object [("inFavor", .text "1")])],
   .advanceBy (.number 3),
   soleMove .submitVote "alice" [("voteId", .number 1), ("direction", .text "in_favor")],
   soleMove .updateTopic "supervisor"
    [("voteId", .number 1), ("topic", .text "other"), ("clearTallies", .bool true)]]

theorem sole_wellTyped : sole.WellTyped where
  group_named h := by
    cases h
    decide
  group_small h := by
    cases h
    decide
  stakes_named h := by cases h

theorem named_soleMoves : ∀ m ∈ soleMoves, m.Named := by
  simp [soleMoves, soleMove, Hosted.Move.Named, sole_wellTyped.named]

end Sample

/-- The vote of alice is told from beginning to end. -/
theorem history_tells_sole :
    let s := Hosted.run ⟨around Ledger.Sample.start .info, ⟨5⟩⟩ Sample.soleMoves
    Ledger.empty Ledger.Sample.options = .ok Ledger.Sample.start ∧
    Clock.start (.number 5) = .ok ⟨5⟩ ∧
    (∀ m ∈ Sample.soleMoves, m.Named) ∧
    s.assembly.history.map Event.kind? =
      [some .voteOpened, some .voteCast, some .topicUpdated] ∧
    s.Told ∧ ∀ m e id name previous,
      (s.move m).assembly.history = s.assembly.history ++ [e] →
      e.replaced? = some (id, name, previous) →
      (s.assembly.ledger.ballot? id name).map (·.stance) = some previous := by
  have hclock : Clock.start (.number 5) = .ok ⟨5⟩ := by
    rfl
  refine ⟨Ledger.Sample.empty_options, hclock, Sample.named_soleMoves, by decide +kernel, ?_⟩
  exact history_tells Ledger.Sample.empty_options hclock Sample.named_soleMoves .info

end Assembly

end Plebiscite
