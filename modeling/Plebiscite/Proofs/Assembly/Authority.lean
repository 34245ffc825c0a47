import Plebiscite.Proofs.Assembly.History
import Plebiscite.Proofs.Ledger.Casting
import Plebiscite.Proofs.Roster

/-!
# Who changes what

An assembly under a roster asks it who supervises an organization and who belongs to it, each time
anew.  The roster changes while votes are open, and callers give whatever commands they like; still
the ledger only ever changes by the hand of someone who may change it at that moment.

## Main definitions

- `Assembly.Supervises`: a caller supervises the organization of a vote
- `Assembly.TalliesFollow`: tallies that follow a ballot
- `Assembly.Alters`: what a command changes in a vote, and by whom
- `Assembly.Authentic`: what an accepted command does to all votes and thresholds, and by whom
- `Assembly.Governed`, `Assembly.Governed.run`: an assembly under a roster, and what happens to it

## Main results

- `Assembly.Performs.authentic`: whatever is accepted is authentic
- `Assembly.changes_authentic`: in every run the ledger changes only by authentic commands
-/

namespace Plebiscite

/-- What an assembly reads under a roster, which knows who supervises and who is a member. -/
def Roster.host (r : Roster) (now : Number) : Assembly.Host :=
  ⟨now, r.stakeSource, fun org caller => .ok (r.isSupervisor org caller)⟩

namespace Assembly

/-- A caller supervises the organization that is on record for a vote. -/
def Supervises (r : Roster) (a : Assembly) (caller : String) (id : Number) : Prop :=
  ∃ electorate, a.electorate? (.number id) = some electorate ∧
    r.isSupervisor electorate.org (.text caller) = true

/-- A command that asks for the tallies of a vote to be cleared. -/
def Clearing (command : Command) (payload : Value) : Prop :=
  command = .updateTopic ∧ payload.get "clearTallies" = .bool true

/-- The tallies changed as the ballot of one member did, which left its side for another. -/
def TalliesFollow (name : String) (v w : Vote) : Prop :=
  ∃ before after, v.ballot? name = some before ∧ w.ballot? name = some after ∧
    w.poll.inFavor = v.poll.inFavor - Stance.share .inFavor before.counted before.magnitude +
      Stance.share .inFavor after.counted after.magnitude ∧
    w.poll.against = v.poll.against - Stance.share .against before.counted before.magnitude +
      Stance.share .against after.counted after.magnitude

/-- What a command of a caller changes in a vote.  The signal, the members and the bounds stay; the
topic and the end are for supervisors, and a ballot is for its member, with the tallies that follow
it, unless a supervisor clears them all. -/
structure Alters (r : Roster) (a : Assembly) (command : Command) (caller : String)
    (payload : Value) (v w : Vote) : Prop where
  terms : w.id = v.id ∧ w.issued = v.issued ∧ w.poll.turnout = v.poll.turnout ∧
    w.poll.threshold = v.poll.threshold ∧ w.poll.initialized = v.poll.initialized
  members : w.seats.map (·.member) = v.seats.map (·.member)
  topic : w.poll.topic ≠ v.poll.topic → command = .updateTopic ∧ Supervises r a caller v.id
  ends : w.poll.ends ≠ v.poll.ends → command = .extendVote ∧ Supervises r a caller v.id
  tallies : w.poll.inFavor ≠ v.poll.inFavor ∨ w.poll.against ≠ v.poll.against →
    command = .submitVote ∧ TalliesFollow caller v w ∨
      Clearing command payload ∧ Supervises r a caller v.id
  ballots : ∀ name, w.ballot? name ≠ v.ballot? name →
    command = .submitVote ∧ caller = name ∨
      Clearing command payload ∧ Supervises r a caller v.id

/-- A vote that a supervisor opened for the members of an organization at that moment. -/
def OpenedFor (r : Roster) (a : Assembly) (caller : String) (v : Vote) : Prop :=
  ∃ electorate members, a.electorate? (.number v.id) = some electorate ∧
    r.isSupervisor electorate.org (.text caller) = true ∧
    r.members? electorate.org = some members ∧ ∀ m, m ∈ v.seats.map (·.member) ↔ m ∈ members

/-- What a command of a caller does to the thresholds and votes, where everything that comes about
or changes does so by someone who may do it. -/
structure Authentic (r : Roster) (a : Assembly) (command : Command) (caller : String)
    (payload : Value) (a' : Assembly) : Prop where
  thresholds : ∃ fresh, a'.ledger.register.entries = a.ledger.register.entries ++ fresh ∧
    ∀ entry ∈ fresh, r.isSupervisor entry.electorate.org (.text caller) = true
  votes : ∃ kept fresh, a'.ledger.votes = kept ++ fresh ∧
    List.Forall₂ (Alters r a command caller payload) a.ledger.votes kept ∧
    ∀ v ∈ fresh, OpenedFor r a' caller v
  electorates : ∀ v ∈ a.ledger.votes,
    a'.electorate? (.number v.id) = a.electorate? (.number v.id)

variable {r : Roster} {now : Number} {a a' : Assembly} {command : Command} {caller : String}
  {payload : Value}

/-! ## Votes -/

theorem Alters.refl (v : Vote) : Alters r a command caller payload v v where
  terms := ⟨rfl, rfl, rfl, rfl, rfl⟩
  members := rfl
  topic h := absurd rfl h
  ends h := absurd rfl h
  tallies h := by simp at h
  ballots _ h := absurd rfl h

section Revises

variable {env : Ledger.Environment} {v w : Vote} {answer : Ledger.Answer} {id : Number}

/-- A ballot that is cast is the caller's own. -/
theorem alters_of_cast {stance : Stance} {justification : Value}
    (h : Ledger.Revises env a.ledger
      (.applyVote (.number id) (.text caller) stance justification) v w answer) :
    Alters r a .submitVote caller payload v w := by
  have hmembers := h.members
  cases h with
  | @cast _ _ _ _ _ now previous ballot poll hvote hnow hopen hseat hchange htransfer =>
    obtain rfl := Ballot.eq_of_change hchange
    obtain ⟨rfl, -⟩ := Poll.eq_of_transfer htransfer
    have hballots := Vote.ballot?_setBallot v caller
    refine ⟨⟨rfl, rfl, rfl, rfl, rfl⟩, hmembers, fun h => absurd rfl h, fun h => absurd rfl h,
      fun _ => .inl ⟨rfl, ?_⟩, ?_⟩
    · -- The ballot is counted as it was cast, with the signal that it had.
      have hheld : v.ballot? caller = some previous := hseat
      refine ⟨previous, ⟨previous.magnitude, stance, justification, false⟩, hheld, ?_, rfl, rfl⟩
      refine (hballots caller _).trans ?_
      rw [if_pos rfl, hheld, Option.map_some]
    · intro name hne
      -- Every other ballot is as it was.
      by_cases hname : name = caller
      · exact .inl ⟨rfl, hname.symm⟩
      · exact absurd ((hballots name _).trans (if_neg hname)) hne

theorem alters_of_extended {additional : Value}
    (h : Ledger.Revises env a.ledger (.extendVote (.number id) additional) v w answer)
    (hsupervises : Supervises r a caller id) :
    Alters r a .extendVote caller payload v w := by
  cases h with
  | extended hvote =>
    obtain rfl := Value.number.inj (Ledger.mem_of_require hvote).2
    -- Of the poll only the end is another.
    rw [Poll.extend_eq]
    exact ⟨⟨rfl, rfl, rfl, rfl, rfl⟩, rfl, fun h => absurd rfl h, fun _ => ⟨rfl, hsupervises⟩,
      by simp, fun _ h => absurd rfl h⟩

theorem alters_of_retitled {topic : Value} {clear : Bool}
    (h : Ledger.Revises env a.ledger (.updateTopic (.number id) topic clear) v w answer)
    (hsupervises : Supervises r a caller id)
    (hclear : clear = true → payload.get "clearTallies" = .bool true) :
    Alters r a .updateTopic caller payload v w := by
  have hmembers := h.members
  cases h with
  | retitled hvote =>
    obtain rfl := Value.number.inj (Ledger.mem_of_require hvote).2
    exact ⟨⟨rfl, rfl, rfl, rfl, rfl⟩, rfl, fun _ => ⟨rfl, hsupervises⟩, fun h => absurd rfl h,
      by simp [Poll.retitle], fun _ h => absurd rfl h⟩
  | cleared hvote =>
    obtain rfl := Value.number.inj (Ledger.mem_of_require hvote).2
    -- Whatever happened to tallies and ballots, the payload asked for it.
    have hclearing : Clearing .updateTopic payload := ⟨rfl, hclear rfl⟩
    exact ⟨⟨rfl, rfl, rfl, rfl, rfl⟩, hmembers, fun _ => ⟨rfl, hsupervises⟩,
      fun h => absurd rfl h, fun _ => .inr ⟨hclearing, hsupervises⟩,
      fun _ _ => .inr ⟨hclearing, hsupervises⟩⟩

/-- Whatever is accepted, a vote is altered by someone who may alter it. -/
theorem alters_of_revises {c : Ledger.Command} {event : Event}
    (haccepts : Accepts (r.host now) a (.text caller) payload command c answer event)
    (h : Ledger.Revises env a.ledger c v w answer) : Alters r a command caller payload v w := by
  cases haccepts with
  | registered | opened => cases h
  | cast => exact alters_of_cast h
  | extended hform helectorate hauthority =>
    exact alters_of_extended h ⟨_, helectorate, Except.ok.inj hauthority⟩
  | retitled hform helectorate hauthority =>
    exact alters_of_retitled h ⟨_, helectorate, Except.ok.inj hauthority⟩
      (Form.target_of_updateTopic hform).2

end Revises

/-! ## Commands -/

/-- Votes that stay as they are were altered by nobody. -/
theorem forall₂_alters_refl (votes : List Vote) :
    List.Forall₂ (Alters r a command caller payload) votes votes :=
  List.forall₂_same.mpr fun v _ => Alters.refl v

/-- A threshold is kept for an organization that the caller supervises. -/
theorem Authentic.registered {m n k : Nat} (hnumbered : a.ledger.Numbered m n k)
    {c : RegisterThreshold} {entry : Registration} {register : Register}
    (hform : Form.registerThreshold payload = .accepted c)
    (hauthority : r.isSupervisor c.electorate.org (.text caller) = true)
    (hregister : a.ledger.register.register (.number a.ledger.settings.ceiling) c.electorate
      c.rule = .ok (entry, register)) (event : Event) (line : Journal.Line)
    (hevent : reassign a.electorates event = a.electorates) :
    Authentic r a command caller payload
      (a.recorded { a.ledger with register } event line) := by
  obtain ⟨-, helectorate, -, hentries, -⟩ := hnumbered.registered hregister
  refine ⟨⟨[entry], hentries, ?_⟩, ⟨a.ledger.votes, [], ?_, forall₂_alters_refl _, by simp⟩, ?_⟩
  · intro entry' hentry'
    obtain rfl := List.mem_singleton.mp hentry'
    -- What is kept is a copy of the electorate that was read, which names the same organization.
    obtain ⟨mode, org, horg, -⟩ :=
      Form.eq_of_electorate (Form.electorate_of_registerThreshold hform)
    rw [helectorate, horg]
    rw [horg] at hauthority
    exact hauthority
  · exact (List.append_nil _).symm
  · intro v _
    show (reassign a.electorates event).get? _ = _
    rw [hevent]
    rfl

/-- A vote is opened for the members of an organization that the caller supervises. -/
theorem Authentic.opened {m n k : Nat} (hnumbered : a.ledger.Numbered m n k) (hnamed : r.Named)
    {o : Ledger.Opening} {vote : Vote}
    (hopens : Ledger.Opens (r.host now).environment a.ledger o vote)
    (hauthority : r.isSupervisor o.electorate.org (.text caller) = true)
    (thresholdId : Option Value) (line : Journal.Line) :
    Authentic r a command caller payload
      (a.recorded (a.ledger.addVote vote)
        (.voteOpened vote.id o.electorate (.text caller) thresholdId now) line) := by
  obtain ⟨hvotes, -⟩ := hnumbered.opened hopens
  obtain ⟨-, members, hreported, hseats⟩ := hopens.enrolled hnamed.stakeSource
  refine ⟨⟨[], (List.append_nil _).symm, by simp⟩,
    ⟨a.ledger.votes, [vote], hvotes, forall₂_alters_refl _, ?_⟩, ?_⟩
  · intro v hv
    obtain rfl := List.mem_singleton.mp hv
    refine ⟨o.electorate, members, ?_, hauthority, Roster.members?_of_reported hreported, hseats⟩
    exact (Index.get?_put rfl ..).trans (if_pos rfl)
  · intro v hv
    -- The new vote has an identifier of its own, so no other is put on record anew.
    refine (Index.get?_put rfl ..).trans (if_neg fun hid => hopens.fresh ?_)
    exact Value.number.inj hid ▸ List.mem_map_of_mem hv

/-- One vote is altered by someone who may alter it, and all others stay as they are. -/
theorem Authentic.revised (hindexed : a.ledger.Indexed) {v w : Vote} (hv : v ∈ a.ledger.votes)
    (halters : Alters r a command caller payload v w) {event : Event} (line : Journal.Line)
    (hevent : reassign a.electorates event = a.electorates) :
    Authentic r a command caller payload
      (a.recorded (a.ledger.replaceVote w) event line) := by
  refine ⟨⟨[], (List.append_nil _).symm, by simp⟩,
    ⟨(a.ledger.replaceVote w).votes, [], (List.append_nil _).symm, ?_, by simp⟩, ?_⟩
  · -- Only one vote has the identifier, so the others stay as they are.
    refine List.forall₂_map_right_iff.mpr (List.forall₂_same.mpr fun u hu => ?_)
    split
    · rename_i hid
      obtain rfl := Ledger.eq_of_id hindexed hu hv (hid.trans halters.terms.1)
      exact halters
    · exact Alters.refl u
  · intro u _
    show (reassign a.electorates event).get? _ = _
    rw [hevent]
    rfl

/-- Whatever is accepted is authentic. -/
theorem Performs.authentic {m n k : Nat} {answer : Ledger.Answer} {c : Ledger.Command}
    {event : Event} {line : Journal.Line}
    (h : Performs (r.host now) a command (.text caller) payload answer a' c event line)
    (hnumbered : a.ledger.Numbered m n k) (hindexed : a.ledger.Indexed) (hnamed : r.Named) :
    Authentic r a command caller payload a' := by
  have hchanges := h.changes hindexed
  rw [h.assembly]
  generalize a'.ledger = l' at hchanges
  cases hchanges with
  | registered hform hauthority hregister =>
    exact .registered hnumbered hform (Except.ok.inj hauthority) hregister _ line rfl
  | opened hauthority hopens =>
    exact .opened hnumbered hnamed hopens (Except.ok.inj hauthority) _ line
  | revised haccepts hrevises =>
    have halters := alters_of_revises haccepts hrevises
    -- No command that revises a vote puts an electorate on record.
    cases haccepts with
    | registered | opened => cases hrevises
    | cast | extended | retitled => exact .revised hindexed hrevises.mem halters line rfl

/-! ## Runs -/

/-- An assembly with its clock, under a roster. -/
structure Governed where
  hosted : Hosted
  roster : Roster

namespace Governed

/-- What may happen: the roster changes, time passes, or someone gives a command. -/
inductive Move where
  | change (change : Roster.Change)
  | advanceTo (height : Value)
  | advanceBy (blocks : Value)
  | command (command : Command) (caller : String) (payload : Value)

/-- A command as the assembly is given it, with the stakes and the authority of that moment. -/
def request (s : Governed) (command : Command) (caller : String) (payload : Value) : Hosted.Move :=
  .command s.roster.stakeSource (s.roster.host s.hosted.clock.height).isSupervisor command
    (.text caller) payload

/-- The assembly and its roster after a move. -/
def move (s : Governed) : Move → Governed
  | .change change => { s with roster := s.roster.after change }
  | .advanceTo height => { s with hosted := s.hosted.move (.advanceTo height) }
  | .advanceBy blocks => { s with hosted := s.hosted.move (.advanceBy blocks) }
  | .command command caller payload =>
    { s with hosted := s.hosted.move (s.request command caller payload) }

/-- The assembly and its roster after several moves. -/
def run (s : Governed) (moves : List Move) : Governed :=
  moves.foldl move s

/-- The history tells the ledger, and the roster lists texts. -/
structure Orderly (s : Governed) : Prop where
  told : s.hosted.Told
  named : s.roster.Named

namespace Orderly

variable {s : Governed}

theorem move (hs : s.Orderly) (m : Move) : (s.move m).Orderly := by
  cases m with
  | change change => exact ⟨hs.told, hs.named.after change⟩
  | advanceTo height => exact ⟨hs.told.move (m := .advanceTo height) trivial, hs.named⟩
  | advanceBy blocks => exact ⟨hs.told.move (m := .advanceBy blocks) trivial, hs.named⟩
  | command command caller payload =>
    have hrequest : (s.request command caller payload).Named := hs.named.stakeSource
    exact ⟨hs.told.move hrequest, hs.named⟩

theorem run (hs : s.Orderly) (moves : List Move) : (s.run moves).Orderly := by
  induction moves generalizing s with
  | nil => exact hs
  | cons m moves ih => exact ih (hs.move m)

/-- What happens next leaves the ledger as it was, or it is an authentic command. -/
theorem move_authentic (hs : s.Orderly) (m : Move) :
    (s.move m).hosted.assembly.ledger = s.hosted.assembly.ledger ∨
      ∃ command caller payload answer, m = .command command caller payload ∧
        perform (s.roster.host s.hosted.clock.height) command (.text caller) payload
          s.hosted.assembly = .ok answer (s.move m).hosted.assembly ∧
        Authentic s.roster s.hosted.assembly command caller payload
          (s.move m).hosted.assembly := by
  cases m with
  | change => exact .inl rfl
  | advanceTo | advanceBy =>
    left
    simp only [Governed.move, Hosted.move, Hosted.tick_assembly]
  | command command caller payload =>
    rcases after_cases s.hosted.assembly (s.roster.host s.hosted.clock.height) command
      (.text caller) payload with ⟨line, hafter⟩ | ⟨answer, c, event, line, hperform, hperforms⟩
    · -- A command that is refused leaves a line in the journal, and the ledger as it was.
      left
      have hledger := congrArg Assembly.ledger hafter
      exact hledger
    · right
      obtain ⟨i, n, k, hnumbered⟩ := hs.told.numbered
      exact ⟨command, caller, payload, answer, rfl, hperform,
        hperforms.authentic hnumbered hs.told.indexed hs.named⟩

end Orderly

end Governed

/-- Whatever happens to an assembly that starts with nothing, under a roster that starts with
nothing, the ledger changes only by accepted commands.  What these open, keep and alter is for
whoever supervises the organization at that moment, and ballots are for their members. -/
theorem changes_authentic {o : Ledger.Options} {l : Ledger} {height : Value} {clock : Clock}
    (hledger : Ledger.empty o = .ok l) (hclock : Clock.start height = .ok clock)
    (level : Journal.Level) (moves : List Governed.Move) (next : Governed.Move) :
    let s := Governed.run ⟨⟨around l level, clock⟩, .empty⟩ moves
    let a := s.hosted.assembly
    let a' := (s.move next).hosted.assembly
    a'.ledger = a.ledger ∨
      ∃ command caller payload answer, next = .command command caller payload ∧
        perform (s.roster.host s.hosted.clock.height) command (.text caller) payload a =
          .ok answer a' ∧
        Authentic s.roster a command caller payload a' := by
  have hstart : Governed.Orderly ⟨⟨around l level, clock⟩, .empty⟩ :=
    ⟨Hosted.Told.start hledger hclock level, Roster.Named.empty⟩
  exact (hstart.run moves).move_authentic next

namespace Sample

/-- An organization of alice, whose supervisor opens a vote. -/
def governedMoves : List Governed.Move :=
  [.change (.createOrganization "org" "supervisor"),
   .change (.setStake "org" "alice" 7),
   .command .openVote "supervisor" (.object
    [("org", .object [("kind", .text "equal"), ("orgId", .text "org")]),
     ("threshold", .object [("inFavor", .text "1")])]),
   .change (.removeMember "org" "alice")]

/-- A ballot of alice. -/
def alicePayload : Value :=
  .object [("voteId", .number 1), ("direction", .text "in_favor")]

end Sample

/-- Alice left the organization, but the ballot is still hers. -/
theorem changes_authentic_ballot :
    let s := Governed.run ⟨⟨around Ledger.Sample.start .info, ⟨5⟩⟩, .empty⟩ Sample.governedMoves
    let a := s.hosted.assembly
    let a' := (s.move (.command .submitVote "alice" Sample.alicePayload)).hosted.assembly
    Ledger.empty Ledger.Sample.options = .ok Ledger.Sample.start ∧
      Clock.start (.number 5) = .ok ⟨5⟩ ∧
      (a.ledger.ballot? 1 "alice").map (·.stance) = some .uninitialized ∧
      (a'.ledger.ballot? 1 "alice").map (·.stance) = some .inFavor ∧
      Authentic s.roster a .submitVote "alice" Sample.alicePayload a' := by
  intro s a a'
  have hclock : Clock.start (.number 5) = .ok ⟨5⟩ := by
    rfl
  have hbefore : (a.ledger.ballot? 1 "alice").map (·.stance) = some .uninitialized := by
    decide +kernel
  have hafter : (a'.ledger.ballot? 1 "alice").map (·.stance) = some .inFavor := by
    decide +kernel
  refine ⟨Ledger.Sample.empty_options, hclock, hbefore, hafter, ?_⟩
  rcases changes_authentic Ledger.Sample.empty_options hclock .info Sample.governedMoves
    (.command .submitVote "alice" Sample.alicePayload) with
    hledger | ⟨command, caller, payload, answer, hnext, -, hauthentic⟩
  · -- The ledger did change.
    have hsame : a'.ledger = a.ledger := hledger
    rw [hsame, hbefore] at hafter
    cases hafter
  · cases hnext
    exact hauthentic

end Assembly

end Plebiscite
