import Plebiscite.Proofs.Assembly.Effect
import Plebiscite.Proofs.Ledger.Run

/-!
# One event or none, and one line

The ledger, the history, the index of electorates and the journal are written one after the other,
and a command may be refused at every stage of it.  They never part: a command that passes adds one
event and one line that tells of it, and a command that is refused adds one line that tells why.

## Main definitions

- `Event.subject`, `Assembly.Command.kind`, `Assembly.affected`: what an event is about, and what it
  has to be about
- `Assembly.Recorded`, `Assembly.Rejected`: what a command leaves when it passes or is refused

## Main results

- `Assembly.perform_recorded`: every command leaves one or the other
-/

namespace Plebiscite

/-- The vote or the threshold that an event tells of. -/
def Event.subject : Event → Value
  | .thresholdSet thresholdId _ _ _ => thresholdId
  | .voteOpened voteId _ _ _ _ => .number voteId
  | .voteCast voteId _ _ _ _ _ => .number voteId
  | .voteExtended voteId _ _ => .number voteId
  | .topicUpdated voteId _ _ _ => .number voteId
  | .given _ => .absent

/-- The vote in a receipt is the one that the ballot was cast in. -/
theorem Ledger.voteId_of_applyVote {env : Environment} {l l' : Ledger} {id voter : Value}
    {stance : Stance} {justification : Value} {receipt : Receipt}
    (h : applyVote env id voter stance justification l = .ok receipt l') :
    id = .number receipt.voteId := by
  simp only [applyVote, Step.bind_eq_ok, Step.get_eq_ok, Step.check_eq_ok] at h
  obtain ⟨_, _, ⟨rfl, rfl⟩, v, _, ⟨hvote, rfl⟩, now, _, -, h⟩ := h
  cases hopen : v.poll.endedBy? now with
  | some ends => simp [hopen] at h
  | none =>
    cases hseat : v.ballot? voter.display with
    | none => simp [hopen, hseat] at h
    | some previous =>
      simp only [hopen, hseat, Step.bind_eq_ok, Step.check_eq_ok, writeBallot_eq_ok,
        writePoll_eq_ok, Step.pure_eq_ok] at h
      obtain ⟨_, _, -, _, _, -, _, _, -, _, _, -, rfl, -⟩ := h
      exact (mem_of_require hvote).2

namespace Assembly

/-- The kind of event that a command is recorded as. -/
def Command.kind : Command → Event.Kind
  | .registerThreshold => .thresholdSet
  | .openVote | .openPercentVote | .invokeThreshold => .voteOpened
  | .submitVote => .voteCast
  | .extendVote => .voteExtended
  | .updateTopic => .topicUpdated

/-- The threshold or vote that came about, or the vote that the payload names. -/
def affected (payload : Value) : Ledger.Answer → Value
  | .registered entry => entry.id
  | .opened id => .number id
  | .cast _ | .updated _ => payload.get "voteId"

variable {host : Host} {a a' : Assembly} {caller payload : Value} {command : Command}

/-- A command that passes leaves one event and one line. -/
structure Recorded (host : Host) (a : Assembly) (command : Command) (payload : Value)
    (answer : Ledger.Answer) (a' : Assembly) (event : Event) (line : Journal.Line) : Prop where
  kind : event.kind? = some command.kind
  subject : event.subject = affected payload answer
  height : event.height? = some host.now
  history : a'.history = a.history ++ [event]
  level : line.level = .info
  lines : a'.journal.lines = a.journal.lines ++ [line]

/-- A command that is refused leaves one line, and what is stored as it was. -/
structure Rejected (a : Assembly) (command : Command) (payload : Value) (refusal : Refusal)
    (a' : Assembly) (line : Journal.Line) : Prop where
  ledger : a'.ledger = a.ledger
  history : a'.history = a.history
  electorates : a'.electorates = a.electorates
  level : line.level = .warn
  code : line.field "code" = .ofText? (refusal.code?.map Code.text)
  kind : line.field "kind" = .text refusal.kind.text
  org : line.field "orgId" ≠ .absent → line.field "orgId" = a.target payload command
  lines : a'.journal.lines = a.journal.lines ++ [line]

theorem Requests.kind {c : Ledger.Command} {electorate : Electorate} {thresholdId : Option Value}
    (h : Requests a payload command c electorate thresholdId) : command.kind = .voteOpened := by
  cases h <;> rfl

theorem Accepts.event_kind {c : Ledger.Command} {answer : Ledger.Answer} {event : Event}
    (h : Accepts host a caller payload command c answer event) :
    event.kind? = some command.kind ∧ event.height? = some host.now := by
  cases h with
  | opened hrequest => exact ⟨congrArg some hrequest.kind.symm, rfl⟩
  | _ => exact ⟨rfl, rfl⟩

theorem Performs.subject {answer : Ledger.Answer} {c : Ledger.Command} {event : Event}
    {line : Journal.Line} (h : Performs host a command caller payload answer a' c event line) :
    event.subject = affected payload answer := by
  have hledger := h.ledger
  cases h.accepts with
  | registered | opened => rfl
  | cast hform =>
    obtain ⟨receipt, hcast, ⟨⟩⟩ := Ledger.Step.map_eq_ok.mp hledger
    exact (Ledger.voteId_of_applyVote hcast).symm.trans (Form.target_of_submitVote hform).symm
  | extended hform => exact (Form.target_of_extendVote hform).symm
  | retitled hform => exact (Form.target_of_updateTopic hform).1.symm

/-- A line that is grave enough for a journal is added to it. -/
theorem lines_write {journal : Journal} {line : Journal.Line}
    (h : journal.level.severity ≤ line.level.severity) :
    (journal.write line).lines = journal.lines ++ [line] := by
  rw [Journal.write, if_pos h]

/-- Whoever gives a command with whatever payload, it passes and leaves one event and one line, or
it is refused and leaves one line and nothing else. -/
theorem perform_recorded (host : Host)
    (hlevel : a.journal.level.severity ≤ Journal.Level.info.severity) (command : Command)
    (caller payload : Value) :
    match perform host command caller payload a with
    | .ok answer a' => ∃ event line, Recorded host a command payload answer a' event line
    | .error refusal a' => ∃ line, Rejected a command payload refusal a' line := by
  cases h : perform host command caller payload a with
  | ok answer a' =>
    obtain ⟨c, event, line, hperforms⟩ := performs_of_perform h
    obtain ⟨hkind, hheight⟩ := hperforms.accepts.event_kind
    refine ⟨event, line, hkind, hperforms.subject, hheight, ?_, hperforms.level, ?_⟩
    · rw [hperforms.assembly]
      rfl
    · rw [hperforms.assembly]
      exact lines_write (by rwa [hperforms.level])
  | error refusal a' =>
    obtain ⟨line, hlevel', hcode, hkind, horg, rfl⟩ := refuses_of_perform h
    refine ⟨line, rfl, rfl, rfl, hlevel', hcode, hkind, horg.resolve_left, ?_⟩
    -- A journal that keeps lines about passed commands keeps graver ones as well.
    apply lines_write
    rw [hlevel']
    exact hlevel.trans (by decide)

namespace Sample

/-- A rule for the organization of the two. -/
def rulePayload : Value :=
  .object
    [("org", .object [("kind", .text "equal"), ("orgId", .text "org")]),
     ("rule", .object
       [("kind", .text "percent"), ("threshold", .object [("inFavor", .number 750000)])])]

/-- The organization of the two, under one supervisor. -/
def supervised : Host where
  now := 5
  stakes := Ledger.Sample.source
  isSupervisor _ caller := .ok (caller.same (.text "supervisor"))

end Sample

/-- A rule that an outsider and then the supervisor ask for. -/
theorem perform_recorded_rule :
    let a := around Ledger.Sample.start .info
    let refusal := .unauthorized (.text "org") (.text "outsider") .registerThresholds
    a.journal.level.severity ≤ Journal.Level.info.severity ∧
      (∃ a' line,
        perform Sample.supervised .registerThreshold (.text "outsider") Sample.rulePayload a =
          .error refusal a' ∧
        Rejected a .registerThreshold Sample.rulePayload refusal a' line) ∧
      ∃ answer a' event line,
        perform Sample.supervised .registerThreshold (.text "supervisor") Sample.rulePayload a =
          .ok answer a' ∧
        Recorded Sample.supervised a .registerThreshold Sample.rulePayload answer a' event
          line := by
  intro a refusal
  have hlevel : a.journal.level.severity ≤ Journal.Level.info.severity := by
    decide
  have hrefused : ∃ a', perform Sample.supervised .registerThreshold (.text "outsider")
      Sample.rulePayload a = .error refusal a' := ⟨_, rfl⟩
  have hpassed : ∃ answer a', perform Sample.supervised .registerThreshold (.text "supervisor")
      Sample.rulePayload a = .ok answer a' := ⟨_, _, rfl⟩
  obtain ⟨a₁, hrefused⟩ := hrefused
  obtain ⟨answer, a₂, hpassed⟩ := hpassed
  have houtsider := perform_recorded Sample.supervised hlevel .registerThreshold (.text "outsider")
    Sample.rulePayload
  have hsupervisor := perform_recorded Sample.supervised hlevel .registerThreshold
    (.text "supervisor") Sample.rulePayload
  rw [hrefused] at houtsider
  rw [hpassed] at hsupervisor
  obtain ⟨line, hrejected⟩ := houtsider
  obtain ⟨event, line', hrecorded⟩ := hsupervisor
  exact ⟨hlevel, ⟨a₁, line, hrefused, hrejected⟩, answer, a₂, event, line', hpassed, hrecorded⟩

end Assembly

end Plebiscite
