import Plebiscite.Proofs.Assembly.Action
import Plebiscite.Proofs.Form
import Plebiscite.Proofs.Ledger.Effect

/-!
# What commands of an assembly do

An accepted command asks the ledger for one thing, appends one event to the history and writes one
line in the journal; only the opening of a vote is also entered in the index of electorates.  A
command that is refused writes a line and does nothing else.

## Main definitions

- `Assembly.Requests`: what a command asks the ledger to open
- `Assembly.Accepts`: what an accepted command asks the ledger for, and the event that it records
- `Assembly.Performs`, `Assembly.Refuses`: everything that accepted and refused commands do
- `Assembly.Changes`: what accepted commands do to a ledger whose votes are known by identifiers
- `Assembly.target`: the organization that a command is about

## Main results

- `Assembly.performs_of_perform`, `Assembly.refuses_of_perform`: every command does one or the other
- `Assembly.Performs.changes`: a rule is kept, a vote is opened, or a vote is revised
-/

namespace Plebiscite

/-- A value that belongs to a line, absent if there is none. -/
def Journal.Line.field (line : Journal.Line) (name : String) : Value :=
  (line.fields.lookup name).getD .absent

namespace Assembly

open Plebiscite.Assembly.Action

variable {α β : Type} {host : Host} {a a' : Assembly} {caller payload : Value}

/-! ## Accepted commands -/

/-- What a command asks the ledger to open, for which electorate and from which threshold. -/
inductive Requests (a : Assembly) (payload : Value) :
    Command → Ledger.Command → Electorate → Option Value → Prop
  | openVote {r : Ledger.Request Int} (hform : Form.openVote payload = .accepted r) :
      Requests a payload .openVote (.openVote r) r.electorate none
  | openPercentVote {r : Ledger.Request Number}
      (hform : Form.openPercentVote payload = .accepted r) :
      Requests a payload .openPercentVote (.openPercentVote r) r.electorate none
  | invokeThreshold {c : InvokeThreshold} {entry : Registration}
      (hform : Form.invokeThreshold payload = .accepted c)
      (hentry : a.ledger.register.get? (.number c.thresholdId) = some entry) :
      Requests a payload .invokeThreshold
        (.invokeThreshold entry.id (.ofText? c.topic) (.ofNumber? c.duration))
        entry.electorate (some entry.id)

/-- What an accepted command asks the ledger for, what this answers, and the event that is recorded.
All but ballots need a supervisor of the organization that the command is about. -/
inductive Accepts (host : Host) (a : Assembly) (caller payload : Value) :
    Command → Ledger.Command → Ledger.Answer → Event → Prop
  | registered {c : RegisterThreshold} {entry : Registration}
      (hform : Form.registerThreshold payload = .accepted c)
      (hauthority : host.isSupervisor c.electorate.org caller = .ok true) :
      Accepts host a caller payload .registerThreshold (.registerThreshold c.electorate c.rule)
        (.registered entry) (.thresholdSet entry.id entry.electorate caller host.now)
  | opened {command : Command} {c : Ledger.Command} {electorate : Electorate}
      {thresholdId : Option Value} {id : Number}
      (hrequest : Requests a payload command c electorate thresholdId)
      (hauthority : host.isSupervisor electorate.org caller = .ok true) :
      Accepts host a caller payload command c (.opened id)
        (.voteOpened id electorate caller thresholdId host.now)
  | cast {c : SubmitVote} {receipt : Ledger.Receipt}
      (hform : Form.submitVote payload = .accepted c) :
      Accepts host a caller payload .submitVote
        (.applyVote (.number c.voteId) caller c.stance (.ofText? c.justification))
        (.cast receipt)
        (.voteCast receipt.voteId caller receipt.previous receipt.ballot.stance
          receipt.ballot.justification host.now)
  | extended {c : ExtendVote} {electorate : Electorate} {poll : Poll}
      (hform : Form.extendVote payload = .accepted c)
      (helectorate : a.electorates.get? (.number c.voteId) = some electorate)
      (hauthority : host.isSupervisor electorate.org caller = .ok true) :
      Accepts host a caller payload .extendVote
        (.extendVote (.number c.voteId) (.number c.blocks)) (.updated poll)
        (.voteExtended c.voteId poll.ends host.now)
  | retitled {c : UpdateTopic} {electorate : Electorate} {poll : Poll}
      (hform : Form.updateTopic payload = .accepted c)
      (helectorate : a.electorates.get? (.number c.voteId) = some electorate)
      (hauthority : host.isSupervisor electorate.org caller = .ok true) :
      Accepts host a caller payload .updateTopic
        (.updateTopic (.number c.voteId) (.text c.topic) c.clearTallies) (.updated poll)
        (.topicUpdated c.voteId c.topic c.clearTallies host.now)

/-- The assembly after a command that was accepted. -/
def recorded (a : Assembly) (ledger : Ledger) (event : Event) (line : Journal.Line) : Assembly :=
  { ledger
    history := a.history ++ [event]
    electorates := reassign a.electorates event
    journal := a.journal.write line }

/-- Everything that an accepted command does. -/
structure Performs (host : Host) (a : Assembly) (command : Command) (caller payload : Value)
    (answer : Ledger.Answer) (a' : Assembly) (c : Ledger.Command) (event : Event)
    (line : Journal.Line) : Prop where
  accepts : Accepts host a caller payload command c answer event
  ledger : Ledger.perform host.environment c a.ledger = .ok answer a'.ledger
  level : line.level = .info
  assembly : a' = a.recorded a'.ledger event line

theorem map_eq_ok {m : Step α} {g : α → β} {b : β} :
    (g <$> m) a = .ok b a' ↔ ∃ x, m a = .ok x a' ∧ g x = b := by
  show EStateM.map g m a = _ ↔ _
  simp only [EStateM.map]
  cases m a with
  | ok x a₁ =>
    simp only [EStateM.Result.ok.injEq]
    constructor
    · rintro ⟨hb, ha⟩
      exact ⟨x, ⟨rfl, ha⟩, hb⟩
    · rintro ⟨_, ⟨rfl, ha⟩, hb⟩
      exact ⟨hb, ha⟩
  | error r a₁ => simp

theorem run_eq_ok {name : String} {role : String × Value} {action : Action α} {x : α} :
    run name role action a = .ok x a' ↔
      ∃ s, action ⟨a, .unknown⟩ = .ok x s ∧ s.assembly = a' := by
  unfold run
  cases action ⟨a, .unknown⟩ <;> simp [and_assoc]

theorem performs_of_registerThreshold {entry : Registration}
    (h : registerThreshold host caller payload a = .ok entry a') :
    ∃ c event line,
      Performs host a .registerThreshold caller payload (.registered entry) a' c event line := by
  simp only [registerThreshold, run_eq_ok, bind_eq_ok, accept_eq_ok, note_eq_ok, authorize_eq_ok,
    onLedger_eq_ok, record_eq_ok, inform_eq_ok, pure_eq_ok] at h
  obtain ⟨_, ⟨c, _, ⟨hform, rfl⟩, _, _, rfl, _, _, ⟨hauthority, rfl⟩, _, _, ⟨ledger, hledger, rfl⟩,
    _, _, rfl, _, _, rfl, rfl, rfl⟩, rfl⟩ := h
  exact ⟨_, _, _, .registered hform hauthority, Ledger.Step.map_eq_ok.mpr ⟨_, hledger, rfl⟩, rfl,
    rfl⟩

/-- The three commands that open a vote record it alike. -/
theorem eq_of_opened {s s' : Session} {id : Number} {electorate : Electorate}
    {thresholdId : Option Value} {u : Unit}
    (h : opened host id electorate caller thresholdId s = .ok u s') :
    ∃ line, line.level = .info ∧ s'.assembly = s.assembly.recorded s.assembly.ledger
      (.voteOpened id electorate caller thresholdId host.now) line := by
  simp only [opened, bind_eq_ok, assign_eq_ok, record_eq_ok, assembly_eq_ok, inform_eq_ok] at h
  obtain ⟨_, _, rfl, _, _, rfl, _, _, ⟨rfl, rfl⟩, rfl⟩ := h
  exact ⟨_, rfl, rfl⟩

theorem performs_of_openVote {id : Number} (h : openVote host caller payload a = .ok id a') :
    ∃ c event line, Performs host a .openVote caller payload (.opened id) a' c event line := by
  simp only [openVote, run_eq_ok, bind_eq_ok, accept_eq_ok, note_eq_ok, authorize_eq_ok,
    onLedger_eq_ok, pure_eq_ok] at h
  obtain ⟨_, ⟨r, _, ⟨hform, rfl⟩, _, _, rfl, _, _, ⟨hauthority, rfl⟩, id, _, ⟨ledger, hledger, rfl⟩,
    _, _, hopened, rfl, rfl⟩, rfl⟩ := h
  obtain ⟨line, hlevel, hassembly⟩ := eq_of_opened hopened
  rw [hassembly]
  exact ⟨_, _, line, .opened (.openVote hform) hauthority,
    Ledger.Step.map_eq_ok.mpr ⟨_, hledger, rfl⟩, hlevel, rfl⟩

theorem performs_of_openPercentVote {id : Number}
    (h : openPercentVote host caller payload a = .ok id a') :
    ∃ c event line,
      Performs host a .openPercentVote caller payload (.opened id) a' c event line := by
  simp only [openPercentVote, run_eq_ok, bind_eq_ok, accept_eq_ok, note_eq_ok, authorize_eq_ok,
    onLedger_eq_ok, pure_eq_ok] at h
  obtain ⟨_, ⟨r, _, ⟨hform, rfl⟩, _, _, rfl, _, _, ⟨hauthority, rfl⟩, id, _, ⟨ledger, hledger, rfl⟩,
    _, _, hopened, rfl, rfl⟩, rfl⟩ := h
  obtain ⟨line, hlevel, hassembly⟩ := eq_of_opened hopened
  rw [hassembly]
  exact ⟨_, _, line, .opened (.openPercentVote hform) hauthority,
    Ledger.Step.map_eq_ok.mpr ⟨_, hledger, rfl⟩, hlevel, rfl⟩

theorem performs_of_invokeThreshold {id : Number}
    (h : invokeThreshold host caller payload a = .ok id a') :
    ∃ c event line,
      Performs host a .invokeThreshold caller payload (.opened id) a' c event line := by
  simp only [invokeThreshold, run_eq_ok, bind_eq_ok, accept_eq_ok, note_eq_ok,
    assembly_eq_ok] at h
  obtain ⟨_, ⟨c, _, ⟨hform, rfl⟩, _, _, rfl, _, _, ⟨rfl, rfl⟩, h⟩, rfl⟩ := h
  cases hentry : a.ledger.register.get? (.number c.thresholdId) with
  | none => simp [hentry] at h
  | some entry =>
    simp only [hentry, bind_eq_ok, note_eq_ok, authorize_eq_ok, onLedger_eq_ok, pure_eq_ok] at h
    obtain ⟨_, _, rfl, _, _, ⟨hauthority, rfl⟩, id, _, ⟨ledger, hledger, rfl⟩, _, _, hopened, rfl,
      rfl⟩ := h
    obtain ⟨line, hlevel, hassembly⟩ := eq_of_opened hopened
    rw [hassembly]
    exact ⟨_, _, line, .opened (.invokeThreshold hform hentry) hauthority,
      Ledger.Step.map_eq_ok.mpr ⟨_, hledger, rfl⟩, hlevel, rfl⟩

theorem performs_of_submitVote {receipt : Ledger.Receipt}
    (h : submitVote host caller payload a = .ok receipt a') :
    ∃ c event line, Performs host a .submitVote caller payload (.cast receipt) a' c event line := by
  simp only [submitVote, run_eq_ok, bind_eq_ok, accept_eq_ok, describeVote_eq_ok, onLedger_eq_ok,
    record_eq_ok, assembly_eq_ok, inform_eq_ok, pure_eq_ok] at h
  obtain ⟨_, ⟨c, _, ⟨hform, rfl⟩, _, _, rfl, receipt, _, ⟨ledger, hledger, rfl⟩, _, _, rfl, _, _,
    ⟨rfl, rfl⟩, _, _, rfl, rfl, rfl⟩, rfl⟩ := h
  exact ⟨_, _, _, .cast hform, Ledger.Step.map_eq_ok.mpr ⟨_, hledger, rfl⟩, rfl, rfl⟩

theorem performs_of_extendVote {poll : Poll} (h : extendVote host caller payload a = .ok poll a') :
    ∃ c event line, Performs host a .extendVote caller payload (.updated poll) a' c event line := by
  simp only [extendVote, run_eq_ok, bind_eq_ok, accept_eq_ok, describeVote_eq_ok,
    authorizeForVote_eq_ok, onLedger_eq_ok, record_eq_ok, inform_eq_ok, pure_eq_ok] at h
  obtain ⟨_, ⟨c, _, ⟨hform, rfl⟩, _, _, rfl, _, _, ⟨-, ⟨electorate, helectorate, hauthority⟩, rfl⟩,
    poll, _, ⟨ledger, hledger, rfl⟩, _, _, rfl, _, _, rfl, rfl, rfl⟩, rfl⟩ := h
  exact ⟨_, _, _, .extended hform helectorate hauthority,
    Ledger.Step.map_eq_ok.mpr ⟨_, hledger, rfl⟩, rfl, rfl⟩

theorem performs_of_updateTopic {poll : Poll}
    (h : updateTopic host caller payload a = .ok poll a') :
    ∃ c event line,
      Performs host a .updateTopic caller payload (.updated poll) a' c event line := by
  simp only [updateTopic, run_eq_ok, bind_eq_ok, accept_eq_ok, describeVote_eq_ok,
    authorizeForVote_eq_ok, onLedger_eq_ok, record_eq_ok, inform_eq_ok, pure_eq_ok] at h
  obtain ⟨_, ⟨c, _, ⟨hform, rfl⟩, _, _, rfl, _, _, ⟨-, ⟨electorate, helectorate, hauthority⟩, rfl⟩,
    poll, _, ⟨ledger, hledger, rfl⟩, _, _, rfl, _, _, rfl, rfl, rfl⟩, rfl⟩ := h
  exact ⟨_, _, _, .retitled hform helectorate hauthority,
    Ledger.Step.map_eq_ok.mpr ⟨_, hledger, rfl⟩, rfl, rfl⟩

theorem performs_of_perform {command : Command} {answer : Ledger.Answer}
    (h : perform host command caller payload a = .ok answer a') :
    ∃ c event line, Performs host a command caller payload answer a' c event line := by
  cases command with
  | registerThreshold =>
    obtain ⟨_, hpassed, rfl⟩ := map_eq_ok.mp h
    exact performs_of_registerThreshold hpassed
  | openVote =>
    obtain ⟨_, hpassed, rfl⟩ := map_eq_ok.mp h
    exact performs_of_openVote hpassed
  | openPercentVote =>
    obtain ⟨_, hpassed, rfl⟩ := map_eq_ok.mp h
    exact performs_of_openPercentVote hpassed
  | invokeThreshold =>
    obtain ⟨_, hpassed, rfl⟩ := map_eq_ok.mp h
    exact performs_of_invokeThreshold hpassed
  | submitVote =>
    obtain ⟨_, hpassed, rfl⟩ := map_eq_ok.mp h
    exact performs_of_submitVote hpassed
  | extendVote =>
    obtain ⟨_, hpassed, rfl⟩ := map_eq_ok.mp h
    exact performs_of_extendVote hpassed
  | updateTopic =>
    obtain ⟨_, hpassed, rfl⟩ := map_eq_ok.mp h
    exact performs_of_updateTopic hpassed

/-! ## Changes of the ledger -/

/-- What an accepted command does to the ledger, with the event that is recorded. -/
inductive Changes (host : Host) (a : Assembly) (caller payload : Value) :
    Command → Ledger → Event → Prop
  /-- A rule is kept. -/
  | registered {c : RegisterThreshold} {entry : Registration} {register : Register}
      (hform : Form.registerThreshold payload = .accepted c)
      (hauthority : host.isSupervisor c.electorate.org caller = .ok true)
      (hregister : a.ledger.register.register (.number a.ledger.settings.ceiling) c.electorate
        c.rule = .ok (entry, register)) :
      Changes host a caller payload .registerThreshold { a.ledger with register }
        (.thresholdSet entry.id entry.electorate caller host.now)
  /-- A vote is opened for the electorate that was judged. -/
  | opened {command : Command} {o : Ledger.Opening} {vote : Vote} {thresholdId : Option Value}
      (hauthority : host.isSupervisor o.electorate.org caller = .ok true)
      (hopens : Ledger.Opens host.environment a.ledger o vote) :
      Changes host a caller payload command (a.ledger.addVote vote)
        (.voteOpened vote.id o.electorate caller thresholdId host.now)
  /-- A vote is revised. -/
  | revised {command : Command} {c : Ledger.Command} {answer : Ledger.Answer} {event : Event}
      {v w : Vote} (haccepts : Accepts host a caller payload command c answer event)
      (hrevises : Ledger.Revises host.environment a.ledger c v w answer) :
      Changes host a caller payload command (a.ledger.replaceVote w) event

/-- A vote is opened for the electorate that was asked for. -/
theorem Requests.opening {command : Command} {c : Ledger.Command} {electorate : Electorate}
    {thresholdId : Option Value} (h : Requests a payload command c electorate thresholdId) :
    ∃ o, a.ledger.opening? c = some o ∧ o.electorate = electorate := by
  cases h with
  | openVote | openPercentVote => exact ⟨_, rfl, rfl⟩
  | @invokeThreshold _ entry _ hentry =>
    -- The entry is looked up again under its own identifier.
    have hsame := List.find?_some hentry
    obtain ⟨-, hid⟩ := Bool.and_eq_true_iff.mp hsame
    have hfound : a.ledger.register.get? entry.id = some entry := by
      rw [of_decide_eq_true hid]
      exact hentry
    exact ⟨_, by rw [Ledger.opening?, hfound]; rfl, rfl⟩

theorem Performs.changes {command : Command} {answer : Ledger.Answer} {c : Ledger.Command}
    {event : Event} {line : Journal.Line}
    (h : Performs host a command caller payload answer a' c event line)
    (hindexed : a.ledger.Indexed) : Changes host a caller payload command a'.ledger event := by
  have hledger := (Ledger.perform_eq_ok hindexed).mp h.ledger
  have haccepts := h.accepts
  generalize a'.ledger = l' at hledger
  cases hledger with
  | registered hregister =>
    cases haccepts with
    | registered hform hauthority => exact .registered hform hauthority hregister
  | opened ho hopens =>
    cases haccepts with
    | opened hrequest hauthority =>
      -- What is asked for is what the command opens the vote with.
      obtain ⟨o, ho', rfl⟩ := hrequest.opening
      obtain rfl := Option.some.inj (ho'.symm.trans ho)
      exact .opened hauthority hopens
  | revised hrevises => exact .revised haccepts hrevises

/-! ## Refused commands -/

/-- The organization that a command is about: the one that its payload names, or the one of the
threshold or vote that it names. -/
def target (a : Assembly) (payload : Value) : Command → Value
  | .registerThreshold | .openVote | .openPercentVote => (payload.get "org").get "orgId"
  | .invokeThreshold =>
    ((a.ledger.register.get? (payload.get "thresholdId")).map (·.electorate.org)).getD .absent
  | .submitVote | .extendVote | .updateTopic =>
    ((a.electorates.get? (payload.get "voteId")).map (·.org)).getD .absent

/-- Everything that a refused command does: it writes a line that tells why, and of no organization
but the one that the command is about. -/
structure Refuses (a : Assembly) (org : Value) (refusal : Refusal) (a' : Assembly)
    (line : Journal.Line) : Prop where
  level : line.level = .warn
  code : line.field "code" = .ofText? (refusal.code?.map Code.text)
  kind : line.field "kind" = .text refusal.kind.text
  org : line.field "orgId" = .absent ∨ line.field "orgId" = org
  assembly : a' = a.log line

theorem refuses_of_run {name role : String} {action : Action α} {org : Value} {refusal : Refusal}
    (hrole : role = "caller" ∨ role = "voter") (haction : Cautious a org action)
    (h : run name (role, caller) action a = .error refusal a') :
    ∃ line, Refuses a org refusal a' line := by
  unfold run at h
  cases hfailed : action ⟨a, .unknown⟩ with
  | ok x s => simp [hfailed] at h
  | error r s =>
    rw [hfailed] at h
    cases h
    obtain ⟨hassembly, horg⟩ := haction.of_error ⟨rfl, .inl rfl⟩ hfailed
    refine ⟨_, rfl, ?_, ?_, ?_, by rw [hassembly]⟩
    · rcases hrole with rfl | rfl <;> rfl
    · rcases hrole with rfl | rfl <;> rfl
    · rcases hrole with rfl | rfl <;> exact horg

theorem refuses_of_registerThreshold {refusal : Refusal}
    (h : registerThreshold host caller payload a = .error refusal a') :
    ∃ line, Refuses a (target a payload .registerThreshold) refusal a' line := by
  refine refuses_of_run (.inl rfl) ?_ h
  apply Cautious.accept_bind
  intro c hform
  have htarget := Form.target_of_registerThreshold hform
  refine Cautious.bind (looks_note fun _ => .inr htarget) fun _ => ?_
  refine Cautious.bind (looks_authorize _ _ _ _) fun _ => ?_
  refine Cautious.onLedger_bind (Ledger.registerThreshold_allOrNothing _ _) fun entry => ?_
  exact (succeeds_record _).bind fun _ => (succeeds_inform _ _).bind fun _ => succeeds_pure _

theorem succeeds_opened (host : Host) (id : Number) (electorate : Electorate) (creator : Value)
    (thresholdId : Option Value) : Succeeds (opened host id electorate creator thresholdId) := by
  refine (succeeds_assign _ _).bind fun _ => ?_
  refine (succeeds_record _).bind fun _ => ?_
  exact succeeds_assembly.bind fun _ => succeeds_inform _ _

theorem refuses_of_openVote {refusal : Refusal}
    (h : openVote host caller payload a = .error refusal a') :
    ∃ line, Refuses a (target a payload .openVote) refusal a' line := by
  refine refuses_of_run (.inl rfl) ?_ h
  apply Cautious.accept_bind
  intro r hform
  refine Cautious.bind (looks_note fun _ => .inr (Form.target_of_request hform)) fun _ => ?_
  refine Cautious.bind (looks_authorize _ _ _ _) fun _ => ?_
  refine Cautious.onLedger_bind (Ledger.openVote_allOrNothing _) fun id => ?_
  exact (succeeds_opened _ _ _ _ _).bind fun _ => succeeds_pure _

theorem refuses_of_openPercentVote {refusal : Refusal}
    (h : openPercentVote host caller payload a = .error refusal a') :
    ∃ line, Refuses a (target a payload .openPercentVote) refusal a' line := by
  refine refuses_of_run (.inl rfl) ?_ h
  apply Cautious.accept_bind
  intro r hform
  refine Cautious.bind (looks_note fun _ => .inr (Form.target_of_request hform)) fun _ => ?_
  refine Cautious.bind (looks_authorize _ _ _ _) fun _ => ?_
  refine Cautious.onLedger_bind (Ledger.openPercentVote_allOrNothing _) fun id => ?_
  exact (succeeds_opened _ _ _ _ _).bind fun _ => succeeds_pure _

theorem refuses_of_invokeThreshold {refusal : Refusal}
    (h : invokeThreshold host caller payload a = .error refusal a') :
    ∃ line, Refuses a (target a payload .invokeThreshold) refusal a' line := by
  refine refuses_of_run (.inl rfl) ?_ h
  apply Cautious.accept_bind
  intro c hform
  refine Cautious.bind (looks_note fun _ => .inl rfl) fun _ => ?_
  apply Cautious.assembly_bind
  cases hentry : a.ledger.register.get? (.number c.thresholdId) with
  | none => exact Cautious.throw _
  | some entry =>
    have htarget : entry.electorate.org = target a payload .invokeThreshold := by
      rw [target, Form.target_of_invokeThreshold hform, hentry]
      rfl
    refine Cautious.bind (looks_note fun _ => .inr htarget) fun _ => ?_
    refine Cautious.bind (looks_authorize _ _ _ _) fun _ => ?_
    refine Cautious.onLedger_bind (Ledger.invokeThreshold_allOrNothing _ _ _) fun id => ?_
    exact (succeeds_opened _ _ _ _ _).bind fun _ => succeeds_pure _

theorem refuses_of_submitVote {refusal : Refusal}
    (h : submitVote host caller payload a = .error refusal a') :
    ∃ line, Refuses a (target a payload .submitVote) refusal a' line := by
  refine refuses_of_run (.inr rfl) ?_ h
  apply Cautious.accept_bind
  intro c hform
  have htarget := Form.target_of_submitVote hform
  refine Cautious.bind (looks_describeVote (by rw [target, htarget])) fun _ => ?_
  refine Cautious.onLedger_bind (Ledger.applyVote_allOrNothing _ _ _ _) fun receipt => ?_
  refine (succeeds_record _).bind fun _ => succeeds_assembly.bind fun _ => ?_
  exact (succeeds_inform _ _).bind fun _ => succeeds_pure _

theorem refuses_of_extendVote {refusal : Refusal}
    (h : extendVote host caller payload a = .error refusal a') :
    ∃ line, Refuses a (target a payload .extendVote) refusal a' line := by
  refine refuses_of_run (.inl rfl) ?_ h
  apply Cautious.accept_bind
  intro c hform
  have htarget := Form.target_of_extendVote hform
  refine Cautious.bind (looks_describeVote (by rw [target, htarget])) fun _ => ?_
  refine Cautious.bind (looks_authorizeForVote _ _ _) fun _ => ?_
  refine Cautious.onLedger_bind (Ledger.extendVote_allOrNothing _ _) fun poll => ?_
  exact (succeeds_record _).bind fun _ => (succeeds_inform _ _).bind fun _ => succeeds_pure _

theorem refuses_of_updateTopic {refusal : Refusal}
    (h : updateTopic host caller payload a = .error refusal a') :
    ∃ line, Refuses a (target a payload .updateTopic) refusal a' line := by
  refine refuses_of_run (.inl rfl) ?_ h
  apply Cautious.accept_bind
  intro c hform
  have htarget := (Form.target_of_updateTopic hform).1
  refine Cautious.bind (looks_describeVote (by rw [target, htarget])) fun _ => ?_
  refine Cautious.bind (looks_authorizeForVote _ _ _) fun _ => ?_
  refine Cautious.onLedger_bind (Ledger.updateTopic_allOrNothing _ _ _) fun poll => ?_
  exact (succeeds_record _).bind fun _ => (succeeds_inform _ _).bind fun _ => succeeds_pure _

theorem map_eq_error {m : Step α} {g : α → β} {refusal : Refusal} :
    (g <$> m) a = .error refusal a' ↔ m a = .error refusal a' := by
  show EStateM.map g m a = _ ↔ _
  simp only [EStateM.map]
  cases m a <;> simp

theorem refuses_of_perform {command : Command} {refusal : Refusal}
    (h : perform host command caller payload a = .error refusal a') :
    ∃ line, Refuses a (target a payload command) refusal a' line := by
  cases command with
  | registerThreshold => exact refuses_of_registerThreshold (map_eq_error.mp h)
  | openVote => exact refuses_of_openVote (map_eq_error.mp h)
  | openPercentVote => exact refuses_of_openPercentVote (map_eq_error.mp h)
  | invokeThreshold => exact refuses_of_invokeThreshold (map_eq_error.mp h)
  | submitVote => exact refuses_of_submitVote (map_eq_error.mp h)
  | extendVote => exact refuses_of_extendVote (map_eq_error.mp h)
  | updateTopic => exact refuses_of_updateTopic (map_eq_error.mp h)

end Assembly

end Plebiscite
