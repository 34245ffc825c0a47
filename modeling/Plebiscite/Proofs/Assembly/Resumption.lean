import Plebiscite.Assembly.Founding
import Plebiscite.Proofs.Assembly.Agreement
import Plebiscite.Proofs.Assembly.History
import Plebiscite.Proofs.Ledger.RoundTrip

/-!
# Resumed assemblies go on as before

A host may stop at any time and found its assembly anew from what it left: the snapshot of the
ledger and the history.  The index of electorates is not among these.  It comes back because it is
what the history makes of nothing, and every command keeps it so; the ledger comes back because
callers of an assembly cannot hand it anything that it could not store.

## Main definitions

- `Assembly.Query`, `Assembly.Turn`, `Assembly.transcript`: what can be seen of an assembly from
  outside
- `Assembly.records`, `Assembly.interrupted`: what an assembly leaves, and what is seen of one that
  is founded anew again and again
- `Assembly.Traced`: the ledger was only called, and the history makes the index

## Main results

- `Assembly.Traced.serve`: whatever is called or asked, an assembly stays traced
- `Assembly.Traced.found`: it is founded anew as it was, but for its journal
- `Assembly.transcript_interrupted`: that an assembly is founded anew cannot be seen from outside
-/

namespace Plebiscite

/-- The options of a ledger under the settings of a host. -/
def Config.options (config : Config) : Ledger.Options :=
  ⟨.number config.maxId, config.policy.toValue⟩

namespace Assembly

variable {a b : Assembly} {start : Ledger}

/-! ## Seen from outside -/

/-- What can be asked of an assembly. -/
inductive Query where
  | ledger (query : Ledger.Query)
  /-- Which electorate a vote belongs to. -/
  | electorate (voteId : Value)
  | history

/-- What a command or a question is answered with. -/
inductive Reply where
  | done (answer : Ledger.Answer)
  | ledger (reply : Ledger.Reply)
  | electorate (electorate : Option Electorate)
  | history (events : List Event)

/-- What an assembly answers to a question. -/
def ask (a : Assembly) (host : Host) : Query → Except Refusal Reply
  | .ledger query =>
    match a.ledger.ask host.environment query with
    | .ok reply => .ok (.ledger reply)
    | .error fault => .error (.ledger fault)
  | .electorate voteId => .ok (.electorate (a.electorate? voteId))
  | .history => .ok (.history a.history)

/-- One command or question, with the clock, the stakes and the authority of that moment. -/
inductive Turn where
  | command (host : Host) (command : Command) (caller payload : Value)
  | ask (host : Host) (query : Query)

/-- The source of stakes that a command reads can be one that there is. -/
def Turn.WellTyped : Turn → Prop
  | .command host _ _ _ => host.stakes.WellTyped
  | .ask _ _ => True

/-- The reply to a turn, with the assembly after it. -/
def answer (a : Assembly) : Turn → Except Refusal Reply × Assembly
  | .command host command caller payload =>
    match perform host command caller payload a with
    | .ok answer a' => (.ok (.done answer), a')
    | .error refusal a' => (.error refusal, a')
  | .ask host query => (a.ask host query, a)

/-- The assembly after several turns. -/
def serve (a : Assembly) (turns : List Turn) : Assembly :=
  turns.foldl (fun a turn => (a.answer turn).2) a

/-- All replies to several turns, one after the other. -/
def transcript (a : Assembly) : List Turn → List (Except Refusal Reply)
  | [] => []
  | turn :: turns => (a.answer turn).1 :: (a.answer turn).2.transcript turns

theorem transcript_append (a : Assembly) (turns more : List Turn) :
    a.transcript (turns ++ more) = a.transcript turns ++ (a.serve turns).transcript more := by
  induction turns generalizing a with
  | nil => rfl
  | cons turn turns ih => exact congrArg (_ :: ·) (ih _)

/-- What an assembly leaves to one that is founded after it. -/
def records (a : Assembly) : Records where
  snapshot := a.ledger.snapshot
  events := a.history

/-- All replies in several sessions.  After each session the assembly is founded anew from what it
left. -/
def interrupted (environment : Value) (a : Assembly) :
    List (List Turn) → Except FoundingFault (List (Except Refusal Reply))
  | [] => .ok []
  | turns :: sessions => do
    let (_, next) ← found environment (some (a.serve turns).records)
    return a.transcript turns ++ (← next.interrupted environment sessions)

/-! ## Assemblies that agree -/

namespace Agrees

theorem ask (h : a.Agrees b) (host : Host) (query : Query) :
    a.ask host query = b.ask host query := by
  cases query with
  | ledger query => simp only [Assembly.ask, h.ledger]
  | electorate voteId => simp only [Assembly.ask, electorate?, h.electorates]
  | history => simp only [Assembly.ask, h.history]

theorem answer (h : a.Agrees b) (turn : Turn) :
    (a.answer turn).1 = (b.answer turn).1 ∧ (a.answer turn).2.Agrees (b.answer turn).2 := by
  cases turn with
  | command host command caller payload =>
    have hmatches : Matches Agrees (Assembly.perform host command caller payload a)
        (Assembly.perform host command caller payload b) :=
      h.perform command
    simp only [Assembly.answer]
    generalize Assembly.perform host command caller payload a = r at hmatches
    generalize Assembly.perform host command caller payload b = r' at hmatches
    cases hmatches with
    | ok hstate => exact ⟨rfl, hstate⟩
    | error hstate => exact ⟨rfl, hstate⟩
  | ask host query => exact ⟨h.ask host query, h⟩

theorem serve (h : a.Agrees b) (turns : List Turn) : (a.serve turns).Agrees (b.serve turns) := by
  induction turns generalizing a b with
  | nil => exact h
  | cons turn turns ih => exact ih (h.answer turn).2

theorem transcript (h : a.Agrees b) (turns : List Turn) :
    a.transcript turns = b.transcript turns := by
  induction turns generalizing a b with
  | nil => rfl
  | cons turn turns ih =>
    obtain ⟨hreply, hnext⟩ := h.answer turn
    rw [Assembly.transcript, Assembly.transcript, hreply, ih hnext]

theorem records (h : a.Agrees b) : a.records = b.records := by
  simp only [Assembly.records, h.ledger, h.history]

end Agrees

/-! ## What callers hand to the ledger -/

/-- Whatever form a payload has, what the ledger is asked for can be stored. -/
theorem Accepts.storable {host : Host} {command : Command} {caller payload : Value}
    {c : Ledger.Command} {answer : Ledger.Answer} {event : Event}
    (h : Accepts host a caller payload command c answer event) : c.Storable := by
  cases h with
  | registered hform =>
    exact ⟨Form.isElectorate_of_electorate (Form.electorate_of_registerThreshold hform),
      Form.bare_of_rule (Form.rule_of_registerThreshold hform)⟩
  | opened hrequest =>
    cases hrequest with
    | openVote hform => exact Form.remarks_of_threshold (Form.fields_of_request hform).threshold
    | openPercentVote | invokeThreshold => exact trivial
  | cast hform => exact (Form.fields_of_submitVote hform).2.1
  | extended | retitled => exact trivial

/-- The ledger of an assembly was only called with what can be stored, and the index of electorates
is what the history makes of nothing. -/
structure Traced (start : Ledger) (a : Assembly) : Prop where
  ledger : ∃ calls : List Ledger.Call, (∀ call ∈ calls, call.Storable) ∧
    a.ledger = start.serve calls
  electorates : a.electorates = a.history.foldl reassign []

namespace Traced

theorem of_agrees (h : Traced start a) (hab : a.Agrees b) : Traced start b := by
  obtain ⟨hledger, helectorates⟩ := h
  rw [hab.ledger] at hledger
  rw [hab.electorates, hab.history] at helectorates
  exact ⟨hledger, helectorates⟩

theorem around (start : Ledger) (level : Journal.Level) : Traced start (around start level) where
  ledger := ⟨[], by simp, rfl⟩
  electorates := rfl

theorem performs (h : Traced start a) {host : Host} {command : Command} {caller payload : Value}
    {answer : Ledger.Answer} {a' : Assembly} {c : Ledger.Command} {event : Event}
    {line : Journal.Line} (hstakes : host.stakes.WellTyped)
    (hperforms : Performs host a command caller payload answer a' c event line) :
    Traced start a' := by
  obtain ⟨⟨calls, hcalls, hledger⟩, helectorates⟩ := h
  have hstorable : Ledger.Call.Storable ⟨host.environment, c⟩ :=
    ⟨hstakes, hperforms.accepts.storable⟩
  have hafter : a.ledger.after host.environment c = a'.ledger := by
    rw [Ledger.after, hperforms.ledger]
  refine ⟨⟨calls ++ [⟨host.environment, c⟩], ?_, ?_⟩, ?_⟩
  · intro call hcall
    rcases List.mem_append.mp hcall with hcall | hcall
    · exact hcalls call hcall
    · obtain rfl := List.mem_singleton.mp hcall
      exact hstorable
  · rw [Ledger.serve_append, ← hledger, Ledger.serve_cons, Ledger.serve_nil]
    exact hafter.symm
  · -- The event is added to the history, and the index is what it makes of the old one.
    rw [hperforms.assembly]
    simp only [recorded, List.foldl_append, List.foldl_cons, List.foldl_nil, helectorates]

theorem answer (h : Traced start a) {turn : Turn} (hturn : turn.WellTyped) :
    Traced start (a.answer turn).2 := by
  cases turn with
  | ask host query => exact h
  | command host command caller payload =>
    simp only [Assembly.answer]
    cases hperform : perform host command caller payload a with
    | ok answer a' =>
      obtain ⟨c, event, line, hperforms⟩ := performs_of_perform hperform
      exact h.performs hturn hperforms
    | error refusal a' =>
      obtain ⟨line, hrefuses⟩ := refuses_of_perform hperform
      have hlogged : a' = a.log line := hrefuses.assembly
      exact h.of_agrees (hlogged ▸ (Agrees.of_log a line).symm)

/-- Whatever is called or asked, an assembly stays traced. -/
theorem serve (h : Traced start a) {turns : List Turn} (hturns : ∀ turn ∈ turns, turn.WellTyped) :
    Traced start (a.serve turns) := by
  induction turns generalizing a with
  | nil => exact h
  | cons turn turns ih =>
    exact ih (h.answer (hturns turn (by simp))) fun next hnext =>
      hturns next (List.mem_cons_of_mem _ hnext)

end Traced

/-! ## Founding anew -/

theorem found_eq_ok {environment : Value} {kept : Option Records} {config : Config} :
    found environment kept = .ok (config, a) ↔
      Form.config environment = .accepted config ∧
        ∃ b, begin config.options config.logLevel kept = .ok b ∧
          b.log (ready config b kept) = a := by
  unfold found Config.options
  cases Form.config environment with
  | refused issues => simp
  | accepted settings =>
    simp only [Verdict.accepted.injEq]
    cases hbegin : begin ⟨.number settings.maxId, settings.policy.toValue⟩ settings.logLevel
      kept with
    | error fault =>
      constructor
      · simp
      · rintro ⟨rfl, b, hb, -⟩
        cases hbegin.symm.trans hb
    | ok b =>
      simp only [Except.ok.injEq, Prod.mk.injEq]
      constructor
      · rintro ⟨rfl, rfl⟩
        exact ⟨rfl, b, hbegin, rfl⟩
      · rintro ⟨rfl, b', hb, rfl⟩
        cases hbegin.symm.trans hb
        exact ⟨rfl, rfl⟩

/-- An assembly that is founded with nothing is one around an empty ledger. -/
theorem of_found {environment : Value} {config : Config}
    (h : found environment none = .ok (config, a)) :
    Form.config environment = .accepted config ∧
      ∃ start, Ledger.empty config.options = .ok start ∧ Traced start a := by
  obtain ⟨hconfig, b, hbegin, rfl⟩ := found_eq_ok.mp h
  obtain ⟨start, hstart, rfl⟩ := Checks.exceptMap_eq_ok.mp hbegin
  exact ⟨hconfig, start, hstart, (Traced.around start _).of_agrees (Agrees.of_log _ _).symm⟩

/-- Replaying a history leaves the ledger alone and makes the index of electorates from it. -/
theorem replay_eq (a : Assembly) (events : List Event) :
    a.replay events =
      { a with history := events, electorates := events.foldl reassign [] } := by
  have hfold : ∀ (events : List Event) (a : Assembly), events.foldl remember a =
      { a with
        history := a.history ++ events
        electorates := events.foldl reassign a.electorates } := by
    intro events
    induction events with
    | nil => intro a; simp
    | cons event events ih => intro a; simp [ih, remember]
  simp [replay, hfold]

/-- A traced assembly is founded anew from what it leaves, as it was but for its journal. -/
theorem Traced.found {environment : Value} {config : Config} (h : Traced start a)
    (hconfig : Form.config environment = .accepted config)
    (hstart : Ledger.empty config.options = .ok start) :
    ∃ b, found environment (some a.records) = .ok (config, b) ∧ b.Agrees a := by
  obtain ⟨⟨calls, hcalls, hledger⟩, helectorates⟩ := h
  obtain ⟨hstorable, hsettings⟩ := Ledger.storable_of_serve hstart hcalls
  rw [← hledger] at hstorable hsettings
  have hrestored : Ledger.restore config.options a.ledger.snapshot = .ok a.ledger :=
    Ledger.restore_snapshot hstorable hsettings
  have hbegin : begin config.options config.logLevel (some a.records) =
      .ok ((Assembly.around a.ledger config.logLevel).replay a.history) :=
    Checks.exceptMap_eq_ok.mpr ⟨a.ledger, hrestored, rfl⟩
  refine ⟨_, found_eq_ok.mpr ⟨hconfig, _, hbegin, rfl⟩, (Agrees.of_log _ _).trans ?_⟩
  rw [replay_eq]
  exact ⟨rfl, rfl, helectorates.symm⟩

/-- However often a traced assembly is founded anew, from the same environment, the replies are
those of the assembly that never stopped. -/
theorem Traced.interrupted {environment : Value} {config : Config}
    (h : Traced start a) (hconfig : Form.config environment = .accepted config)
    (hstart : Ledger.empty config.options = .ok start) (hba : b.Agrees a)
    {sessions : List (List Turn)}
    (hsessions : ∀ turns ∈ sessions, ∀ turn ∈ turns, turn.WellTyped) :
    b.interrupted environment sessions = .ok (a.transcript sessions.flatten) := by
  induction sessions generalizing a b with
  | nil => rfl
  | cons turns sessions ih =>
    -- What the assembly leaves is traced again, so the next session goes on from there.
    have hserved : Traced start (a.serve turns) := h.serve (hsessions turns (by simp))
    obtain ⟨next, hfound, hnext⟩ := hserved.found hconfig hstart
    have hrest : next.interrupted environment sessions =
        .ok ((a.serve turns).transcript sessions.flatten) :=
      ih hserved hnext fun turns hturns => hsessions turns (List.mem_cons_of_mem _ hturns)
    rw [Assembly.interrupted, (hba.serve turns).records, hfound, List.flatten_cons,
      transcript_append, hba.transcript turns]
    simp only [Checks.bind_eq_ok]
    exact ⟨_, rfl, _, hrest, rfl⟩

/-- A host founds an assembly with nothing, and callers give commands and ask questions, while the
clock, the stakes and the authority change.  Whenever the host stops and founds its assembly anew
from what it left, that succeeds; and however often it does so, every reply, refusal and answer is
the same as if it had never stopped. -/
theorem transcript_interrupted {environment : Value} {config : Config}
    (hfound : found environment none = .ok (config, a)) {sessions : List (List Turn)}
    (hsessions : ∀ turns ∈ sessions, ∀ turn ∈ turns, turn.WellTyped) :
    a.interrupted environment sessions = .ok (a.transcript sessions.flatten) := by
  obtain ⟨hconfig, start, hstart, htraced⟩ := of_found hfound
  exact htraced.interrupted hconfig hstart (Agrees.refl a) hsessions

namespace Sample

/-- Few identifiers, and defaults for everything else. -/
def fewIdentifiers : Value :=
  .object [("MAX_ID", .text "10")]

/-- The organization of one, under one supervisor. -/
def soleHost : Host :=
  { supervised with stakes := sole }

/-- A vote that a supervisor opens, and extends after the host stopped twice. -/
def sessions : List (List Turn) :=
  [[.command soleHost .openPercentVote (.text "supervisor") (.object
      [("org", .object [("kind", .text "equal"), ("orgId", .text "org")]),
       ("threshold", .object [("inFavor", .number 750000)]), ("duration", .number 3)])],
   [.ask soleHost .history],
   [.command soleHost .extendVote (.text "supervisor") (.object
      [("voteId", .number 1), ("blocks", .number 7)])]]

end Sample

/-- The vote that was opened before the host stopped is extended for its supervisor after that. -/
theorem transcript_interrupted_twice :
    ∃ config a, found Sample.fewIdentifiers none = .ok (config, a) ∧
      (∀ turns ∈ Sample.sessions, ∀ turn ∈ turns, turn.WellTyped) ∧
      a.interrupted Sample.fewIdentifiers Sample.sessions =
        .ok (a.transcript Sample.sessions.flatten) ∧
      ((a.serve Sample.sessions.flatten).ledger.poll? 1).bind (·.ends) = some 12 := by
  have htyped : ∀ turns ∈ Sample.sessions, ∀ turn ∈ turns, turn.WellTyped := by
    have hstakes : Sample.soleHost.stakes.WellTyped := Sample.sole_wellTyped
    simp [Sample.sessions, Turn.WellTyped, hstakes]
  have hconfig : Form.config Sample.fewIdentifiers =
      .accepted ⟨.info, .development, .resetBallots, 10⟩ := by
    decide +kernel
  have hfound : found Sample.fewIdentifiers none = .ok (_, _) :=
    found_eq_ok.mpr ⟨hconfig, _, rfl, rfl⟩
  refine ⟨_, _, hfound, htyped, transcript_interrupted hfound htyped, ?_⟩
  decide +kernel

end Assembly

end Plebiscite
