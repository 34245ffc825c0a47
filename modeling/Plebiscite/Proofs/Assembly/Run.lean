import Plebiscite.Proofs.Assembly.Recorded
import Plebiscite.Proofs.Ledger.Membership

/-!
# Runs of an assembly

An assembly shares a clock with its ledger.  The host moves the clock forward, and callers give
commands; who supervises what and who holds how much may be something else each time.

## Main definitions

- `Assembly.after`: the assembly after a command, accepted or not
- `Assembly.Hosted`, `Assembly.Hosted.Move`: an assembly with its clock, and what happens to it
- `Assembly.Hosted.run`: several moves, one after the other

## Main results

- `Assembly.after_cases`: what comes of a command
- `Assembly.Hosted.move_cases`: what comes of a move
- `Assembly.Hosted.run_induction`: what every move preserves holds after every run
-/

namespace Plebiscite.Assembly

/-- The assembly after a command, whether that was accepted or not. -/
def after (a : Assembly) (host : Host) (command : Command) (caller payload : Value) : Assembly :=
  match perform host command caller payload a with
  | .ok _ a' => a'
  | .error _ a' => a'

/-- A command that is refused adds a line to the journal; one that is accepted is performed. -/
theorem after_cases (a : Assembly) (host : Host) (command : Command) (caller payload : Value) :
    (∃ line, a.after host command caller payload = a.log line) ∨
      ∃ answer c event line,
        perform host command caller payload a =
          .ok answer (a.after host command caller payload) ∧
        Performs host a command caller payload answer (a.after host command caller payload) c event
          line := by
  unfold after
  cases h : perform host command caller payload a with
  | ok answer a' =>
    obtain ⟨c, event, line, hperforms⟩ := performs_of_perform h
    exact .inr ⟨answer, c, event, line, rfl, hperforms⟩
  | error refusal a' =>
    obtain ⟨line, hrefuses⟩ := refuses_of_perform h
    exact .inl ⟨line, hrefuses.assembly⟩

/-! ## The clock -/

/-- An assembly with the clock that it shares with its ledger. -/
structure Hosted where
  assembly : Assembly
  clock : Clock

namespace Hosted

/-- What may happen to an assembly. -/
inductive Move where
  | advanceTo (height : Value)
  | advanceBy (blocks : Value)
  /-- A command, with the stakes and the authority of that moment. -/
  | command (stakes : StakeSource) (isSupervisor : (org caller : Value) → Except String Bool)
      (command : Command) (caller payload : Value)

/-- What an assembly reads from outside while a command is carried out. -/
def host (s : Hosted) (stakes : StakeSource)
    (isSupervisor : (org caller : Value) → Except String Bool) : Host :=
  ⟨s.clock.height, stakes, isSupervisor⟩

/-- The clock after a move, which stays as it is where it cannot be moved. -/
def tick (s : Hosted) (clock : Except Fault Clock) : Hosted :=
  match clock with
  | .ok clock => { s with clock }
  | .error _ => s

/-- The assembly and its clock after a move. -/
def move (s : Hosted) : Move → Hosted
  | .advanceTo height => s.tick (s.clock.advanceTo height)
  | .advanceBy blocks => s.tick (s.clock.advanceBy blocks)
  | .command stakes isSupervisor command caller payload =>
    { s with
      assembly := s.assembly.after (s.host stakes isSupervisor) command caller payload }

/-- The assembly and its clock after several moves. -/
def run (s : Hosted) (moves : List Move) : Hosted :=
  moves.foldl move s

/-- Whatever source of stakes is asked lists texts. -/
def Move.Named : Move → Prop
  | .command stakes _ _ _ _ => stakes.Named
  | _ => True

/-! ## What a move does -/

theorem tick_assembly (s : Hosted) (clock : Except Fault Clock) :
    (s.tick clock).assembly = s.assembly := by
  cases clock <;> rfl

/-- A clock that is moved, or stays, does not go back. -/
theorem tick_height {s : Hosted} {clock : Except Fault Clock} {j : Nat}
    (hs : s.clock.height = .ofInt j)
    (h : ∀ c, clock = .ok c → ∃ k : Nat, c.height = .ofInt k ∧ j ≤ k) :
    ∃ k : Nat, (s.tick clock).clock.height = .ofInt k ∧ j ≤ k := by
  cases clock with
  | ok c => exact h c rfl
  | error fault => exact ⟨j, hs, le_rfl⟩

/-- Whatever happens, the clock does not go back. -/
theorem move_height {s : Hosted} {j : Nat} (hs : s.clock.height = .ofInt j) (m : Move) :
    ∃ k : Nat, (s.move m).clock.height = .ofInt k ∧ j ≤ k := by
  cases m with
  | advanceTo height => exact tick_height hs fun _ hc => Clock.exists_of_advanceTo hs hc
  | advanceBy blocks => exact tick_height hs fun _ hc => Clock.exists_of_advanceBy hs hc
  | command => exact ⟨j, hs, le_rfl⟩

/-- A move leaves everything but the journal as it was, or it is a command that is accepted. -/
theorem move_cases (s : Hosted) (m : Move) :
    ((s.move m).assembly.ledger = s.assembly.ledger ∧
      (s.move m).assembly.history = s.assembly.history ∧
      (s.move m).assembly.electorates = s.assembly.electorates) ∨
    ∃ stakes isSupervisor command caller payload answer c event line,
      m = .command stakes isSupervisor command caller payload ∧
      perform (s.host stakes isSupervisor) command caller payload s.assembly =
        .ok answer (s.move m).assembly ∧
      Performs (s.host stakes isSupervisor) s.assembly command caller payload answer
        (s.move m).assembly c event line := by
  cases m with
  | advanceTo | advanceBy =>
    left
    rw [move, tick_assembly]
    exact ⟨rfl, rfl, rfl⟩
  | command stakes isSupervisor command caller payload =>
    rcases after_cases s.assembly (s.host stakes isSupervisor) command caller payload with
      ⟨line, hafter⟩ | ⟨answer, c, event, line, hperform, hperforms⟩
    · left
      simp only [move, hafter]
      exact ⟨rfl, rfl, rfl⟩
    · exact .inr ⟨_, _, _, _, _, answer, c, event, line, rfl, hperform, hperforms⟩

/-- A property that every move preserves holds after every run. -/
theorem run_induction {P : Hosted → Prop} {s : Hosted} {moves : List Move} (hs : P s)
    (hmove : ∀ s, ∀ m ∈ moves, P s → P (s.move m)) : P (s.run moves) := by
  induction moves generalizing s with
  | nil => exact hs
  | cons m moves ih =>
    exact ih (hmove s m (by simp) hs) fun s m hm => hmove s m (List.mem_cons_of_mem _ hm)

end Hosted

end Plebiscite.Assembly
