import Plebiscite.Assembly.Event
import Plebiscite.Proofs.Ledger.RoundTrip

/-!
# Votes told by events

What happened to a vote can be read from the events alone: the last ballot of each member, whether
the tallies were cleared since, the last end and the last topic.  A vote is told by a history if it
is as these say, and it stays so as long as events are appended that tell what was done.

## Main definitions

- `Chronicle.last?`, `Chronicle.since`: the last entry of a kind, and all entries after it
- `Event.cast?`, `Event.clears`, `Event.extended?`, `Event.retitled?`: what an event says of a vote
- `Chronicle.held`: what a member holds of a vote, from the events
- `Vote.ToldBy`: a vote is as the events say

## Main results

- `Vote.ToldBy.append`: events about other votes do not matter
- `Vote.ToldBy.cast`, `Vote.ToldBy.extended`, `Vote.ToldBy.retitled`, `Vote.ToldBy.cleared`: a vote
  that is revised, with the event that tells of it
-/

namespace Plebiscite

/-! ## Lists of entries -/

namespace Chronicle

variable {α β : Type}

/-- What the last entry says of those that say something. -/
def last? (f : α → Option β) (entries : List α) : Option β :=
  (entries.filterMap f).getLast?

/-- The entries after the last one of a kind; all of them, if there is none. -/
def since (p : α → Bool) (entries : List α) : List α :=
  (entries.reverse.takeWhile fun a => !p a).reverse

theorem last?_append (f : α → Option β) (entries : List α) (a : α) :
    last? f (entries ++ [a]) = (f a).or (last? f entries) := by
  unfold last?
  cases h : f a <;> simp [h]

theorem since_append (p : α → Bool) (entries : List α) (a : α) :
    since p (entries ++ [a]) = if p a then [] else since p entries ++ [a] := by
  unfold since
  cases h : p a <;> simp [h]

theorem last?_eq_none {f : α → Option β} {entries : List α} (h : ∀ a ∈ entries, f a = none) :
    last? f entries = none := by
  simp [last?, List.filterMap_eq_nil_iff.mpr h]

theorem mem_of_since {p : α → Bool} {entries : List α} {a : α} (h : a ∈ since p entries) :
    a ∈ entries := by
  have hpart := List.takeWhile_sublist (fun a => !p a) (l := entries.reverse)
  exact List.mem_reverse.mp (hpart.subset (List.mem_reverse.mp h))

end Chronicle

/-! ## What events say -/

namespace Event

/-- The stance and the justification of a ballot, if it is one of a member in a vote. -/
def cast? (id : Number) (name : String) : Event → Option (Stance × Value)
  | .voteCast voteId voter _ stance justification _ =>
    if voteId = id ∧ voter.display = name then some (stance, justification) else none
  | _ => none

/-- Whether the tallies of a vote were cleared. -/
def clears (id : Number) : Event → Bool
  | .topicUpdated voteId _ clearedTallies _ => decide (voteId = id) && clearedTallies
  | _ => false

/-- The end of a vote, if that was moved. -/
def extended? (id : Number) : Event → Option (Option Number)
  | .voteExtended voteId ends _ => if voteId = id then some ends else none
  | _ => none

/-- The topic of a vote, if that was replaced. -/
def retitled? (id : Number) : Event → Option String
  | .topicUpdated voteId topic _ _ => if voteId = id then some topic else none
  | _ => none

/-- The vote that an event happened to after it was opened. -/
def revised? : Event → Option Number
  | .voteCast voteId _ _ _ _ _ => some voteId
  | .voteExtended voteId _ _ => some voteId
  | .topicUpdated voteId _ _ _ => some voteId
  | _ => none

variable {e : Event} {id : Number}

/-- An event that did not happen to a vote says nothing of it. -/
theorem silent (h : e.revised? ≠ some id) :
    (∀ name, e.cast? id name = none) ∧ e.clears id = false ∧ e.extended? id = none ∧
      e.retitled? id = none := by
  cases e <;> simp_all [revised?, cast?, clears, extended?, retitled?]

end Event

namespace Chronicle

open Event

/-- The events that count for the ballots of a vote: where ballots are handed out anew, those since
the tallies were cleared last. -/
def current (policy : ResetPolicy) (history : List Event) (id : Number) : List Event :=
  match policy with
  | .keepBallots => history
  | _ => since (·.clears id) history

/-- What the member with a name holds of a vote: the stance and the justification of its last
ballot, and nothing before the first one. -/
def held (policy : ResetPolicy) (history : List Event) (id : Number) (name : String) :
    Stance × Value :=
  (last? (·.cast? id name) (current policy history id)).getD (.uninitialized, .absent)

/-- Whether the tallies of a vote were cleared after the last ballot of a member. -/
def clearedSince (history : List Event) (id : Number) (name : String) : Prop :=
  ∃ e ∈ since (fun e => (e.cast? id name).isSome) history, e.clears id = true

variable {policy : ResetPolicy} {history : List Event} {e : Event} {id : Number} {name : String}

theorem current_append (h : e.clears id = false) :
    current policy (history ++ [e]) id = current policy history id ++ [e] := by
  unfold current
  split
  · rfl
  · rw [since_append, h, if_neg Bool.false_ne_true]

/-- A ballot is held from when it is cast. -/
theorem held_of_cast {held' : Stance × Value} (hcast : e.cast? id name = some held')
    (hclears : e.clears id = false) : held policy (history ++ [e]) id name = held' := by
  rw [held, current_append hclears, last?_append, hcast]
  rfl

theorem held_append (hcast : e.cast? id name = none) (hclears : e.clears id = false) :
    held policy (history ++ [e]) id name = held policy history id name := by
  rw [held, current_append hclears, last?_append, hcast]
  rfl

/-- Where ballots are kept, they are held also when the tallies are cleared. -/
theorem held_keep_append (hcast : e.cast? id name = none) :
    held .keepBallots (history ++ [e]) id name = held .keepBallots history id name := by
  rw [held, current, last?_append, hcast]
  rfl

/-- Where ballots are handed out anew, nothing is held once the tallies are cleared. -/
theorem held_of_clears (hpolicy : policy ≠ .keepBallots) (hclears : e.clears id = true) :
    held policy (history ++ [e]) id name = (.uninitialized, .absent) := by
  unfold held current
  split
  · exact absurd rfl hpolicy
  · rw [since_append, hclears, if_pos rfl]
    rfl

/-- Nothing is held of a vote that nothing happened to. -/
theorem held_of_silent (h : ∀ e ∈ history, e.revised? ≠ some id) :
    held policy history id name = (.uninitialized, .absent) := by
  have hnone : last? (·.cast? id name) (current policy history id) = none := by
    apply last?_eq_none
    intro e he
    unfold current at he
    split at he
    · exact (silent (h e he)).1 name
    · exact (silent (h e (mem_of_since he))).1 name
  rw [held, hnone]
  rfl

theorem not_clearedSince_of_cast (hcast : (e.cast? id name).isSome) :
    ¬ clearedSince (history ++ [e]) id name := by
  rintro ⟨e', he', -⟩
  rw [since_append, if_pos hcast] at he'
  cases he'

theorem clearedSince_append (hcast : e.cast? id name = none) :
    clearedSince (history ++ [e]) id name ↔
      clearedSince history id name ∨ e.clears id = true := by
  unfold clearedSince
  rw [since_append, hcast]
  simp [or_and_right, exists_or]

end Chronicle

/-! ## Votes told by their events -/

open Chronicle

/-- A vote is as the events say: each member holds what it cast last, stale if the tallies were
cleared since, the end is the one that the vote was extended to last, and the topic is the one that
it was given last. -/
structure Vote.ToldBy (policy : ResetPolicy) (history : List Event) (v : Vote) : Prop where
  held : ∀ seat ∈ v.seats, (seat.ballot.stance, seat.ballot.justification) =
    Chronicle.held policy history v.id seat.name
  stale : ∀ seat ∈ v.seats, seat.ballot.stale = true ↔ policy = .keepBallots ∧
    seat.ballot.stance.isSided = true ∧ clearedSince history v.id seat.name
  blank : ∀ seat ∈ v.seats, seat.ballot.stance = .uninitialized →
    seat.ballot.justification = .absent
  ends : ∀ ends, last? (·.extended? v.id) history = some ends → v.poll.ends = ends
  topic : ∀ topic, last? (·.retitled? v.id) history = some topic → v.poll.topic = .text topic

namespace Vote.ToldBy

variable {policy : ResetPolicy} {history : List Event} {e : Event} {v : Vote}

/-- Nothing is told of a vote that was just opened. -/
theorem opened (h : ∀ e ∈ history, e.revised? ≠ some v.id)
    (hseats : ∀ seat ∈ v.seats, ∃ magnitude, seat.ballot = .mint magnitude) :
    v.ToldBy policy history := by
  refine ⟨?_, ?_, ?_, ?_, ?_⟩
  · intro seat hseat
    obtain ⟨magnitude, hballot⟩ := hseats seat hseat
    rw [hballot, held_of_silent h]
    rfl
  · intro seat hseat
    obtain ⟨magnitude, hballot⟩ := hseats seat hseat
    rw [hballot]
    simp [Ballot.mint, Stance.isSided]
  · intro seat hseat _
    obtain ⟨magnitude, hballot⟩ := hseats seat hseat
    rw [hballot]
    rfl
  · intro ends hends
    rw [last?_eq_none fun e he => (Event.silent (h e he)).2.2.1] at hends
    cases hends
  · intro topic htopic
    rw [last?_eq_none fun e he => (Event.silent (h e he)).2.2.2] at htopic
    cases htopic

/-- Events about other votes do not matter. -/
theorem append (h : v.ToldBy policy history) (he : e.revised? ≠ some v.id) :
    v.ToldBy policy (history ++ [e]) := by
  obtain ⟨hcast, hclears, hextended, hretitled⟩ := Event.silent he
  refine ⟨?_, ?_, h.blank, ?_, ?_⟩
  · intro seat hseat
    rw [held_append (hcast _) hclears]
    exact h.held seat hseat
  · intro seat hseat
    rw [clearedSince_append (hcast _), hclears, h.stale seat hseat]
    simp
  · intro ends hends
    rw [last?_append, hextended] at hends
    exact h.ends ends hends
  · intro topic htopic
    rw [last?_append, hretitled] at htopic
    exact h.topic topic htopic

/-- A ballot is told by the event that records it. -/
theorem cast (h : v.ToldBy policy history) {voter : Value} {previous : Stance} {ballot : Ballot}
    {poll : Poll} {height : Number} (hstance : ballot.stance ≠ .uninitialized)
    (hfresh : ballot.stale = false) (hends : poll.ends = v.poll.ends)
    (htopic : poll.topic = v.poll.topic) :
    ({ v.setBallot voter.display ballot with poll } : Vote).ToldBy policy
      (history ++ [.voteCast v.id voter previous ballot.stance ballot.justification height]) := by
  -- A seat is either the one that is cast for or one that the event says nothing of.
  have hseats : ∀ seat ∈ (v.setBallot voter.display ballot).seats,
      (seat.name = voter.display ∧ seat.ballot = ballot) ∨
        (seat.name ≠ voter.display ∧ seat ∈ v.seats) := by
    intro seat hseat
    obtain ⟨old, hold, rfl⟩ := List.mem_map.mp hseat
    by_cases hname : old.name = voter.display
    · rw [if_pos hname]
      exact .inl ⟨hname, rfl⟩
    · rw [if_neg hname]
      exact .inr ⟨hname, hold⟩
  have hcast : ∀ name, name ≠ voter.display →
      (Event.voteCast v.id voter previous ballot.stance ballot.justification height).cast? v.id
        name = none := by
    intro name hname
    rw [Event.cast?, if_neg fun h => hname h.2.symm]
  have hown : (Event.voteCast v.id voter previous ballot.stance ballot.justification height).cast?
      v.id voter.display = some (ballot.stance, ballot.justification) := by
    rw [Event.cast?, if_pos ⟨rfl, rfl⟩]
  refine ⟨?_, ?_, ?_, ?_, ?_⟩
  · intro seat hseat
    rcases hseats seat hseat with ⟨hname, hballot⟩ | ⟨hname, hseat⟩
    · rw [hname, hballot]
      exact (held_of_cast hown rfl).symm
    · exact (h.held seat hseat).trans (held_append (hcast _ hname) rfl).symm
  · intro seat hseat
    rcases hseats seat hseat with ⟨hname, hballot⟩ | ⟨hname, hseat⟩
    · rw [hname, hballot, hfresh]
      -- The event is the last ballot of its member, so nothing was cleared after it.
      simp only [Bool.false_eq_true, false_iff, not_and]
      intro _ _
      exact not_clearedSince_of_cast (Option.isSome_iff_exists.mpr ⟨_, hown⟩)
    · -- For every other member the event is neither a ballot nor a clearing.
      refine (h.stale seat hseat).trans ?_
      refine and_congr_right' (and_congr_right' ?_)
      refine Iff.symm ((clearedSince_append (hcast _ hname)).trans ?_)
      simp [Event.clears]
  · intro seat hseat hblank
    rcases hseats seat hseat with ⟨-, hballot⟩ | ⟨-, hseat⟩
    · exact absurd (hballot ▸ hblank) hstance
    · exact h.blank seat hseat hblank
  · intro ends hlast
    rw [last?_append] at hlast
    exact hends.trans (h.ends ends hlast)
  · intro topic hlast
    rw [last?_append] at hlast
    exact htopic.trans (h.topic topic hlast)

/-- A new end is told by the event that records it. -/
theorem extended (h : v.ToldBy policy history) {poll : Poll} {height : Number}
    (htopic : poll.topic = v.poll.topic) :
    ({ v with poll } : Vote).ToldBy policy
      (history ++ [.voteExtended v.id poll.ends height]) := by
  refine ⟨?_, ?_, h.blank, ?_, ?_⟩
  · intro seat hseat
    rw [held_append rfl rfl]
    exact h.held seat hseat
  · intro seat hseat
    rw [clearedSince_append rfl, h.stale seat hseat]
    simp [Event.clears]
  · intro ends hlast
    simpa [last?_append, Event.extended?] using hlast
  · intro topic hlast
    rw [last?_append] at hlast
    exact htopic.trans (h.topic topic hlast)

/-- A new topic is told by the event that records it. -/
theorem retitled (h : v.ToldBy policy history) {topic : String} {height : Number} :
    ({ v with poll := v.poll.retitle (.text topic) false } : Vote).ToldBy policy
      (history ++ [.topicUpdated v.id topic false height]) := by
  have hclears : (Event.topicUpdated v.id topic false height).clears v.id = false := by
    simp [Event.clears]
  refine ⟨?_, ?_, h.blank, ?_, ?_⟩
  · intro seat hseat
    rw [held_append rfl hclears]
    exact h.held seat hseat
  · intro seat hseat
    rw [clearedSince_append rfl, hclears, h.stale seat hseat]
    simp
  · intro ends hlast
    rw [last?_append] at hlast
    exact h.ends ends hlast
  · intro topic' hlast
    simp only [last?_append, Event.retitled?, if_true, Option.some_or, Option.some.injEq] at hlast
    rw [← hlast]
    rfl

/-- That the tallies were cleared is told by the event that records it. -/
theorem cleared (h : v.ToldBy policy history) {topic : String} {height : Number} :
    ({ v.resetBallots policy with poll := v.poll.retitle (.text topic) true } : Vote).ToldBy policy
      (history ++ [.topicUpdated v.id topic true height]) := by
  have hclears : (Event.topicUpdated v.id topic true height).clears v.id = true := by
    simp [Event.clears]
  -- Each seat keeps its name, and its ballot is reset.
  have hseats : ∀ seat ∈ (v.resetBallots policy).seats, ∃ old ∈ v.seats,
      seat.name = old.name ∧ seat.ballot = policy.reset old.ballot := by
    intro seat hseat
    obtain ⟨old, hold, rfl⟩ := List.mem_map.mp hseat
    exact ⟨old, hold, rfl, rfl⟩
  refine ⟨?_, ?_, ?_, ?_, ?_⟩
  · intro seat hseat
    obtain ⟨old, hold, hname, hballot⟩ := hseats seat hseat
    rw [hname, hballot]
    by_cases hpolicy : policy = .keepBallots
    · subst hpolicy
      obtain ⟨hstance, hjustification, -⟩ := ResetPolicy.reset_keep old.ballot
      refine Eq.trans ?_ (held_keep_append rfl).symm
      rw [hstance, hjustification]
      exact h.held old hold
    · refine Eq.trans ?_ (held_of_clears hpolicy hclears).symm
      rcases policy.reset_anew old.ballot hpolicy with ⟨hblank, hreset⟩ | hreset
      · rw [hreset, hblank, h.blank old hold hblank]
      · rw [hreset]
        rfl
  · intro seat hseat
    obtain ⟨old, hold, hname, hballot⟩ := hseats seat hseat
    have hstale := h.stale old hold
    -- By now the tallies were cleared after every ballot.
    have hsince : clearedSince (history ++ [.topicUpdated v.id topic true height]) v.id old.name :=
      (clearedSince_append rfl).mpr (.inr hclears)
    rw [hname, hballot]
    by_cases hpolicy : policy = .keepBallots
    · subst hpolicy
      obtain ⟨hstance, -, hkept⟩ := ResetPolicy.reset_keep old.ballot
      rw [hstance, hkept, Bool.or_eq_true, hstale]
      constructor
      · rintro (hsided | ⟨-, hsided, -⟩) <;> exact ⟨rfl, hsided, hsince⟩
      · exact fun hsided => .inl hsided.2.1
    · -- Ballots that are handed out anew are never stale, before or after.
      have hfresh : old.ballot.stale ≠ true := fun h' => hpolicy (hstale.mp h').1
      refine iff_of_false ?_ fun h' => hpolicy h'.1
      rcases policy.reset_anew old.ballot hpolicy with ⟨-, hreset⟩ | hreset
      · rwa [hreset]
      · rw [hreset]
        exact Bool.false_ne_true
  · intro seat hseat hblank
    obtain ⟨old, hold, -, hballot⟩ := hseats seat hseat
    rw [hballot] at hblank ⊢
    by_cases hpolicy : policy = .keepBallots
    · subst hpolicy
      obtain ⟨hstance, hjustification, -⟩ := ResetPolicy.reset_keep old.ballot
      rw [hstance] at hblank
      rw [hjustification]
      exact h.blank old hold hblank
    · rcases policy.reset_anew old.ballot hpolicy with ⟨hold', hreset⟩ | hreset
      · rw [hreset]
        exact h.blank old hold hold'
      · rw [hreset]
        rfl
  · intro ends hlast
    rw [last?_append] at hlast
    exact h.ends ends hlast
  · intro topic' hlast
    have htopic : topic = topic' := by
      simpa [last?_append, Event.retitled?, Vote.resetBallots] using hlast
    exact congrArg Value.text htopic

end Vote.ToldBy

end Plebiscite
