import Plebiscite.Ledger.Command

/-!
# Steps of the ledger

A command is a step: a computation that may write before it fails, and whose writes then stay.
Nothing of that kind happens.  Every command first only reads, and once it writes it cannot fail any
more; so a command that is refused leaves the ledger exactly as it was.

## Main definitions

- `Step.Reads`, `Step.Succeeds`: steps that write nothing, and steps that cannot fail
- `Step.AllOrNothing`: steps that write nothing unless they succeed

## Main results

- `perform_allOrNothing`: every command is all or nothing
- `ledger_eq_of_rejected`: a rejected command leaves the ledger as it was
-/

namespace Plebiscite.Ledger

namespace Step

variable {α β : Type} {l l' : Ledger}

/-! ## Steps that passed -/

@[simp]
theorem bind_eq_ok {m : Step α} {k : α → Step β} {b : β} :
    (m >>= k) l = .ok b l' ↔ ∃ a l₁, m l = .ok a l₁ ∧ k a l₁ = .ok b l' := by
  show EStateM.bind m k l = _ ↔ _
  simp only [EStateM.bind]
  cases m l <;> simp [and_assoc]

@[simp]
theorem pure_eq_ok {a b : α} : (pure a : Step α) l = .ok b l' ↔ a = b ∧ l = l' := by
  show EStateM.Result.ok a l = _ ↔ _
  simp

@[simp]
theorem map_eq_ok {m : Step α} {g : α → β} {b : β} :
    (g <$> m) l = .ok b l' ↔ ∃ a, m l = .ok a l' ∧ g a = b := by
  show EStateM.map g m l = _ ↔ _
  simp only [EStateM.map]
  cases m l with
  | ok a l₁ =>
    simp only [EStateM.Result.ok.injEq]
    constructor
    · rintro ⟨hb, hl⟩
      exact ⟨a, ⟨rfl, hl⟩, hb⟩
    · rintro ⟨_, ⟨rfl, hl⟩, hb⟩
      exact ⟨hb, hl⟩
  | error f l₁ => simp

@[simp]
theorem throw_ne_ok {f : Fault} {a : α} : (throw f : Step α) l = .ok a l' ↔ False := by
  show EStateM.Result.error f l = _ ↔ _
  simp

theorem get_eq (l : Ledger) : (get : Step Ledger) l = .ok l l :=
  rfl

@[simp]
theorem get_eq_ok {a : Ledger} : (get : Step Ledger) l = .ok a l' ↔ l = a ∧ l = l' := by
  show EStateM.Result.ok l l = _ ↔ _
  simp

@[simp]
theorem set_eq_ok {s : Ledger} {u : Unit} :
    (set s : Step PUnit) l = .ok u l' ↔ s = l' := by
  show EStateM.Result.ok PUnit.unit s = _ ↔ _
  simp

@[simp]
theorem modify_eq_ok {f : Ledger → Ledger} {u : Unit} :
    (modify f : Step PUnit) l = .ok u l' ↔ f l = l' := by
  show EStateM.Result.ok PUnit.unit (f l) = _ ↔ _
  simp

@[simp]
theorem check_eq_ok {r : Except Fault α} {a : α} :
    check r l = .ok a l' ↔ r = .ok a ∧ l = l' := by
  unfold check
  cases r <;> simp

/-- A refusal under a condition is passed exactly when the condition fails. -/
@[simp]
theorem ite_throw_bind_eq_ok {p : Prop} [Decidable p] {f : Fault} {k : β → Step α}
    {m : Step α} {a : α} :
    (if p then (throw f : Step β) >>= k else m) l = .ok a l' ↔ ¬ p ∧ m l = .ok a l' := by
  by_cases hp : p <;> simp [hp]

/-! ## Steps that failed -/

/-- A step that leaves the ledger as it is, whatever comes of it. -/
structure Reads (m : Step α) : Prop where
  passed : ∀ {l a l'}, m l = .ok a l' → l' = l
  failed : ∀ {l f l'}, m l = .error f l' → l' = l

/-- A step that cannot fail. -/
structure Succeeds (m : Step α) : Prop where
  ne_error : ∀ l f l', m l ≠ .error f l'

/-- A step that leaves the ledger as it was if it fails. -/
structure AllOrNothing (m : Step α) : Prop where
  eq_of_error : ∀ {l f l'}, m l = .error f l' → l' = l

theorem bind_eq_error {m : Step α} {k : α → Step β} {f : Fault} :
    (m >>= k) l = .error f l' ↔
      m l = .error f l' ∨ ∃ a l₁, m l = .ok a l₁ ∧ k a l₁ = .error f l' := by
  show EStateM.bind m k l = _ ↔ _
  simp only [EStateM.bind]
  cases m l <;> simp [and_assoc]

theorem reads_check (r : Except Fault α) : Reads (check r) where
  passed h := (check_eq_ok.mp h).2.symm
  failed h := by
    unfold check at h
    cases r with
    | ok a => cases h
    | error f => cases h; rfl

theorem reads_get : Reads (get : Step Ledger) where
  passed h := (get_eq_ok.mp h).2.symm
  failed h := by cases h

theorem reads_throw (f : Fault) : Reads (throw f : Step α) where
  passed h := (throw_ne_ok.mp h).elim
  failed h := by cases h; rfl

theorem succeeds_pure (a : α) : Succeeds (pure a : Step α) where
  ne_error _ _ _ h := by cases h

theorem succeeds_set (s : Ledger) : Succeeds (set s : Step PUnit) where
  ne_error _ _ _ h := by cases h

theorem succeeds_modify (g : Ledger → Ledger) : Succeeds (modify g : Step PUnit) where
  ne_error _ _ _ h := by cases h

theorem Reads.allOrNothing {m : Step α} (h : Reads m) : AllOrNothing m where
  eq_of_error := h.failed

theorem Succeeds.allOrNothing {m : Step α} (h : Succeeds m) : AllOrNothing m where
  eq_of_error hm := (h.ne_error _ _ _ hm).elim

theorem Succeeds.bind {m : Step α} {k : α → Step β} (hm : Succeeds m)
    (hk : ∀ a, Succeeds (k a)) : Succeeds (m >>= k) where
  ne_error l f l' h := by
    rcases bind_eq_error.mp h with h | ⟨a, l₁, -, h⟩
    · exact hm.ne_error _ _ _ h
    · exact (hk a).ne_error _ _ _ h

/-- Reading first does not matter: nothing is written before the rest begins. -/
theorem Reads.bind {m : Step α} {k : α → Step β} (hm : Reads m)
    (hk : ∀ a, AllOrNothing (k a)) : AllOrNothing (m >>= k) where
  eq_of_error h := by
    rcases bind_eq_error.mp h with h | ⟨a, l₁, ha, h⟩
    · exact hm.failed h
    · exact ((hk a).eq_of_error h).trans (hm.passed ha)

/-- What comes after a write must not fail. -/
theorem AllOrNothing.bind {m : Step α} {k : α → Step β} (hm : AllOrNothing m)
    (hk : ∀ a, Succeeds (k a)) : AllOrNothing (m >>= k) where
  eq_of_error h := by
    rcases bind_eq_error.mp h with h | ⟨a, l₁, -, h⟩
    · exact hm.eq_of_error h
    · exact ((hk a).ne_error _ _ _ h).elim

/-- A refusal before the rest begins. -/
theorem AllOrNothing.throw_bind {f : Fault} {k : β → Step α} :
    AllOrNothing ((throw f : Step β) >>= k) where
  eq_of_error h := by
    rcases bind_eq_error.mp h with h | ⟨a, l₁, ha, -⟩
    · exact (reads_throw f).failed h
    · exact (throw_ne_ok.mp ha).elim

theorem AllOrNothing.ite {p : Prop} [Decidable p] {m k : Step α} (hm : AllOrNothing m)
    (hk : AllOrNothing k) : AllOrNothing (if p then m else k) := by
  by_cases hp : p
  · simpa only [if_pos hp] using hm
  · simpa only [if_neg hp] using hk

theorem succeeds_forM {l : List α} {g : α → Step PUnit} (h : ∀ a, Succeeds (g a)) :
    Succeeds (l.forM g) := by
  induction l with
  | nil => exact succeeds_pure _
  | cons a l ih => exact (h a).bind fun _ => ih

end Step

/-! ## Commands -/

open Step

variable {env : Environment} {l l' : Ledger}

theorem registerThreshold_allOrNothing (e : Electorate) (r : Rule) :
    AllOrNothing (registerThreshold e r) := by
  refine reads_get.bind fun ledger => ?_
  refine (reads_check _).bind fun added => ?_
  exact ((succeeds_set _).bind fun _ => succeeds_pure _).allOrNothing

theorem mint_allOrNothing (vote : Vote) : AllOrNothing (mint vote) := by
  refine reads_get.bind fun ledger => ?_
  exact AllOrNothing.throw_bind.ite (succeeds_set _).allOrNothing

/-- Opening a vote writes twice, and the first write is the last thing that may be refused. -/
theorem openWith_allOrNothing (topic : Value) (e : Electorate) (duration : Value)
    (bounds : Int → Threshold Int) :
    AllOrNothing (openWith env topic e duration bounds) := by
  refine (reads_check _).bind fun now => ?_
  refine (reads_check _).bind fun ends => ?_
  refine (reads_check _).bind fun plan => ?_
  refine AllOrNothing.throw_bind.ite ?_
  refine reads_get.bind fun ledger => ?_
  refine (reads_check _).bind fun id => ?_
  refine (mint_allOrNothing _).bind fun _ => ?_
  exact (succeeds_modify _).bind fun _ => succeeds_pure _

theorem openVote_allOrNothing (r : Request Int) : AllOrNothing (openVote env r) :=
  (reads_check _).bind fun _ => openWith_allOrNothing _ _ _ _

theorem openPercentVote_allOrNothing (r : Request Number) :
    AllOrNothing (openPercentVote env r) :=
  (reads_check _).bind fun _ => openWith_allOrNothing _ _ _ _

theorem invokeThreshold_allOrNothing (id topic duration : Value) :
    AllOrNothing (invokeThreshold env id topic duration) := by
  refine reads_get.bind fun ledger => ?_
  refine (reads_check _).bind fun entry => ?_
  cases entry.rule with
  | signal threshold => exact openVote_allOrNothing _
  | percent threshold => exact openPercentVote_allOrNothing _

theorem applyVote_allOrNothing (id voter : Value) (stance : Stance) (justification : Value) :
    AllOrNothing (applyVote env id voter stance justification) := by
  refine reads_get.bind fun ledger => ?_
  refine (reads_check _).bind fun vote => ?_
  refine (reads_check _).bind fun now => ?_
  cases vote.poll.endedBy? now with
  | some ends => exact AllOrNothing.throw_bind
  | none =>
    dsimp only
    cases vote.ballot? voter.display with
    | none => exact (reads_throw _).allOrNothing
    | some previous =>
      refine (reads_check _).bind fun ballot => ?_
      refine (reads_check _).bind fun poll => ?_
      refine ((succeeds_modify _).bind fun _ => ?_).allOrNothing
      exact (succeeds_modify _).bind fun _ => succeeds_pure _

theorem extendVote_allOrNothing (id additional : Value) :
    AllOrNothing (extendVote env id additional) := by
  refine reads_get.bind fun ledger => ?_
  refine (reads_check _).bind fun vote => ?_
  refine (reads_check _).bind fun now => ?_
  refine (reads_check _).bind fun candidate => ?_
  exact ((succeeds_modify _).bind fun _ => succeeds_pure _).allOrNothing

theorem updateTopic_allOrNothing (id topic : Value) (clear : Bool) :
    AllOrNothing (updateTopic id topic clear) := by
  refine reads_get.bind fun ledger => ?_
  refine (reads_check _).bind fun vote => ?_
  have hwrite : Succeeds (do
      writePoll vote.id (vote.poll.retitle topic clear)
      return vote.poll.retitle topic clear) :=
    (succeeds_modify _).bind fun _ => succeeds_pure _
  cases clear with
  | false => exact hwrite.allOrNothing
  | true => exact ((succeeds_forM fun _ => succeeds_modify _).bind fun _ => hwrite).allOrNothing

/-- Every command writes everything or nothing. -/
theorem perform_allOrNothing (c : Command) : AllOrNothing (perform env c) := by
  cases c with
  | registerThreshold e r =>
    exact (registerThreshold_allOrNothing e r).bind fun _ => succeeds_pure _
  | openVote r => exact (openVote_allOrNothing r).bind fun _ => succeeds_pure _
  | openPercentVote r => exact (openPercentVote_allOrNothing r).bind fun _ => succeeds_pure _
  | invokeThreshold id topic duration =>
    exact (invokeThreshold_allOrNothing id topic duration).bind fun _ => succeeds_pure _
  | applyVote id voter stance justification =>
    exact (applyVote_allOrNothing id voter stance justification).bind fun _ => succeeds_pure _
  | extendVote id additional =>
    exact (extendVote_allOrNothing id additional).bind fun _ => succeeds_pure _
  | updateTopic id topic clear =>
    exact (updateTopic_allOrNothing id topic clear).bind fun _ => succeeds_pure _

/-- Whatever a command is refused for, the ledger stays exactly as it was: no vote, ballot, issuance
or threshold changes, and no identifier is used up. -/
theorem ledger_eq_of_rejected {c : Command} {f : Fault}
    (h : perform env c l = .error f l') : l' = l :=
  (perform_allOrNothing c).eq_of_error h

/-- With the only identifier taken, the last check of a registration fails. -/
theorem ledger_eq_of_exhausted :
    let rule : Rule := .signal ⟨1, none, []⟩
    let l : Ledger :=
      { blank ⟨1, .keepBallots⟩ with
        register := ⟨.number 1, [⟨.number 1, .of .equal "org", rule⟩]⟩ }
    ∃ f l', perform ⟨.number 0, ⟨fun _ => none, fun _ => none⟩⟩
      (.registerThreshold (.of .equal "org") rule) l = .error f l' ∧ l' = l := by
  intro rule l
  have hrejected : perform ⟨.number 0, ⟨fun _ => none, fun _ => none⟩⟩
      (.registerThreshold (.of .equal "org") rule) l =
        .error (.noFreeIdentifier (.number 1)) l := by
    rfl
  exact ⟨_, _, hrejected, ledger_eq_of_rejected hrejected⟩

end Plebiscite.Ledger
