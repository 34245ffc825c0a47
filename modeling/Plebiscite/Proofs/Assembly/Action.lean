import Plebiscite.Assembly.Command
import Plebiscite.Proofs.Ledger.Step

/-!
# The inside of a command

A command of an assembly notes what it is about, checks who gives it, acts on the ledger, and then
records and informs.  Up to the call of the ledger it writes nothing, and after that call it cannot
fail; so a command that is refused has left no trace but what it noted.

## Main definitions

- `Action.Untouched`: nothing was written yet, and nothing wrong was noted
- `Action.Succeeds`, `Action.Looks`, `Action.Cautious`: actions that cannot fail, that only note,
  and that write nothing unless they succeed

## Main results

- `Action.Cautious.bind`, `Action.Cautious.onLedger_bind`: how cautious commands are put
  together
-/

namespace Plebiscite.Assembly

variable {α β : Type} {s s' : Session}

namespace Action

/-! ## Actions that passed -/

@[simp]
theorem bind_eq_ok {m : Action α} {k : α → Action β} {b : β} :
    (m >>= k) s = .ok b s' ↔ ∃ a s₁, m s = .ok a s₁ ∧ k a s₁ = .ok b s' := by
  show EStateM.bind m k s = _ ↔ _
  simp only [EStateM.bind]
  cases m s <;> simp [and_assoc]

@[simp]
theorem pure_eq_ok {a b : α} : (pure a : Action α) s = .ok b s' ↔ a = b ∧ s = s' := by
  show EStateM.Result.ok a s = _ ↔ _
  simp

@[simp]
theorem throw_ne_ok {r : Refusal} {a : α} : (throw r : Action α) s = .ok a s' ↔ False := by
  show EStateM.Result.error r s = _ ↔ _
  simp

@[simp]
theorem accept_eq_ok {verdict : Verdict α} {a : α} :
    accept verdict s = .ok a s' ↔ verdict = .accepted a ∧ s = s' := by
  cases verdict <;> simp [accept]

@[simp]
theorem onLedger_eq_ok {step : Ledger.Step α} {a : α} :
    onLedger step s = .ok a s' ↔ ∃ ledger, step s.assembly.ledger = .ok a ledger ∧
      { s with assembly := { s.assembly with ledger } } = s' := by
  unfold onLedger
  cases step s.assembly.ledger <;> simp [and_assoc]

@[simp]
theorem note_eq_ok {f : Subject → Subject} {u : Unit} :
    note f s = .ok u s' ↔ { s with subject := f s.subject } = s' := by
  show EStateM.Result.ok PUnit.unit _ = _ ↔ _
  simp

@[simp]
theorem assembly_eq_ok {a : Assembly} : assembly s = .ok a s' ↔ s.assembly = a ∧ s = s' := by
  show EStateM.Result.ok s.assembly s = _ ↔ _
  simp

@[simp]
theorem record_eq_ok {event : Event} {u : Unit} :
    record event s = .ok u s' ↔ { s with assembly :=
      { s.assembly with history := s.assembly.history ++ [event] } } = s' := by
  show EStateM.Result.ok PUnit.unit _ = _ ↔ _
  simp

@[simp]
theorem inform_eq_ok {message : String} {fields : List (String × Value)} {u : Unit} :
    inform message fields s = .ok u s' ↔
      { s with
        assembly := s.assembly.log
          ⟨.info, message, ("component", .text "governance") :: fields⟩ } = s' := by
  show EStateM.Result.ok PUnit.unit _ = _ ↔ _
  simp

@[simp]
theorem assign_eq_ok {id : Number} {electorate : Electorate} {u : Unit} :
    assign id electorate s = .ok u s' ↔ { s with assembly :=
      { s.assembly with electorates := s.assembly.electorates.put (.number id) electorate } } =
        s' := by
  show EStateM.Result.ok PUnit.unit _ = _ ↔ _
  simp

@[simp]
theorem authorize_eq_ok {host : Host} {org caller : Value} {privilege : Privilege} {u : Unit} :
    authorize host org caller privilege s = .ok u s' ↔
      host.isSupervisor org caller = .ok true ∧ s = s' := by
  unfold authorize
  cases host.isSupervisor org caller with
  | ok answer => cases answer <;> simp
  | error message => simp

/-- A vote is described by its identifier and, if that is on record, by its organization. -/
theorem describeVote_eq (id : Number) (s : Session) :
    describeVote id s = .ok ()
      { s with
        subject :=
          { s.subject with
            voteId := some id
            org := ((s.assembly.electorates.get? (.number id)).map (·.org)).getD
              s.subject.org } } := by
  simp only [describeVote, bind_eq_ok, assembly_eq_ok, note_eq_ok]
  refine ⟨_, _, ⟨rfl, rfl⟩, (), _, rfl, ?_⟩
  cases s.assembly.electorates.get? (.number id) <;> rfl

@[simp]
theorem describeVote_eq_ok {id : Number} {u : Unit} :
    describeVote id s = .ok u s' ↔
      { s with
        subject :=
          { s.subject with
            voteId := some id
            org := ((s.assembly.electorates.get? (.number id)).map (·.org)).getD
              s.subject.org } } = s' := by
  simp [describeVote_eq]

@[simp]
theorem authorizeForVote_eq_ok {host : Host} {id : Number} {caller : Value} {u : Unit} :
    authorizeForVote host id caller s = .ok u s' ↔
      s.assembly.ledger.hasVote id = true ∧
        (∃ electorate, s.assembly.electorates.get? (.number id) = some electorate ∧
          host.isSupervisor electorate.org caller = .ok true) ∧ s = s' := by
  simp only [authorizeForVote, bind_eq_ok, assembly_eq_ok]
  constructor
  · rintro ⟨_, _, ⟨rfl, rfl⟩, h⟩
    cases hvote : s.assembly.ledger.hasVote id with
    | false => simp [hvote] at h
    | true =>
      cases hindex : s.assembly.electorates.get? (.number id) with
      | none => simp [hvote, hindex] at h
      | some electorate => simpa [hvote, hindex] using h
  · rintro ⟨hvote, ⟨electorate, hindex, hauthority⟩, rfl⟩
    exact ⟨_, _, ⟨rfl, rfl⟩, by simp [hvote, hindex, hauthority]⟩

/-! ## Actions that failed -/

/-- An action that cannot fail. -/
structure Succeeds (m : Action α) : Prop where
  ne_error : ∀ s r s', m s ≠ .error r s'

theorem bind_eq_error {m : Action α} {k : α → Action β} {r : Refusal} :
    (m >>= k) s = .error r s' ↔
      m s = .error r s' ∨ ∃ a s₁, m s = .ok a s₁ ∧ k a s₁ = .error r s' := by
  show EStateM.bind m k s = _ ↔ _
  simp only [EStateM.bind]
  cases m s <;> simp [and_assoc]

theorem Succeeds.bind {m : Action α} {k : α → Action β} (hm : Succeeds m)
    (hk : ∀ a, Succeeds (k a)) : Succeeds (m >>= k) where
  ne_error s r s' h := by
    rcases bind_eq_error.mp h with h | ⟨a, s₁, -, h⟩
    · exact hm.ne_error _ _ _ h
    · exact (hk a).ne_error _ _ _ h

theorem succeeds_pure (a : α) : Succeeds (pure a : Action α) where
  ne_error _ _ _ h := by cases h

theorem succeeds_record (event : Event) : Succeeds (record event) where
  ne_error _ _ _ h := by cases h

theorem succeeds_inform (message : String) (fields : List (String × Value)) :
    Succeeds (inform message fields) where
  ne_error _ _ _ h := by cases h

theorem succeeds_assign (id : Number) (electorate : Electorate) :
    Succeeds (assign id electorate) where
  ne_error _ _ _ h := by cases h

theorem succeeds_assembly : Succeeds assembly where
  ne_error _ _ _ h := by cases h

/-! ## Refusals before anything is written -/

/-- The assembly is still the one that the command found, and if an organization was noted, it is
the one that the command is about. -/
structure Untouched (a : Assembly) (org : Value) (s : Session) : Prop where
  assembly : s.assembly = a
  org : s.subject.org = .absent ∨ s.subject.org = org

/-- An action that leaves everything untouched, whatever comes of it. -/
structure Looks (a : Assembly) (org : Value) (m : Action α) : Prop where
  passed : ∀ {s x s'}, Untouched a org s → m s = .ok x s' → Untouched a org s'
  failed : ∀ {s r s'}, Untouched a org s → m s = .error r s' → Untouched a org s'

/-- An action that leaves everything untouched if it fails. -/
structure Cautious (a : Assembly) (org : Value) (m : Action α) : Prop where
  of_error : ∀ {s r s'}, Untouched a org s → m s = .error r s' → Untouched a org s'

variable {a : Assembly} {org : Value}

/-- What is noted of an organization must be right. -/
theorem looks_note {f : Subject → Subject}
    (hf : ∀ subject, (f subject).org = subject.org ∨ (f subject).org = org) :
    Looks a org (note f) where
  passed {s _ _} hs h := by
    obtain rfl := note_eq_ok.mp h
    refine ⟨hs.assembly, ?_⟩
    rcases hf s.subject with horg | horg
    · exact hs.org.imp horg.trans horg.trans
    · exact .inr horg
  failed _ h := by cases h

theorem looks_describeVote {id : Number}
    (horg : ((a.electorates.get? (.number id)).map (·.org)).getD .absent = org) :
    Looks a org (describeVote id) where
  passed {s _ _} hs h := by
    obtain rfl := describeVote_eq_ok.mp h
    refine ⟨hs.assembly, ?_⟩
    -- A vote whose organization is not on record leaves open what was noted before.
    cases hindex : a.electorates.get? (.number id) with
    | none => simpa [hs.assembly, hindex] using hs.org
    | some electorate => simp [hs.assembly, ← horg, hindex]
  failed _ h := by
    rw [describeVote_eq] at h
    cases h

theorem looks_authorize (host : Host) (target caller : Value) (privilege : Privilege) :
    Looks a org (authorize host target caller privilege) where
  passed hs h := (authorize_eq_ok.mp h).2 ▸ hs
  failed hs h := by
    unfold authorize at h
    cases hanswer : host.isSupervisor target caller with
    | ok answer =>
      rw [hanswer] at h
      cases answer <;> cases h
      exact hs
    | error message =>
      rw [hanswer] at h
      cases h
      exact hs

theorem looks_authorizeForVote (host : Host) (id : Number) (caller : Value) :
    Looks a org (authorizeForVote host id caller) where
  passed hs h := (authorizeForVote_eq_ok.mp h).2.2 ▸ hs
  failed {s _ _} hs h := by
    rcases bind_eq_error.mp h with h | ⟨_, _, ha, h⟩
    · cases h
    · obtain ⟨rfl, rfl⟩ := assembly_eq_ok.mp ha
      cases hvote : s.assembly.ledger.hasVote id with
      | false =>
        rw [hvote] at h
        cases h
        exact hs
      | true =>
        rw [hvote] at h
        cases hindex : s.assembly.electorates.get? (.number id) with
        | none =>
          rw [hindex] at h
          cases h
          exact hs
        | some electorate =>
          rw [hindex] at h
          exact (looks_authorize host _ _ _).failed hs h

namespace Cautious

variable {k : α → Action β}

theorem throw (r : Refusal) : Cautious a org (throw r : Action α) where
  of_error hs h := by
    cases h
    exact hs

theorem bind {m : Action α} (hm : Looks a org m) (hk : ∀ x, Cautious a org (k x)) :
    Cautious a org (m >>= k) where
  of_error hs h := by
    rcases bind_eq_error.mp h with h | ⟨x, s₁, hx, h⟩
    · exact hm.failed hs h
    · exact (hk x).of_error (hm.passed hs hx) h

/-- A form that is refused was only read. -/
theorem accept_bind {verdict : Verdict α} (hk : ∀ c, verdict = .accepted c → Cautious a org (k c)) :
    Cautious a org (accept verdict >>= k) where
  of_error {s _ _} hs h := by
    rcases bind_eq_error.mp h with h | ⟨c, s₁, hc, h⟩
    · cases verdict <;> cases h
      exact hs
    · rw [accept_eq_ok] at hc
      obtain ⟨hc, rfl⟩ := hc
      exact (hk c hc).of_error hs h

theorem assembly_bind {k : Assembly → Action β} (hk : Cautious a org (k a)) :
    Cautious a org (assembly >>= k) where
  of_error hs h := by
    rcases bind_eq_error.mp h with h | ⟨_, _, ha, h⟩
    · cases h
    · obtain ⟨rfl, rfl⟩ := assembly_eq_ok.mp ha
      rw [hs.assembly] at h
      exact hk.of_error hs h

/-- The call of the ledger is the last thing that may be refused, and writes nothing then. -/
theorem onLedger_bind {step : Ledger.Step α} (hstep : step.AllOrNothing)
    (hk : ∀ x, Succeeds (k x)) : Cautious a org (onLedger step >>= k) where
  of_error {s _ _} hs h := by
    rcases bind_eq_error.mp h with h | ⟨x, s₁, -, h⟩
    · unfold onLedger at h
      cases hcall : step s.assembly.ledger with
      | ok x ledger =>
        rw [hcall] at h
        cases h
      | error fault ledger =>
        rw [hcall] at h
        cases h
        obtain rfl := hstep.eq_of_error hcall
        exact hs
    · exact ((hk x).ne_error _ _ _ h).elim

end Cautious

end Action

end Plebiscite.Assembly
