import Plebiscite.Proofs.Assembly.Effect

/-!
# What commands do not read

A command writes in the journal and notes what it is about, but it reads neither.  So two assemblies
that agree in everything but their journals answer a command alike, refuse it alike, and agree
again afterwards.

## Main definitions

- `Assembly.Agrees`: the same ledger, history and index of electorates
- `Assembly.Matches`: the same result, with states that agree
- `Action.Alike`: actions with matching results in sessions whose assemblies agree

## Main results

- `Action.Alike.bind`, `Action.Alike.assembly_bind`: how actions that are alike are put together
- `Assembly.Agrees.perform`: a command has matching results on assemblies that agree
-/

namespace Plebiscite.Assembly

open Plebiscite.Assembly.Action

variable {α β σ : Type} {a b : Assembly} {s t : Session}

/-- Two assemblies that are the same but for their journals. -/
structure Agrees (a b : Assembly) : Prop where
  ledger : a.ledger = b.ledger
  history : a.history = b.history
  electorates : a.electorates = b.electorates

namespace Agrees

theorem refl (a : Assembly) : a.Agrees a :=
  ⟨rfl, rfl, rfl⟩

theorem symm (h : a.Agrees b) : b.Agrees a :=
  ⟨h.ledger.symm, h.history.symm, h.electorates.symm⟩

theorem trans {c : Assembly} (h : a.Agrees b) (h' : b.Agrees c) : a.Agrees c :=
  ⟨h.ledger.trans h'.ledger, h.history.trans h'.history, h.electorates.trans h'.electorates⟩

theorem log (h : a.Agrees b) (line line' : Journal.Line) : (a.log line).Agrees (b.log line') :=
  ⟨h.ledger, h.history, h.electorates⟩

theorem of_log (a : Assembly) (line : Journal.Line) : (a.log line).Agrees a :=
  ⟨rfl, rfl, rfl⟩

end Agrees

/-- Two results that pass with the same value or are refused with the same refusal, and whose
states are related. -/
inductive Matches (R : σ → σ → Prop) :
    EStateM.Result Refusal σ α → EStateM.Result Refusal σ α → Prop
  | ok {x : α} {s t : σ} (hstate : R s t) : Matches R (.ok x s) (.ok x t)
  | error {refusal : Refusal} {s t : σ} (hstate : R s t) :
      Matches R (.error refusal s) (.error refusal t)

/-! ## The inside of a command -/

/-- Whether two sessions have assemblies that agree; what was noted does not matter. -/
def Session.Agrees (s t : Session) : Prop :=
  s.assembly.Agrees t.assembly

namespace Action

/-- Two actions that match, wherever the assemblies agree. -/
structure Alike (m n : Action α) : Prop where
  matches_of_agrees : ∀ {s t : Session}, s.Agrees t → Matches Session.Agrees (m s) (n t)

namespace Alike

variable {m n : Action α} {k k' : α → Action β}

theorem bind (hm : Alike m n) (hk : ∀ x, Alike (k x) (k' x)) : Alike (m >>= k) (n >>= k') where
  matches_of_agrees {s t} hst := by
    have hfirst := hm.matches_of_agrees hst
    show Matches _ (EStateM.bind m k s) (EStateM.bind n k' t)
    simp only [EStateM.bind]
    -- The first actions may have noted different things, but their assemblies agree again.
    generalize m s = r at hfirst
    generalize n t = r' at hfirst
    cases hfirst with
    | ok hnext => exact (hk _).matches_of_agrees hnext
    | error hnext => exact .error hnext

theorem pure (x : α) : Alike (pure x : Action α) (pure x) where
  matches_of_agrees hst := .ok hst

theorem throw (refusal : Refusal) : Alike (throw refusal : Action α) (throw refusal) where
  matches_of_agrees hst := .error hst

theorem accept (verdict : Verdict α) : Alike (accept verdict) (accept verdict) := by
  cases verdict with
  | accepted x => exact pure x
  | refused issues => exact throw _

theorem note (f g : Subject → Subject) : Alike (note f) (note g) where
  matches_of_agrees hst := .ok hst

theorem onLedger (step : Ledger.Step α) : Alike (onLedger step) (onLedger step) where
  matches_of_agrees {s t} hst := by
    unfold Action.onLedger
    rw [hst.ledger]
    cases step t.assembly.ledger with
    | ok x ledger => exact .ok ⟨rfl, hst.history, hst.electorates⟩
    | error fault ledger => exact .error ⟨rfl, hst.history, hst.electorates⟩

theorem record (event : Event) : Alike (record event) (record event) where
  matches_of_agrees hst :=
    .ok ⟨hst.ledger, congrArg (· ++ [event]) hst.history, hst.electorates⟩

/-- What is written in the journal may differ. -/
theorem inform (message message' : String) (fields fields' : List (String × Value)) :
    Alike (inform message fields) (inform message' fields') where
  matches_of_agrees hst := .ok (hst.log _ _)

theorem assign (id : Number) (electorate : Electorate) :
    Alike (assign id electorate) (assign id electorate) where
  matches_of_agrees hst :=
    .ok ⟨hst.ledger, hst.history, congrArg (Index.put _ electorate) hst.electorates⟩

theorem authorize (host : Host) (org caller : Value) (privilege : Privilege) :
    Alike (authorize host org caller privilege) (authorize host org caller privilege) := by
  unfold Action.authorize
  cases host.isSupervisor org caller with
  | ok answer =>
    cases answer with
    | true => exact pure ()
    | false => exact throw _
  | error message => exact throw _

/-- An action that looks at the assembly has to be alike for any two that agree. -/
theorem assembly_bind {k k' : Assembly → Action β}
    (hk : ∀ a b : Assembly, a.Agrees b → Alike (k a) (k' b)) :
    Alike (assembly >>= k) (assembly >>= k') where
  matches_of_agrees {_ _} hst := (hk _ _ hst).matches_of_agrees hst

theorem describeVote (id : Number) : Alike (describeVote id) (describeVote id) where
  matches_of_agrees {s t} hst := by
    rw [describeVote_eq, describeVote_eq]
    exact .ok hst

theorem authorizeForVote (host : Host) (id : Number) (caller : Value) :
    Alike (authorizeForVote host id caller) (authorizeForVote host id caller) := by
  refine assembly_bind fun a b hab => ?_
  rw [hab.ledger, hab.electorates]
  -- From here on both do the same, whichever of the two checks refuses.
  cases b.electorates.get? (.number id) with
  | none =>
    cases b.ledger.hasVote id with
    | false => exact (throw _).bind fun _ => throw _
    | true => exact throw _
  | some electorate =>
    cases b.ledger.hasVote id with
    | false => exact (throw _).bind fun _ => authorize ..
    | true => exact authorize ..

theorem opened (host : Host) (id : Number) (electorate : Electorate) (creator : Value)
    (thresholdId : Option Value) :
    Alike (opened host id electorate creator thresholdId)
      (opened host id electorate creator thresholdId) := by
  refine (assign _ _).bind fun _ => (record _).bind fun _ => ?_
  exact assembly_bind fun a b _ => inform ..

end Alike

end Action

/-! ## Commands -/

variable {host : Host} {caller payload : Value}

/-- A command whose inside is alike has matching results, whatever it writes when it is refused. -/
theorem Agrees.run (h : a.Agrees b) {name : String} {role : String × Value} {action : Action α}
    (haction : Alike action action) :
    Matches Agrees (run name role action a) (run name role action b) := by
  have hinside : Matches Session.Agrees (action ⟨a, .unknown⟩) (action ⟨b, .unknown⟩) :=
    haction.matches_of_agrees h
  unfold Assembly.run
  generalize action ⟨a, .unknown⟩ = r at hinside
  generalize action ⟨b, .unknown⟩ = r' at hinside
  cases hinside with
  | ok hstate => exact .ok hstate
  | error hstate =>
    -- What was noted goes into the line about the refusal, and no further.
    exact .error (hstate.log _ _)

theorem Matches.map {R : σ → σ → Prop} {m n : EStateM Refusal σ α} {s t : σ}
    (h : Matches R (m s) (n t)) (g : α → β) : Matches R ((g <$> m) s) ((g <$> n) t) := by
  show Matches R (EStateM.map g m s) (EStateM.map g n t)
  simp only [EStateM.map]
  generalize m s = r at h
  generalize n t = r' at h
  cases h with
  | ok hstate => exact .ok hstate
  | error hstate => exact .error hstate

namespace Agrees

theorem registerThreshold (h : a.Agrees b) :
    Matches Agrees (registerThreshold host caller payload a)
      (registerThreshold host caller payload b) := by
  refine h.run ((Alike.accept _).bind fun c => (Alike.note _ _).bind fun _ => ?_)
  refine (Alike.authorize ..).bind fun _ => (Alike.onLedger _).bind fun entry => ?_
  exact (Alike.record _).bind fun _ => (Alike.inform ..).bind fun _ => Alike.pure _

theorem openVote (h : a.Agrees b) :
    Matches Agrees (openVote host caller payload a) (openVote host caller payload b) := by
  refine h.run ((Alike.accept _).bind fun r => (Alike.note _ _).bind fun _ => ?_)
  refine (Alike.authorize ..).bind fun _ => (Alike.onLedger _).bind fun id => ?_
  exact (Alike.opened ..).bind fun _ => Alike.pure _

theorem openPercentVote (h : a.Agrees b) :
    Matches Agrees (openPercentVote host caller payload a)
      (openPercentVote host caller payload b) := by
  refine h.run ((Alike.accept _).bind fun r => (Alike.note _ _).bind fun _ => ?_)
  refine (Alike.authorize ..).bind fun _ => (Alike.onLedger _).bind fun id => ?_
  exact (Alike.opened ..).bind fun _ => Alike.pure _

theorem invokeThreshold (h : a.Agrees b) :
    Matches Agrees (invokeThreshold host caller payload a)
      (invokeThreshold host caller payload b) := by
  refine h.run ((Alike.accept _).bind fun c => (Alike.note _ _).bind fun _ => ?_)
  refine Alike.assembly_bind fun a b hab => ?_
  rw [hab.ledger]
  cases b.ledger.register.get? (.number c.thresholdId) with
  | none => exact Alike.throw _
  | some entry =>
    refine (Alike.note _ _).bind fun _ => (Alike.authorize ..).bind fun _ => ?_
    refine (Alike.onLedger _).bind fun id => ?_
    exact (Alike.opened ..).bind fun _ => Alike.pure _

theorem submitVote (h : a.Agrees b) :
    Matches Agrees (submitVote host caller payload a) (submitVote host caller payload b) := by
  refine h.run ((Alike.accept _).bind fun c => (Alike.describeVote _).bind fun _ => ?_)
  refine (Alike.onLedger _).bind fun receipt => (Alike.record _).bind fun _ => ?_
  exact Alike.assembly_bind fun _ _ _ => (Alike.inform ..).bind fun _ => Alike.pure _

theorem extendVote (h : a.Agrees b) :
    Matches Agrees (extendVote host caller payload a) (extendVote host caller payload b) := by
  refine h.run ((Alike.accept _).bind fun c => (Alike.describeVote _).bind fun _ => ?_)
  refine (Alike.authorizeForVote ..).bind fun _ => (Alike.onLedger _).bind fun poll => ?_
  exact (Alike.record _).bind fun _ => (Alike.inform ..).bind fun _ => Alike.pure _

theorem updateTopic (h : a.Agrees b) :
    Matches Agrees (updateTopic host caller payload a) (updateTopic host caller payload b) := by
  refine h.run ((Alike.accept _).bind fun c => (Alike.describeVote _).bind fun _ => ?_)
  refine (Alike.authorizeForVote ..).bind fun _ => (Alike.onLedger _).bind fun poll => ?_
  exact (Alike.record _).bind fun _ => (Alike.inform ..).bind fun _ => Alike.pure _

/-- A command is answered alike, or refused alike, by assemblies that agree. -/
theorem perform (h : a.Agrees b) (command : Command) :
    Matches Agrees (perform host command caller payload a)
      (perform host command caller payload b) := by
  cases command with
  | registerThreshold => exact h.registerThreshold.map _
  | openVote => exact h.openVote.map _
  | openPercentVote => exact h.openPercentVote.map _
  | invokeThreshold => exact h.invokeThreshold.map _
  | submitVote => exact h.submitVote.map _
  | extendVote => exact h.extendVote.map _
  | updateTopic => exact h.updateTopic.map _

end Agrees

end Plebiscite.Assembly
