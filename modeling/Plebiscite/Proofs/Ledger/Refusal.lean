import Plebiscite.Proofs.Ledger.Effect

/-!
# What commands are refused for

Every check has its own few codes, and a command is refused with the code of the check that failed.
Only the search for an identifier can find that there is none left.

## Main definitions

- `FailsWith`: a check with the codes that it refuses with
- `Ledger.RefusedWith`: a command that is refused with a code
- `Ledger.Step.FailsOnly`: what all refusals of a step have in common

## Main results

- `Height.add_failsWith`, `Rule.validate_failsWith`, `Plan.make_failsWith`,
  `Ballot.change_failsWith`, `Poll.transfer_failsWith`: the codes of the checks
- `Ledger.applyVote_failsOnly`, `Ledger.extendVote_failsOnly`, `Ledger.updateTopic_failsOnly`: the
  codes of the commands that revise a vote
- `Ledger.perform_failsOnly_of_opening`, `Ledger.openWith_failsOnly_of`: what opening a vote is
  refused for, from what its checks are refused for
- `Ledger.perform_opening_failsOnly`, `Ledger.registerThreshold_failsOnly`: the commands that may
  find no identifier left
-/

namespace Plebiscite

open Checks

variable {α β : Type}

/-- A check that refuses with no other codes. -/
abbrev FailsWith (codes : List Code) (x : Except Fault α) : Prop :=
  FailsOnly (fun f : Fault => f.code ∈ codes) x

theorem FailsWith.mono {codes more : List Code} {x : Except Fault α} (h : FailsWith codes x)
    (hmore : ∀ c ∈ codes, c ∈ more) : FailsWith more x :=
  FailsOnly.mono h fun f hf => hmore f.code hf

/-! ## Checks -/

theorem Height.read_failsWith (label : String) (v : Value) :
    FailsWith [.invalidBlockHeight] (Height.read label v) := by
  cases v with
  | number n => exact FailsOnly.ite (FailsOnly.ok n) (FailsOnly.error (by simp [Fault.code]))
  | _ => exact FailsOnly.error (by simp [Fault.code])

theorem Height.add_failsWith (now duration : Value) :
    FailsWith [.invalidBlockHeight, .blockHeightOverflow] (Height.add now duration) := by
  apply FailsOnly.bind ((Height.read_failsWith _ _).mono (by simp))
  intro a _
  apply FailsOnly.bind ((Height.read_failsWith _ _).mono (by simp))
  intro b _
  exact FailsOnly.ite (FailsOnly.ok _) (FailsOnly.error (by simp [Fault.code]))

theorem Rule.validate_failsWith (r : Rule) :
    FailsWith [.invalidSignal, .invalidPercent] r.validate := by
  cases r with
  | signal t =>
    apply FailsOnly.forM
    intro v _
    unfold Signal.validate
    cases Signal.ofValue? v with
    | some n => exact FailsOnly.ok ()
    | none => exact FailsOnly.error (by simp [Fault.code])
  | percent t =>
    apply FailsOnly.forM
    intro v _
    exact FailsOnly.ite (FailsOnly.ok ()) (FailsOnly.error (by simp [Fault.code]))

theorem Signal.add_failsWith (a b : Int) : FailsWith [.signalOverflow] (Signal.add a b) :=
  FailsOnly.ite (FailsOnly.error (by simp [Fault.code])) (FailsOnly.ok _)

theorem Signal.sub_failsWith (a b : Int) : FailsWith [.signalUnderflow] (Signal.sub a b) :=
  FailsOnly.ite (FailsOnly.error (by simp [Fault.code])) (FailsOnly.ok _)

namespace Plan

theorem collect_failsWith (org : Value) (holdings : List Holding) (seen : List Value)
    (sum : Int) :
    FailsWith [.invalidMembership, .signalOverflow] (collect org seen sum holdings) := by
  induction holdings generalizing seen sum with
  | nil => exact FailsOnly.ok _
  | cons h rest ih =>
    apply FailsOnly.ite
    · exact FailsOnly.error (by simp [Fault.code])
    · cases Signal.ofValue? h.stake with
      | none => exact FailsOnly.error (by simp [Fault.code])
      | some stake =>
        apply FailsOnly.bind ((Signal.add_failsWith sum stake).mono (by simp))
        intro next _
        apply FailsOnly.bind (ih _ _)
        intro rest _
        exact FailsOnly.ok _

/-- A plan is refused for the membership, and for nothing else. -/
theorem make_failsWith (source : StakeSource) (e : Electorate) :
    FailsWith [.groupMembershipUnavailable, .weightedMembershipUnavailable, .invalidMembership,
      .signalOverflow] (make source e) := by
  unfold make make?
  cases e.mode? with
  | none => exact FailsOnly.error (by simp [Fault.code])
  | some mode =>
    cases mode with
    | equal =>
      show FailsWith _ (makeEqual source e)
      unfold makeEqual
      cases source.group? e.org with
      | none => exact FailsOnly.error (by simp [Fault.code])
      | some members => exact FailsOnly.ok _
    | weighted =>
      show FailsWith _ (makeWeighted source e)
      unfold makeWeighted
      cases source.stakes? e.org with
      | none => exact FailsOnly.error (by simp [Fault.code])
      | some group =>
        apply FailsOnly.bind ((collect_failsWith _ _ _ _).mono (by simp))
        intro collected _
        exact FailsOnly.ite (FailsOnly.error (by simp [Fault.code])) (FailsOnly.ok _)

end Plan

theorem Ballot.change_failsWith (b : Ballot) (stance : Stance) (justification : Value) :
    FailsWith [.noChange] (b.change stance justification) :=
  FailsOnly.ite (FailsOnly.error (by simp [Fault.code])) (FailsOnly.ok _)

/-- The tallies refuse to move, or leave the range of signal. -/
theorem Poll.transfer_failsWith (p : Poll) (magnitude : Int) (held wanted : Stance) :
    FailsWith [.unsupportedTransition, .signalOverflow, .signalUnderflow]
      (p.transfer magnitude held wanted) := by
  have hremove : FailsWith [.unsupportedTransition, .signalOverflow, .signalUnderflow]
      (p.remove magnitude held wanted) := by
    cases held with
    | inFavor | against =>
      apply FailsOnly.ite (FailsOnly.error (by simp [Fault.code]))
      apply FailsOnly.bind ((Signal.sub_failsWith _ _).mono (by simp))
      intro n _
      exact FailsOnly.ok _
    | _ => exact FailsOnly.ok _
  have hcount : ∀ q : Poll, FailsWith [.unsupportedTransition, .signalOverflow, .signalUnderflow]
      (q.count magnitude wanted) := by
    intro q
    cases wanted with
    | inFavor | against =>
      apply FailsOnly.bind ((Signal.add_failsWith _ _).mono (by simp))
      intro n _
      exact FailsOnly.ok _
    | _ => exact FailsOnly.ok _
  apply FailsOnly.ite (FailsOnly.error (by simp [Fault.code]))
  apply FailsOnly.bind hremove
  intro removed _
  apply FailsOnly.bind (hcount removed)
  intro next _
  exact FailsOnly.ite (FailsOnly.error (by simp [Fault.code])) (FailsOnly.ok _)

namespace Ledger

variable {env : Environment} {l l' : Ledger}

/-- A command is refused with a code. -/
def RefusedWith (code : Code) (env : Environment) (l : Ledger) (c : Command) : Prop :=
  ∃ f l', perform env c l = .error f l' ∧ f.code = code

theorem Environment.height_failsWith (env : Environment) :
    FailsWith [.invalidBlockHeight] env.height :=
  Height.read_failsWith _ _

theorem endOf_failsWith (now : Number) (duration : Value) :
    FailsWith [.invalidBlockHeight, .blockHeightOverflow] (endOf now duration) := by
  cases duration with
  | absent => exact FailsOnly.ok none
  | _ => exact (Height.add_failsWith _ _).map

theorem require_failsWith (l : Ledger) (id : Value) :
    FailsWith [.voteStateNotFound] (l.require id) := by
  unfold require
  cases id.number?.bind l.vote? with
  | some v => exact FailsOnly.ok v
  | none => exact FailsOnly.error (by simp [Fault.code])

/-- A search for an identifier can only find none. -/
theorem searchAll_failsWith (ceiling : Value) (after : α → α) (isTaken : α → Bool) (first : α) :
    FailsWith [.idSpaceExhausted] (Identifier.searchAll ceiling after isTaken first) := by
  unfold Identifier.searchAll
  split
  · exact .ok _
  · exact .error (by simp [Fault.code])

theorem next_failsWith (counter : Counter) (ceiling : Number) (isTaken : Number → Bool) :
    FailsWith [.idSpaceExhausted] (Identifier.next counter ceiling isTaken) :=
  searchAll_failsWith _ _ _ _

/-! ## Steps -/

namespace Step

/-- Whatever a step is refused for at a ledger has a property. -/
structure FailsOnly (l : Ledger) (P : Fault → Prop) (m : Step α) : Prop where
  of_error : ∀ {f l'}, m l = .error f l' → P f

namespace FailsOnly

variable {P : Fault → Prop} {m : Step α} {k : α → Step β}

theorem of_succeeds (h : Succeeds m) : FailsOnly l P m where
  of_error hf := (h.ne_error _ _ _ hf).elim

theorem throw {f : Fault} (h : P f) : FailsOnly l P (throw f : Step α) where
  of_error hf := by
    cases hf
    exact h

theorem mono {Q : Fault → Prop} (hm : FailsOnly l P m) (hPQ : ∀ f, P f → Q f) :
    FailsOnly l Q m where
  of_error hf := hPQ _ (hm.of_error hf)

/-- What comes after reading is refused at the same ledger. -/
theorem bind (hm : FailsOnly l P m) (hreads : Reads m)
    (hk : ∀ a, m l = .ok a l → FailsOnly l P (k a)) : FailsOnly l P (m >>= k) where
  of_error hf := by
    rcases bind_eq_error.mp hf with hf | ⟨a, l₁, ha, hf⟩
    · exact hm.of_error hf
    · have hl := hreads.passed ha
      rw [hl] at ha hf
      exact (hk a ha).of_error hf

theorem check {r : Except Fault α} (h : Checks.FailsOnly P r) : FailsOnly l P (check r) where
  of_error hf := by
    cases r with
    | ok a => cases hf
    | error f =>
      cases hf
      exact h.of_error rfl

theorem check_bind {r : Except Fault α} (h : Checks.FailsOnly P r)
    (hk : ∀ a, r = .ok a → FailsOnly l P (k a)) : FailsOnly l P (Ledger.check r >>= k) :=
  bind (check h) (reads_check r) fun a ha => hk a (check_eq_ok.mp ha).1

theorem get_bind {k : Ledger → Step β} (hk : FailsOnly l P (k l)) :
    FailsOnly l P (get >>= k) where
  of_error hf := hk.of_error hf

/-- What cannot fail after a step does not matter. -/
theorem andThen (hm : FailsOnly l P m) (hk : ∀ a, Succeeds (k a)) :
    FailsOnly l P (m >>= k) where
  of_error hf := by
    rcases bind_eq_error.mp hf with hf | ⟨a, l₁, -, hf⟩
    · exact hm.of_error hf
    · exact ((hk a).ne_error _ _ _ hf).elim

/-- What a step is refused for, it is also refused for before others. -/
theorem of_bind (h : FailsOnly l P (m >>= k)) : FailsOnly l P m where
  of_error hf := h.of_error (bind_eq_error.mpr (.inl hf))

/-- A refusal before the rest. -/
theorem throw_bind {f : Fault} (h : P f) :
    FailsOnly l P ((MonadExcept.throw f : Step α) >>= k) where
  of_error hf := by
    cases hf
    exact h

end FailsOnly

end Step

/-! ## Commands that revise a vote -/

theorem applyVote_failsOnly (id voter : Value) (stance : Stance) (justification : Value) :
    Step.FailsOnly l (fun f => f.code ∈ [.voteStateNotFound, .invalidBlockHeight, .voteExpired,
      .noSignalForVoter, .noChange, .unsupportedTransition, .signalOverflow, .signalUnderflow])
      (applyVote env id voter stance justification) := by
  refine .get_bind (.check_bind ((require_failsWith l id).mono (by simp)) fun vote _ => ?_)
  refine .check_bind (env.height_failsWith.mono (by simp)) fun now _ => ?_
  cases vote.poll.endedBy? now with
  | some ends => exact .throw_bind (by simp [Fault.code])
  | none =>
    dsimp only
    cases vote.ballot? voter.display with
    | none => exact .throw (by simp [Fault.code])
    | some previous =>
      refine .check_bind ((Ballot.change_failsWith _ _ _).mono (by simp)) fun ballot _ => ?_
      refine .check_bind ((Poll.transfer_failsWith _ _ _ _).mono (by simp)) fun poll _ => ?_
      refine .of_succeeds ((Step.succeeds_modify _).bind fun _ => ?_)
      exact (Step.succeeds_modify _).bind fun _ => Step.succeeds_pure _

theorem extendVote_failsOnly (id additional : Value) :
    Step.FailsOnly l (fun f => f.code ∈ [.voteStateNotFound, .invalidBlockHeight,
      .blockHeightOverflow]) (extendVote env id additional) := by
  refine .get_bind (.check_bind ((require_failsWith l id).mono (by simp)) fun vote _ => ?_)
  refine .check_bind (env.height_failsWith.mono (by simp)) fun now _ => ?_
  refine .check_bind ((Height.add_failsWith _ _).mono (by simp)) fun candidate _ => ?_
  exact .of_succeeds ((Step.succeeds_modify _).bind fun _ => Step.succeeds_pure _)

theorem updateTopic_failsOnly (id topic : Value) (clear : Bool) :
    Step.FailsOnly l (fun f => f.code ∈ [.voteStateNotFound]) (updateTopic id topic clear) := by
  refine .get_bind (.check_bind (require_failsWith l id) fun vote _ => .of_succeeds ?_)
  have hwrite : Step.Succeeds (do
      writePoll vote.id (vote.poll.retitle topic clear)
      return vote.poll.retitle topic clear) :=
    (Step.succeeds_modify _).bind fun _ => Step.succeeds_pure _
  cases clear with
  | false => exact hwrite
  | true =>
    exact (Step.succeeds_forM fun _ => Step.succeeds_modify _).bind fun _ => hwrite

/-! ## Running out of identifiers -/

open Step

variable {c : Command}

/-- A check that never fails with a code. -/
theorem failsOnly_of_codes {codes : List Code} {code : Code} {r : Except Fault α}
    {Q : Fault → Prop} (h : FailsWith codes r) (hcodes : code ∉ codes) :
    Checks.FailsOnly (fun f => f.code = code → Q f) r :=
  FailsOnly.mono h fun _ hf hcode => absurd (hcode ▸ hf) hcodes

/-- A vote is refused for one of the checks before it.  Nothing is minted twice, since the
identifier is a free one. -/
theorem openWith_failsOnly_of {P : Fault → Prop} {topic duration : Value} {e : Electorate}
    {bounds : Int → Threshold Int} (hheight : Checks.FailsOnly P env.height)
    (hends : ∀ now, env.height = .ok now → Checks.FailsOnly P (endOf now duration))
    (hplan : Checks.FailsOnly P (Plan.make env.stakes e))
    (hwithin : ∀ plan, Plan.make env.stakes e = .ok plan →
      (bounds plan.total).isWithin plan.total = false →
        P (.unreachable (bounds plan.total) plan.total))
    (hid : Checks.FailsOnly P (Identifier.next l.lastVote l.settings.ceiling l.hasVote)) :
    Step.FailsOnly l P (openWith env topic e duration bounds) := by
  refine .check_bind hheight fun now hnow => .check_bind (hends now hnow) fun ends _ => ?_
  refine .check_bind hplan fun plan hmake => ?_
  cases hreach : (bounds plan.total).isWithin plan.total with
  | false =>
    simp only [hreach, Bool.not_false, if_true]
    exact .throw_bind (hwithin plan hmake hreach)
  | true =>
    simp only [hreach, Bool.not_true, Bool.false_eq_true, if_false]
    refine .get_bind (.check_bind hid fun id hnext => ?_)
    refine .andThen (.get_bind ?_) fun _ => (succeeds_modify _).bind fun _ => succeeds_pure _
    have hfree : (l.issuance? id).isSome = false := by
      rw [issuance?, Option.isSome_map]
      exact Identifier.not_taken_of_next hnext
    simp only [hfree, Bool.false_eq_true, if_false]
    exact .of_succeeds (succeeds_set _)

/-- A vote is opened with what was asked for, once its bounds pass. -/
theorem perform_failsOnly_of_opening {P : Fault → Prop} {o : Opening} (ho : l.opening? c = some o)
    (hvalid : Checks.FailsOnly P o.rule.validate)
    (hopen : o.rule.validate = .ok () → Step.FailsOnly l P
      (openWith env o.topic o.electorate o.duration o.rule.boundsAt)) :
    Step.FailsOnly l P (perform env c) := by
  cases c with
  | openVote r =>
    cases ho
    exact .andThen (.check_bind hvalid fun _ h => hopen h) fun _ => succeeds_pure _
  | openPercentVote r =>
    cases ho
    exact .andThen (.check_bind hvalid fun _ h => hopen h) fun _ => succeeds_pure _
  | invokeThreshold id topic duration =>
    obtain ⟨entry, hentry, rfl⟩ := Option.map_eq_some_iff.mp ho
    refine .andThen (.get_bind ?_) fun _ => succeeds_pure _
    rw [Register.resolve, hentry]
    refine .check_bind (.ok entry) fun entry' hentry' => ?_
    cases hentry'
    cases hrule : entry.rule with
    | signal t =>
      simp only [hrule] at hvalid hopen
      exact .check_bind hvalid fun _ h => hopen h
    | percent t =>
      simp only [hrule] at hvalid hopen
      exact .check_bind hvalid fun _ h => hopen h
  | _ => cases ho

/-- A command that opens a vote runs out of identifiers when the search for one does. -/
theorem perform_opening_failsOnly {o : Opening} (ho : l.opening? c = some o) :
    Step.FailsOnly l (fun f => f.code = .idSpaceExhausted →
      Identifier.next l.lastVote l.settings.ceiling l.hasVote = .error f) (perform env c) := by
  refine perform_failsOnly_of_opening ho (failsOnly_of_codes o.rule.validate_failsWith (by decide))
    fun _ => openWith_failsOnly_of ?_ ?_ ?_ ?_ ⟨fun h _ => h⟩
  · exact failsOnly_of_codes env.height_failsWith (by decide)
  · exact fun now _ => failsOnly_of_codes (endOf_failsWith now o.duration) (by decide)
  · exact failsOnly_of_codes (Plan.make_failsWith _ o.electorate) (by decide)
  · intro plan _ _ hcode
    cases hcode

theorem invokeThreshold_failsOnly (env : Environment) {id : Value} (topic duration : Value)
    (h : l.register.get? id = none) :
    Step.FailsOnly l (fun f => f.code ∈ [.thresholdNotFound])
      (invokeThreshold env id topic duration) := by
  refine .get_bind ?_
  rw [Register.resolve, h]
  refine .check_bind (.error (by simp [Fault.code])) fun entry hentry => ?_
  cases hentry

/-- A command that opens no vote and keeps no rule looks for no identifier. -/
theorem perform_other_failsOnly (env : Environment) (ho : l.opening? c = none)
    (hc : ∀ e r, c ≠ .registerThreshold e r) :
    Step.FailsOnly l (fun f => f.code ≠ .idSpaceExhausted) (perform env c) := by
  have hne : ∀ {codes : List Code}, .idSpaceExhausted ∉ codes →
      ∀ f : Fault, f.code ∈ codes → f.code ≠ .idSpaceExhausted := by
    intro codes hcodes f hf heq
    exact hcodes (heq ▸ hf)
  cases c with
  | registerThreshold e r => exact absurd rfl (hc e r)
  | openVote r => cases ho
  | openPercentVote r => cases ho
  | invokeThreshold id topic duration =>
    have hunknown := invokeThreshold_failsOnly env topic duration
      (Option.map_eq_none_iff.mp ho)
    exact .andThen (hunknown.mono (hne (by decide))) fun _ => succeeds_pure _
  | applyVote id voter stance justification =>
    exact .andThen ((applyVote_failsOnly id voter stance justification).mono (hne (by decide)))
      fun _ => succeeds_pure _
  | extendVote id additional =>
    exact .andThen ((extendVote_failsOnly id additional).mono (hne (by decide)))
      fun _ => succeeds_pure _
  | updateTopic id topic clear =>
    exact .andThen ((updateTopic_failsOnly id topic clear).mono (hne (by decide)))
      fun _ => succeeds_pure _

theorem registerThreshold_failsOnly (e : Electorate) (r : Rule) :
    Step.FailsOnly l (fun f => f.code = .idSpaceExhausted →
      Identifier.nextOf l.register.counter (.number l.settings.ceiling) l.register.contains =
        .error f) (registerThreshold e r) := by
  refine .get_bind (.check_bind ?_ fun added _ => ?_)
  · apply FailsOnly.bind (failsOnly_of_codes r.validate_failsWith (by decide))
    intro _ _
    exact FailsOnly.bind ⟨fun h _ => h⟩ fun id _ => FailsOnly.ok _
  · exact .of_succeeds ((succeeds_set _).bind fun _ => succeeds_pure _)

end Ledger

end Plebiscite
