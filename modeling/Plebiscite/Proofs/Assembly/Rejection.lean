import Plebiscite.Proofs.Assembly.Authority
import Plebiscite.Proofs.Assembly.Resumption
import Plebiscite.Proofs.Ledger.Rejection

/-!
# What callers are refused for

The ledger and the assembly check far more than can go wrong between them.  Under a roster and a
clock, whatever callers hand in, a command is refused under a few codes only: the forms keep back
what the ledger would not take, whoever is authorized supervises an organization that there is, the
rules that were registered stay valid, the tallies cover what is taken from them, and every vote has
an electorate on record.

## Main definitions

- `Assembly.Command.codes`: the codes under which a command may be refused
- `Assembly.Caused`: what some of these codes tell of the payload and of the roster
- `Action.RefusedOnly`: what all refusals of an action have in common
- `Assembly.Steady`: an assembly in the state in which its checks pass by themselves
- `Assembly.Governed.Kept`: what a run keeps of an assembly and its roster

## Main results

- `Assembly.Steady.expected`: a command is refused as expected in such a state
- `Assembly.Governed.Kept.move`: every move leads to such a state again
- `Assembly.Governed.staysModest_of_length_lt`: a run is short enough for all members to be counted
- `Assembly.refused_as_expected`: in every run commands are refused as expected
-/

namespace Plebiscite

namespace Assembly

open Plebiscite.Assembly.Action

/-! ## What is expected -/

/-- The codes under which a command may be refused. -/
def Command.codes : Command → List Code
  | .registerThreshold => [.invalidCommand, .unauthorized, .invalidSignal, .idSpaceExhausted]
  | .openVote =>
    [.invalidCommand, .unauthorized, .invalidSignal, .blockHeightOverflow, .invalidMembership,
      .signalOverflow, .thresholdExceedsBounds, .idSpaceExhausted]
  | .openPercentVote =>
    [.invalidCommand, .unauthorized, .blockHeightOverflow, .invalidMembership, .signalOverflow,
      .idSpaceExhausted]
  | .invokeThreshold =>
    [.invalidCommand, .unauthorized, .thresholdNotFound, .blockHeightOverflow, .invalidMembership,
      .signalOverflow, .thresholdExceedsBounds, .idSpaceExhausted]
  | .submitVote =>
    [.invalidCommand, .voteStateNotFound, .voteExpired, .noSignalForVoter, .noChange,
      .unsupportedTransition]
  | .extendVote => [.invalidCommand, .unauthorized, .voteStateNotFound, .blockHeightOverflow]
  | .updateTopic => [.invalidCommand, .unauthorized, .voteStateNotFound]

/-- What a command asks the ledger to open a vote with. -/
def Asks (a : Assembly) (payload : Value) (command : Command) (o : Ledger.Opening) : Prop :=
  ∃ c electorate thresholdId, Requests a payload command c electorate thresholdId ∧
    a.ledger.opening? c = some o

/-- The bounds that a payload names. -/
def boundsOf (payload : Value) : Command → Value
  | .registerThreshold => (payload.get "rule").get "threshold"
  | _ => payload.get "threshold"

/-- Bounds of which one spells more than all signal there can be. -/
def Excessive (bounds : Value) : Prop :=
  ∃ side ∈ ["inFavor", "against"], ∃ s, bounds.get side = .text s ∧
    Signal.max < Signal.numeralValue s.toList

/-- What a code tells of the command that was refused under it. -/
structure Caused (r : Roster) (a : Assembly) (command : Command) (payload : Value)
    (code : Code) : Prop where
  invalidSignal : code = .invalidSignal → Excessive (boundsOf payload command)
  /-- A single stake in a weighted organization is more than all signal there can be. -/
  invalidMembership : code = .invalidMembership → ∃ o organization,
    Asks a payload command o ∧ o.electorate.mode? = some .weighted ∧
      r.get? o.electorate.org = some organization ∧
      ∃ entry ∈ organization.stakes, Signal.max < entry.2.whole
  signalOverflow : code = .signalOverflow → ∃ o, Asks a payload command o ∧
    o.electorate.mode? = some .weighted
  thresholdExceedsBounds : code = .thresholdExceedsBounds → ∃ o t, Asks a payload command o ∧
    o.rule = .signal t
  unsupportedTransition : code = .unsupportedTransition →
    payload.get "direction" = .text Stance.uninitialized.text

/-- A refusal under one of the codes of a command, for what that code tells. -/
def Expected (r : Roster) (a : Assembly) (command : Command) (payload : Value)
    (refusal : Refusal) : Prop :=
  ∃ code ∈ command.codes, refusal.code? = some code ∧ Caused r a command payload code

variable {r : Roster} {now : Number} {a a' : Assembly} {command : Command} {caller : String}
  {payload : Value} {refusal : Refusal}

/-- The codes that tell nothing but themselves. -/
def plainCodes : List Code :=
  [.invalidCommand, .unauthorized, .voteStateNotFound, .thresholdNotFound, .noSignalForVoter,
    .voteExpired, .noChange, .blockHeightOverflow, .idSpaceExhausted]

theorem Caused.plain {code : Code} (h : code ∈ plainCodes) : Caused r a command payload code := by
  constructor <;> (intro hcode; subst hcode; simp [plainCodes] at h)

theorem Expected.plain {code : Code} (hcode : refusal.code? = some code)
    (hmem : code ∈ command.codes) (hplain : code ∈ plainCodes) :
    Expected r a command payload refusal :=
  ⟨code, hmem, hcode, .plain hplain⟩

/-- A fault of the ledger under one of some codes that tell nothing more. -/
theorem Expected.of_fault {codes : List Code} {f : Fault} (hf : f.code ∈ codes)
    (h : ∀ code ∈ codes, code ∈ command.codes ∧ code ∈ plainCodes) :
    Expected r a command payload (.ledger f) :=
  .plain rfl (h _ hf).1 (h _ hf).2

theorem expected_invalidCommand (issues : List Issue) :
    Expected r a command payload (.invalidCommand issues) := by
  refine .plain rfl ?_ (by simp [plainCodes])
  cases command <;> simp [Command.codes]

theorem expected_unauthorized (hcommand : command ≠ .submitVote) (org caller : Value)
    (privilege : Privilege) :
    Expected r a command payload (.unauthorized org caller privilege) := by
  refine .plain rfl ?_ (by simp [plainCodes])
  cases command <;> simp [Command.codes] at hcommand ⊢

theorem expected_unknownVote (hcommand : .voteStateNotFound ∈ command.codes) (id : Value) :
    Expected r a command payload (.ledger (.unknownVote id)) := by
  have hcode : (Fault.unknownVote id).code ∈ [.voteStateNotFound] := List.mem_singleton.mpr rfl
  exact .of_fault hcode (by simp [hcommand, plainCodes])

/-! ## Refusals of an action -/

namespace Action

/-- Whatever an action is refused for has a property, as long as the assembly is the one that the
command found. -/
structure RefusedOnly {α : Type} (a : Assembly) (P : Refusal → Prop) (m : Action α) : Prop where
  of_error : ∀ {s refusal s'}, s.assembly = a → m s = .error refusal s' → P refusal

namespace RefusedOnly

variable {α β : Type} {P : Refusal → Prop} {host : Host}

theorem throw (h : P refusal) : RefusedOnly a P (throw refusal : Action α) where
  of_error _ hs := by
    cases hs
    exact h

/-- What comes after an action that leaves the assembly alone. -/
theorem bind {m : Action α} {k : α → Action β} (hm : RefusedOnly a P m)
    (hk : ∀ s x s', s.assembly = a → m s = .ok x s' → s'.assembly = a ∧ RefusedOnly a P (k x)) :
    RefusedOnly a P (m >>= k) where
  of_error ha hs := by
    rcases bind_eq_error.mp hs with hs | ⟨x, s₁, hx, hs⟩
    · exact hm.of_error ha hs
    · obtain ⟨ha₁, hrest⟩ := hk _ x s₁ ha hx
      exact hrest.of_error ha₁ hs

theorem accept_bind {verdict : Verdict α} {k : α → Action β}
    (hrefused : ∀ issues, P (.invalidCommand issues))
    (hk : ∀ c, verdict = .accepted c → RefusedOnly a P (k c)) :
    RefusedOnly a P (accept verdict >>= k) := by
  refine bind ?_ fun s c s' ha hs => ?_
  · cases verdict with
    | accepted c => exact ⟨fun _ hs => by cases hs⟩
    | refused issues => exact throw (hrefused issues)
  · obtain ⟨hform, rfl⟩ := accept_eq_ok.mp hs
    exact ⟨ha, hk c hform⟩

theorem note_bind {f : Subject → Subject} {k : Unit → Action β} (hk : RefusedOnly a P (k ())) :
    RefusedOnly a P (note f >>= k) := by
  refine bind ⟨fun _ hs => by cases hs⟩ fun s _ s' ha hs => ?_
  obtain rfl := note_eq_ok.mp hs
  exact ⟨ha, hk⟩

theorem assembly_bind {k : Assembly → Action β} (hk : RefusedOnly a P (k a)) :
    RefusedOnly a P (assembly >>= k) := by
  refine bind ⟨fun _ hs => by cases hs⟩ fun s _ s' ha hs => ?_
  obtain ⟨rfl, rfl⟩ := assembly_eq_ok.mp hs
  rw [ha]
  exact ⟨rfl, hk⟩

theorem describeVote_bind {id : Number} {k : Unit → Action β} (hk : RefusedOnly a P (k ())) :
    RefusedOnly a P (describeVote id >>= k) := by
  refine bind ⟨fun _ hs => ?_⟩ fun s _ s' ha hs => ?_
  · rw [describeVote_eq] at hs
    cases hs
  · obtain rfl := describeVote_eq_ok.mp hs
    exact ⟨ha, hk⟩

/-- A roster answers whether someone is a supervisor, and does not fail. -/
theorem authorize (org caller : Value) {privilege : Privilege}
    (hrefused : P (.unauthorized org caller privilege)) :
    RefusedOnly a P (authorize (r.host now) org caller privilege) := by
  simp only [Action.authorize, Roster.host]
  cases r.isSupervisor org caller with
  | true => exact ⟨fun _ hs => by cases hs⟩
  | false => exact throw hrefused

theorem authorize_bind {org caller : Value} {privilege : Privilege} {k : Unit → Action β}
    (hrefused : P (.unauthorized org caller privilege))
    (hk : r.isSupervisor org caller = true → RefusedOnly a P (k ())) :
    RefusedOnly a P (Action.authorize (r.host now) org caller privilege >>= k) := by
  refine bind (authorize org caller hrefused) fun s _ s' ha hs => ?_
  obtain ⟨hanswer, rfl⟩ := authorize_eq_ok.mp hs
  exact ⟨ha, hk (Except.ok.inj hanswer)⟩

/-- Where every vote has an electorate on record, no record is missed. -/
theorem authorizeForVote_bind {id : Number} {caller : Value} {k : Unit → Action β}
    (hindexed : a.ledger.hasVote id = true →
      ∃ electorate, a.electorates.get? (.number id) = some electorate)
    (hunknown : P (.ledger (.unknownVote (.number id))))
    (hrefused : ∀ org, P (.unauthorized org caller .updateVotes))
    (hk : RefusedOnly a P (k ())) :
    RefusedOnly a P (authorizeForVote (r.host now) id caller >>= k) := by
  refine bind (assembly_bind ?_) fun s _ s' ha hs => ?_
  · cases hvote : a.ledger.hasVote id with
    | false => exact bind (throw hunknown) fun _ _ _ _ hs => (throw_ne_ok.mp hs).elim
    | true =>
      obtain ⟨electorate, helectorate⟩ := hindexed hvote
      simp only [helectorate, Bool.not_true, Bool.false_eq_true, if_false]
      exact authorize _ _ (hrefused _)
  · -- Neither the check nor what it asks the roster changes anything.
    obtain ⟨-, -, rfl⟩ := authorizeForVote_eq_ok.mp hs
    exact ⟨ha, hk⟩

/-- After the call of the ledger nothing is refused. -/
theorem onLedger_bind {step : Ledger.Step α} {k : α → Action β}
    (hstep : Ledger.Step.FailsOnly a.ledger (fun f => P (.ledger f)) step)
    (hk : ∀ x, Succeeds (k x)) : RefusedOnly a P (onLedger step >>= k) where
  of_error {s _ _} ha hs := by
    rcases bind_eq_error.mp hs with hs | ⟨x, s₁, -, hs⟩
    · unfold onLedger at hs
      rw [ha] at hs
      cases hcall : step a.ledger with
      | ok x ledger =>
        rw [hcall] at hs
        cases hs
      | error fault ledger =>
        rw [hcall] at hs
        cases hs
        exact hstep.of_error hcall
    · exact ((hk x).ne_error _ _ _ hs).elim

end RefusedOnly

end Action

theorem refused_of_run {α : Type} {P : Refusal → Prop} {name : String} {role : String × Value}
    {action : Action α} (haction : RefusedOnly a P action)
    (h : run name role action a = .error refusal a') : P refusal := by
  unfold run at h
  cases hfailed : action ⟨a, .unknown⟩ with
  | ok x s => simp [hfailed] at h
  | error r s =>
    rw [hfailed] at h
    cases h
    exact haction.of_error rfl hfailed

/-! ## What the forms let pass -/

/-- Bounds in signal that are read are not below zero. -/
theorem written_of_signal {v : Value} {t : Threshold Int}
    (h : Form.threshold Form.signal v = .accepted t) : (Rule.signal t).Written := by
  intro b hb
  obtain ⟨side, -, hside⟩ := Form.bound_of_threshold h b hb
  obtain ⟨s, -, rfl⟩ := Form.text_of_signal hside
  exact Int.natCast_nonneg _

/-- Bounds in parts per million that are read are shares. -/
theorem written_of_permill {v : Value} {t : Threshold Number}
    (h : Form.threshold Form.permill v = .accepted t) : (Rule.percent t).Written := by
  intro b hb
  obtain ⟨side, -, hside⟩ := Form.bound_of_threshold h b hb
  exact Form.isPermill_of_permill hside

/-- Bounds that are read as too large are spelled so. -/
theorem excessive_of_bound {v : Value} {t : Threshold Int} {b : Int}
    (ht : Form.threshold Form.signal v = .accepted t) (hb : b ∈ t.bounds)
    (hlarge : Signal.max < b) : Excessive v := by
  obtain ⟨side, hside, hbound⟩ := Form.bound_of_threshold ht b hb
  obtain ⟨s, hs, rfl⟩ := Form.text_of_signal hbound
  exact ⟨side, hside, s, hs, hlarge⟩

/-- A rule that is read has bounds of the right form, and says so where one is too large. -/
theorem written_of_rule {v : Value} {r : Rule} (h : Form.rule v = .accepted r) :
    r.Written ∧ ∀ t, r = .signal t → ∀ b ∈ t.bounds, Signal.max < b →
      Excessive (v.get "threshold") := by
  rcases Form.threshold_of_rule h with ⟨t, rfl, hbounds⟩ | ⟨t, rfl, hbounds⟩
  · refine ⟨written_of_signal hbounds, fun t' ht b hb hlarge => ?_⟩
    cases ht
    exact excessive_of_bound hbounds hb hlarge
  · exact ⟨written_of_permill hbounds, nofun⟩

theorem isDuration_of_fields {α : Type} {bound : Form α} {v : Value} {r : Ledger.Request α}
    (h : Form.Requested bound v r) : IsDuration r.duration := by
  obtain ⟨d, hd, hblocks⟩ := h.duration
  exact hd ▸ Form.blocks_of_optional hblocks

theorem exists_mode_of_isElectorate {e : Electorate}
    (h : Guard.isElectorate e.description = true) : ∃ mode, e.mode? = some mode := by
  simp only [Guard.isElectorate, Bool.and_eq_true] at h
  obtain ⟨⟨-, hmode⟩, -⟩ := h
  unfold Guard.isMintMode at hmode
  split at hmode
  · rename_i s hkind
    obtain ⟨mode, hs⟩ := Option.isSome_iff_exists.mp hmode
    have hword : e.kind = .text s := hkind
    exact ⟨mode, by simp [Electorate.mode?, hword, Value.text?, hs]⟩
  · cases hmode

/-- A threshold is refused as expected in any state, as no check of it depends on one. -/
theorem expected_registerThreshold
    (hrefused : registerThreshold (r.host now) (.text caller) payload a = .error refusal a') :
    Expected r a .registerThreshold payload refusal := by
  refine refused_of_run (RefusedOnly.accept_bind expected_invalidCommand fun c hform => ?_) hrefused
  obtain ⟨hwritten, hexcessive⟩ := written_of_rule (Form.rule_of_registerThreshold hform)
  refine RefusedOnly.note_bind (RefusedOnly.authorize_bind (expected_unauthorized (by simp) ..)
    fun _ => RefusedOnly.onLedger_bind ?_ fun entry => ?_)
  · refine (Ledger.registerThreshold_rejects _ hwritten).mono ?_
    rintro f (hcode | ⟨hcode, t, ht, b, hb, hlarge⟩)
    · exact .plain (congrArg some hcode) (by simp [Command.codes]) (by simp [plainCodes])
    · have hmem : .invalidSignal ∈ Command.registerThreshold.codes := by
        simp [Command.codes]
      exact ⟨_, hmem, congrArg some hcode, fun _ => hexcessive t ht b hb hlarge, nofun, nofun,
        nofun, nofun⟩
  · exact (succeeds_record _).bind fun _ => (succeeds_inform _ _).bind fun _ => succeeds_pure _

/-! ## Where checks pass by themselves -/

/-- A roster that reports consistent stakes, a clock that shows a height, a ledger that was only
called, and an electorate on record for every vote. -/
structure Steady (r : Roster) (now : Number) (a : Assembly) : Prop where
  roster : r.Sound
  now : Guard.isBlockHeight (.number now) = true
  ledger : a.ledger.Storable
  indexed : ∀ v ∈ a.ledger.votes,
    ∃ electorate, a.electorates.get? (.number v.id) = some electorate

namespace Steady

variable {o : Ledger.Opening}

/-- What is asked for has the right form, wherever it comes from. -/
theorem asked (h : Steady r now a) (hasks : Asks a payload command o) :
    Guard.isElectorate o.electorate.description = true ∧ IsDuration o.duration ∧
      o.rule.Written := by
  obtain ⟨c, electorate, thresholdId, hrequests, ho⟩ := hasks
  cases hrequests with
  | openVote hform =>
    cases ho
    have hfields := Form.fields_of_request hform
    exact ⟨Form.isElectorate_of_electorate hfields.electorate, isDuration_of_fields hfields,
      written_of_signal hfields.threshold⟩
  | openPercentVote hform =>
    cases ho
    have hfields := Form.fields_of_request hform
    exact ⟨Form.isElectorate_of_electorate hfields.electorate, isDuration_of_fields hfields,
      written_of_permill hfields.threshold⟩
  | @invokeThreshold c entry hform hentry =>
    -- The entry was checked when it was registered.
    obtain ⟨entry', hfound, rfl⟩ := Option.map_eq_some_iff.mp ho
    have hkept := h.ledger.entries entry' (List.mem_of_find?_eq_some hfound)
    exact ⟨hkept.electorate,
      Form.blocks_of_optional (Form.fields_of_invokeThreshold hform).2,
      Rule.written_of_valid hkept.valid⟩

/-- A vote for an organization that someone supervises is prepared.  There is such an organization,
so the roster reports its stakes. -/
theorem prepared (h : Steady r now a) (hasks : Asks a payload command o) {caller : Value}
    (hauthority : r.isSupervisor o.electorate.org caller = true) :
    Ledger.Prepared (r.host now).environment o := by
  obtain ⟨helectorate, hduration, hrule⟩ := h.asked hasks
  obtain ⟨organization, hget⟩ := Roster.exists_of_isSupervisor hauthority
  have hholdings : r.stakeSource.stakes? o.electorate.org = some _ :=
    congrArg (Option.map _) hget
  refine ⟨⟨now, rfl, h.now⟩, hduration, exists_mode_of_isElectorate helectorate, ?_,
    ⟨_, hholdings, h.roster.consistent hholdings⟩, hrule⟩
  exact Option.isSome_iff_exists.mpr ⟨_, congrArg (Option.map _) hget⟩

/-- Why a vote is not opened, as the callers see it. -/
theorem caused (hasks : Asks a payload command o) {code : Code}
    (hhinders : Ledger.Hinders r.stakeSource o code)
    (hsignal : code = .invalidSignal → Excessive (boundsOf payload command)) :
    Caused r a command payload code := by
  cases hhinders with
  | excessive => exact ⟨hsignal, nofun, nofun, nofun, nofun⟩
  | late | exhausted => exact .plain (by simp [plainCodes])
  | stake hmode hgroup hh hlarge =>
    obtain ⟨organization, hget, rfl⟩ := Option.map_eq_some_iff.mp hgroup
    obtain ⟨entry, hentry, rfl⟩ := List.mem_map.mp hh
    exact ⟨nofun, fun _ => ⟨o, organization, hasks, hmode, hget, entry, hentry, hlarge⟩, nofun,
      nofun, nofun⟩
  | stakes hmode => exact ⟨nofun, nofun, fun _ => ⟨o, hasks, hmode⟩, nofun, nofun⟩
  | unreachable hrule => exact ⟨nofun, nofun, nofun, fun _ => ⟨o, _, hasks, hrule⟩, nofun⟩

/-- A vote that is asked for is refused as expected, if the code is one of the command and the
payload tells of an excessive bound where there is one. -/
theorem opening_expected (h : Steady r now a) {c : Ledger.Command} {electorate : Electorate}
    {thresholdId : Option Value} (hrequests : Requests a payload command c electorate thresholdId)
    {caller : Value} (hauthority : r.isSupervisor electorate.org caller = true)
    (hcodes : ∀ o code, a.ledger.opening? c = some o → Ledger.Hinders r.stakeSource o code →
      code ∈ command.codes ∧ (code = .invalidSignal → Excessive (boundsOf payload command))) :
    Ledger.Step.FailsOnly a.ledger (fun f => Expected r a command payload (.ledger f))
      (Ledger.perform (r.host now).environment c) := by
  obtain ⟨o, ho, rfl⟩ := hrequests.opening
  have hasks : Asks a payload command o := ⟨c, _, _, hrequests, ho⟩
  refine (Ledger.perform_hinders ho (h.prepared hasks hauthority)).mono fun f hf => ?_
  obtain ⟨hmem, hsignal⟩ := hcodes o f.code ho hf
  exact ⟨f.code, hmem, rfl, caused hasks hf hsignal⟩

/-! ## Commands -/

theorem openVote (h : Steady r now a)
    (hrefused : openVote (r.host now) (.text caller) payload a = .error refusal a') :
    Expected r a .openVote payload refusal := by
  refine refused_of_run (RefusedOnly.accept_bind expected_invalidCommand fun c hform => ?_) hrefused
  refine RefusedOnly.note_bind (RefusedOnly.authorize_bind (expected_unauthorized (by simp) ..)
    fun hauthority => RefusedOnly.onLedger_bind ?_ fun id => ?_)
  · refine Ledger.Step.FailsOnly.of_bind (h.opening_expected (.openVote hform) hauthority ?_)
    intro o code ho hhinders
    cases ho
    cases hhinders with
    | excessive hrule hb hlarge =>
      -- The bound that is too large stands in the payload.
      cases hrule
      refine ⟨by simp [Command.codes], fun _ => ?_⟩
      exact excessive_of_bound (Form.fields_of_request hform).threshold hb hlarge
    | _ => exact ⟨by simp [Command.codes], nofun⟩
  · exact (succeeds_opened _ _ _ _ _).bind fun _ => succeeds_pure _

theorem openPercentVote (h : Steady r now a)
    (hrefused : openPercentVote (r.host now) (.text caller) payload a = .error refusal a') :
    Expected r a .openPercentVote payload refusal := by
  refine refused_of_run (RefusedOnly.accept_bind expected_invalidCommand fun c hform => ?_) hrefused
  refine RefusedOnly.note_bind (RefusedOnly.authorize_bind (expected_unauthorized (by simp) ..)
    fun hauthority => RefusedOnly.onLedger_bind ?_ fun id => ?_)
  · refine Ledger.Step.FailsOnly.of_bind (h.opening_expected (.openPercentVote hform) hauthority ?_)
    intro o code ho hhinders
    cases ho
    -- No bound is in signal, so none is too large or out of reach.
    cases hhinders with
    | excessive hrule | unreachable hrule => cases hrule
    | _ => exact ⟨by simp [Command.codes], nofun⟩
  · exact (succeeds_opened _ _ _ _ _).bind fun _ => succeeds_pure _

theorem invokeThreshold (h : Steady r now a)
    (hrefused : invokeThreshold (r.host now) (.text caller) payload a = .error refusal a') :
    Expected r a .invokeThreshold payload refusal := by
  refine refused_of_run (RefusedOnly.accept_bind expected_invalidCommand fun c hform => ?_) hrefused
  refine RefusedOnly.note_bind (RefusedOnly.assembly_bind ?_)
  cases hentry : a.ledger.register.get? (.number c.thresholdId) with
  | none =>
    have hcode : (Fault.unknownThreshold (.number c.thresholdId)).code ∈ [.thresholdNotFound] :=
      List.mem_singleton.mpr rfl
    exact RefusedOnly.throw (.of_fault hcode (by simp [Command.codes, plainCodes]))
  | some entry =>
    refine RefusedOnly.note_bind (RefusedOnly.authorize_bind (expected_unauthorized (by simp) ..)
      fun hauthority => RefusedOnly.onLedger_bind ?_ fun id => ?_)
    · refine Ledger.Step.FailsOnly.of_bind
        (h.opening_expected (.invokeThreshold hform hentry) hauthority ?_)
      intro o code ho hhinders
      cases hhinders with
      | excessive hrule hb hlarge =>
        -- The rule of a threshold was valid when it was registered.
        obtain ⟨entry', hfound, rfl⟩ := Option.map_eq_some_iff.mp ho
        have hvalid := (h.ledger.entries entry' (List.mem_of_find?_eq_some hfound)).valid
        have hrule : entry'.rule = .signal _ := hrule
        rw [hrule] at hvalid
        have hrange := Signal.inRange_iff.mp (Rule.validate_signal.mp hvalid _ hb)
        omega
      | _ => exact ⟨by simp [Command.codes], nofun⟩
    · exact (succeeds_opened _ _ _ _ _).bind fun _ => succeeds_pure _

theorem submitVote (h : Steady r now a)
    (hrefused : submitVote (r.host now) (.text caller) payload a = .error refusal a') :
    Expected r a .submitVote payload refusal := by
  refine refused_of_run (RefusedOnly.accept_bind expected_invalidCommand fun c hform => ?_) hrefused
  refine RefusedOnly.describeVote_bind (RefusedOnly.onLedger_bind ?_ fun receipt => ?_)
  · -- The tallies are the sums of the ballots, so what is taken from them is in them.
    have hsound : ∀ v ∈ a.ledger.votes, v.Sound := fun v hv => (h.ledger.votes v hv).sound
    refine (Ledger.applyVote_rejects hsound rfl h.now _ _ _ _).mono ?_
    rintro f (hcode | ⟨hcode, hstance⟩)
    · exact .of_fault hcode (by simp [Command.codes, plainCodes])
    · -- The stance that is not for members is spelled out in the payload.
      have hmem : .unsupportedTransition ∈ Command.submitVote.codes := by
        simp [Command.codes]
      have hspelled := (Form.fields_of_submitVote hform).2.2
      rw [hstance] at hspelled
      exact ⟨_, hmem, congrArg some hcode, nofun, nofun, nofun, nofun, fun _ => hspelled⟩
  · refine (succeeds_record _).bind fun _ => succeeds_assembly.bind fun _ => ?_
    exact (succeeds_inform _ _).bind fun _ => succeeds_pure _

/-- Every vote that there is has an electorate on record. -/
theorem exists_electorate (h : Steady r now a) {id : Number} (hvote : a.ledger.hasVote id = true) :
    ∃ electorate, a.electorates.get? (.number id) = some electorate := by
  obtain ⟨v, hfound⟩ := Option.isSome_iff_exists.mp hvote
  obtain ⟨hv, rfl⟩ := Ledger.mem_of_vote? hfound
  exact h.indexed v hv

theorem extendVote (h : Steady r now a)
    (hrefused : extendVote (r.host now) (.text caller) payload a = .error refusal a') :
    Expected r a .extendVote payload refusal := by
  refine refused_of_run (RefusedOnly.accept_bind expected_invalidCommand fun c hform => ?_) hrefused
  refine RefusedOnly.describeVote_bind (RefusedOnly.authorizeForVote_bind h.exists_electorate
    (expected_unknownVote (by simp [Command.codes]) _)
    (fun org => expected_unauthorized (by simp) ..) (RefusedOnly.onLedger_bind ?_ fun poll => ?_))
  · refine (Ledger.extendVote_rejects rfl h.now (Form.fields_of_extendVote hform).2 _).mono ?_
    exact fun f hcode => .of_fault hcode (by simp [Command.codes, plainCodes])
  · exact (succeeds_record _).bind fun _ => (succeeds_inform _ _).bind fun _ => succeeds_pure _

theorem updateTopic (h : Steady r now a)
    (hrefused : updateTopic (r.host now) (.text caller) payload a = .error refusal a') :
    Expected r a .updateTopic payload refusal := by
  refine refused_of_run (RefusedOnly.accept_bind expected_invalidCommand fun c hform => ?_) hrefused
  refine RefusedOnly.describeVote_bind (RefusedOnly.authorizeForVote_bind h.exists_electorate
    (expected_unknownVote (by simp [Command.codes]) _)
    (fun org => expected_unauthorized (by simp) ..) (RefusedOnly.onLedger_bind ?_ fun poll => ?_))
  · refine (Ledger.updateTopic_failsOnly _ _ _).mono ?_
    exact fun f hcode => .of_fault hcode (by simp [Command.codes, plainCodes])
  · exact (succeeds_record _).bind fun _ => (succeeds_inform _ _).bind fun _ => succeeds_pure _

/-- A command is refused as expected. -/
theorem expected (h : Steady r now a) (command : Command)
    (hrefused : perform (r.host now) command (.text caller) payload a = .error refusal a') :
    Expected r a command payload refusal := by
  cases command with
  | registerThreshold => exact expected_registerThreshold (map_eq_error.mp hrefused)
  | openVote => exact h.openVote (map_eq_error.mp hrefused)
  | openPercentVote => exact h.openPercentVote (map_eq_error.mp hrefused)
  | invokeThreshold => exact h.invokeThreshold (map_eq_error.mp hrefused)
  | submitVote => exact h.submitVote (map_eq_error.mp hrefused)
  | extendVote => exact h.extendVote (map_eq_error.mp hrefused)
  | updateTopic => exact h.updateTopic (map_eq_error.mp hrefused)

end Steady

/-! ## Runs -/

/-- Where the history tells the ledger, every vote has an electorate on record. -/
theorem Tells.exists_electorate {history : List Event} {electorates : Index Electorate} {l : Ledger}
    (h : Tells history electorates l) {v : Vote} (hv : v ∈ l.votes) :
    ∃ electorate, electorates.get? (.number v.id) = some electorate := by
  have hopened : (v.id, electorates.get? (.number v.id), v.poll.initialized) ∈
      history.filterMap Event.opening? :=
    h.opened ▸ List.mem_map_of_mem hv
  obtain ⟨e, -, he⟩ := List.mem_filterMap.mp hopened
  cases e with
  | voteOpened id electorate opener thresholdId height =>
    simp only [Event.opening?, Option.some.injEq, Prod.mk.injEq] at he
    exact ⟨electorate, he.2.1.symm⟩
  | _ => cases he

theorem answer_command (a : Assembly) (host : Host) (command : Command) (caller payload : Value) :
    (a.answer (.command host command caller payload)).2 =
      a.after host command caller payload := by
  simp only [answer, after]
  cases perform host command caller payload a with
  | ok => rfl
  | error => rfl

namespace Hosted

/-- A clock that is moved, or stays, shows a height. -/
theorem isBlockHeight_tick {s : Hosted} {clock : Except Fault Clock}
    (hs : Guard.isBlockHeight (.number s.clock.height) = true)
    (h : ∀ c, clock = .ok c → Guard.isBlockHeight (.number c.height) = true) :
    Guard.isBlockHeight (.number (s.tick clock).clock.height) = true := by
  cases clock with
  | ok c => exact h c rfl
  | error fault => exact hs

end Hosted

namespace Governed

variable {s : Governed} {l : Ledger}

/-- In a run the roster is modest all the time, as it is in every run of fewer than `2 ^ 53`
moves. -/
def StaysModest (s : Governed) (moves : List Move) : Prop :=
  ∀ before, before <+: moves → (s.run before).roster.Modest

/-- What keeps the checks of an assembly from failing, whatever happens to it and its roster. -/
structure Kept (l : Ledger) (s : Governed) : Prop where
  orderly : s.Orderly
  traced : Traced l s.hosted.assembly
  roster : s.roster.Sound
  clock : Guard.isBlockHeight (.number s.hosted.clock.height) = true

namespace Kept

theorem start {o : Ledger.Options} {height : Value} {clock : Clock}
    (hledger : Ledger.empty o = .ok l) (hclock : Clock.start height = .ok clock)
    (level : Journal.Level) : Kept l ⟨⟨around l level, clock⟩, .empty⟩ where
  orderly := ⟨Hosted.Told.start hledger hclock level, Roster.Named.empty⟩
  traced := Traced.around l level
  roster := Roster.Sound.empty
  clock := Clock.isBlockHeight_of_start hclock

/-- Every move leads to such a state again. -/
theorem move (hs : Kept l s) (hmodest : s.roster.Modest) (m : Move) :
    Kept l (s.move m) := by
  have horderly := hs.orderly.move m
  cases m with
  | change change => exact ⟨horderly, hs.traced, hs.roster.after change, hs.clock⟩
  | advanceTo height =>
    refine ⟨horderly, ?_, hs.roster, Hosted.isBlockHeight_tick hs.clock fun _ hc =>
      Clock.isBlockHeight_of_advanceTo hc⟩
    simp only [Governed.move, Hosted.move, Hosted.tick_assembly]
    exact hs.traced
  | advanceBy blocks =>
    refine ⟨horderly, ?_, hs.roster, Hosted.isBlockHeight_tick hs.clock fun _ hc =>
      Clock.isBlockHeight_of_advanceBy hc⟩
    simp only [Governed.move, Hosted.move, Hosted.tick_assembly]
    exact hs.traced
  | command command caller payload =>
    -- The roster is a source that there can be, so the ledger stays one that was only called.
    have hturn : (Turn.command (s.roster.host s.hosted.clock.height) command (.text caller)
        payload).WellTyped := hs.roster.wellTyped hmodest
    have htraced := hs.traced.answer hturn
    rw [answer_command] at htraced
    exact ⟨horderly, htraced, hs.roster, hs.clock⟩

theorem run (hs : Kept l s) {moves : List Move} (hmodest : s.StaysModest moves) :
    Kept l (s.run moves) := by
  induction moves generalizing s with
  | nil => exact hs
  | cons m moves ih =>
    refine ih (hs.move (hmodest [] List.nil_prefix) m) fun before hbefore => ?_
    exact hmodest (m :: before) (List.cons_prefix_cons.mpr ⟨rfl, hbefore⟩)

/-- In such a state checks pass by themselves. -/
theorem steady {o : Ledger.Options} (hs : Kept l s) (hstart : Ledger.empty o = .ok l) :
    Steady s.roster s.hosted.clock.height s.hosted.assembly := by
  obtain ⟨calls, hcalls, hledger⟩ := hs.traced.ledger
  refine ⟨hs.roster, hs.clock, ?_, fun v hv => hs.orderly.told.tells.exists_electorate hv⟩
  rw [hledger]
  exact (Ledger.storable_of_serve hstart hcalls).1

end Kept

/-- A run of several moves adds as many members at most. -/
theorem length_run {k : Nat} (hs : s.roster.All fun stakes => stakes.length ≤ k)
    (moves : List Move) :
    (s.run moves).roster.All fun stakes => stakes.length ≤ k + moves.length := by
  induction moves generalizing s k with
  | nil => exact hs
  | cons m moves ih =>
    have hnext : (s.move m).roster.All fun stakes => stakes.length ≤ k + 1 := by
      cases m with
      | change change => exact hs.length_after change
      | _ => exact fun entry hentry => Nat.le_succ_of_le (hs entry hentry)
    rw [List.length_cons, Nat.add_comm moves.length, ← Nat.add_assoc]
    exact ih hnext

/-- A roster that starts with nothing stays modest for `2 ^ 53` moves. -/
theorem staysModest_of_length_lt (hosted : Hosted) {moves : List Move}
    (h : moves.length < 2 ^ 53) : StaysModest ⟨hosted, .empty⟩ moves := by
  refine fun before hbefore => ⟨fun entry hentry => ?_⟩
  have hlength := length_run (s := ⟨hosted, .empty⟩) (k := 0) Roster.All.empty before entry hentry
  have hshort := hbefore.length_le
  omega

end Governed

/-- Callers hand whatever they like to an assembly that started with nothing, while its roster and
its clock change in whatever way they can.  A command is refused under its own few codes and no
others: a payload of a wrong form, a caller without authority, a vote or threshold that there is
not, an end of time, of identifiers or of signal, or a ballot that does not count.  Neither the
checks of the ledger on what the forms let pass nor those on its own state ever fail. -/
theorem refused_as_expected {o : Ledger.Options} {l : Ledger} {height : Value} {clock : Clock}
    (hledger : Ledger.empty o = .ok l) (hclock : Clock.start height = .ok clock)
    (level : Journal.Level) {moves : List Governed.Move}
    (hmodest : Governed.StaysModest ⟨⟨around l level, clock⟩, .empty⟩ moves) (command : Command)
    (caller : String) (payload : Value) :
    let s := Governed.run ⟨⟨around l level, clock⟩, .empty⟩ moves
    let a := s.hosted.assembly
    ∀ refusal a', perform (s.roster.host s.hosted.clock.height) command (.text caller) payload a =
        .error refusal a' →
      Expected s.roster a command payload refusal := by
  intro s a refusal a' hrefused
  have hkept : Governed.Kept l s := (Governed.Kept.start hledger hclock level).run hmodest
  exact (hkept.steady hledger).expected command hrefused

namespace Sample

/-- A vote that takes more signal than there can be. -/
def excessivePayload : Value :=
  .object
    [("org", .object [("kind", .text "equal"), ("orgId", .text "org")]),
     ("threshold", .object [("inFavor", .text "340282366920938463463374607431768211456")])]

end Sample

/-- A bound of `2 ^ 128` has the right form, and is refused for its size alone. -/
theorem refused_as_expected_bound :
    let start : Governed := ⟨⟨around Ledger.Sample.start .info, ⟨5⟩⟩, .empty⟩
    let s := start.run Sample.governedMoves
    let a := s.hosted.assembly
    Ledger.empty Ledger.Sample.options = .ok Ledger.Sample.start ∧
      Clock.start (.number 5) = .ok ⟨5⟩ ∧ start.StaysModest Sample.governedMoves ∧
      ∃ refusal a', perform (s.roster.host s.hosted.clock.height) .openVote (.text "supervisor")
          Sample.excessivePayload a = .error refusal a' ∧
        refusal.code? = some .invalidSignal ∧
        Expected s.roster a .openVote Sample.excessivePayload refusal := by
  intro start s a
  have hclock : Clock.start (.number 5) = .ok ⟨5⟩ := by
    rfl
  have hmodest : start.StaysModest Sample.governedMoves :=
    Governed.staysModest_of_length_lt _ (by decide)
  have hrefused : ∃ refusal a', perform (s.roster.host s.hosted.clock.height) .openVote
      (.text "supervisor") Sample.excessivePayload a = .error refusal a' ∧
      refusal.code? = some .invalidSignal := ⟨_, _, rfl, rfl⟩
  obtain ⟨refusal, a', hrefused, hcode⟩ := hrefused
  refine ⟨Ledger.Sample.empty_options, hclock, hmodest, refusal, a', hrefused, hcode, ?_⟩
  exact refused_as_expected Ledger.Sample.empty_options hclock .info hmodest .openVote
    "supervisor" Sample.excessivePayload refusal a' hrefused

end Assembly

end Plebiscite
