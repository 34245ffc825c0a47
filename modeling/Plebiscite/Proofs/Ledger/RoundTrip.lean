import Plebiscite.Proofs.Ledger.Numbering
import Plebiscite.Proofs.Ledger.Storable

/-!
# Stored ledgers go on as before

A ledger that was only ever called with arguments of the right types can be stored at any time.
The restored ledger cannot be told from the one that was stored: whatever is called or asked from
then on, both answer and refuse alike and store the same.

## Main definitions

- `Ledger.Call`, `Ledger.serve`: calls one after the other
- `Ledger.Command.Storable`: arguments that leave nothing behind that cannot be stored
- `Ledger.Query`, `Ledger.Turn`, `Ledger.transcript`: what can be seen of a ledger from outside

## Main results

- `Ledger.storable_of_serve`: a ledger that was called is stored as it is
- `Ledger.transcript_restored`: storing and restoring cannot be seen from outside
-/

namespace Plebiscite

namespace Ledger

variable {l l' : Ledger} {env : Environment} {c : Command} {a : Answer} {v w : Vote}

/-! ## Calls -/

/-- A command with what it reads from outside. -/
structure Call where
  env : Environment
  command : Command

/-- The ledger after several calls, accepted or not. -/
def serve (l : Ledger) (calls : List Call) : Ledger :=
  l.run (calls.map fun call => .call call.env call.command)

@[simp]
theorem serve_nil : l.serve [] = l :=
  rfl

@[simp]
theorem serve_cons (call : Call) (calls : List Call) :
    l.serve (call :: calls) = (l.after call.env call.command).serve calls :=
  rfl

theorem serve_append (calls more : List Call) :
    l.serve (calls ++ more) = (l.serve calls).serve more := by
  simp [serve, run]

/-- What accepted calls preserve holds after all calls, since refused ones change nothing. -/
theorem serve_induction {P : Ledger → Prop} {calls : List Call} (hl : P l)
    (hcall : ∀ l, ∀ call ∈ calls, ∀ a l', Ledger.perform call.env call.command l = .ok a l' →
      P l → P l') : P (l.serve calls) := by
  refine run_induction hl fun l move hmove hl => ?_
  obtain ⟨call, hmem, rfl⟩ := List.mem_map.mp hmove
  simp only [move, after]
  cases h : Ledger.perform call.env call.command l with
  | ok a l' => exact hcall l call hmem a l' h hl
  | error f l' => exact (perform_allOrNothing call.command).eq_of_error h ▸ hl

/-- Arguments of the right types: a known stance, bounds alone, and for a threshold that is kept an
organization with a known mode and an identifier that is not empty. -/
def Command.Storable : Command → Prop
  | .registerThreshold electorate rule =>
    Guard.isElectorate electorate.description = true ∧ rule.bare = rule
  | .openVote request => request.threshold.remarks = []
  | .applyVote _ _ stance _ => stance ∈ Stance.all
  | _ => True

/-- Arguments that leave nothing behind that would be refused later: a known stance, and for a
threshold that is kept an organization with a known mode and an identifier that is not empty. -/
def Command.Proper : Command → Prop
  | .registerThreshold electorate _ => Guard.isElectorate electorate.description = true
  | .applyVote _ _ stance _ => stance ∈ Stance.all
  | _ => True

theorem Command.Storable.proper (h : c.Storable) : c.Proper := by
  cases c with
  | registerThreshold e r => exact h.1
  | applyVote id voter stance justification => exact h
  | _ => exact trivial

/-- A call with arguments of the right types, to a source of stakes that lists texts. -/
def Call.Storable (call : Call) : Prop :=
  call.env.stakes.WellTyped ∧ call.command.Storable

/-! ## Votes stay storable -/

theorem Revises.members (h : Revises env l c v w a) :
    w.seats.map (·.member) = v.seats.map (·.member) := by
  cases h with
  | cast =>
    refine Keyed.map_key_eq fun seat _ => ?_
    split <;> rfl
  | extended | retitled => rfl
  | cleared => exact Keyed.map_key_eq fun _ _ => rfl

/-- A revised vote keeps its seats. -/
theorem Revises.names (h : Revises env l c v w a) :
    w.seats.map Seat.name = v.seats.map Seat.name := by
  have hmembers := congrArg (List.map Value.display) h.members
  rw [List.map_map, List.map_map] at hmembers
  exact hmembers

theorem Revises.named (h : Revises env l c v w a)
    (hv : ∀ seat ∈ v.seats, Plan.isNamed seat.member = true) :
    ∀ seat ∈ w.seats, Plan.isNamed seat.member = true := by
  have hmembers : ∀ m ∈ w.seats.map (·.member), Plan.isNamed m = true := by
    rw [h.members]
    simpa using hv
  simpa using hmembers

/-- A revision touches neither the bounds nor the height at which the vote was opened, and the end
only by moving it to another height. -/
theorem Revises.poll (h : Revises env l c v w a) :
    w.poll.threshold = v.poll.threshold ∧ w.poll.initialized = v.poll.initialized ∧
      ∀ n ∈ w.poll.ends, n ∈ v.poll.ends ∨ Guard.isBlockHeight (.number n) = true := by
  cases h with
  | cast _ _ _ _ _ htransfer =>
    obtain ⟨rfl, -⟩ := Poll.eq_of_transfer htransfer
    exact ⟨rfl, rfl, fun n hn => .inl hn⟩
  | extended _ _ hcandidate =>
    rw [Poll.extend_eq]
    refine ⟨rfl, rfl, fun n hn => ?_⟩
    rcases Poll.mem_ends_extend hn with hn | rfl
    · exact .inl hn
    · exact .inr (Height.isBlockHeight_of_add hcandidate)
  | retitled | cleared => exact ⟨rfl, rfl, fun n hn => .inl hn⟩

theorem Revises.known (h : Revises env l c v w a) (hc : c.Proper)
    (hv : ∀ seat ∈ v.seats, seat.ballot.stance ∈ Stance.all) :
    ∀ seat ∈ w.seats, seat.ballot.stance ∈ Stance.all := by
  cases h with
  | cast _ _ _ _ hchange =>
    intro seat hseat
    rcases Vote.mem_setBallot hseat with hseat | hseat
    · exact hv seat hseat
    · rw [hseat, Ballot.eq_of_change hchange]
      exact hc
  | extended | retitled => exact hv
  | cleared =>
    intro seat hseat
    obtain ⟨old, hold, hreset⟩ := Vote.mem_resetBallots hseat
    rw [hreset]
    rcases l.settings.policy.stance_reset old.ballot with hstance | hstance
    · rw [hstance]
      exact hv old hold
    · simp [hstance, Stance.all]

theorem Revises.storable (h : Revises env l c v w a) (hc : c.Storable) (hv : v.Storable) :
    w.Storable := by
  obtain ⟨hthreshold, hinitialized, hends⟩ := h.poll
  refine ⟨hv.sound.revised h, h.id_eq ▸ hv.id, h.named hv.named, ?_, h.known hc.proper hv.known,
    ?_, ?_, ?_⟩
  · rw [h.names]
    exact hv.ascending
  · rw [hthreshold]
    exact hv.bare
  · rw [hinitialized]
    exact hv.initialized
  · intro n hn
    rcases hends n hn with hn | hn
    · exact hv.ends n hn
    · exact hn

theorem isBlockHeight_of_endOf {now : Number} {duration : Value} {ends : Option Number}
    (h : endOf now duration = .ok ends) : ∀ n ∈ ends, Guard.isBlockHeight (.number n) = true := by
  intro n hn
  cases duration with
  | absent =>
    cases h
    cases hn
  | _ =>
    obtain ⟨m, hadd, rfl⟩ := Checks.exceptMap_eq_ok.mp h
    obtain rfl := Option.mem_some_iff.mp hn
    exact Height.isBlockHeight_of_add hadd

theorem Opens.storable {o : Opening} (h : Opens env l o v) (henv : env.stakes.WellTyped)
    (ho : ∀ t, o.rule = .signal t → t.remarks = [])
    (hid : (v.id.isSafeInteger && Number.le 1 v.id) = true) : v.Storable := by
  obtain ⟨plan, hmake, -, -, hseats⟩ := h.minted
  have hp := Plan.sound_of_make henv hmake
  refine ⟨h.sound henv, hid, ?_, ?_, ?_, ?_, ?_, isBlockHeight_of_endOf h.ends⟩
  · rw [hseats, seatsOf]
    simpa using hp.named
  · rw [hseats, seatsOf, List.map_map]
    exact hp.ascending
  · rw [hseats, seatsOf]
    simp [Ballot.mint, Stance.all]
  · rw [h.threshold]
    exact Rule.remarks_boundsAt ho _
  · exact (Height.read_eq_ok.mp h.initialized).2

/-- The bounds of a vote that is opened come from the caller or from a threshold that was kept. -/
theorem bare_of_opening (hl : ∀ r ∈ l.register.entries, r.rule.bare = r.rule)
    (hc : ∀ r, c = .openVote r → r.threshold.remarks = []) {o : Opening}
    (ho : l.opening? c = some o) {t : Threshold Int} (ht : o.rule = .signal t) :
    t.remarks = [] := by
  cases c with
  | openVote r =>
    cases ho
    cases ht
    exact hc r rfl
  | openPercentVote r =>
    cases ho
    cases ht
  | invokeThreshold id topic duration =>
    obtain ⟨entry, hentry, rfl⟩ := Option.map_eq_some_iff.mp ho
    have hbare := hl entry (List.mem_of_find?_eq_some hentry)
    have ht : entry.rule = .signal t := ht
    rw [ht] at hbare
    exact congrArg Threshold.remarks (Rule.signal.inj hbare).symm
  | _ => cases ho

/-! ## Ledgers stay storable -/

/-- A ledger that was only called: numbered without gaps, with nothing in it that could not be
stored. -/
structure Regular (l : Ledger) (m n k : Nat) : Prop where
  numbered : l.Numbered m n k
  votes : ∀ v ∈ l.votes, v.Storable
  entries : ∀ r ∈ l.register.entries, r.Storable

namespace Regular

variable {m n k : Nat}

/-- What is numbered without gaps is in ascending order. -/
theorem storable (hl : l.Regular m n k) : l.Storable := by
  have hnum := hl.numbered
  refine ⟨hl.votes, ?_, hl.entries, ?_, ?_, ?_, ?_⟩
  · rw [hnum.ids]
    exact upTo_ascending n
  · rw [hnum.entries, List.pairwise_map]
    exact upTo_ascending k
  · exact ⟨_, hnum.lastVote, Height.isBlockHeight_ofInt (hnum.votes_le.trans hnum.ceiling_le)⟩
  · exact ⟨_, hnum.openVotes, Height.isBlockHeight_ofInt (hnum.votes_le.trans hnum.ceiling_le)⟩
  · exact ⟨_, hnum.counter, Height.isBlockHeight_ofInt (hnum.thresholds_le.trans hnum.ceiling_le)⟩

theorem accepts (hl : l.Regular m n k) (henv : env.stakes.WellTyped) (hc : c.Storable)
    (h : Accepts env l c a l') : ∃ n' k', l'.Regular m n' k' := by
  obtain ⟨n', k', hnum⟩ := hl.numbered.accepts h
  have hgapless := hl.numbered.gapless
  refine ⟨n', k', hnum, h.forall_votes hl.votes ?_ ?_, h.forall_entries hl.entries ?_⟩
  · intro o v ho hopens
    have hbare : ∀ t, o.rule = .signal t → t.remarks = [] := by
      intro t ht
      apply bare_of_opening (fun r hr => (hl.entries r hr).bare) _ ho ht
      rintro r rfl
      exact hc
    exact hopens.storable henv hbare
      (hgapless.isId_of_opens hl.numbered.ceiling hl.numbered.ceiling_le hopens)
  · intro v w hrevises hv
    exact hrevises.storable hc hv
  · rintro e r entry register rfl hregister
    obtain ⟨hvalid, helectorate, hrule, -⟩ := eq_of_register hregister
    refine ⟨hgapless.isId_of_register hl.numbered.ceiling hl.numbered.ceiling_le hregister, ?_, ?_,
      hrule ▸ hvalid, hrule ▸ hc.2⟩
    · rw [helectorate, Electorate.copy_eq hc.1]
      exact hc.1
    · rw [helectorate, Electorate.copy_copy]

end Regular

theorem Accepts.settings_eq (h : Accepts env l c a l') : l'.settings = l.settings := by
  cases h <;> rfl

/-- However a ledger was called, it is stored as it is, and the settings are what they were. -/
theorem storable_of_serve {o : Options} (h : Ledger.empty o = .ok l) {calls : List Call}
    (hcalls : ∀ call ∈ calls, call.Storable) :
    (l.serve calls).Storable ∧ o.settings = .ok (l.serve calls).settings := by
  obtain ⟨m, hnum⟩ := Numbered.of_empty h
  obtain ⟨settings, hsettings, rfl⟩ := Checks.exceptMap_eq_ok.mp h
  -- A step may give out one more identifier, so the two counts are found anew at each.
  have hserved : (∃ n k, ((blank settings).serve calls).Regular m n k) ∧
      ((blank settings).serve calls).settings = settings := by
    refine run_induction (P := fun l => (∃ n k, l.Regular m n k) ∧ l.settings = settings)
      ⟨⟨0, 0, hnum, by simp [blank], by simp [blank, Register.empty]⟩, rfl⟩ ?_
    rintro l move hmove ⟨⟨n, k, hl⟩, hkept⟩
    obtain ⟨call, hcall, rfl⟩ := List.mem_map.mp hmove
    obtain ⟨henv, hc⟩ := hcalls call hcall
    rcases after_cases hl.storable.indexed call.env call.command with h | ⟨a, h⟩
    · rw [move, h]
      exact ⟨⟨n, k, hl⟩, hkept⟩
    · exact ⟨hl.accepts henv hc h, h.settings_eq.trans hkept⟩
  obtain ⟨⟨n, k, hregular⟩, hkept⟩ := hserved
  exact ⟨hregular.storable, by rw [hkept]; exact hsettings⟩

/-! ## Seen from outside -/

/-- What can be asked of a ledger. -/
inductive Query where
  | poll (id : Number)
  | hasVote (id : Number)
  | ballot (id member : Value)
  | ballots (id : Number)
  | issuance (id : Number)
  | outcome (id : Value)
  | isExpired (id : Value)
  | threshold (id : Value)
  | thresholds
  | openVotes
  | votes
  | policy
  | snapshot
  | stateHash

/-- What a call or a question is answered with. -/
inductive Reply where
  | done (answer : Answer)
  | poll (poll : Option Poll)
  | truth (b : Bool)
  | ballot (ballot : Option Ballot)
  | ballots (seats : List Seat)
  | amount (amount : Option Int)
  | outcome (outcome : Outcome)
  | threshold (entry : Option Registration)
  | thresholds (entries : List Registration)
  | counter (count : Counter)
  | count (n : Nat)
  | policy (policy : ResetPolicy)
  | snapshot (s : Snapshot)
  | digest (s : String)

/-- What a ledger answers to a question. -/
def ask (l : Ledger) (env : Environment) : Query → Except Fault Reply
  | .poll id => .ok (.poll (l.poll? id))
  | .hasVote id => .ok (.truth (l.hasVote id))
  | .ballot id member => .ok (.ballot (l.ballotByKey? id member))
  | .ballots id => .ok (.ballots (l.ballots id))
  | .issuance id => .ok (.amount (l.issuance? id))
  | .outcome id => (l.outcome id).map .outcome
  | .isExpired id => (l.isExpired env id).map .truth
  | .threshold id => .ok (.threshold (l.register.get? id))
  | .thresholds => .ok (.thresholds l.register.listed)
  | .openVotes => .ok (.counter l.openVotes)
  | .votes => .ok (.count l.votes.length)
  | .policy => .ok (.policy l.settings.policy)
  | .snapshot => .ok (.snapshot l.snapshot)
  | .stateHash => .ok (.digest l.stateHash)

/-- One thing that is called or asked, with what the clock and the stakes are then. -/
inductive Turn where
  | call (call : Call)
  | ask (env : Environment) (query : Query)

/-- The reply to a turn, with the ledger after it. -/
def answer (l : Ledger) : Turn → Except Fault Reply × Ledger
  | .call call =>
    match perform call.env call.command l with
    | .ok a l' => (.ok (.done a), l')
    | .error fault l' => (.error fault, l')
  | .ask env query => (l.ask env query, l)

/-- All replies to several turns, each with what is stored after it. -/
def transcript (l : Ledger) : List Turn → List (Except Fault Reply × Snapshot)
  | [] => []
  | turn :: turns =>
    let (reply, next) := l.answer turn
    (reply, next.snapshot) :: next.transcript turns

/-- A ledger that was only called can be stored and restored under the same options; the restored
ledger stores the same, and from then on it replies and refuses like the one that was stored, and
stores the same after every turn. -/
theorem transcript_restored {o : Options} {start : Ledger} (h : Ledger.empty o = .ok start)
    {calls : List Call} (hcalls : ∀ call ∈ calls, call.Storable) :
    ∃ restored, restore o (start.serve calls).snapshot = .ok restored ∧
      restored.snapshot = (start.serve calls).snapshot ∧
      ∀ turns, restored.transcript turns = (start.serve calls).transcript turns := by
  obtain ⟨hstorable, hsettings⟩ := storable_of_serve h hcalls
  exact ⟨_, restore_snapshot hstorable hsettings, rfl, fun _ => rfl⟩

/-- The same with a threshold that is kept, a vote, a ballot that turns stale, and a call that is
refused. -/
theorem transcript_restored_small :
    let calls : List Call :=
      [⟨Sample.host, .registerThreshold (.of .weighted "org") (.percent Sample.threshold)⟩,
       ⟨Sample.host, .openPercentVote Sample.request⟩,
       ⟨Sample.host, .applyVote (.number 1) (.text "bob") .inFavor (.text "because")⟩,
       ⟨Sample.host, .applyVote (.number 1) (.text "carol") .inFavor .absent⟩,
       ⟨Sample.host, .updateTopic (.number 1) (.text "other") true⟩]
    ∃ restored, restore Sample.options (Sample.start.serve calls).snapshot = .ok restored ∧
      restored.snapshot = (Sample.start.serve calls).snapshot ∧
      ∀ turns, restored.transcript turns = (Sample.start.serve calls).transcript turns := by
  intro calls
  have hcalls : ∀ call ∈ calls, call.Storable := by
    have hhost : Sample.host.stakes.WellTyped := Sample.source_wellTyped
    have helectorate : Guard.isElectorate (Electorate.of .weighted "org").description = true := by
      decide
    simp [calls, Call.Storable, Command.Storable, hhost, helectorate, Rule.bare, Stance.all,
      Threshold.bare, Sample.threshold]
  exact transcript_restored Sample.empty_options hcalls

end Ledger

end Plebiscite
