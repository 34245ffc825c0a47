import Plebiscite.Proofs.Ledger.Thresholds

/-!
# The identifiers of a ledger that was empty

A ledger that started with nothing and was only called gives out the identifiers from one on, one
after the other, to votes and to thresholds apart.  So many votes are there as were opened, the
counters say so, and a vote is refused for want of an identifier exactly when as many are there as
the ceiling allows.  No property of the calls is needed: whatever clock, stakes and arguments they
come with, what is refused leaves no gap.

## Main definitions

- `Answer.opened?`, `Answer.registered?`: the identifiers that answers hold
- `Ledger.answers`: what accepted calls answer, in their order
- `Ledger.Ready`: a vote that can be opened as soon as there is an identifier

## Main results

- `Ledger.Numbered.perform`: what one call does to the numbering
- `Ledger.Numbered.serve`: what calls do to the numbering
- `Ledger.numbered_from_genesis`: identifiers, counts and counters after any calls
-/

namespace Plebiscite.Ledger

/-! ## Answers -/

/-- The identifier of a vote that was opened. -/
def Answer.opened? : Answer → Option Number
  | .opened id => some id
  | _ => none

/-- The identifier of a threshold that was registered. -/
def Answer.registered? : Answer → Option Value
  | .registered entry => some entry.id
  | _ => none

/-- What accepted calls answer, in their order. -/
def answers (l : Ledger) : List Call → List Answer
  | [] => []
  | call :: calls =>
    match perform call.env call.command l with
    | .ok a l' => a :: l'.answers calls
    | .error _ l' => l'.answers calls

variable {l l' : Ledger} {env : Environment} {c : Command} {a : Answer}

/-! ## One call -/

namespace Numbered

variable {m n k : Nat}

/-- What gives out no identifier keeps the numbering. -/
theorem keeps (hl : l.Numbered m n k) (h : Keeps l l') : l'.Numbered m n k where
  ceiling := h.settings ▸ hl.ceiling
  ceiling_pos := hl.ceiling_pos
  ceiling_le := hl.ceiling_le
  votes_le := hl.votes_le
  thresholds_le := hl.thresholds_le
  ids := h.ids.trans hl.ids
  lastVote := h.lastVote.trans hl.lastVote
  openVotes := h.openVotes.trans hl.openVotes
  entries := h.register ▸ hl.entries
  counter := h.register ▸ hl.counter

/-- An accepted call gives out the next number of one numbering, or none at all. -/
theorem perform (hl : l.Numbered m n k) (h : perform env c l = .ok a l') :
    ∃ n' k', l'.Numbered m n' k' ∧ upTo n' = upTo n ++ a.opened?.toList ∧
      (upTo k').map Value.number = (upTo k).map Value.number ++ a.registered?.toList := by
  -- A vote is opened, a threshold is registered, or no identifier is given out.
  rcases perform_kinds h with ⟨o, vote, -, hopens, rfl, rfl⟩ |
    ⟨e, rule, entry, register, -, hregister, rfl, rfl⟩ | ⟨-, hanswer, hkeeps⟩
  · obtain ⟨hlast, hnum⟩ := hl.opened hopens
    refine ⟨n + 1, k, hnum, ?_, (List.append_nil _).symm⟩
    rw [← hnum.ids, hlast, List.map_append, hl.ids]
    rfl
  · obtain ⟨-, -, -, hentries, hnum⟩ := hl.registered hregister
    refine ⟨n, k + 1, hnum, (List.append_nil _).symm, ?_⟩
    have hids : register.entries.map (·.id) = (upTo (k + 1)).map Value.number := hnum.entries
    rw [← hids, hentries, List.map_append, hl.entries]
    rfl
  · have hnone : a.opened? = none ∧ a.registered? = none := by
      cases a with
      | opened | registered => cases hanswer
      | cast | updated => exact ⟨rfl, rfl⟩
    exact ⟨n, k, hl.keeps hkeeps, by simp [hnone.1], by simp [hnone.2]⟩

/-- The numbering after several calls tells which identifiers they gave out. -/
theorem serve (hl : l.Numbered m n k) (calls : List Call) :
    ∃ n' k', (l.serve calls).Numbered m n' k' ∧
      upTo n' = upTo n ++ (l.answers calls).filterMap Answer.opened? ∧
      (upTo k').map Value.number =
        (upTo k).map Value.number ++ (l.answers calls).filterMap Answer.registered? := by
  induction calls generalizing l n k with
  | nil => exact ⟨n, k, hl, (List.append_nil _).symm, (List.append_nil _).symm⟩
  | cons call calls ih =>
    rw [serve_cons]
    cases h : Ledger.perform call.env call.command l with
    | ok a l' =>
      obtain ⟨n₁, k₁, hstep, hopened, hregistered⟩ := hl.perform h
      obtain ⟨n₂, k₂, hrest, hopened', hregistered'⟩ := ih hstep
      rw [after_of_ok h]
      refine ⟨n₂, k₂, hrest, ?_, ?_⟩
      · rw [hopened', hopened, answers, h]
        cases ha : a.opened? <;> simp [ha]
      · rw [hregistered', hregistered, answers, h]
        cases ha : a.registered? <;> simp [ha]
    | error f l' =>
      -- What is refused leaves the ledger as it was and answers nothing.
      have hsame := (perform_allOrNothing call.command).eq_of_error h
      rw [answers, after, h, hsame]
      exact ih hl

end Numbered

/-! ## Running out of identifiers -/

/-- A command that opens a vote and passes every check but the one for an identifier, which comes
last: its bounds, the clock, the duration, the membership, and whether the turnout can reach the
bounds. -/
structure Ready (env : Environment) (l : Ledger) (c : Command) (o : Opening) : Prop where
  opening : l.opening? c = some o
  valid : o.rule.validate = .ok ()
  ends : ∃ now ends, env.height = .ok now ∧ endOf now o.duration = .ok ends
  within : ∃ plan, Plan.make env.stakes o.electorate = .ok plan ∧
    (o.rule.boundsAt plan.total).isWithin plan.total = true

variable {m n k : Nat}

/-- A command that can fail for nothing else, and that is accepted exactly below the ceiling, runs
out of identifiers exactly at the ceiling. -/
theorem exhausts_iff (h : Step.FailsOnly l (fun f => f.code = .idSpaceExhausted) (perform env c))
    (haccepted : (∃ a l', perform env c l = .ok a l') ↔ n < m) (hle : n ≤ m) :
    RefusedWith .idSpaceExhausted env l c ↔ n = m := by
  -- Nothing else can go wrong, so what is not accepted is refused for that.
  have hrefused : RefusedWith .idSpaceExhausted env l c ↔
      ¬ ∃ a l', perform env c l = .ok a l' := by
    cases hp : perform env c l with
    | ok a l' => simp [RefusedWith, hp]
    | error f l' => simp [RefusedWith, hp, h.of_error hp]
  rw [hrefused, haccepted]
  omega

namespace Ready

variable {o : Opening}

theorem failsOnly (h : Ready env l c o) :
    Step.FailsOnly l (fun f => f.code = .idSpaceExhausted) (perform env c) := by
  obtain ⟨now, ends, hnow, hends⟩ := h.ends
  obtain ⟨plan, hplan, hwithin⟩ := h.within
  apply perform_failsOnly_of_opening h.opening
  · rw [h.valid]
    exact .ok ()
  · -- Each check before the search passes, so none of them refuses.
    intro _
    apply openWith_failsOnly_of
    · rw [hnow]
      exact .ok now
    · intro now' hnow'
      rw [Except.ok.inj (hnow'.symm.trans hnow), hends]
      exact .ok ends
    · rw [hplan]
      exact .ok plan
    · intro plan' hplan' hbeyond
      rw [Except.ok.inj (hplan'.symm.trans hplan), hwithin] at hbeyond
      cases hbeyond
    · exact Checks.FailsOnly.mono (next_failsWith _ _ _) fun f hf => List.mem_singleton.mp hf

/-- With an identifier, there is a vote to open. -/
theorem exists_opens (h : Ready env l c o) {id : Number}
    (hid : Identifier.next l.lastVote l.settings.ceiling l.hasVote = .ok id) :
    ∃ v, Opens env l o v ∧ v.id = id := by
  obtain ⟨now, ends, hnow, hends⟩ := h.ends
  obtain ⟨plan, hplan, hwithin⟩ := h.within
  refine ⟨⟨id, .create o.topic plan.total (o.rule.boundsAt plan.total) now ends, plan.total,
    seatsOf plan⟩, ?_, rfl⟩
  exact ⟨h.valid, hnow, hends, ⟨plan, hplan, rfl, rfl, rfl⟩, rfl, rfl, hwithin, ⟨rfl, rfl⟩, hid⟩

/-- A vote that is ready is opened under the next number. -/
theorem opened (h : Ready env l c o) (hl : l.Numbered m n k) (hlt : n < m) :
    ∃ l', perform env c l = .ok (.opened (.ofInt (n + 1 : Nat))) l' := by
  have hnext : Identifier.next l.lastVote l.settings.ceiling l.hasVote =
      .ok (.ofInt (n + 1 : Nat)) := by
    rw [hl.lastVote, hl.ceiling]
    exact (Identifier.next_eq_ok_of_filled hl.ceiling_le hl.hasVote).mpr ⟨hlt, rfl⟩
  obtain ⟨v, hopens, hid⟩ := h.exists_opens hnext
  exact ⟨_, (perform_eq_ok_of_opening h.opening).mpr ⟨v, hopens, by rw [hid], rfl⟩⟩

theorem exhausts_iff (h : Ready env l c o) (hl : l.Numbered m n k) :
    RefusedWith .idSpaceExhausted env l c ↔ n = m := by
  apply Ledger.exhausts_iff h.failsOnly _ hl.votes_le
  constructor
  · rintro ⟨a, l', hp⟩
    obtain ⟨v, hopens, -, -⟩ := (perform_eq_ok_of_opening h.opening).mp hp
    exact (hl.opened hopens).2.votes_le
  · intro hlt
    obtain ⟨l', hp⟩ := h.opened hl hlt
    exact ⟨_, l', hp⟩

end Ready

section Registrations

variable {e : Electorate} {rule : Rule}

/-- A rule that passes is kept under the next number. -/
theorem Numbered.register (hl : l.Numbered m n k) (hvalid : rule.validate = .ok ())
    (hlt : k < m) :
    ∃ entry l', Ledger.perform env (.registerThreshold e rule) l = .ok (.registered entry) l' ∧
      entry.id = .number (.ofInt (k + 1 : Nat)) := by
  have hnext : Identifier.nextOf l.register.counter (.number l.settings.ceiling)
      l.register.contains = .ok (.number (.ofInt (k + 1 : Nat))) := by
    rw [hl.counter, hl.ceiling, Identifier.nextOf_number]
    exact Checks.exceptMap_eq_ok.mpr ⟨_, (Identifier.next_eq_ok_of_filled hl.ceiling_le
      hl.gapless.contains).mpr ⟨hlt, rfl⟩, rfl⟩
  have hregister : ∃ entry register,
      l.register.register (.number l.settings.ceiling) e rule = .ok (entry, register) ∧
        entry.id = .number (.ofInt (k + 1 : Nat)) := by
    rw [Register.register, hvalid, hnext]
    exact ⟨_, _, rfl, rfl⟩
  obtain ⟨entry, register, hregister, hid⟩ := hregister
  exact ⟨entry, _, Step.map_eq_ok.mpr ⟨_, registerThreshold_eq_ok.mpr ⟨_, hregister, rfl⟩, rfl⟩,
    hid⟩

theorem registerThreshold_failsOnly_of_valid (hvalid : rule.validate = .ok ()) :
    Step.FailsOnly l (fun f => f.code = .idSpaceExhausted)
      (perform env (.registerThreshold e rule)) := by
  refine .andThen (.get_bind (.check_bind ?_ fun added _ => ?_)) fun _ => Step.succeeds_pure _
  · apply Checks.FailsOnly.bind
    · rw [hvalid]
      exact .ok ()
    · intro _ _
      apply Checks.FailsOnly.bind
      · exact Checks.FailsOnly.mono (searchAll_failsWith _ _ _ _) fun f hf =>
          List.mem_singleton.mp hf
      · exact fun id _ => .ok _
  · exact .of_succeeds ((Step.succeeds_set _).bind fun _ => Step.succeeds_pure _)

theorem Numbered.register_exhausts_iff (hl : l.Numbered m n k) (hvalid : rule.validate = .ok ()) :
    RefusedWith .idSpaceExhausted env l (.registerThreshold e rule) ↔ k = m := by
  apply exhausts_iff (registerThreshold_failsOnly_of_valid hvalid) _ hl.thresholds_le
  constructor
  · rintro ⟨a, l', hp⟩
    obtain ⟨entry, hentry, -⟩ := Step.map_eq_ok.mp hp
    obtain ⟨register, hregister, rfl⟩ := registerThreshold_eq_ok.mp hentry
    exact (hl.registered hregister).2.2.2.2.thresholds_le
  · intro hlt
    obtain ⟨entry, l', hp, -⟩ := hl.register hvalid hlt
    exact ⟨_, l', hp⟩

end Registrations

/-! ## From nothing -/

/-- From an empty ledger, through any calls: the votes that were opened have the identifiers from
one on, in their order, and so do, apart from them, the thresholds that were registered; there are
so many votes as were opened, and the counters say so; never more than the ceiling allows; and a
vote that is ready, or a rule that passes, is refused for want of an identifier exactly when the
ceiling is reached, and otherwise gets the next one. -/
theorem numbered_from_genesis {o : Options} {start : Ledger} (h : Ledger.empty o = .ok start)
    (calls : List Call) :
    ∃ m n k : Nat, o.settings.map (·.ceiling) = .ok (.ofInt m) ∧ n ≤ m ∧ k ≤ m ∧
      (start.answers calls).filterMap Answer.opened? = upTo n ∧
      (start.answers calls).filterMap Answer.registered? = (upTo k).map Value.number ∧
      (start.serve calls).votes.length = n ∧
      (start.serve calls).openVotes = some (.ofInt n) ∧
      (start.serve calls).lastVote = some (.ofInt n) ∧
      (start.serve calls).register.count = k ∧
      (start.serve calls).register.counter = .number (.ofInt k) ∧
      (∀ env c opening, Ready env (start.serve calls) c opening →
        (RefusedWith .idSpaceExhausted env (start.serve calls) c ↔ n = m) ∧
        (n < m → ∃ l', perform env c (start.serve calls) =
          .ok (.opened (.ofInt (n + 1 : Nat))) l')) ∧
      ∀ env e rule, rule.validate = .ok () →
        (RefusedWith .idSpaceExhausted env (start.serve calls) (.registerThreshold e rule) ↔
          k = m) ∧
        (k < m → ∃ entry l', perform env (.registerThreshold e rule) (start.serve calls) =
          .ok (.registered entry) l' ∧ entry.id = .number (.ofInt (k + 1 : Nat))) := by
  obtain ⟨m, hstart⟩ := Numbered.of_empty h
  have hceiling : o.settings.map (·.ceiling) = .ok (.ofInt m) := by
    obtain ⟨settings, hsettings, rfl⟩ := Checks.exceptMap_eq_ok.mp h
    rw [hsettings, ← hstart.ceiling]
    rfl
  obtain ⟨n, k, hl, hopened, hregistered⟩ := hstart.serve calls
  have hvotes : (start.serve calls).votes.length = n := by
    have hlength := congrArg List.length hl.ids
    simpa [upTo] using hlength
  have hcount : (start.serve calls).register.count = k := by
    have hlength := congrArg List.length hl.entries
    simpa [upTo, Register.count] using hlength
  exact ⟨m, n, k, hceiling, hl.votes_le, hl.thresholds_le, hopened.symm, hregistered.symm, hvotes,
    hl.openVotes, hl.lastVote, hcount, hl.counter,
    fun env c opening hready => ⟨hready.exhausts_iff hl, hready.opened hl⟩,
    fun env e rule hvalid => ⟨hl.register_exhausts_iff hvalid, hl.register hvalid⟩⟩

namespace Sample

/-- A ledger with a single identifier. -/
def single : Options :=
  ⟨.number 1, .absent⟩

/-- That ledger before anything happens. -/
def bounded : Ledger :=
  blank ⟨1, .resetBallots⟩

/-- An end that is moved too early, and the vote of the two. -/
def hasty : List Call :=
  [⟨host, .extendVote (.number 1) (.number 3)⟩, opening]

theorem serve_hasty : bounded.serve hasty = bounded.addVote vote := by
  have hrefused : bounded.after host (.extendVote (.number 1) (.number 3)) = bounded := by
    rfl
  have hopened := @perform_request_of_next bounded 1 (by decide +kernel)
  rw [hasty, serve_cons, hrefused, serve_cons, serve_nil]
  exact after_of_ok hopened

/-- What the vote is opened with would open another one, too. -/
theorem ready (l : Ledger) : Ready host l (.openPercentVote request)
    ⟨.text "topic", .of .equal "org", .percent threshold, .absent⟩ where
  opening := rfl
  valid := opens.valid
  ends := ⟨_, _, opens.initialized, opens.ends⟩
  within := ⟨_, make_plan, opens.within⟩

end Sample

/-- The one vote has the first identifier, and the next one is refused. -/
theorem numbered_from_genesis_single :
    Ledger.empty Sample.single = .ok Sample.bounded ∧
    (Sample.bounded.answers Sample.hasty).filterMap Answer.opened? = [1] ∧
    RefusedWith .idSpaceExhausted Sample.host (Sample.bounded.serve Sample.hasty)
      (.openPercentVote Sample.request) := by
  have hempty : Ledger.empty Sample.single = .ok Sample.bounded := by
    rfl
  obtain ⟨m, n, k, hceiling, -, -, hopened, -, hvotes, -, -, -, -, hready, -⟩ :=
    numbered_from_genesis hempty Sample.hasty
  have hone : Sample.single.settings.map (·.ceiling) = .ok (.ofInt (1 : Nat)) := by
    rfl
  obtain rfl : m = 1 := by
    have hm := Number.ofInt_inj.mp (Except.ok.inj (hceiling.symm.trans hone))
    omega
  obtain rfl : n = 1 := by
    rw [← hvotes, Sample.serve_hasty]
    rfl
  exact ⟨hempty, hopened, (hready _ _ _ (Sample.ready _)).1.mpr rfl⟩

end Plebiscite.Ledger
