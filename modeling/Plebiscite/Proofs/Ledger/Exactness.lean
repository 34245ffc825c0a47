import Plebiscite.Proofs.Ledger.Conservation

/-!
# Exact shares

A vote with bounds in parts per million rounds them up once, when it is opened, and decides from
its tallies alone ever after.  The outcome is always the one that comes out if the signal of the
ballots is compared with the exact shares of the turnout.

## Main definitions

- `Vote.exactOutcome`: the outcome by exact shares, from the ballots
- `Vote.SameTerms`: a vote as it was opened, whatever happened to it since

## Main results

- `Ledger.exists_sameTerms_of_run`: turnout and bounds stay as they were opened with
- `Ledger.outcome_eq_exactOutcome`: rounding never changes an outcome
-/

namespace Plebiscite

namespace Vote

/-- What the ballots amount to, with bounds in parts per million of the turnout. -/
def exactOutcome (inFavor : Int) (against : Option Int) (v : Vote) : Outcome :=
  if against.any fun share => share * v.poll.turnout ≤ 1000000 * v.tally .against then .rejected
  else if inFavor * v.poll.turnout ≤ 1000000 * v.tally .inFavor then .approved
  else .pending

/-- The same vote with the same turnout and the same bounds. -/
structure SameTerms (v w : Vote) : Prop where
  id : w.id = v.id
  turnout : w.poll.turnout = v.poll.turnout
  threshold : w.poll.threshold.bare = v.poll.threshold.bare

variable {u v w : Vote}

theorem SameTerms.refl (v : Vote) : v.SameTerms v :=
  ⟨rfl, rfl, rfl⟩

theorem SameTerms.trans (huv : u.SameTerms v) (hvw : v.SameTerms w) : u.SameTerms w :=
  ⟨hvw.id.trans huv.id, hvw.turnout.trans huv.turnout, hvw.threshold.trans huv.threshold⟩

end Vote

namespace Ledger

variable {l l' l₁ : Ledger} {v w : Vote} {env : Environment} {c : Command}

/-! ## Terms stay -/

theorem Revises.sameTerms {a : Answer} (h : Revises env l c v w a) : v.SameTerms w := by
  cases h with
  | cast _ _ _ _ _ htransfer =>
    obtain ⟨rfl, -⟩ := Poll.eq_of_transfer htransfer
    exact ⟨rfl, rfl, rfl⟩
  | extended =>
    rw [Poll.extend_eq]
    exact ⟨rfl, rfl, rfl⟩
  | retitled | cleared => exact ⟨rfl, rfl, rfl⟩

theorem exists_sameTerms_of_accepts {a : Answer} (hl : l.Indexed) (h : Accepts env l c a l')
    (hv : v ∈ l.votes) : ∃ w ∈ l'.votes, v.SameTerms w := by
  cases h with
  | registered => exact ⟨v, hv, .refl v⟩
  | opened => exact ⟨v, mem_addVote.mpr (.inr hv), .refl v⟩
  | @revised _ u u' _ h =>
    by_cases hid : v.id = u'.id
    · obtain rfl := eq_of_id hl hv h.mem (hid.trans h.id_eq)
      exact ⟨u', (mem_replaceVote h.mem h.id_eq).mpr (.inl rfl), h.sameTerms⟩
    · exact ⟨v, (mem_replaceVote h.mem h.id_eq).mpr (.inr ⟨hv, hid⟩), .refl v⟩

/-- A vote is stored with its turnout and its bounds. -/
theorem exists_sameTerms_of_reopen {o : Options} (hl : l.Sound)
    (h : restore o l.snapshot = .ok l') (hv : v ∈ l.votes) : ∃ w ∈ l'.votes, v.SameTerms w := by
  obtain ⟨r, hr, rfl⟩ := restore_eq_ok.mp h
  -- The vote has an entry, the entry is read as a poll, and the poll makes a vote.
  have hentry : Snapshot.ofPoll v.id v.poll ∈ l.snapshot.votes := List.mem_map_of_mem hv
  obtain ⟨p, hp, hread, -⟩ := Checks.exists_of_mem_left hr.polls hentry
  obtain ⟨w, hw, hassemble⟩ := Checks.exists_of_mem_left hr.votes hp
  obtain ⟨hid, hspells⟩ := Snapshot.readPoll_eq_ok hread
  have hrange := (hl.votes v hv).inRange
  obtain rfl := (assemble_eq_ok.mp hassemble).1
  refine ⟨_, (r.votes_perm _).mem_iff.mpr hw, ?_, ?_, ?_⟩
  · exact (Value.number.inj hid).symm
  · exact Except.ok.inj (hspells.turnout.symm.trans (Signal.parse_format hrange.turnout))
  · obtain ⟨field, hthreshold⟩ := hspells.threshold
    have hbare : p.2.threshold = v.poll.threshold.bare :=
      Except.ok.inj (hthreshold.symm.trans (Snapshot.readThreshold_ofThreshold hrange.bounds))
    show p.2.threshold.bare = v.poll.threshold.bare
    rw [hbare]
    rfl

theorem exists_sameTerms_of_move {m : Move} (hl : l.Sound) (hv : v ∈ l.votes) :
    ∃ w ∈ (l.move m).votes, v.SameTerms w := by
  rcases move_cases hl.indexed m with h | ⟨env, c, a, rfl, h⟩ | ⟨o, rfl, h⟩
  · rw [h]
    exact ⟨v, hv, .refl v⟩
  · exact exists_sameTerms_of_accepts hl.indexed h hv
  · exact exists_sameTerms_of_reopen hl h hv

/-- Turnout and bounds of a vote never change. -/
theorem exists_sameTerms_of_run {moves : List Move} (hl : l.Sound)
    (hmoves : ∀ m ∈ moves, m.WellTyped) (hv : v ∈ l.votes) :
    ∃ w ∈ (l.run moves).votes, v.SameTerms w := by
  induction moves generalizing l v with
  | nil => exact ⟨v, hv, .refl v⟩
  | cons m moves ih =>
    obtain ⟨u, hu, hvu⟩ := exists_sameTerms_of_move hl hv (m := m)
    obtain ⟨w, hw, huw⟩ := ih (hl.move (hmoves m (by simp)))
      (fun m hm => hmoves m (List.mem_cons_of_mem _ hm)) hu
    exact ⟨w, hw, hvu.trans huw⟩

/-! ## Outcomes -/

/-- Deciding from the tallies and the rounded bounds is deciding from the ballots and the shares. -/
theorem outcome_eq_of_conserves {inFavor : Int} {against : Option Int} (hw : w.Conserves)
    (hturnout : 0 ≤ w.poll.turnout) (hinFavor : 0 ≤ inFavor) (hagainst : ∀ a ∈ against, 0 ≤ a)
    (hbound : w.poll.threshold.inFavor = permillOfCeil inFavor w.poll.turnout)
    (hrejecting : w.poll.threshold.against =
      against.map fun a => permillOfCeil a w.poll.turnout) :
    w.poll.outcome = w.exactOutcome inFavor against := by
  have happroved : w.poll.threshold.inFavor ≤ w.poll.inFavor ↔
      inFavor * w.poll.turnout ≤ 1000000 * w.tally .inFavor := by
    rw [hbound, hw.inFavor, permillOfCeil_le_iff hinFavor hturnout]
  have hrejected : w.poll.threshold.against.any (· ≤ w.poll.against) =
      against.any fun share => share * w.poll.turnout ≤ 1000000 * w.tally .against := by
    rw [hrejecting, hw.against]
    cases against with
    | none => rfl
    | some a => simp [permillOfCeil_le_iff (hagainst a rfl) hturnout]
  unfold Poll.outcome Vote.exactOutcome
  simp only [hrejected, happroved]

/-- A vote that was opened with shares of the turnout always has the outcome that the exact shares
and the ballots make. -/
theorem outcome_eq_exactOutcome {o : Opening} {t : Threshold Number} {id : Number}
    {moves : List Move} (hl : l.Reachable) (henv : env.stakes.WellTyped)
    (ho : l.opening? c = some o) (hrule : o.rule = .percent t)
    (hopen : perform env c l = .ok (.opened id) l₁) (hmoves : ∀ m ∈ moves, m.WellTyped) :
    ∃ (inFavor : Int) (against : Option Int) (v w : Vote),
      t.inFavor = .ofInt inFavor ∧ t.against = against.map .ofInt ∧
      l₁.vote? id = some v ∧ (l₁.run moves).vote? id = some w ∧
      w.poll.turnout = v.poll.turnout ∧
      (l₁.run moves).outcome (.number id) = .ok (w.exactOutcome inFavor against) := by
  obtain ⟨v, hopens, hid, rfl⟩ := (perform_eq_ok_of_opening ho).mp hopen
  obtain rfl : id = v.id := Answer.opened.inj hid
  -- The shares are whole numbers.
  have hvalid := hopens.valid
  rw [hrule] at hvalid
  obtain ⟨inFavor, against, hinFavor, hagainst, hnonneg, hrejecting⟩ :=
    Rule.exists_of_validate_percent hvalid
  -- The vote is still there, with the terms that it was opened with.
  have hadded : (l.addVote v).Sound := hl.sound.accepts henv (.opened ho hopens)
  have hmem : v ∈ (l.addVote v).votes := mem_addVote.mpr (.inl rfl)
  have hlater : ((l.addVote v).run moves).Sound :=
    run_induction hadded fun _ m hm h => h.move (hmoves m hm)
  obtain ⟨w, hw, hterms⟩ := exists_sameTerms_of_run hadded hmoves hmem
  have hbare : w.poll.threshold.bare = (t.resolve w.poll.turnout).bare := by
    rw [hterms.threshold, hterms.turnout, hopens.threshold, hrule]
    rfl
  have hturnout : 0 ≤ w.poll.turnout :=
    (Signal.inRange_iff.mp (hlater.votes w hw).inRange.turnout).1
  have hvote : ((l.addVote v).run moves).vote? v.id = some w :=
    (vote?_iff hlater.indexed).mpr ⟨hw, hterms.id⟩
  refine ⟨inFavor, against, v, w, hinFavor, hagainst,
    (vote?_iff hadded.indexed).mpr ⟨hmem, rfl⟩, hvote, hterms.turnout, ?_⟩
  rw [outcome, require_number.mpr hvote]
  refine congrArg Except.ok (outcome_eq_of_conserves (hlater.votes w hw).conserves hturnout hnonneg
    hrejecting ?_ ?_)
  · have hbound := congrArg Threshold.inFavor hbare
    simpa [Threshold.bare, Threshold.resolve, Threshold.map, hinFavor] using hbound
  · have hbound := congrArg Threshold.against hbare
    simpa [Threshold.bare, Threshold.resolve, Threshold.map, hagainst, Function.comp_def] using
      hbound

/-- One ballot of two reaches one half against, whatever else was cast. -/
theorem outcome_eq_exactOutcome_later :
    ∃ (inFavor : Int) (against : Option Int) (v w : Vote),
      Sample.threshold.inFavor = .ofInt inFavor ∧ Sample.threshold.against = against.map .ofInt ∧
      Sample.opened.vote? 1 = some v ∧ (Sample.opened.run Sample.later).vote? 1 = some w ∧
      w.poll.turnout = v.poll.turnout ∧
      (Sample.opened.run Sample.later).outcome (.number 1) =
        .ok (w.exactOutcome inFavor against) :=
  outcome_eq_exactOutcome Sample.reachable_start Sample.source_wellTyped rfl rfl
    Sample.perform_request Sample.later_wellTyped

end Ledger

end Plebiscite
