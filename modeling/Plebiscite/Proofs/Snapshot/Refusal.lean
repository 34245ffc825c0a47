import Plebiscite.Ledger.Storage
import Plebiscite.Proofs.Snapshot.Validity

/-!
# Why snapshots are refused

Whatever is wrong with a snapshot, it is refused with the one code for that.  The rules that are
stored with it are checked a second time when they are kept, by a check that has another code; but
that check has nothing left to find.

## Main results

- `Ledger.restore_blames`: under options that pass, only the snapshot can be at fault
-/

namespace Plebiscite

open Checks

variable {α : Type}

/-- Only the snapshot is at fault. -/
abbrev Blames (x : Except Fault α) : Prop :=
  FailsOnly (fun f : Fault => f.code = .invalidSnapshot) x

/-! ## Entries -/

namespace Snapshot

theorem refuse_blames (cause : SnapshotFault) : Blames (refuse cause : Except Fault α) :=
  FailsOnly.error rfl

/-- Refusing under a condition, and going on otherwise. -/
theorem guard_blames {p : Prop} [Decidable p] {β : Type} {cause : SnapshotFault}
    {f : β → Except Fault α} {x : Except Fault α} (hx : Blames x) :
    Blames (if p then (refuse cause : Except Fault β) >>= f else x) := by
  apply FailsOnly.ite _ hx
  apply FailsOnly.bind (refuse_blames cause)
  intro b hb
  cases hb

theorem readId_blames (subject : String) (v : Value) : Blames (readId subject v) := by
  cases v with
  | number n => exact FailsOnly.ite (FailsOnly.ok n) (refuse_blames _)
  | _ => exact refuse_blames _

theorem readAmount_blames (field : String) (v : Value) : Blames (readAmount field v) := by
  unfold readAmount
  cases Signal.parse v with
  | ok n => exact FailsOnly.ok n
  | error cause => exact refuse_blames _

theorem readThreshold_blames (field : String) (t : Threshold Value) :
    Blames (readThreshold field t) := by
  apply FailsOnly.bind (readAmount_blames _ _)
  intro inFavor _
  cases t.against with
  | none => exact FailsOnly.ok _
  | some v =>
    apply FailsOnly.bind (readAmount_blames _ v)
    intro against _
    exact FailsOnly.ok _

theorem readRegistration_blames (e : ThresholdEntry) : Blames (readRegistration e) := by
  apply FailsOnly.bind (readId_blames _ _)
  intro id _
  apply guard_blames
  apply FailsOnly.ite
  · apply FailsOnly.bind (readThreshold_blames _ _)
    intro t _
    exact FailsOnly.ok _
  · cases percent? e.threshold with
    | none => exact refuse_blames _
    | some t => exact FailsOnly.ok _

theorem readPoll_blames (e : VoteEntry) : Blames (readPoll e) := by
  apply FailsOnly.bind (readId_blames _ _)
  intro id _
  cases height? e.initialized with
  | none => exact refuse_blames _
  | some initialized =>
    -- The amounts are read after the end, whether there is one or not.
    have hamounts : ∀ ends : Option Number, Blames (do
        let turnout ← readAmount (s!"vote {id.text}" ++ ".totalPossibleTurnout") e.turnout
        let threshold ← readThreshold (s!"vote {id.text}" ++ ".threshold") e.threshold
        let inFavor ← readAmount (s!"vote {id.text}" ++ ".inFavor") e.inFavor
        let against ← readAmount (s!"vote {id.text}" ++ ".against") e.against
        return (id, (⟨e.topic, turnout, threshold, inFavor, against, initialized, ends⟩ : Poll)))
        := by
      intro ends
      apply FailsOnly.bind (readAmount_blames _ _)
      intro turnout _
      apply FailsOnly.bind (readThreshold_blames _ _)
      intro threshold _
      apply FailsOnly.bind (readAmount_blames _ _)
      intro inFavor _
      apply FailsOnly.bind (readAmount_blames _ _)
      intro against _
      exact FailsOnly.ok _
    dsimp only
    cases e.ends with
    | none => exact hamounts none
    | some v =>
      cases hv : height? v with
      | none =>
        simp only [hv]
        apply FailsOnly.bind (refuse_blames _)
        intro ends hends
        cases hends
      | some ends =>
        simp only [hv]
        exact hamounts (some ends)

theorem readBallot_blames (e : RecordEntry) : Blames (readBallot e) := by
  apply FailsOnly.bind (readId_blames _ _)
  intro id _
  cases stance? e.stance with
  | none => exact refuse_blames _
  | some stance =>
    cases flag? e.stale with
    | none => exact refuse_blames _
    | some stale =>
      apply guard_blames
      apply FailsOnly.bind (readAmount_blames _ _)
      intro magnitude _
      exact FailsOnly.ok _

end Snapshot

/-! ## The whole -/

namespace Ledger

open Snapshot

theorem checkVersion_blames (v : Value) : Blames (checkVersion v) := by
  cases v with
  | number n => exact FailsOnly.ite (FailsOnly.ok ()) (refuse_blames _)
  | _ => exact refuse_blames _

theorem checkCounter_blames (counter : String × Value) : Blames (checkCounter counter) := by
  obtain ⟨name, v⟩ := counter
  cases v with
  | number n => exact FailsOnly.ite (FailsOnly.ok ()) (refuse_blames _)
  | _ => exact refuse_blames _

/-- The rule of a threshold that was read passes, so only a repeated identifier is refused. -/
theorem restoreThreshold_blames (r : Register) (e : ThresholdEntry) :
    Blames (restoreThreshold r e) := by
  apply FailsOnly.bind (readRegistration_blames e)
  intro entry hentry
  have hvalid := (readRegistration_eq_ok hentry).2.2
  unfold Register.restore
  apply FailsOnly.ite
  · exact FailsOnly.error rfl
  · refine FailsOnly.bind (FailsOnly.ok entry.rule) fun rule hrule => ?_
    cases hrule
    rw [hvalid]
    exact FailsOnly.ok _

theorem restorePoll_blames (polls : List (Number × Poll)) (e : VoteEntry) :
    Blames (restorePoll polls e) := by
  unfold restorePoll
  cases pollOf polls e.id with
  | some p =>
    apply FailsOnly.bind (refuse_blames _)
    intro _ h
    cases h
  | none =>
    apply FailsOnly.bind (readPoll_blames e)
    rintro ⟨id, poll⟩ _
    apply guard_blames
    apply guard_blames
    exact FailsOnly.ok _

theorem restoreRecord_blames (polls : List (Number × Poll)) (records : List ReadRecord)
    (e : RecordEntry) : Blames (restoreRecord polls records e) := by
  unfold restoreRecord
  cases pollOf polls e.voteId with
  | none => exact refuse_blames _
  | some p =>
    apply guard_blames
    apply FailsOnly.bind (readBallot_blames e)
    intro ballot _
    exact FailsOnly.ok _

theorem assemble_blames (records : List ReadRecord) (id : Number) (poll : Poll) :
    Blames (assemble records id poll) := by
  apply guard_blames
  apply guard_blames
  exact FailsOnly.ok _

/-- If the options pass, a snapshot that is refused is itself at fault. -/
theorem restore_blames {o : Options} {settings : Settings} (ho : o.settings = .ok settings)
    (s : Snapshot) : Blames (restore o s) := by
  apply FailsOnly.bind (checkVersion_blames s.version)
  intro _ _
  rw [ho]
  apply FailsOnly.bind (FailsOnly.forM fun counter _ => checkCounter_blames counter)
  intro _ _
  apply FailsOnly.bind (FailsOnly.foldlM (fun r e _ => restoreThreshold_blames r e) _)
  intro register _
  apply FailsOnly.bind (FailsOnly.foldlM (fun polls e _ => restorePoll_blames polls e) _)
  intro polls _
  apply FailsOnly.bind
    (FailsOnly.foldlM (fun records e _ => restoreRecord_blames polls records e) _)
  intro records _
  apply FailsOnly.bind (FailsOnly.mapM fun p _ => assemble_blames records (Prod.fst p) (Prod.snd p))
  intro votes _
  exact FailsOnly.ok _

end Ledger

end Plebiscite
