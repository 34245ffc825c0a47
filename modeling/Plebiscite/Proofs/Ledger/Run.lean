import Plebiscite.Proofs.Ledger.Effect
import Plebiscite.Proofs.Ledger.Restore
import Plebiscite.Proofs.Plan

/-!
# Runs of a ledger

A ledger is called again and again, by anyone, with any clock and any stakes, and from time to time
it is stored and opened again under other options.  Calls that are refused count as well.

## Main definitions

- `Ledger.after`: the ledger after a call
- `Ledger.Move`, `Ledger.move`, `Ledger.run`: calls and reopenings, one after the other
- `Ledger.Reachable`: the ledgers that come about

## Main results

- `Ledger.move_outcomes`, `Ledger.move_cases`: what one move does
- `Ledger.Reachable.run`: a run goes from reachable ledgers to reachable ones
-/

namespace Plebiscite.Ledger

/-! ## Moves -/

/-- The ledger after a call, whether that was accepted or not. -/
def after (l : Ledger) (env : Environment) (c : Command) : Ledger :=
  match perform env c l with
  | .ok _ l' => l'
  | .error _ l' => l'

/-- What may happen to a ledger. -/
inductive Move where
  | call (env : Environment) (c : Command)
  | reopen (o : Options)

/-- The ledger after a move.  A ledger that cannot be reopened stays as it is. -/
def move (l : Ledger) : Move → Ledger
  | .call env c => l.after env c
  | .reopen o =>
    match restore o l.snapshot with
    | .ok l' => l'
    | .error _ => l

/-- The ledger after several moves. -/
def run (l : Ledger) (moves : List Move) : Ledger :=
  moves.foldl move l

/-- Whatever source of stakes is asked lists texts. -/
def Move.WellTyped : Move → Prop
  | .call env _ => env.stakes.WellTyped
  | .reopen _ => True

/-- The ledgers that come about, from nothing or from any snapshot that is accepted. -/
inductive Reachable : Ledger → Prop
  | empty {o : Options} {l : Ledger} (h : Ledger.empty o = .ok l) : Reachable l
  | restored {o : Options} {s : Snapshot} {l : Ledger} (h : restore o s = .ok l) : Reachable l
  | moved {l : Ledger} {m : Move} (hl : Reachable l) (hm : m.WellTyped) : Reachable (l.move m)

variable {l l' : Ledger} {env : Environment}

@[simp]
theorem run_nil : l.run [] = l :=
  rfl

@[simp]
theorem run_cons (m : Move) (moves : List Move) : l.run (m :: moves) = (l.move m).run moves :=
  rfl

/-- A property that every move preserves holds after every run. -/
theorem run_induction {P : Ledger → Prop} {moves : List Move} (hl : P l)
    (hmove : ∀ l, ∀ m ∈ moves, P l → P (l.move m)) : P (l.run moves) := by
  induction moves generalizing l with
  | nil => exact hl
  | cons m moves ih =>
    exact ih (hmove l m (by simp) hl) fun l m hm => hmove l m (List.mem_cons_of_mem _ hm)

theorem Reachable.run {moves : List Move} (hl : l.Reachable) (hmoves : ∀ m ∈ moves, m.WellTyped) :
    (l.run moves).Reachable :=
  run_induction hl fun _ m hm h => h.moved (hmoves m hm)

/-! ## What a move does -/

theorem after_of_ok {c : Command} {a : Answer} (h : perform env c l = .ok a l') :
    l.after env c = l' := by
  rw [after, h]

/-- A call does what accepted commands do, or nothing. -/
theorem after_cases (hl : l.Indexed) (env : Environment) (c : Command) :
    l.after env c = l ∨ ∃ a, Accepts env l c a (l.after env c) := by
  unfold after
  cases h : perform env c l with
  | ok a l' => exact .inr ⟨a, (perform_eq_ok hl).mp h⟩
  | error f l' => exact .inl ((perform_allOrNothing c).eq_of_error h)

/-- A move is a call that is accepted, a reopening that is, or nothing. -/
theorem move_outcomes (l : Ledger) (m : Move) :
    l.move m = l ∨ (∃ env c a, m = .call env c ∧ perform env c l = .ok a (l.move m)) ∨
      ∃ o, m = .reopen o ∧ restore o l.snapshot = .ok (l.move m) := by
  cases m with
  | call env c =>
    simp only [move, after]
    cases h : perform env c l with
    | ok a l' => exact .inr (.inl ⟨env, c, a, rfl, h⟩)
    | error f l' => exact .inl ((perform_allOrNothing c).eq_of_error h)
  | reopen o =>
    simp only [move]
    cases h : restore o l.snapshot with
    | ok l' => exact .inr (.inr ⟨o, rfl, h⟩)
    | error f => exact .inl rfl

/-- A move does what accepted commands do, is a reopening, or nothing. -/
theorem move_cases (hl : l.Indexed) (m : Move) :
    l.move m = l ∨ (∃ env c a, m = .call env c ∧ Accepts env l c a (l.move m)) ∨
      ∃ o, m = .reopen o ∧ restore o l.snapshot = .ok (l.move m) := by
  rcases l.move_outcomes m with h | ⟨env, c, a, hm, h⟩ | h
  · exact .inl h
  · exact .inr (.inl ⟨env, c, a, hm, (perform_eq_ok hl).mp h⟩)
  · exact .inr (.inr h)

/-! ## Votes after a step -/

section Places

variable {v w : Vote}

theorem addVote_perm (l : Ledger) (v : Vote) : (l.addVote v).votes.Perm (v :: l.votes) :=
  Keyed.insertBefore_perm _ v l.votes

theorem mem_addVote : w ∈ (l.addVote v).votes ↔ w = v ∨ w ∈ l.votes := by
  rw [(addVote_perm l v).mem_iff, List.mem_cons]

/-- No other vote has the identifier of a vote that is opened. -/
theorem Opens.fresh {o : Opening} (h : Opens env l o v) : v.id ∉ l.votes.map (·.id) := by
  have hfree := hasVote_eq_false.mp (Identifier.not_taken_of_next h.free)
  exact Keyed.find?_key_eq_none.mp hfree

theorem Opens.nodup {o : Opening} (h : Opens env l o v) (hids : (l.votes.map (·.id)).Nodup) :
    ((l.addVote v).votes.map (·.id)).Nodup := by
  rw [((addVote_perm l v).map _).nodup_iff, List.map_cons, List.nodup_cons]
  exact ⟨h.fresh, hids⟩

/-- The votes that are not revised stay, and the revised one takes the place of the other. -/
theorem mem_replaceVote (hv : v ∈ l.votes) (hid : w.id = v.id) {u : Vote} :
    u ∈ (l.replaceVote w).votes ↔ u = w ∨ u ∈ l.votes ∧ u.id ≠ w.id := by
  simp only [replaceVote, updateVote, List.mem_map]
  constructor
  · rintro ⟨x, hx, rfl⟩
    split
    · exact .inl rfl
    · rename_i hne
      exact .inr ⟨hx, hne⟩
  · rintro (rfl | ⟨hu, hne⟩)
    · exact ⟨v, hv, if_pos hid.symm⟩
    · exact ⟨u, hu, if_neg hne⟩

@[simp]
theorem replaceVote_ids (l : Ledger) (w : Vote) :
    (l.replaceVote w).votes.map (·.id) = l.votes.map (·.id) := by
  refine Keyed.map_key_eq fun u _ => ?_
  dsimp only
  split
  · rename_i h
    exact h.symm
  · rfl

theorem Revises.mem {c : Command} {a : Answer} (h : Revises env l c v w a) : v ∈ l.votes := by
  cases h <;> exact (mem_of_require ‹_›).1

theorem Revises.id_eq {c : Command} {a : Answer} (h : Revises env l c v w a) : w.id = v.id := by
  cases h <;> rfl

variable {c : Command} {a : Answer}

/-- Votes that have identifiers of their own keep to them. -/
theorem Accepts.nodup_ids (h : Accepts env l c a l') (hids : (l.votes.map (·.id)).Nodup) :
    (l'.votes.map (·.id)).Nodup := by
  cases h with
  | registered => exact hids
  | opened _ hopens => exact hopens.nodup hids
  | revised =>
    rw [replaceVote_ids]
    exact hids

/-- What is true of every vote that is opened, and stays true when a vote is revised, stays true of
all votes. -/
theorem Accepts.forall_votes {P : Vote → Prop} (h : Accepts env l c a l')
    (hl : ∀ v ∈ l.votes, P v) (hopens : ∀ o v, l.opening? c = some o → Opens env l o v → P v)
    (hrevises : ∀ v w, Revises env l c v w a → P v → P w) : ∀ v ∈ l'.votes, P v := by
  intro u hu
  cases h with
  | registered => exact hl u hu
  | opened ho h =>
    rcases mem_addVote.mp hu with rfl | hu
    · exact hopens _ u ho h
    · exact hl u hu
  | revised h =>
    rcases (mem_replaceVote h.mem h.id_eq).mp hu with rfl | ⟨hu, -⟩
    · exact hrevises _ u h (hl _ h.mem)
    · exact hl u hu

/-- Every vote stays as it is, or is the one that is revised. -/
theorem exists_of_accepts (hl : l.Indexed) (h : Accepts env l c a l') (hv : v ∈ l.votes) :
    ∃ w ∈ l'.votes, w = v ∨ Revises env l c v w a := by
  cases h with
  | registered => exact ⟨v, hv, .inl rfl⟩
  | opened => exact ⟨v, mem_addVote.mpr (.inr hv), .inl rfl⟩
  | @revised _ u w _ hrevises =>
    have hmem := fun x => mem_replaceVote hrevises.mem hrevises.id_eq (u := x)
    by_cases hid : v.id = w.id
    · obtain rfl := eq_of_id hl hv hrevises.mem (hid.trans hrevises.id_eq)
      exact ⟨w, (hmem w).mpr (.inl rfl), .inr hrevises⟩
    · exact ⟨v, (hmem v).mpr (.inr ⟨hv, hid⟩), .inl rfl⟩

end Places

/-! ## Thresholds after a step -/

/-- A registration adds an entry under an identifier that was free. -/
theorem eq_of_register {r register : Register} {ceiling : Value} {e : Electorate} {rule : Rule}
    {entry : Registration} (h : r.register ceiling e rule = .ok (entry, register)) :
    rule.validate = .ok () ∧ entry.electorate = e.copy ∧ entry.rule = rule ∧
      register.entries = r.entries ++ [entry] := by
  simp only [Register.register, Checks.bind_eq_ok, Checks.pure_eq_ok, Prod.mk.injEq] at h
  obtain ⟨_, hvalid, id, -, rfl, rfl⟩ := h
  exact ⟨hvalid, rfl, rfl, rfl⟩

/-- What is true of every threshold that is registered stays true of all thresholds. -/
theorem Accepts.forall_entries {P : Registration → Prop} {c : Command} {a : Answer}
    (h : Accepts env l c a l') (hl : ∀ r ∈ l.register.entries, P r)
    (hregister : ∀ e rule entry register, c = .registerThreshold e rule →
      l.register.register (.number l.settings.ceiling) e rule = .ok (entry, register) →
        P entry) :
    ∀ r ∈ l'.register.entries, P r := by
  intro s hs
  cases h with
  | @registered e rule entry register h =>
    have hs : s ∈ register.entries := hs
    rw [(eq_of_register h).2.2.2, List.mem_append, List.mem_singleton] at hs
    rcases hs with hs | rfl
    · exact hl s hs
    · exact hregister e rule s register rfl h
  | opened | revised => exact hl s hs

theorem insertVote_append_perm (start : List Vote) (v : Vote) (votes : List Vote) :
    (insertVote start v ++ votes).Perm (start ++ v :: votes) :=
  ((Keyed.insertBefore_perm _ v start).append_right votes).trans List.perm_middle.symm

/-- Votes that are put in their places one after the other are all there, and nothing else is. -/
theorem foldl_insertVote_perm (votes start : List Vote) :
    (votes.foldl insertVote start).Perm (start ++ votes) := by
  induction votes generalizing start with
  | nil => simp
  | cons v votes ih => exact (ih _).trans (insertVote_append_perm start v votes)

/-- The votes of a snapshot in the order of their identifiers are the votes as they are stored. -/
theorem Restoration.votes_perm (r : Restoration) (s : Snapshot) :
    (r.ledger s).votes.Perm r.votes :=
  foldl_insertVote_perm r.votes []

/-! ## A small ledger -/

namespace Sample

/-- An organization of two. -/
def source : StakeSource where
  group? _ := some [.text "alice", .text "bob"]
  stakes? _ := none

theorem source_wellTyped : source.WellTyped where
  group_named h := by
    cases h
    decide
  group_small h := by
    cases h
    decide
  stakes_named h := by cases h

/-- The organization at some height. -/
def host : Environment :=
  ⟨.number 5, source⟩

/-- A ledger with few identifiers that keeps ballots. -/
def options : Options :=
  ⟨.number 10, .text "keep_ballots"⟩

/-- The ledger before anything happens. -/
def start : Ledger :=
  blank ⟨10, .keepBallots⟩

theorem empty_options : Ledger.empty options = .ok start := by
  rfl

/-- Three quarters in favor approve, one half against rejects. -/
def threshold : Threshold Number :=
  ⟨750000, some 500000, []⟩

/-- What the vote of the two is opened with. -/
def request : Request Number :=
  ⟨.text "topic", .of .equal "org", threshold, .absent⟩

/-- The vote of the two. -/
def vote : Vote where
  id := 1
  poll := .create (.text "topic") 2 ⟨2, some 1, []⟩ 5 none
  issued := 2
  seats := [⟨.text "alice", .mint 1⟩, ⟨.text "bob", .mint 1⟩]

theorem make_plan : Plan.make source (.of .equal "org") =
    .ok ⟨.of .equal "org", 2, [⟨.text "alice", 1⟩, ⟨.text "bob", 1⟩]⟩ := by
  have hmembers : ([.text "alice", .text "bob"] : List Value).eraseDupsBy Value.same =
      [.text "alice", .text "bob"] := by
    decide +kernel
  have hordered : Plan.ordered [.text "alice", .text "bob"] = [.text "alice", .text "bob"] := by
    rw [Plan.ordered_eq (by decide), Arrangement.arrange_of_pairwise (by decide) (by decide)]
  have hmode : (Electorate.of .equal "org").mode? = some .equal := by
    decide
  simp [Plan.make, Plan.make?, hmode, Plan.makeEqual, source, hmembers, hordered]

theorem opens : Opens host start ⟨.text "topic", .of .equal "org", .percent threshold, .absent⟩
    vote where
  valid := by decide +kernel
  initialized := by rfl
  ends := by rfl
  minted := ⟨_, make_plan, rfl, rfl, by decide +kernel⟩
  topic := rfl
  threshold := by decide +kernel
  within := by decide +kernel
  uncounted := by decide
  free := by decide +kernel

/-- Nothing but the search for an identifier depends on the ledger. -/
theorem perform_request_of_next {l : Ledger} {id : Number}
    (h : Identifier.next l.lastVote l.settings.ceiling l.hasVote = .ok id) :
    perform host (.openPercentVote request) l = .ok (.opened id) (l.addVote { vote with id }) := by
  have hopens : Opens host l ⟨.text "topic", .of .equal "org", .percent threshold, .absent⟩
      { vote with id } :=
    ⟨opens.valid, opens.initialized, opens.ends, opens.minted, opens.topic, opens.threshold,
      opens.within, opens.uncounted, h⟩
  exact (perform_eq_ok_of_opening rfl).mpr ⟨_, hopens, rfl, rfl⟩

/-- The ledger once the vote is open. -/
def opened : Ledger :=
  start.addVote vote

theorem perform_request :
    perform host (.openPercentVote request) start = .ok (.opened 1) opened :=
  (perform_eq_ok_of_opening rfl).mpr ⟨vote, opens, rfl, rfl⟩

theorem reachable_start : start.Reachable :=
  .empty empty_options

theorem reachable_opened : opened.Reachable := by
  have hmove : start.move (.call host (.openPercentVote request)) = opened := by
    rw [move, after, perform_request]
  have hreachable := reachable_start.moved (m := .call host (.openPercentVote request))
    source_wellTyped
  exact hmove ▸ hreachable

/-- A ballot that turns stale with a new topic, and a ballot after that. -/
def later : List Move :=
  [.call host (.applyVote (.number 1) (.text "bob") .inFavor .absent),
   .call host (.updateTopic (.number 1) (.text "other") true),
   .call host (.applyVote (.number 1) (.text "alice") .against .absent)]

theorem later_wellTyped : ∀ m ∈ later, m.WellTyped := by
  simpa [later, Move.WellTyped] using show host.stakes.WellTyped from source_wellTyped

/-- The vote after these. -/
def laterVote : Vote where
  id := 1
  poll := ⟨.text "other", 2, ⟨2, some 1, []⟩, 0, 1, 5, none⟩
  issued := 2
  seats := [⟨.text "alice", ⟨1, .against, .absent, false⟩⟩,
    ⟨.text "bob", ⟨1, .inFavor, .absent, true⟩⟩]

theorem run_later : (opened.run later).votes = [laterVote] := by
  decide +kernel

end Sample

end Plebiscite.Ledger
