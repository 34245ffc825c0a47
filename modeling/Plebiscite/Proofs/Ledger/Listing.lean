import Plebiscite.Proofs.Ledger.Membership
import Plebiscite.Proofs.Plan.Exactness

/-!
# In whatever order members are listed

Hosts that run the same calls must come to the same state, though what reports their members may
list these in an order of its own at every host and at every call.  It makes no difference: a call
is accepted at one host exactly if it is accepted at the other, with the same answer, and what is
stored is the same.  Only which complaint comes first about a membership that is refused depends on
the order.

## Main definitions

- `Ledger.Call.Relists`: the same call, with members listed in another order
- `Ledger.Trace`, `Ledger.trace`: what is seen of several calls

## Main results

- `Ledger.accepts_of_relists`: what is accepted with one listing is accepted with every other one
- `Ledger.trace_eq_of_relists`: the listing cannot be seen from outside
-/

namespace Plebiscite.Ledger

variable {l l' : Ledger} {env env' : Environment} {c : Command} {a : Answer} {v w : Vote}
  {call call' : Call}

/-! ## One call -/

/-- The same call at the same height, with the same members listed in any order. -/
structure Call.Relists (call call' : Call) : Prop where
  command : call'.command = call.command
  now : call'.env.now = call.env.now
  stakes : call.env.stakes.Relists call'.env.stakes

/-- The stakes are read for the plan alone. -/
theorem Opens.relisted {o : Opening} (h : Opens env l o v) (henv : env.stakes.Named)
    (hnow : env'.now = env.now) (hstakes : env.stakes.Relists env'.stakes) :
    Opens env' l o v := by
  have hheight : env'.height = env.height := by rw [Environment.height, hnow, Environment.height]
  obtain ⟨plan, hmake, hminted⟩ := h.minted
  exact ⟨h.valid, hheight ▸ h.initialized, h.ends,
    ⟨plan, Plan.make_of_relists henv hstakes hmake, hminted⟩, h.topic, h.threshold, h.within,
    h.uncounted, h.free⟩

/-- A vote is revised without looking at stakes. -/
theorem Revises.relisted (h : Revises env l c v w a) (hnow : env'.now = env.now) :
    Revises env' l c v w a := by
  have hheight : env'.height = env.height := by rw [Environment.height, hnow, Environment.height]
  cases h with
  | cast hvote hclock hopen hseat hchange htransfer =>
    exact .cast hvote (hheight ▸ hclock) hopen hseat hchange htransfer
  | extended hvote hclock hcandidate => exact .extended hvote (hheight ▸ hclock) hcandidate
  | retitled hvote => exact .retitled hvote
  | cleared hvote => exact .cleared hvote

/-- What is accepted with one listing is accepted with every other one, with the same answer and
with the same ledger after it. -/
theorem accepts_of_relists (h : Accepts env l c a l') (henv : env.stakes.Named)
    (hnow : env'.now = env.now) (hstakes : env.stakes.Relists env'.stakes) :
    Accepts env' l c a l' := by
  cases h with
  | registered h => exact .registered h
  | opened ho h => exact .opened ho (h.relisted henv hnow hstakes)
  | revised h => exact .revised (h.relisted hnow)

theorem perform_iff_of_relists (hl : l.Indexed) (h : call.Relists call')
    (hnamed : call.env.stakes.Named) :
    perform call'.env call'.command l = .ok a l' ↔ perform call.env call.command l = .ok a l' := by
  rw [perform_eq_ok hl, perform_eq_ok hl, h.command]
  constructor
  · intro haccepts
    exact accepts_of_relists haccepts (h.stakes.named hnamed) h.now.symm h.stakes.symm
  · intro haccepts
    exact accepts_of_relists haccepts hnamed h.now h.stakes

/-! ## Several calls -/

/-- What is seen of a call: the answer, if it was accepted, and what is stored after it. -/
structure Trace where
  answer : Option Answer
  snapshot : Snapshot
  hash : String

/-- The answer to a call, if it is accepted. -/
def answer? (l : Ledger) (call : Call) : Option Answer :=
  match perform call.env call.command l with
  | .ok a _ => some a
  | .error _ _ => none

/-- What is seen of several calls, one after the other. -/
def trace (l : Ledger) : List Call → List Trace
  | [] => []
  | call :: calls =>
    let next := l.after call.env call.command
    ⟨l.answer? call, next.snapshot, next.stateHash⟩ :: next.trace calls

/-- A call comes to the same with every listing. -/
theorem answer?_eq_of_relists (hl : l.Indexed) (h : call.Relists call')
    (hnamed : call.env.stakes.Named) :
    l.answer? call' = l.answer? call ∧
      l.after call'.env call'.command = l.after call.env call.command := by
  unfold answer? after
  cases hcall : perform call.env call.command l with
  | ok a l' =>
    rw [(perform_iff_of_relists hl h hnamed).mpr hcall]
    exact ⟨rfl, rfl⟩
  | error f l₁ =>
    cases hother : perform call'.env call'.command l with
    | ok a l' =>
      rw [(perform_iff_of_relists hl h hnamed).mp hother] at hcall
      cases hcall
    | error g l₂ =>
      -- The complaints may differ, but neither of them leaves anything behind.
      have hfirst := (perform_allOrNothing call.command).eq_of_error hcall
      have hsecond := (perform_allOrNothing call'.command).eq_of_error hother
      exact ⟨rfl, hsecond.trans hfirst.symm⟩

theorem Indexed.after (hl : l.Indexed) (hnamed : env.stakes.Named) (c : Command) :
    (l.after env c).Indexed := by
  rcases after_cases hl env c with h | ⟨a, h⟩
  · rw [h]
    exact hl
  · exact hl.accepts hnamed h

/-- One call after the other, the two ledgers stay the same one. -/
theorem trace_eq_of_indexed (hl : l.Indexed) {calls calls' : List Call}
    (h : List.Forall₂ Call.Relists calls calls')
    (hnamed : ∀ call ∈ calls, call.env.stakes.Named) :
    l.trace calls' = l.trace calls ∧ l.serve calls' = l.serve calls := by
  induction h generalizing l with
  | nil => exact ⟨rfl, rfl⟩
  | @cons call call' calls calls' hcall _ ih =>
    obtain ⟨hfirst, hrest⟩ := List.forall_mem_cons.mp hnamed
    obtain ⟨hanswer, hafter⟩ := answer?_eq_of_relists hl hcall hfirst
    obtain ⟨htrace, hserve⟩ := ih (hl.after hfirst call.command) hrest
    constructor
    · simp only [trace, hanswer, hafter, htrace]
    · rw [serve_cons, serve_cons, hafter, hserve]

/-- Two ledgers that start empty, with the same options, and that are called alike at the same
heights cannot be told apart, though members are listed to them in different orders at every call:
each call is accepted by both with the same answer or refused by both, and after each call both
store the same under the same hash. -/
theorem trace_eq_of_relists {o : Options} (h : Ledger.empty o = .ok l)
    (h' : Ledger.empty o = .ok l') {calls calls' : List Call}
    (hcalls : List.Forall₂ Call.Relists calls calls')
    (hnamed : ∀ call ∈ calls, call.env.stakes.Named) :
    l'.trace calls' = l.trace calls ∧ l'.serve calls' = l.serve calls := by
  rw [h] at h'
  obtain rfl := Except.ok.inj h'
  exact trace_eq_of_indexed (Reachable.empty h).sound.indexed hcalls hnamed

/-! ## Two listings -/

namespace Sample

/-- An organization that lists its members in a given order. -/
def ranked (holdings : List Holding) : StakeSource where
  group? _ := some (holdings.map (·.member))
  stakes? _ := some ⟨.integer 5, holdings⟩

/-- Alice and bob, with the stakes of both. -/
def holdings : List Holding :=
  [⟨.text "alice", .integer 2⟩, ⟨.text "bob", .integer 3⟩]

theorem ranked_named : (ranked holdings).Named where
  group_named h := by
    cases h
    decide
  stakes_named h := by
    cases h
    decide

theorem ranked_relists : (ranked holdings).Relists (ranked holdings.reverse) where
  group _ := .some fun m => by simp [holdings, or_comm]
  stakes _ := .some ⟨(List.reverse_perm holdings).symm, rfl⟩

/-- A vote with one unit each, another one by stake, and a ballot in that. -/
def commands : List Command :=
  [.openPercentVote request, .openPercentVote { request with electorate := .of .weighted "org" },
   .applyVote (.number 2) (.text "bob") .inFavor .absent]

end Sample

/-- The same votes are opened and the same ballot is cast, whoever is listed first. -/
theorem trace_eq_of_reverse :
    let calls := Sample.commands.map fun c => ⟨⟨.number 5, Sample.ranked Sample.holdings⟩, c⟩
    let calls' :=
      Sample.commands.map fun c => ⟨⟨.number 5, Sample.ranked Sample.holdings.reverse⟩, c⟩
    Sample.start.trace calls' = Sample.start.trace calls ∧
      Sample.start.serve calls' = Sample.start.serve calls := by
  intro calls calls'
  refine trace_eq_of_relists Sample.empty_options Sample.empty_options ?_ ?_
  · refine List.forall₂_map_left_iff.mpr (List.forall₂_map_right_iff.mpr (List.forall₂_same.mpr ?_))
    exact fun c _ => ⟨rfl, rfl, Sample.ranked_relists⟩
  · exact List.forall_mem_map.mpr fun c _ => Sample.ranked_named

end Plebiscite.Ledger
