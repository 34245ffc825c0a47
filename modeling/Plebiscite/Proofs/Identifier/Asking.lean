import Plebiscite.Proofs.Identifier.Cycle

/-!
# What a search asks

Whether an identifier is taken is asked of one candidate after the other.  If every question is
noted, the notes are the beginning of the identifiers in cyclic order: none is asked of twice, and
none after the first one that is free.

## Main definitions

- `Identifier.searchM`, `Identifier.nextM`: a search in which asking may have an effect
- `Identifier.noting`: asking, with a note of each question
- `Identifier.upToFree`: candidates up to the first one that is free

## Main results

- `Identifier.nextM_pure`: where asking has no effect, the search is the same
- `Identifier.run_nextM_noting`: what is noted in a search
- `Identifier.next_goes_around`: the search finds the first free identifier in cyclic order, if
  there is any, and asks of none twice
-/

namespace Plebiscite.Identifier

/-! ## Asking with an effect -/

section Asking

variable {α : Type} {m : Type → Type} [Monad m]

/-- The first free identifier among a candidate and the `n - 1` that follow it, where it has to be
asked of each whether it is taken. -/
def searchM (after : α → α) (ask : α → m Bool) (candidate : α) : Nat → m (Option α)
  | 0 => return none
  | n + 1 => do
    if ← ask candidate then searchM after ask (after candidate) n else return some candidate

/-- The first identifier after the counter, in cyclic order, that is said to be free. -/
def nextM (counter : Counter) (ceiling : Number) (ask : Number → m Bool) :
    m (Except Fault Number) := do
  match ← searchM (after ceiling) ask (first ceiling counter)
      (attempts (Value.toNumber (.number ceiling))) with
  | some id => return .ok id
  | none => return .error (.noFreeIdentifier (.number ceiling))

variable [LawfulMonad m]

theorem searchM_pure (after : α → α) (isTaken : α → Bool) (c : α) (n : Nat) :
    searchM after (fun a => (pure (isTaken a) : m Bool)) c n = pure (search after isTaken c n) := by
  induction n generalizing c with
  | zero => rfl
  | succ n ih =>
    rw [searchM, search, pure_bind, ih]
    split <;> rfl

/-- Where asking has no effect, the search with questions is the search. -/
theorem nextM_pure (counter : Counter) (ceiling : Number) (isTaken : Number → Bool) :
    nextM counter ceiling (fun k => (pure (isTaken k) : m Bool)) =
      pure (next counter ceiling isTaken) := by
  rw [nextM, searchM_pure, pure_bind, next, searchAll]
  cases search (after ceiling) isTaken (first ceiling counter)
    (attempts (Value.toNumber (.number ceiling))) <;> rfl

end Asking

/-! ## Noting the questions -/

section Noting

variable {α β : Type}

/-- Asks whether a candidate is taken, and notes that it was asked. -/
def noting (isTaken : α → Bool) (a : α) : StateM (List α) Bool := do
  modify (· ++ [a])
  return isTaken a

/-- Candidates up to the first one that is free, and this one. -/
def upToFree (isTaken : α → Bool) (l : List α) : List α :=
  l.takeWhile isTaken ++ (l.dropWhile isTaken).take 1

variable {isTaken : α → Bool}

theorem upToFree_cons_of_taken {a : α} (ha : isTaken a = true) (l : List α) :
    upToFree isTaken (a :: l) = a :: upToFree isTaken l := by
  simp [upToFree, ha]

theorem upToFree_cons_of_free {a : α} (ha : isTaken a = false) (l : List α) :
    upToFree isTaken (a :: l) = [a] := by
  simp [upToFree, ha]

theorem upToFree_prefix (l : List α) : upToFree isTaken l <+: l := by
  conv_rhs => rw [← List.takeWhile_append_dropWhile (p := isTaken) (l := l)]
  exact (List.prefix_append_right_inj _).mpr (List.take_prefix 1 _)

theorem upToFree_map (f : β → α) (l : List β) :
    upToFree isTaken (l.map f) = (upToFree (isTaken ∘ f) l).map f := by
  rw [upToFree, upToFree, List.takeWhile_map, List.dropWhile_map, ← List.map_take, List.map_append]

/-- All but the last candidate of those are taken. -/
theorem taken_of_mem_dropLast (isTaken : α → Bool) {l : List α} {a : α}
    (ha : a ∈ (upToFree isTaken l).dropLast) : isTaken a = true := by
  induction l with
  | nil => cases ha
  | cons b l ih =>
    cases hb : isTaken b with
    | false =>
      rw [upToFree_cons_of_free hb] at ha
      cases ha
    | true =>
      rw [upToFree_cons_of_taken hb] at ha
      cases hrest : upToFree isTaken l with
      | nil =>
        rw [hrest] at ha
        cases ha
      | cons d rest =>
        rw [hrest, List.dropLast_cons_cons, ← hrest] at ha
        rcases List.mem_cons.mp ha with rfl | ha
        · exact hb
        · exact ih ha

/-- A search notes the candidates up to the first one that is free. -/
theorem run_searchM_noting (after : α → α) (isTaken : α → Bool) (c : α) (n : Nat)
    (noted : List α) : (searchM after (noting isTaken) c n).run noted =
      (search after isTaken c n, noted ++ upToFree isTaken (List.iterate after c n)) := by
  induction n generalizing c noted with
  | zero =>
    rw [List.iterate, upToFree, List.takeWhile_nil, List.dropWhile_nil, List.take_nil,
      List.append_nil, List.append_nil]
    rfl
  | succ n ih =>
    -- The candidate is noted, whatever the answer is.
    have hstep : (searchM after (noting isTaken) c (n + 1)).run noted =
        (if isTaken c then searchM after (noting isTaken) (after c) n
          else pure (some c)).run (noted ++ [c]) := rfl
    rw [hstep, search, List.iterate]
    cases hc : isTaken c with
    | false =>
      rw [upToFree_cons_of_free hc]
      rfl
    | true =>
      have hrest := ih (after c) (noted ++ [c])
      rw [List.append_assoc, List.singleton_append] at hrest
      rw [upToFree_cons_of_taken hc]
      exact hrest

end Noting

/-! ## Going around with notes -/

variable {m : Nat}

/-- What is noted are the identifiers in cyclic order, up to the first one that is free. -/
theorem run_nextM_noting (hm : m ≤ Number.maxSafe) (n : Nat) (isTaken : Number → Bool) :
    (nextM (some (.ofInt n)) (.ofInt m) (noting isTaken)).run [] =
      (next (some (.ofInt n)) (.ofInt m) isTaken,
        (upToFree (fun k : Nat => isTaken (.ofInt k)) (cycle m n)).map
          fun k => .ofInt (k : Nat)) := by
  have hattempts : attempts (Value.toNumber (.number (.ofInt m))) = m := attempts_ofInt m
  have hsearch := run_searchM_noting (after (.ofInt m)) isTaken
    (first (.ofInt m) (some (.ofInt n))) m []
  rw [iterate_first hm, upToFree_map, List.nil_append] at hsearch
  rw [next, searchAll, nextM, hattempts, StateT.run_bind, hsearch]
  cases search (after (.ofInt m)) isTaken (first (.ofInt m) (some (.ofInt n))) m <;> rfl

/-- From any counter on, also from one beyond the ceiling, the identifiers up to the ceiling are
tried in cyclic order, each at most once, and the first one that is free is given out.  There is
none exactly if all of them are taken.  Identifiers of any type that happen to be numbers are
searched in the same way. -/
theorem next_goes_around (hm : m ≤ Number.maxSafe) (n : Nat) (isTaken : Number → Bool) :
    (∀ k, k ∈ cycle m n ↔ 1 ≤ k ∧ k ≤ m) ∧ (cycle m n).Nodup ∧
    (∃ tried : List Nat, tried <+: cycle m n ∧
      (∀ k ∈ tried.dropLast, isTaken (.ofInt k) = true) ∧
      (nextM (some (.ofInt n)) (.ofInt m) (noting isTaken)).run [] =
        (next (some (.ofInt n)) (.ofInt m) isTaken, tried.map fun k => .ofInt (k : Nat))) ∧
    (∀ id, next (some (.ofInt n)) (.ofInt m) isTaken = .ok id ↔
      ∃ (k : Nat) (before rest : List Nat), id = .ofInt k ∧ cycle m n = before ++ k :: rest ∧
        isTaken (.ofInt k) = false ∧ ∀ j ∈ before, isTaken (.ofInt j) = true) ∧
    ((∃ f, next (some (.ofInt n)) (.ofInt m) isTaken = .error f) ↔
      ∀ k : Nat, 1 ≤ k → k ≤ m → isTaken (.ofInt k) = true) ∧
    (∀ f, next (some (.ofInt n)) (.ofInt m) isTaken = .error f → f.code = .idSpaceExhausted) ∧
    ∀ isTaken' : Value → Bool, (∀ k, isTaken' (.number k) = isTaken k) →
      nextOf (.number (.ofInt n)) (.number (.ofInt m)) isTaken' =
        (next (some (.ofInt n)) (.ofInt m) isTaken).map .number := by
  refine ⟨fun _ => mem_cycle, nodup_cycle m n, ?_, fun id => ?_, ?_, fun f hf => ?_,
    fun isTaken' hsame => ?_⟩
  · have htaken : ∀ k ∈ (upToFree (fun k : Nat => isTaken (.ofInt k)) (cycle m n)).dropLast,
        isTaken (.ofInt k) = true := fun _ => taken_of_mem_dropLast _
    exact ⟨_, upToFree_prefix _, htaken, run_nextM_noting hm n isTaken⟩
  · simp only [next_eq_ok hm, List.find?_eq_some_iff_append]
    constructor
    · rintro ⟨k, ⟨hfree, before, rest, hsplit, hbefore⟩, rfl⟩
      exact ⟨k, before, rest, rfl, hsplit, by simpa using hfree, by simpa using hbefore⟩
    · rintro ⟨k, before, rest, rfl, hsplit, hfree, hbefore⟩
      exact ⟨k, ⟨by simpa using hfree, before, rest, hsplit, by simpa using hbefore⟩, rfl⟩
  · simp only [next_eq_error hm, exists_and_left, exists_eq, and_true]
  · obtain ⟨-, rfl⟩ := (next_eq_error hm).mp hf
    rfl
  · rw [nextOf_number]
    simp only [hsame]

/-- A counter beyond a ceiling of three starts over at one; where that is taken, two comes next. -/
theorem next_goes_around_beyond : 3 ≤ Number.maxSafe ∧
    next (some (.ofInt (7 : Nat))) (.ofInt (3 : Nat)) (fun k => k == 1) =
      .ok (.ofInt (2 : Nat)) := by
  have hm : 3 ≤ Number.maxSafe := by decide
  obtain ⟨-, -, -, hfound, -⟩ := next_goes_around hm 7 fun k => k == 1
  exact ⟨hm, (hfound _).mpr ⟨2, [1], [3], rfl, by decide, by decide, by decide⟩⟩

end Plebiscite.Identifier
