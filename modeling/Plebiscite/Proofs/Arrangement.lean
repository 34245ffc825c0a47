import Mathlib.Algebra.Order.Group.Multiset
import Mathlib.Tactic.Abel
import Plebiscite.Arrangement

/-!
# What arranging keeps

Arranging a list loses nothing and adds nothing, whatever the comparison is.  If the elements are
plain and are compared by keys of some order, the result ascends in that order, and a list that
ascends already is left as it is.

## Main results

- `arrange_perm`: the arranged list is a permutation
- `arrange_pairwise`: it ascends
- `arrange_of_pairwise`: an ascending list is left as it is
-/

namespace Plebiscite.Arrangement

variable {α β : Type} {before : α → α → Bool}

/-! ## Runs -/

theorem run_append (goesOn : α → α → Bool) (last : α) (l : List α) :
    (run goesOn last l).1 ++ (run goesOn last l).2 = l := by
  induction l generalizing last with
  | nil => rfl
  | cons a rest ih =>
    by_cases h : goesOn last a = true
    · simp [run, h, ih]
    · simp [run, h]

theorem leadingRun_perm (l : List α) :
    ((leadingRun before l).1 ++ (leadingRun before l).2).Perm l := by
  match l with
  | [] => exact .refl _
  | [a] => exact .refl _
  | a :: b :: rest =>
    by_cases h : before b a = true
    · simp only [leadingRun, h, if_true]
      -- A descending run is turned around.
      refine ((List.reverse_perm _).append_right _).trans ?_
      simp [run_append]
    · simp [leadingRun, h, run_append]

theorem leadingRun_ne_nil {l : List α} (h : l ≠ []) : (leadingRun before l).1 ≠ [] := by
  match l with
  | [] => exact (h rfl).elim
  | [a] => simp [leadingRun]
  | a :: b :: rest => by_cases hba : before b a = true <;> simp [leadingRun, hba]

theorem placeWithin_perm (x : α) (fuel : Nat) (l : List α) :
    l.length ≤ fuel → (placeWithin before x fuel l).Perm (x :: l) := by
  induction fuel generalizing l with
  | zero => exact fun _ => .refl _
  | succ fuel ih =>
    intro hfuel
    -- The list is the half before the middle element, that element, and the half after it.
    have hsplit : l.take (l.length / 2) ++ l.drop (l.length / 2) = l := List.take_append_drop ..
    cases hdrop : l.drop (l.length / 2) with
    | nil =>
      have hnil : l = [] := by
        have := List.drop_eq_nil_iff.mp hdrop
        exact List.length_eq_zero_iff.mp (by omega)
      subst hnil
      simp [placeWithin]
    | cons a rest =>
      rw [hdrop] at hsplit
      have hlength : rest.length + 1 = l.length - l.length / 2 := by
        rw [← List.length_drop, hdrop, List.length_cons]
      simp only [placeWithin, hdrop]
      by_cases h : before x a = true
      · rw [if_pos h]
        have hhalf := ih (l.take (l.length / 2)) (by rw [List.length_take]; omega)
        refine (hhalf.append_right _).trans ?_
        rw [List.cons_append, hsplit]
      · rw [if_neg h]
        have hhalf := ih rest (by omega)
        refine ((hhalf.cons a).append_left _).trans ?_
        conv_rhs => rw [← hsplit]
        exact (List.Perm.append_left _ (.swap ..)).trans List.perm_middle

theorem foldl_place_perm (xs l : List α) :
    (xs.foldl (place before) l).Perm (l ++ xs) := by
  induction xs generalizing l with
  | nil => simp
  | cons x xs ih =>
    refine (ih _).trans ?_
    refine ((placeWithin_perm x l.length l le_rfl).append_right xs).trans ?_
    exact List.perm_middle.symm

theorem filledRun_perm (least : Nat) (l : List α) :
    ((filledRun before least l).1 ++ (filledRun before least l).2).Perm l := by
  simp only [filledRun]
  refine ((foldl_place_perm _ _).append_right _).trans ?_
  rw [List.append_assoc, List.take_append_drop]
  exact leadingRun_perm l

theorem filledRun_ne_nil {least : Nat} {l : List α} (h : l ≠ []) :
    (filledRun before least l).1 ≠ [] := by
  intro hnil
  simp only [filledRun] at hnil
  have hperm := @foldl_place_perm _ before
    ((leadingRun before l).2.take (least - (leadingRun before l).1.length)) (leadingRun before l).1
  rw [hnil] at hperm
  exact leadingRun_ne_nil h (List.append_eq_nil_iff.mp hperm.nil_eq.symm).1

/-- Each cut takes something off, so a list can be cut to the end. -/
theorem runsWithin_perm (least fuel : Nat) (l : List α) :
    l.length ≤ fuel → (runsWithin before least fuel l).flatten.Perm l := by
  induction fuel generalizing l with
  | zero =>
    intro hfuel
    have hnil : l = [] := List.length_eq_zero_iff.mp (by omega)
    subst hnil
    exact .refl _
  | succ fuel ih =>
    intro hfuel
    cases l with
    | nil => exact .refl _
    | cons a rest =>
      have hperm := @filledRun_perm _ before least (a :: rest)
      have hfirst := List.length_pos_iff.mpr
        (@filledRun_ne_nil _ before least _ (List.cons_ne_nil a rest))
      have hlength := hperm.length_eq
      rw [List.length_append] at hlength
      simp only [runsWithin, List.flatten_cons]
      -- The first run is not empty, so what is left to cut is shorter.
      exact ((ih _ (by omega)).append_left _).trans hperm

theorem runs_perm (l : List α) : (runs before l).flatten.Perm l :=
  runsWithin_perm _ _ _ le_rfl

/-! ## Weaving -/

/-- A list is what it starts with and what follows. -/
theorem take_add_drop (n : Nat) (l : List α) :
    ((l.take n : List α) : Multiset α) + (l.drop n : List α) = l := by
  rw [Multiset.coe_add, List.take_append_drop]

namespace Weave

/-- All elements of a merge on its way. -/
def content (w : Weave α) : Multiset α :=
  (w.moved : Multiset α) + w.short + w.long

theorem coe_toList (w : Weave α) : (w.toList : Multiset α) = w.content := by
  simp only [toList, content, ← Multiset.coe_add, Multiset.coe_reverse]
  abel

@[simp]
theorem content_moveShort (n : Nat) (w : Weave α) : (w.moveShort n).content = w.content := by
  by_cases h : w.isOver = true
  · simp [moveShort, h]
  · simp only [moveShort, h, content, ← Multiset.coe_add, Multiset.coe_reverse, if_false,
      Bool.false_eq_true]
    rw [← take_add_drop n w.short]
    abel

@[simp]
theorem content_moveLong (n : Nat) (w : Weave α) : (w.moveLong n).content = w.content := by
  by_cases h : w.isOver = true
  · simp [moveLong, h]
  · simp only [moveLong, h, content, ← Multiset.coe_add, Multiset.coe_reverse, if_false,
      Bool.false_eq_true]
    rw [← take_add_drop n w.long]
    abel

end Weave

namespace Manner

variable (m : Manner α)

@[simp]
theorem content_moveSingly (patience fuel shortWins longWins : Nat) (w : Weave α) :
    (m.moveSingly patience fuel shortWins longWins w).content = w.content := by
  induction fuel generalizing shortWins longWins w with
  | zero => rfl
  | succ fuel ih =>
    rw [moveSingly]
    split
    · rfl
    · split
      · split
        · rw [ih, Weave.content_moveLong]
        · rw [ih, Weave.content_moveShort]
      · rfl

@[simp]
theorem content_moveLeads (w : Weave α) : (m.moveLeads w).1.content = w.content := by
  by_cases h : m.fromBack = true <;> simp [moveLeads, h]

@[simp]
theorem content_moveAllLeads (fuel patience : Nat) (w : Weave α) :
    (m.moveAllLeads fuel patience w).1.content = w.content := by
  induction fuel generalizing patience w with
  | zero => rfl
  | succ fuel ih =>
    have hlead := m.content_moveLeads w
    rw [moveAllLeads]
    split
    rename_i moved again heq
    rw [heq] at hlead
    split
    · exact hlead
    · split
      · rw [ih, hlead]
      · exact hlead

@[simp]
theorem content_weave (fuel patience : Nat) (w : Weave α) :
    (m.weave fuel patience w).1.content = w.content := by
  induction fuel generalizing patience w with
  | zero => rfl
  | succ fuel ih =>
    simp only [weave]
    split
    · simp
    · split
      · simp
      · simp [ih]

theorem coe_merge (patience : Nat) (short long : List α) :
    ((m.merge patience short long).1 : Multiset α) = short + long := by
  simp only [merge, Weave.coe_toList, content_weave, Weave.content_moveLong]
  simp only [Weave.content, Multiset.coe_nil, zero_add]

end Manner

theorem coe_mergeOverlap (patience : Nat) (a b : List α) :
    ((mergeOverlap before patience a b).1 : Multiset α) = a + b := by
  by_cases h : a.length ≤ b.length
  · simp only [mergeOverlap, h, if_true, Manner.coe_merge]
  · simp only [mergeOverlap, h, if_false, Multiset.coe_reverse, Manner.coe_merge]
    rw [add_comm]

/-- Merging moves no element out of the two runs. -/
theorem coe_merge (patience : Nat) (a b : List α) :
    ((merge before patience a b).1 : Multiset α) = a + b := by
  cases b with
  | nil => simp [merge]
  | cons start rest =>
    simp only [merge]
    split
    · rfl
    · rename_i last hlast
      simp only [← Multiset.coe_add, coe_mergeOverlap]
      -- What is in place already stands before and after the merged part.
      conv_rhs => rw [← take_add_drop (lead (fun x => !before start x) false a) a,
        ← take_add_drop ((start :: rest).length -
          lead (fun x => !before x last) true (start :: rest).reverse) (start :: rest)]
      abel

/-! ## Arranging -/

namespace Pending

/-- All elements of the runs that are still to be merged. -/
def content (p : Pending α) : Multiset α :=
  (p.stack.flatten : List α)

theorem content_mergeLast (p : Pending α) : (p.mergeLast before).content = p.content := by
  unfold mergeLast
  split
  · rename_i z y rest hstack
    simp only [content, hstack, List.flatten_cons, ← Multiset.coe_add, coe_merge]
    abel
  · rfl

theorem content_mergeBeforeLast (p : Pending α) :
    (p.mergeBeforeLast before).content = p.content := by
  unfold mergeBeforeLast
  split
  · rename_i z rest hstack
    have hrest := @content_mergeLast _ before { p with stack := rest }
    simp only [content, hstack, List.flatten_cons, ← Multiset.coe_add] at hrest ⊢
    rw [hrest]
  · rfl

theorem content_mergeShorter (p : Pending α) : (p.mergeShorter before).content = p.content := by
  unfold mergeShorter
  split
  · split
    · exact content_mergeBeforeLast p
    · exact content_mergeLast p
  · exact content_mergeLast p

theorem content_balance (fuel : Nat) (p : Pending α) :
    (balance before fuel p).content = p.content := by
  induction fuel generalizing p with
  | zero => rfl
  | succ fuel ih =>
    rw [balance]
    split
    · split
      · rw [ih, content_mergeShorter]
      · split
        · rw [ih, content_mergeLast]
        · rfl
    · rfl

theorem coe_mergeAll (fuel : Nat) (p : Pending α) :
    (p.mergeAll before fuel : Multiset α) = p.content := by
  induction fuel generalizing p with
  | zero =>
    have hperm : p.stack.reverse.flatten.Perm p.stack.flatten := p.stack.reverse_perm.flatten
    exact Multiset.coe_eq_coe.mpr hperm
  | succ fuel ih =>
    rw [mergeAll]
    split
    · rename_i hstack
      simp [content, hstack]
    · rename_i r hstack
      simp [content, hstack]
    · rw [ih, content_mergeShorter]

theorem content_foldl_push (runs : List (List α)) (p : Pending α) :
    (runs.foldl (push before) p).content = p.content + (runs.flatten : List α) := by
  induction runs generalizing p with
  | nil => simp
  | cons r runs ih =>
    rw [List.foldl_cons, ih, push, content_balance]
    simp only [content, List.flatten_cons, ← Multiset.coe_add]
    abel

end Pending

theorem byRuns_perm (l : List α) : (byRuns before l).Perm l := by
  rw [← Multiset.coe_eq_coe]
  simp only [byRuns, Pending.coe_mergeAll, Pending.content_foldl_push]
  rw [Multiset.coe_eq_coe.mpr (runs_perm l)]
  simp [Pending.content]

/-- Arranging loses nothing and adds nothing. -/
theorem arrange_perm (isPlain : α → Bool) (l : List α) :
    (arrange isPlain before l).Perm l := by
  unfold arrange
  split
  · exact List.mergeSort_perm _ _
  · exact byRuns_perm l

/-- An ascending list of plain elements is left as it is. -/
theorem arrange_of_pairwise {isPlain : α → Bool} {l : List α}
    (hplain : ∀ a ∈ l, isPlain a = true) (hl : l.Pairwise fun a b => before b a = false) :
    arrange isPlain before l = l := by
  rw [arrange, if_pos (List.all_eq_true.mpr hplain)]
  refine List.mergeSort_of_pairwise (hl.imp ?_)
  intro a b hab
  simp [hab]

/-- Plain elements that are compared by the places of their keys in some order ascend in that
order. -/
theorem arrange_pairwise {isPlain : α → Bool} {l : List α} {key : α → β}
    {notAfter : β → β → Bool} (hplain : ∀ a ∈ l, isPlain a = true)
    (hkey : ∀ a ∈ l, ∀ b ∈ l, (!before b a) = notAfter (key a) (key b))
    (htrans : ∀ a b c, notAfter a b = true → notAfter b c = true → notAfter a c = true)
    (htotal : ∀ a b, (notAfter a b || notAfter b a) = true) :
    ((arrange isPlain before l).map key).Pairwise fun a b => notAfter a b = true := by
  rw [arrange, if_pos (List.all_eq_true.mpr hplain), List.map_mergeSort hkey]
  exact List.pairwise_mergeSort htrans htotal _

end Plebiscite.Arrangement
