import Mathlib.Data.List.Forall2
import Mathlib.Data.List.Nodup
import Mathlib.Data.List.Perm.Basic
import Plebiscite.Index
import Plebiscite.Ledger.Basic

/-!
# Lists whose elements are known by keys

Votes are known by identifiers, seats by names, entries of the register by numbers.  As long as no
two elements share a key, looking a key up finds the element that has it.

## Main results

- `find?_key`: what is found under a key
- `insertBefore_perm`: putting an element in its place adds that element and nothing else
- `Index.get?_put`, `Index.keys_put`: what is found in an index after a key was given a value, and
  which keys there are
-/

namespace Plebiscite

namespace Keyed

variable {α κ : Type} {key : α → κ} {l : List α}

section Find

variable [DecidableEq κ]

theorem mem_of_find?_key {k : κ} {a : α} (h : l.find? (fun b => key b = k) = some a) :
    a ∈ l ∧ key a = k := by
  have hkey := List.find?_some h
  exact ⟨List.mem_of_find?_eq_some h, of_decide_eq_true hkey⟩

/-- What is found under a key is the element that has it. -/
theorem find?_key (hl : (l.map key).Nodup) {k : κ} {a : α} :
    l.find? (fun b => key b = k) = some a ↔ a ∈ l ∧ key a = k := by
  refine ⟨mem_of_find?_key, ?_⟩
  rintro ⟨ha, rfl⟩
  have hsome : (l.find? fun b => key b = key a).isSome := List.find?_isSome.mpr ⟨a, ha, by simp⟩
  obtain ⟨b, hfind⟩ := Option.isSome_iff_exists.mp hsome
  obtain ⟨hb, hkey⟩ := mem_of_find?_key hfind
  rw [hfind, List.inj_on_of_nodup_map hl hb ha hkey]

theorem find?_key_eq_none {k : κ} :
    l.find? (fun b => key b = k) = none ↔ k ∉ l.map key := by
  simp [List.find?_eq_none]

variable (key) in
/-- Where elements keep their keys, what is found under a key is what was found before. -/
theorem find?_map {g : α → α} (hg : ∀ a ∈ l, key (g a) = key a) (k : κ) :
    (l.map g).find? (fun b => key b = k) = (l.find? fun b => key b = k).map g := by
  induction l with
  | nil => rfl
  | cons a l ih =>
    rw [List.map_cons, List.find?_cons, List.find?_cons, hg a List.mem_cons_self]
    split
    · rfl
    · exact ih fun b hb => hg b (List.mem_cons_of_mem _ hb)

/-- A list is put together again from its keys. -/
theorem filterMap_find? (hl : (l.map key).Nodup) :
    (l.map key).filterMap (fun k => l.find? fun b => key b = k) = l := by
  have hfind : ∀ a ∈ l, (l.find? fun b => key b = key a) = some a :=
    fun a ha => (find?_key hl).mpr ⟨ha, rfl⟩
  rw [List.filterMap_map]
  calc
    l.filterMap (fun a => l.find? fun b => key b = key a) = l.filterMap some :=
      List.filterMap_congr hfind
    _ = l := List.filterMap_some

end Find

/-- In two lists that are related element by element, the same search finds what is related. -/
theorem find?_forall₂ {β : Type} {R : α → β → Prop} {p : α → Bool} {q : β → Bool} {bs : List β}
    (hl : List.Forall₂ R l bs) (hR : ∀ a b, R a b → q b = p a) :
    Option.Rel R (l.find? p) (bs.find? q) := by
  induction hl with
  | nil => exact .none
  | @cons a b l bs hab _ ih =>
    rw [List.find?_cons, List.find?_cons, hR a b hab]
    split
    · exact .some hab
    · exact ih

/-- Of what is listed under all keys, what is listed under one key is that of the one element. -/
theorem filter_flatMap {β : Type} [DecidableEq κ] {f : α → List β} {under : β → κ}
    (hl : (l.map key).Nodup) (hf : ∀ a ∈ l, ∀ b ∈ f a, under b = key a) {a : α} (ha : a ∈ l) :
    (l.flatMap f).filter (under · = key a) = f a := by
  obtain ⟨before, after, rfl⟩ := List.append_of_mem ha
  rw [List.map_append, List.map_cons, List.nodup_middle, List.nodup_cons, List.mem_append,
    not_or] at hl
  obtain ⟨⟨hbefore, hafter⟩, -⟩ := hl
  -- Nothing is listed under this key for any other element.
  have hothers : ∀ others : List α, (∀ c ∈ others, ∀ b ∈ f c, under b = key c) →
      key a ∉ others.map key → (others.flatMap f).filter (under · = key a) = [] := by
    intro others hunder hnew
    refine List.filter_eq_nil_iff.mpr fun b hb => ?_
    obtain ⟨c, hc, hbc⟩ := List.mem_flatMap.mp hb
    rw [decide_eq_true_eq, hunder c hc b hbc]
    exact fun h => hnew (h ▸ List.mem_map_of_mem hc)
  have hown : (f a).filter (under · = key a) = f a :=
    List.filter_eq_self.mpr fun b hb => decide_eq_true (hf a ha b hb)
  rw [List.flatMap_append, List.flatMap_cons, List.filter_append, List.filter_append, hown,
    hothers before (fun c hc => hf c (by simp [hc])) hbefore,
    hothers after (fun c hc => hf c (by simp [hc])) hafter, List.nil_append, List.append_nil]

/-- Elements that keep their keys keep the list of keys. -/
theorem map_key_eq {f : α → α} (hf : ∀ a ∈ l, key (f a) = key a) :
    (l.map f).map key = l.map key := by
  rw [List.map_map]
  exact List.map_congr_left hf

theorem insertBefore_perm (precedes : α → α → Bool) (a : α) (l : List α) :
    (Ledger.insertBefore precedes a l).Perm (a :: l) := by
  induction l with
  | nil => exact .refl _
  | cons b l ih =>
    rw [Ledger.insertBefore]
    split
    · exact .refl _
    · exact (ih.cons b).trans (.swap a b l)

/-- Two lists that are related element by element stay so, wherever the new elements go. -/
theorem insertBefore_forall₂ {β : Type} {R : α → β → Prop} {precedes : α → α → Bool}
    {precedes' : β → β → Bool} {bs : List β} {a : α} {b : β} (hl : List.Forall₂ R l bs)
    (hab : R a b) (hR : ∀ c d, R c d → precedes' b d = precedes a c) :
    List.Forall₂ R (Ledger.insertBefore precedes a l) (Ledger.insertBefore precedes' b bs) := by
  induction hl with
  | nil => exact .cons hab .nil
  | @cons c d l bs hcd hrest ih =>
    rw [Ledger.insertBefore, Ledger.insertBefore, hR c d hcd]
    split
    · exact .cons hab (.cons hcd hrest)
    · exact .cons hcd ih

/-- An element that precedes none comes last. -/
theorem insertBefore_of_forall {precedes : α → α → Bool} {a : α}
    (h : ∀ b ∈ l, precedes a b = false) : Ledger.insertBefore precedes a l = l ++ [a] := by
  induction l with
  | nil => rfl
  | cons b l ih =>
    rw [Ledger.insertBefore, h b (by simp), if_neg Bool.false_ne_true,
      ih fun c hc => h c (List.mem_cons_of_mem _ hc), List.cons_append]

/-- An element that compares with all others goes where it keeps them in order. -/
theorem insertBefore_pairwise {R : α → α → Prop} {precedes : α → α → Bool} {a : α}
    (hl : l.Pairwise R) (hbefore : ∀ b ∈ l, precedes a b = true → R a b)
    (hafter : ∀ b ∈ l, precedes a b = false → R b a)
    (htrans : ∀ b ∈ l, ∀ c ∈ l, R a b → R b c → R a c) :
    (Ledger.insertBefore precedes a l).Pairwise R := by
  induction l with
  | nil => exact List.pairwise_singleton R a
  | cons b l ih =>
    obtain ⟨hfirst, hrest⟩ := List.pairwise_cons.mp hl
    rw [Ledger.insertBefore]
    split
    · rename_i h
      have hab := hbefore b (by simp) h
      refine List.pairwise_cons.mpr ⟨fun c hc => ?_, hl⟩
      rcases List.mem_cons.mp hc with rfl | hmem
      · exact hab
      · exact htrans b (by simp) c hc hab (hfirst c hmem)
    · rename_i h
      refine List.pairwise_cons.mpr ⟨fun c hc => ?_, ih hrest ?_ ?_ ?_⟩
      · rcases List.mem_cons.mp ((insertBefore_perm precedes a l).mem_iff.mp hc) with rfl | hmem
        · exact hafter b (by simp) (Bool.eq_false_iff.mpr h)
        · exact hfirst c hmem
      · exact fun c hc => hbefore c (List.mem_cons_of_mem _ hc)
      · exact fun c hc => hafter c (List.mem_cons_of_mem _ hc)
      · exact fun c hc d hd => htrans c (List.mem_cons_of_mem _ hc) d (List.mem_cons_of_mem _ hd)

end Keyed

/-! ## Indexes -/

namespace Index

variable {α : Type} {index : Index α} {key : Value} {value : α} {entry : Value × α}

theorem mem_of_get? (h : get? index key = some value) : ∃ k, (k, value) ∈ index := by
  obtain ⟨entry, hfind, rfl⟩ := Option.map_eq_some_iff.mp h
  exact ⟨entry.1, List.mem_of_find?_eq_some hfind⟩

theorem mem_put (h : entry ∈ put key value index) : entry = (key, value) ∨ entry ∈ index := by
  induction index with
  | nil => exact .inl (List.mem_singleton.mp h)
  | cons first rest ih =>
    rw [put] at h
    split at h
    · rcases List.mem_cons.mp h with rfl | h
      · exact .inl rfl
      · exact .inr (List.mem_cons_of_mem _ h)
    · rcases List.mem_cons.mp h with rfl | h
      · exact .inr (List.mem_cons_self ..)
      · exact (ih h).imp_right (List.mem_cons_of_mem _)

/-- Where no key is listed twice, a new value is the only one of its key. -/
theorem mem_put_iff (hkey : key.isStructured = false) (hindex : (index.map (·.1)).Nodup) :
    entry ∈ put key value index ↔ entry = (key, value) ∨ entry ∈ index ∧ entry.1 ≠ key := by
  induction index with
  | nil => simp [put]
  | cons first rest ih =>
    obtain ⟨hfirst, hrest⟩ := List.nodup_cons.mp hindex
    have hsame : first.1.same key = true ↔ first.1 = key := by
      rw [Value.same, Bool.and_eq_true, decide_eq_true_eq]
      exact and_iff_right_of_imp fun heq => by rw [heq, hkey]; rfl
    rw [put]
    split
    · rename_i heq
      obtain rfl := hsame.mp heq
      have hne : ∀ e ∈ rest, e.1 ≠ first.1 := fun e he h =>
        hfirst (List.mem_map.mpr ⟨e, he, h⟩)
      rw [List.mem_cons, List.mem_cons, or_and_right]
      refine or_congr_right ⟨fun h => .inr ⟨h, hne _ h⟩, ?_⟩
      rintro (⟨rfl, h⟩ | ⟨h, -⟩)
      · exact absurd rfl h
      · exact h
    · rename_i hother
      rw [List.mem_cons, ih hrest, List.mem_cons, or_and_right, or_left_comm]
      refine or_congr_right (or_congr_left (iff_self_and.mpr ?_))
      rintro rfl
      exact hsame.not.mp hother

/-- A key that has a value keeps its place, and a new one comes last. -/
theorem keys_put (hkey : key.isStructured = false) (value : α) (index : Index α) :
    (index.put key value).map (·.1) =
      if key ∈ index.map (·.1) then index.map (·.1) else index.map (·.1) ++ [key] := by
  induction index with
  | nil => rfl
  | cons entry index ih =>
    rw [put]
    by_cases hentry : entry.1.same key = true
    · obtain ⟨-, heq⟩ := Bool.and_eq_true_iff.mp hentry
      obtain rfl := of_decide_eq_true heq
      simp [hentry]
    · have hne : key ≠ entry.1 := by
        rintro rfl
        simp [Value.same, hkey] at hentry
      rw [if_neg hentry, List.map_cons, ih]
      by_cases hmem : key ∈ index.map (·.1)
      · simp [hmem]
      · simp [hmem, hne]

theorem nodup_put (hkey : key.isStructured = false) (value : α)
    (hindex : (index.map (·.1)).Nodup) : ((index.put key value).map (·.1)).Nodup := by
  rw [keys_put hkey]
  split
  · exact hindex
  · rename_i hnew
    exact List.nodup_append.mpr ⟨hindex, List.nodup_singleton key, fun k hk k' hk' heq =>
      hnew (List.mem_singleton.mp hk' ▸ heq ▸ hk)⟩

theorem length_put_le (key : Value) (value : α) (index : Index α) :
    (index.put key value).length ≤ index.length + 1 := by
  induction index with
  | nil => exact Nat.le_refl _
  | cons entry index ih =>
    rw [put]
    split
    · exact Nat.le_succ _
    · exact Nat.succ_le_succ ih

/-- What is given to a key is found under it, and nothing else changes. -/
theorem get?_put (hkey : key.isStructured = false) (value : α) (index : Index α) (other : Value) :
    get? (index.put key value) other = if other = key then some value else get? index other := by
  have hsame : ∀ v : Value, key.same v = decide (key = v) := by
    intro v
    simp [Value.same, hkey]
  unfold get?
  induction index with
  | nil =>
    rw [put, List.find?_cons, hsame]
    by_cases h : other = key
    · simp [h]
    · simp [h, Ne.symm h]
  | cons entry index ih =>
    rw [put]
    by_cases hentry : entry.1.same key = true
    · obtain ⟨-, hentry'⟩ := Bool.and_eq_true_iff.mp hentry
      obtain rfl := of_decide_eq_true hentry'
      rw [if_pos hentry, List.find?_cons, List.find?_cons, hsame]
      by_cases h : other = entry.1
      · simp [h]
      · simp [h, Ne.symm h]
    · rw [if_neg hentry, List.find?_cons, List.find?_cons]
      by_cases h : entry.1.same other = true
      · have hne : other ≠ key := fun h' => hentry (h' ▸ h)
        simp [h, hne]
      · simp only [h]
        exact ih

end Index

end Plebiscite
