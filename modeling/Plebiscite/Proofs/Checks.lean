import Mathlib.Data.List.Forall2

/-!
# What a passed check tells

Checks are computations that may refuse.  A chain of checks passes exactly when each of them passes
in turn, and a loop of checks exactly when every round does.

## Main results

- `bind_eq_ok`: chains of checks
- `forM_eq_ok`, `mapM_eq_ok`: the same check on every element
- `foldlM_distinct_eq_ok`: a loop that collects what it reads and refuses what it has seen before
- `FailsOnly.bind`, `FailsOnly.foldlM`: what all refusals of a chain and of a loop have in common
-/

namespace Plebiscite.Checks

variable {ε α β κ σ : Type}

/-! ## Chains -/

/-- A chain passes exactly when its first part does and then the rest. -/
@[simp]
theorem bind_eq_ok {x : Except ε α} {f : α → Except ε β} {b : β} :
    (x >>= f) = .ok b ↔ ∃ a, x = .ok a ∧ f a = .ok b := by
  cases x <;> simp [bind, Except.bind]

@[simp]
theorem pure_eq_ok {a b : α} : (pure a : Except ε α) = .ok b ↔ a = b := by
  simp [pure, Except.pure]

@[simp]
theorem throw_ne_ok {e : ε} {a : α} : (throw e : Except ε α) = .ok a ↔ False := by
  simp [throw, throwThe, MonadExceptOf.throw]

/-- A refusal under a condition is passed exactly when the condition fails. -/
@[simp]
theorem ite_throw_bind_eq_ok {p : Prop} [Decidable p] {e : ε} {f : β → Except ε α}
    {x : Except ε α} {a : α} :
    (if p then (throw e : Except ε β) >>= f else x) = .ok a ↔ ¬ p ∧ x = .ok a := by
  by_cases hp : p <;> simp [hp]

@[simp]
theorem map_eq_ok {x : Except ε α} {f : α → β} {b : β} :
    (f <$> x) = .ok b ↔ ∃ a, x = .ok a ∧ f a = b := by
  cases x <;> simp [Functor.map, Except.map]

@[simp]
theorem exceptMap_eq_ok {x : Except ε α} {f : α → β} {b : β} :
    x.map f = .ok b ↔ ∃ a, x = .ok a ∧ f a = b := by
  cases x <;> simp [Except.map]

/-! ## Loops -/

/-- The same check on every element of a list. -/
@[simp]
theorem forM_eq_ok {l : List α} {f : α → Except ε Unit} {u : Unit} :
    l.forM f = .ok u ↔ ∀ a ∈ l, f a = .ok () := by
  induction l with
  | nil => exact iff_of_true rfl (by simp)
  | cons a l ih =>
    have hstep : (a :: l).forM f = f a >>= fun _ => l.forM f := rfl
    rw [hstep, bind_eq_ok, List.forall_mem_cons, ← ih]
    exact ⟨fun ⟨_, h⟩ => h, fun h => ⟨(), h⟩⟩

/-- A list is read element by element. -/
theorem mapM_eq_ok {l : List α} {f : α → Except ε β} {out : List β} :
    l.mapM f = .ok out ↔ List.Forall₂ (fun a b => f a = .ok b) l out := by
  induction l generalizing out with
  | nil => cases out <;> simp [List.mapM_nil]
  | cons a l ih =>
    simp only [List.mapM_cons, bind_eq_ok, pure_eq_ok]
    constructor
    · rintro ⟨b, hb, bs, hbs, rfl⟩
      exact .cons hb (ih.mp hbs)
    · rintro (_ | ⟨hb, hbs⟩)
      exact ⟨_, hb, _, ih.mpr hbs, rfl⟩

/-- Everything that was read was read from something. -/
theorem exists_of_mem_right {R : α → β → Prop} {l : List α} {out : List β}
    (h : List.Forall₂ R l out) {b : β} (hb : b ∈ out) : ∃ a ∈ l, R a b := by
  induction h with
  | nil => cases hb
  | cons hR _ ih =>
    rcases List.mem_cons.mp hb with rfl | hb
    · exact ⟨_, List.mem_cons_self, hR⟩
    · obtain ⟨a, ha, haR⟩ := ih hb
      exact ⟨a, List.mem_cons_of_mem _ ha, haR⟩

/-- Something was read from every element. -/
theorem exists_of_mem_left {R : α → β → Prop} {l : List α} {out : List β}
    (h : List.Forall₂ R l out) {a : α} (ha : a ∈ l) : ∃ b ∈ out, R a b :=
  exists_of_mem_right h.flip ha

/-- What does not change in reading is the same for the whole list. -/
theorem map_eq_map {R : α → β → Prop} {f : α → κ} {g : β → κ} {l : List α} {out : List β}
    (h : List.Forall₂ R l out) (hR : ∀ a b, R a b → g b = f a) : out.map g = l.map f := by
  induction h with
  | nil => rfl
  | cons hab _ ih => rw [List.map_cons, List.map_cons, hR _ _ hab, ih]

/-- Where each element can be read in one way only, the list is read so. -/
theorem eq_map_of_forall₂ {R : α → β → Prop} {g : α → β} {l : List α} {out : List β}
    (h : List.Forall₂ R l out) (hR : ∀ a ∈ l, ∀ b, R a b → b = g a) : out = l.map g := by
  induction h with
  | nil => rfl
  | cons hab _ ih =>
    rw [List.map_cons, hR _ List.mem_cons_self _ hab,
      ih fun a ha => hR a (List.mem_cons_of_mem _ ha)]

/-- What is to be said of two lists may be said in other words about their elements. -/
theorem forall₂_iff {R S : α → β → Prop} {l : List α} {out : List β}
    (h : ∀ a ∈ l, ∀ b ∈ out, R a b ↔ S a b) : List.Forall₂ R l out ↔ List.Forall₂ S l out := by
  induction l generalizing out with
  | nil => simp
  | cons a l ih =>
    cases out with
    | nil => simp
    | cons b out =>
      rw [List.forall₂_cons, List.forall₂_cons, h a List.mem_cons_self b List.mem_cons_self,
        ih fun a ha b hb => h a (List.mem_cons_of_mem _ ha) b (List.mem_cons_of_mem _ hb)]

/-- A list can be read if every element can. -/
theorem exists_forall₂ {R : α → β → Prop} {l : List α} (h : ∀ a ∈ l, ∃ b, R a b) :
    ∃ out, List.Forall₂ R l out := by
  induction l with
  | nil => exact ⟨[], .nil⟩
  | cons a l ih =>
    obtain ⟨b, hb⟩ := h a List.mem_cons_self
    obtain ⟨bs, hbs⟩ := ih fun c hc => h c (List.mem_cons_of_mem _ hc)
    exact ⟨b :: bs, .cons hb hbs⟩

/-- What does not change in reading is the same for a part that is picked alike. -/
theorem filter_map_eq {R : α → β → Prop} {p : α → Bool} {q : β → Bool} {f : α → κ} {g : β → κ}
    {l : List α} {out : List β} (h : List.Forall₂ R l out)
    (hR : ∀ a b, R a b → q b = p a ∧ g b = f a) :
    (out.filter q).map g = (l.filter p).map f := by
  induction h with
  | nil => rfl
  | @cons a b l out hab _ ih =>
    obtain ⟨hpick, hvalue⟩ := hR _ _ hab
    by_cases hp : p a = true
    · rw [List.filter_cons_of_pos (hpick.trans hp), List.filter_cons_of_pos hp, List.map_cons,
        List.map_cons, hvalue, ih]
    · have hq : ¬ q b = true := by rwa [hpick]
      rw [List.filter_cons_of_neg hq, List.filter_cons_of_neg hp, ih]

/-- A loop that reads elements one after the other, refuses one whose key was seen, and adds the
others to a state, passes exactly when all can be read and all keys differ. -/
theorem foldlM_distinct_eq_ok (f : σ → α → Except ε σ) (reads : α → β → Prop) (key : β → κ)
    (seen : σ → List κ) (add : σ → β → σ)
    (hadd : ∀ s b, seen (add s b) = seen s ++ [key b])
    (hf : ∀ s a out, f s a = .ok out ↔
      ∃ b, reads a b ∧ key b ∉ seen s ∧ out = add s b)
    {l : List α} {s out : σ} :
    l.foldlM f s = .ok out ↔
      ∃ bs, List.Forall₂ reads l bs ∧ (bs.map key).Nodup ∧
        (∀ b ∈ bs, key b ∉ seen s) ∧ out = bs.foldl add s := by
  induction l generalizing s with
  | nil => simp [eq_comm (a := s)]
  | cons a l ih =>
    simp only [List.foldlM_cons, bind_eq_ok, hf, ih]
    constructor
    · -- The keys after this one differ from it, since it was added to those that were seen.
      rintro ⟨_, ⟨b, hb, hnew, rfl⟩, bs, hbs, hnodup, hseen, rfl⟩
      simp only [hadd, List.mem_append, List.mem_singleton, not_or] at hseen
      refine ⟨b :: bs, .cons hb hbs, ?_, ?_, rfl⟩
      · simp only [List.map_cons, List.nodup_cons, List.mem_map, not_exists, not_and]
        exact ⟨fun c hc => (hseen c hc).2, hnodup⟩
      · intro c hc
        rcases List.mem_cons.mp hc with rfl | hc
        · exact hnew
        · exact (hseen c hc).1
    · rintro ⟨_, _ | ⟨hb, hbs⟩, hnodup, hseen, rfl⟩
      rename_i b bs
      simp only [List.map_cons, List.nodup_cons, List.mem_map, not_exists, not_and] at hnodup
      refine ⟨_, ⟨b, hb, hseen b (by simp), rfl⟩, bs, hbs, hnodup.2, ?_, rfl⟩
      intro c hc
      simp only [hadd, List.mem_append, List.mem_singleton, not_or]
      exact ⟨hseen c (by simp [hc]), hnodup.1 c hc⟩

/-! ## Refusals -/

/-- Whatever is refused, is refused with a fault of one kind. -/
structure FailsOnly (P : ε → Prop) (x : Except ε α) : Prop where
  of_error : ∀ {e}, x = .error e → P e

namespace FailsOnly

variable {P : ε → Prop} {x : Except ε α}

theorem ok (a : α) : FailsOnly P (.ok a) where
  of_error h := by cases h

theorem error {e : ε} (he : P e) : FailsOnly P (.error e : Except ε α) where
  of_error h := by
    cases h
    exact he

theorem mono {Q : ε → Prop} (hx : FailsOnly P x) (hPQ : ∀ e, P e → Q e) : FailsOnly Q x where
  of_error h := hPQ _ (hx.of_error h)

theorem map {f : α → β} (hx : FailsOnly P x) : FailsOnly P (x.map f) := by
  cases x with
  | ok a => exact ok (f a)
  | error e => exact error (hx.of_error rfl)

/-- What comes later only matters if what comes first is passed. -/
theorem bind {f : α → Except ε β} (hx : FailsOnly P x)
    (hf : ∀ a, x = .ok a → FailsOnly P (f a)) : FailsOnly P (x >>= f) := by
  cases x with
  | ok a => exact hf a rfl
  | error e => exact error (hx.of_error rfl)

theorem ite {p : Prop} [Decidable p] {y : Except ε α} (hx : FailsOnly P x)
    (hy : FailsOnly P y) : FailsOnly P (if p then x else y) := by
  by_cases hp : p
  · rw [if_pos hp]
    exact hx
  · rw [if_neg hp]
    exact hy

theorem forM {l : List α} {f : α → Except ε Unit} (hf : ∀ a ∈ l, FailsOnly P (f a)) :
    FailsOnly P (l.forM f) := by
  induction l with
  | nil => exact ok ()
  | cons a l ih =>
    apply bind (hf a List.mem_cons_self)
    intro _ _
    exact ih fun b hb => hf b (List.mem_cons_of_mem _ hb)

theorem mapM {l : List α} {f : α → Except ε β} (hf : ∀ a ∈ l, FailsOnly P (f a)) :
    FailsOnly P (l.mapM f) := by
  induction l with
  | nil => exact ok []
  | cons a l ih =>
    rw [List.mapM_cons]
    apply bind (hf a List.mem_cons_self)
    intro b _
    apply bind (ih fun c hc => hf c (List.mem_cons_of_mem _ hc))
    intro bs _
    exact ok (b :: bs)

theorem foldlM {l : List α} {f : σ → α → Except ε σ} (hf : ∀ s, ∀ a ∈ l, FailsOnly P (f s a))
    (s : σ) : FailsOnly P (l.foldlM f s) := by
  induction l generalizing s with
  | nil => exact ok s
  | cons a l ih =>
    rw [List.foldlM_cons]
    apply bind (hf s a List.mem_cons_self)
    intro s' _
    exact ih (fun t b hb => hf t b (List.mem_cons_of_mem _ hb)) s'

end FailsOnly

end Plebiscite.Checks
