import Mathlib.Data.List.Forall2
import Plebiscite.Proofs.Ledger.Step

/-!
# Two ledgers side by side

The same steps are taken at two ledgers that are related.  As long as their checks go the same way,
they write what corresponds, so the ledgers stay related, and both pass or both are refused with
the same code.  What else may come of them is said apart.

## Main definitions

- `Agree`: two checks that go the same way
- `Ledger.Step.outcome`, `Ledger.Step.left`: what came of a step, and the ledger that it left
- `Ledger.Step.Alike`: two steps that went the same way, up to what is said apart

## Main results

- `Ledger.Step.Alike.bind`, `Ledger.Step.Alike.check_bind`, `Ledger.Step.Alike.modify_bind`: steps
  one after the other
- `Ledger.Step.Alike.forM_bind`: a loop that writes
-/

namespace Plebiscite

variable {α β α' β' : Type}

/-! ## Checks -/

/-- Two checks that go the same way: they pass with results that correspond, or they are refused
with the same code. -/
inductive Agree (V : α → β → Prop) : Except Fault α → Except Fault β → Prop
  | ok {a : α} {b : β} (h : V a b) : Agree V (.ok a) (.ok b)
  | error {f g : Fault} (h : g.code = f.code) : Agree V (.error f) (.error g)

theorem Agree.refl (r : Except Fault α) : Agree Eq r r := by
  cases r with
  | ok a => exact .ok rfl
  | error f => exact .error rfl

/-- What comes after checks that agree is only compared where both passed. -/
theorem Agree.bind {V : α → β → Prop} {V' : α' → β' → Prop} {r : Except Fault α}
    {r' : Except Fault β} {k : α → Except Fault α'} {k' : β → Except Fault β'}
    (hr : Agree V r r') (hk : ∀ a b, V a b → Agree V' (k a) (k' b)) :
    Agree V' (r >>= k) (r' >>= k') := by
  cases hr with
  | ok h => exact hk _ _ h
  | error h => exact .error h

namespace Ledger.Step

/-! ## Steps -/

/-- What came of a step. -/
def outcome : EStateM.Result Fault Ledger α → Except Fault α
  | .ok a _ => .ok a
  | .error f _ => .error f

/-- The ledger that a step left behind. -/
def left : EStateM.Result Fault Ledger α → Ledger
  | .ok _ l => l
  | .error _ l => l

/-- Two steps that agreed, or that ended in one of the ways in `E`, and that left ledgers behind
that are related by `S`. -/
inductive Alike (S : Ledger → Ledger → Prop) (V : α → β → Prop)
    (E : Except Fault α → Except Fault β → Prop) :
    EStateM.Result Fault Ledger α → EStateM.Result Fault Ledger β → Prop
  | passed {a : α} {b : β} {l l' : Ledger} (h : V a b) (hS : S l l') :
      Alike S V E (.ok a l) (.ok b l')
  | refused {f g : Fault} {l l' : Ledger} (h : g.code = f.code) (hS : S l l') :
      Alike S V E (.error f l) (.error g l')
  | apart {r : EStateM.Result Fault Ledger α} {r' : EStateM.Result Fault Ledger β}
      (h : E (outcome r) (outcome r')) (hS : S (left r) (left r')) : Alike S V E r r'

/-- No other way. -/
def Never (_ : Except Fault α) (_ : Except Fault β) : Prop :=
  False

namespace Alike

variable {S : Ledger → Ledger → Prop} {l l' : Ledger} {V : α → β → Prop} {V' : α' → β' → Prop}
  {E : Except Fault α → Except Fault β → Prop} {E' : Except Fault α' → Except Fault β' → Prop}
  {m : Step α} {m' : Step β} {k : α → Step α'} {k' : β → Step β'}

theorem left {r : EStateM.Result Fault Ledger α} {r' : EStateM.Result Fault Ledger β}
    (h : Alike S V E r r') : S (left r) (left r') := by
  cases h with
  | passed _ hS => exact hS
  | refused _ hS => exact hS
  | apart _ hS => exact hS

theorem outcome {r : EStateM.Result Fault Ledger α} {r' : EStateM.Result Fault Ledger β}
    (h : Alike S V E r r') : Agree V (outcome r) (outcome r') ∨ E (outcome r) (outcome r') := by
  cases h with
  | passed h _ => exact .inl (.ok h)
  | refused h _ => exact .inl (.error h)
  | apart h _ => exact .inr h

/-- What comes after steps that agreed is only compared where both passed. -/
theorem bind (hm : Alike S V Never (m l) (m' l'))
    (hk : ∀ a b l₁ l₁', V a b → S l₁ l₁' → Alike S V' E' (k a l₁) (k' b l₁')) :
    Alike S V' E' ((m >>= k) l) ((m' >>= k') l') := by
  show Alike S V' E' (EStateM.bind m k l) (EStateM.bind m' k' l')
  rw [EStateM.bind, EStateM.bind]
  generalize m l = r, m' l' = r' at hm
  cases hm with
  | passed h hS => exact hk _ _ _ _ h hS
  | refused h hS => exact .refused h hS
  | apart h hS => exact h.elim

/-- The answer is put in another form at the end. -/
theorem map {g : α → α'} {g' : β → β'} (hm : Alike S V E (m l) (m' l'))
    (hV : ∀ a b, V a b → V' (g a) (g' b)) (hE : ∀ r r', E r r' → E' (r.map g) (r'.map g')) :
    Alike S V' E' ((g <$> m) l) ((g' <$> m') l') := by
  show Alike S V' E' (EStateM.map g m l) (EStateM.map g' m' l')
  rw [EStateM.map, EStateM.map]
  generalize m l = r, m' l' = r' at hm
  cases hm with
  | passed h hS => exact .passed (hV _ _ h) hS
  | refused h hS => exact .refused h hS
  | apart h hS => cases r <;> cases r' <;> exact .apart (hE _ _ h) hS

theorem check_bind {r : Except Fault α} {r' : Except Fault β} (hr : Agree V r r') (hS : S l l')
    (hk : ∀ a b, r = .ok a → r' = .ok b → V a b → Alike S V' E' (k a l) (k' b l')) :
    Alike S V' E' ((check r >>= k) l) ((check r' >>= k') l') := by
  cases hr with
  | ok h => exact hk _ _ rfl rfl h
  | error h =>
    -- A check writes nothing, so the ledgers are those from before.
    exact .refused h hS

/-- The same check. -/
theorem same_bind {r : Except Fault α} {k k' : α → Step α'} {V' : α' → α' → Prop}
    {E' : Except Fault α' → Except Fault α' → Prop} (hS : S l l')
    (hk : ∀ a, r = .ok a → Alike S V' E' (k a l) (k' a l')) :
    Alike S V' E' ((check r >>= k) l) ((check r >>= k') l') := by
  apply check_bind (Agree.refl r) hS
  intro a b ha _ hab
  rw [← hab]
  exact hk a ha

/-- A refusal before the rest. -/
theorem throw_bind {f g : Fault} (hS : S l l') (h : g.code = f.code) :
    Alike S V' E' (((throw f : Step α) >>= k) l) (((throw g : Step β) >>= k') l') :=
  .refused h hS

theorem get_bind {k k' : Ledger → Step α'} {V' : α' → α' → Prop}
    {E' : Except Fault α' → Except Fault α' → Prop} (hk : Alike S V' E' (k l l) (k' l' l')) :
    Alike S V' E' ((get >>= k) l) ((get >>= k') l') :=
  hk

theorem modify_bind {f f' : Ledger → Ledger} {k : Unit → Step α'} {k' : Unit → Step β'}
    (hk : Alike S V' E' (k () (f l)) (k' () (f' l'))) :
    Alike S V' E' ((modify f >>= k) l) ((modify f' >>= k') l') :=
  hk

/-- A loop that writes for one element after the other. -/
theorem forM_bind {γ : Type} {R : γ → γ → Prop} {f f' : γ → Ledger → Ledger} {todo todo' : List γ}
    {k : Unit → Step α'} {k' : Unit → Step β'} (htodo : List.Forall₂ R todo todo') (hS : S l l')
    (hf : ∀ a b l l', R a b → S l l' → S (f a l) (f' b l'))
    (hk : ∀ l l', S l l' → Alike S V' E' (k () l) (k' () l')) :
    Alike S V' E' ((todo.forM (fun a => modify (f a)) >>= k) l)
      ((todo'.forM (fun a => modify (f' a)) >>= k') l') := by
  induction htodo generalizing l l' with
  | nil => exact hk _ _ hS
  | cons hab _ ih => exact ih (hf _ _ _ _ hab hS)

end Alike

end Ledger.Step

end Plebiscite
