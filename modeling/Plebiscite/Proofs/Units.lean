import Mathlib.Data.List.Lex
import Plebiscite.Units

/-!
# The order of texts

Texts are ordered by their code units, one after the other, and so any two texts compare.

## Main results

- `notAfter_trans`, `notAfter_total`: the order is total
- `ofText_injective`: texts with the same code units are the same
-/

namespace Plebiscite.Units

theorem notAfter_iff {a b : String} : notAfter a b = true ↔ ofText a ≤ ofText b := by
  simp [notAfter, before]

theorem notAfter_trans (a b c : String) (hab : notAfter a b = true)
    (hbc : notAfter b c = true) : notAfter a c = true := by
  rw [notAfter_iff] at *
  exact hab.trans hbc

theorem notAfter_total (a b : String) : (notAfter a b || notAfter b a) = true := by
  rw [Bool.or_eq_true, notAfter_iff, notAfter_iff]
  exact le_total _ _

/-! ## Texts told apart -/

theorem toNat_lt (c : Char) : c.toNat < 0xD800 ∨ 0xDFFF < c.toNat ∧ c.toNat < 0x110000 :=
  c.valid

/-- No character stands for one half of a pair, so the first unit tells how many there are. -/
theorem ofChar_append_inj {c d : Char} {us vs : List Nat}
    (h : ofChar c ++ us = ofChar d ++ vs) : c = d ∧ us = vs := by
  have hc := toNat_lt c
  have hd := toNat_lt d
  have hinj : c.toNat = d.toNat → c = d := fun heq => Char.toNat_inj.mp heq
  unfold ofChar at h
  split at h <;> split at h <;> simp only [List.cons_append, List.nil_append, List.cons.injEq] at h
  · exact ⟨hinj h.1, h.2⟩
  · omega
  · omega
  · exact ⟨hinj (by omega), h.2.2⟩

theorem ofText_injective {a b : String} (h : ofText a = ofText b) : a = b := by
  suffices hlists : ∀ cs ds : List Char, cs.flatMap ofChar = ds.flatMap ofChar → cs = ds by
    exact String.toList_inj.mp (hlists _ _ h)
  have hne : ∀ c : Char, ofChar c ≠ [] := by
    intro c
    unfold ofChar
    split <;> simp
  intro cs
  induction cs with
  | nil =>
    intro ds hds
    cases ds with
    | nil => rfl
    | cons d ds => exact absurd (List.append_eq_nil_iff.mp hds.symm).1 (hne d)
  | cons c cs ih =>
    intro ds hds
    cases ds with
    | nil => exact absurd (List.append_eq_nil_iff.mp hds).1 (hne c)
    | cons d ds =>
      obtain ⟨rfl, hrest⟩ := ofChar_append_inj hds
      rw [ih ds hrest]

/-- Different texts in ascending order ascend strictly. -/
theorem pairwise_before {names : List String}
    (hascending : names.Pairwise fun a b => notAfter a b = true) (hdistinct : names.Nodup) :
    names.Pairwise fun a b => before a b = true := by
  refine (hascending.and hdistinct).imp fun {a b} ⟨hab, hne⟩ => ?_
  exact decide_eq_true (lt_of_le_of_ne (notAfter_iff.mp hab) fun h => hne (ofText_injective h))

theorem nodup_of_pairwise_before {names : List String}
    (h : names.Pairwise fun a b => before a b = true) : names.Nodup := by
  refine h.imp fun {a b} hab heq => ?_
  subst heq
  exact lt_irrefl _ (of_decide_eq_true hab)

end Plebiscite.Units
