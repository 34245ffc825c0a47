import Plebiscite.Proofs.Canonical.Whole
import Plebiscite.Proofs.Units

/-!
# Canonical texts are read in one way only

It is known where the text of a value ends, and with that what the parts of a sequence and of an
object are.  A text in quotation marks is told by what it stands for, a sequence by the texts of its
elements, and an object by the texts of its properties, in whatever order they are listed.

## Main definitions

- `Canonical.unescape`: what was escaped
- `Canonical.written`: the text of a value as a property, if it is written at all
- `Canonical.Regular`: properties that an object is told by

## Main results

- `Canonical.quote_inj`: texts in quotation marks
- `Canonical.chars_array_inj`, `Canonical.chars_object_iff`: the texts of sequences and objects tell
  the texts of their parts, and nothing else
-/

namespace Plebiscite.Canonical

/-! ## Texts in quotation marks -/

/-- The value of a hexadecimal digit. -/
def hexValue (c : Char) : Nat :=
  if c.toNat < 58 then c.toNat - 48 else c.toNat - 87

/-- The first character of what was escaped, and the rest. -/
def unescape : List Char → Option (Char × List Char)
  | '\\' :: 'u' :: '0' :: '0' :: a :: b :: cs =>
    some (Char.ofNat (16 * hexValue a + hexValue b), cs)
  | '\\' :: 'b' :: cs => some (Char.ofNat 8, cs)
  | '\\' :: 't' :: cs => some (Char.ofNat 9, cs)
  | '\\' :: 'n' :: cs => some (Char.ofNat 10, cs)
  | '\\' :: 'f' :: cs => some (Char.ofNat 12, cs)
  | '\\' :: 'r' :: cs => some (Char.ofNat 13, cs)
  | '\\' :: c :: cs => some (c, cs)
  | c :: cs => some (c, cs)
  | [] => none

theorem hexValue_hexDigit (n : Nat) : hexValue (hexDigit n) = n % 16 := by
  have hall : ∀ k < 16, hexValue (Nat.digitChar k) = k := by
    decide
  exact hall (n % 16) (Nat.mod_lt n (by decide))

theorem unescape_escape (c : Char) (cs : List Char) : unescape (escape c ++ cs) = some (c, cs) := by
  have hnat : ∀ n, c.toNat = n → Char.ofNat n = c := by
    rintro n rfl
    exact Char.ofNat_toNat c
  unfold escape
  split_ifs with hquote hbackslash hb ht hn hf hr hcontrol
  · rw [hquote]
    rfl
  · rw [hbackslash]
    rfl
  · rw [← hnat 8 hb]
    rfl
  · rw [← hnat 9 ht]
    rfl
  · rw [← hnat 10 hn]
    rfl
  · rw [← hnat 12 hf]
    rfl
  · rw [← hnat 13 hr]
    rfl
  · have hcode : 16 * (c.toNat / 16 % 16) + c.toNat % 16 = c.toNat := by omega
    show some (Char.ofNat (16 * hexValue (hexDigit (c.toNat / 16)) + hexValue (hexDigit c.toNat)),
      cs) = _
    rw [hexValue_hexDigit, hexValue_hexDigit, hcode, Char.ofNat_toNat]
  · -- Without a backslash the character stands for itself.
    show unescape (c :: cs) = _
    unfold unescape
    split <;> simp_all

/-- A text is told by what stands in the quotation marks. -/
theorem quote_inj {s t : String} : quote s = quote t ↔ s = t := by
  -- What was escaped is read back one character after the other.
  have hbody : ∀ cs ds : List Char, cs.flatMap escape = ds.flatMap escape → cs = ds := by
    intro cs
    induction cs with
    | nil =>
      intro ds hds
      cases ds with
      | nil => rfl
      | cons d ds =>
        have hread := unescape_escape d (ds.flatMap escape)
        rw [← List.flatMap_cons, ← hds] at hread
        cases hread
    | cons c cs ih =>
      intro ds hds
      have hread := unescape_escape c (cs.flatMap escape)
      rw [← List.flatMap_cons, hds] at hread
      cases ds with
      | nil => cases hread
      | cons d ds =>
        rw [List.flatMap_cons, unescape_escape, Option.some.injEq, Prod.mk.injEq] at hread
        obtain ⟨rfl, hrest⟩ := hread
        rw [ih ds hrest.symm]
  constructor
  · intro h
    have hquoted : s.toList.flatMap escape = t.toList.flatMap escape :=
      List.append_cancel_right (List.cons.inj h).2
    exact String.toList_inj.mp (hbody _ _ hquoted)
  · rintro rfl
    rfl

/-! ## Parts between commas -/

section Parts

variable {α : Type} {text : α → List Char} {close : Char}

/-- What follows the first part, up to the end. -/
def afterFirst (close : Char) : List (List Char) → List Char
  | [] => [close]
  | parts => ',' :: commaSeparated parts ++ [close]

theorem commaSeparated_cons (close : Char) (part : List Char) (parts : List (List Char)) :
    commaSeparated (part :: parts) ++ [close] = part ++ afterFirst close parts := by
  cases parts <;> simp [commaSeparated, afterFirst]

theorem follows_afterFirst (hclose : close ∈ delimiters) (parts : List (List Char)) :
    Follows (afterFirst close parts) := by
  cases parts with
  | nil =>
    rintro c ⟨⟩
    exact hclose
  | cons part parts =>
    rintro c ⟨⟩
    decide

/-- Parts that are cut off in one way only, and do not begin as the whole ends, are told by the text
that they make together. -/
theorem commaSeparated_inj (hclose : close ∈ delimiters) (hcomma : close ≠ ',') {as bs : List α}
    (hcut : ∀ a ∈ as, ∀ b ∈ bs, ∀ r s, Follows r → Follows s → text a ++ r = text b ++ s →
      a = b ∧ r = s)
    (hbegin : ∀ a ∈ as ++ bs, ∃ c rest, text a = c :: rest ∧ c ≠ close)
    (h : commaSeparated (as.map text) ++ [close] = commaSeparated (bs.map text) ++ [close]) :
    as = bs := by
  induction as generalizing bs with
  | nil =>
    cases bs with
    | nil => rfl
    | cons b bs =>
      -- One text is at its end, and the other goes on with a part, which does not begin like that.
      obtain ⟨c, rest, hb, hc⟩ := hbegin b (by simp)
      rw [List.map_cons, commaSeparated_cons, hb] at h
      exact absurd (List.cons.inj h).1.symm hc
  | cons a as ih =>
    cases bs with
    | nil =>
      obtain ⟨c, rest, ha, hc⟩ := hbegin a (by simp)
      rw [List.map_cons, commaSeparated_cons, ha] at h
      exact absurd (List.cons.inj h).1 hc
    | cons b bs =>
      rw [List.map_cons, List.map_cons, commaSeparated_cons, commaSeparated_cons] at h
      obtain ⟨rfl, hrest⟩ := hcut a List.mem_cons_self b List.mem_cons_self _ _
        (follows_afterFirst hclose _) (follows_afterFirst hclose _) h
      congr 1
      -- Either both lists end here, or both go on after a comma.
      cases as with
      | nil =>
        cases bs with
        | nil => rfl
        | cons b bs => exact absurd (List.cons.inj hrest).1 hcomma
      | cons a' as =>
        cases bs with
        | nil => exact absurd (List.cons.inj hrest).1.symm hcomma
        | cons b bs =>
          refine ih (fun a ha b hb => ?_) (fun a ha => hbegin a ?_) (List.cons.inj hrest).2
          · exact hcut a (List.mem_cons_of_mem _ ha) b (List.mem_cons_of_mem _ hb)
          · rcases List.mem_append.mp ha with ha | ha
            · exact List.mem_append_left _ (List.mem_cons_of_mem _ ha)
            · exact List.mem_append_right _ (List.mem_cons_of_mem _ ha)

end Parts

/-! ## Sequences -/

theorem chars_ne_nil (v : Value) : chars v ≠ [] := by
  cases v with
  | bool b => cases b <;> decide
  | number n =>
    cases n with
    | finite q => exact Number.finiteText_ne_nil q
    | nan | infinite => exact List.cons_ne_nil _ _
  | integer n =>
    rw [chars, Number.toList_toString]
    simp
  | object fs =>
    rw [chars]
    split <;> exact List.cons_ne_nil _ _
  | absent | null | text | array => exact List.cons_ne_nil _ _

theorem exists_of_chars (v : Value) : ∃ c rest, chars v = c :: rest ∧ c ∉ delimiters := by
  obtain ⟨c, rest, hchars⟩ := List.exists_cons_of_ne_nil (chars_ne_nil v)
  refine ⟨c, rest, hchars, fun hc => ?_⟩
  have hempty : Whole [] := fun _ => rfl
  have hwhole := whole_chars v
  rw [hchars] at hwhole
  exact not_whole_of_delimiter hempty hc hwhole

theorem itemChars_eq (vs : List Value) : itemChars vs = vs.map chars := by
  induction vs with
  | nil => rfl
  | cons v vs ih => rw [itemChars, ih, List.map_cons]

/-- A sequence is told by the texts of its elements. -/
theorem chars_array_inj {vs ws : List Value} :
    chars (.array vs) = chars (.array ws) ↔ vs.map chars = ws.map chars := by
  rw [chars, chars, itemChars_eq, itemChars_eq]
  constructor
  · intro h
    have hitems := (List.cons.inj h).2
    -- The parts are the texts themselves.
    rw [← List.map_id (vs.map chars), ← List.map_id (ws.map chars)] at hitems
    refine commaSeparated_inj (by decide) (by decide) ?_ ?_ hitems
    · intro a ha b hb r s hr hs hab
      obtain ⟨v, -, rfl⟩ := List.mem_map.mp ha
      obtain ⟨w, -, rfl⟩ := List.mem_map.mp hb
      exact eq_of_append_eq (whole_chars v) (whole_chars w) hr hs hab
    · intro a ha
      rw [← List.map_append] at ha
      obtain ⟨v, -, rfl⟩ := List.mem_map.mp ha
      obtain ⟨c, rest, hchars, hc⟩ := exists_of_chars v
      refine ⟨c, rest, hchars, ?_⟩
      rintro rfl
      exact hc (by decide)
  · intro h
    rw [h]

/-! ## Objects -/

theorem braced_inj {ps qs : List Property} (hps : ∀ p ∈ ps, Whole p.body)
    (hqs : ∀ q ∈ qs, Whole q.body) (h : braced ps = braced qs) : ps = qs := by
  refine @commaSeparated_inj _ Property.chars _ (by decide) (by decide) ps qs ?_ ?_
    (List.cons.inj h).2
  · intro p hp q hq r s hr hs hpq
    have hcolon : ∀ rest : List Char, Follows (':' :: rest) := by
      rintro rest c ⟨⟩
      decide
    -- The name is cut off at the colon, and then the value where it ends.
    simp only [Property.chars, List.append_assoc, List.cons_append] at hpq
    obtain ⟨hname, hrest⟩ := eq_of_append_eq (whole_quote p.name) (whole_quote q.name)
      (hcolon _) (hcolon _) hpq
    obtain ⟨hbody, hrs⟩ := eq_of_append_eq (hps p hp) (hqs q hq) hr hs (List.cons.inj hrest).2
    obtain ⟨name, body⟩ := p
    obtain ⟨name', body'⟩ := q
    cases quote_inj.mp hname
    cases hbody
    exact ⟨rfl, hrs⟩
  · intro p _
    exact ⟨'"', _, rfl, by decide⟩

/-- The text of a value as a property, if it is written at all. -/
def written (v : Value) : Option (List Char) :=
  v.present?.map chars

variable {fs gs : List (String × Value)}

theorem get_cons (first name : String) (v : Value) :
    (Value.object ((first, v) :: fs)).get name =
      if name = first then v else (Value.object fs).get name := by
  simp only [Value.get, Value.fields, List.lookup_cons]
  by_cases h : name = first
  · simp [h]
  · simp [h, beq_false_of_ne h]

theorem get_eq_absent {name : String} (h : name ∉ fs.map Prod.fst) :
    (Value.object fs).get name = .absent := by
  induction fs with
  | nil => rfl
  | cons f fs ih =>
    rw [List.map_cons, List.mem_cons, not_or] at h
    rw [get_cons, if_neg h.1, ih h.2]

theorem properties_cons (name : String) (v : Value) :
    properties ((name, v) :: fs) =
      ((written v).map (Property.mk name)).toList ++ properties fs := by
  cases v <;> rfl

/-- Where no two properties share a name, what is written under a name is the text of the value
under that name. -/
theorem mem_properties (hnames : (fs.map Prod.fst).Nodup) {name : String} {body : List Char} :
    ⟨name, body⟩ ∈ properties fs ↔ written ((Value.object fs).get name) = some body := by
  induction fs with
  | nil => simp [properties, written, Value.get, Value.fields, Value.present?]
  | cons f fs ih =>
    obtain ⟨first, v⟩ := f
    obtain ⟨hfirst, hrest⟩ := List.nodup_cons.mp hnames
    rw [properties_cons, List.mem_append, ih hrest, get_cons]
    by_cases hname : name = first
    · subst hname
      rw [if_pos rfl, get_eq_absent hfirst]
      simp [written, Value.present?]
    · rw [if_neg hname]
      simp [Ne.symm hname]

theorem properties_names_sublist (fs : List (String × Value)) :
    ((properties fs).map Property.name).Sublist (fs.map Prod.fst) := by
  induction fs with
  | nil => exact List.Sublist.refl []
  | cons f fs ih =>
    obtain ⟨name, v⟩ := f
    rw [properties_cons, List.map_append, List.map_cons]
    cases written v with
    | none => exact ih.cons name
    | some body => exact ih.cons_cons name

/-- Properties with names of their own have one order. -/
theorem sorted_eq_of_perm {ps qs : List Property} (hnames : (ps.map Property.name).Nodup)
    (h : ps.Perm qs) : sorted ps = sorted qs := by
  have hpairwise : ∀ rs : List Property,
      (sorted rs).Pairwise fun p q => Units.notAfter p.name q.name = true := by
    intro rs
    apply List.pairwise_mergeSort
    · exact fun p q r => Units.notAfter_trans p.name q.name r.name
    · exact fun p q => Units.notAfter_total p.name q.name
  have hperm : (sorted ps).Perm (sorted qs) :=
    (List.mergeSort_perm ps _).trans (h.trans (List.mergeSort_perm qs _).symm)
  refine hperm.eq_of_pairwise (fun p q hp hq hpq hqp => ?_) (hpairwise ps) (hpairwise qs)
  -- Neither name is after the other, so they have the same code units.
  have hname : p.name = q.name :=
    Units.ofText_injective (le_antisymm (Units.notAfter_iff.mp hpq) (Units.notAfter_iff.mp hqp))
  exact List.inj_on_of_nodup_map hnames (mem_sorted.mp hp) (h.mem_iff.mpr (mem_sorted.mp hq)) hname

/-- Properties without two of the same name, none of which claims a form of its own. -/
structure Regular (fs : List (String × Value)) : Prop where
  names : (fs.map Prod.fst).Nodup
  own : hasOwnForm fs = false

theorem Regular.chars_eq (h : Regular fs) : chars (.object fs) = braced (sorted (properties fs)) := by
  rw [chars, h.own]
  rfl

/-- An object is told by the texts that are written under its names, whatever the order is in which
they are listed. -/
theorem chars_object_iff (hfs : Regular fs) (hgs : Regular gs) :
    chars (.object fs) = chars (.object gs) ↔
      ∀ name, written ((Value.object fs).get name) = written ((Value.object gs).get name) := by
  rw [hfs.chars_eq, hgs.chars_eq]
  have hwhole : ∀ hs : List (String × Value), ∀ p ∈ sorted (properties hs), Whole p.body :=
    fun hs p hp => whole_properties hs p (mem_sorted.mp hp)
  constructor
  · intro h name
    have hsorted := braced_inj (hwhole fs) (hwhole gs) h
    have hmem : ∀ p, p ∈ properties fs ↔ p ∈ properties gs := by
      intro p
      rw [← mem_sorted, hsorted, mem_sorted]
    ext body
    simp only [← mem_properties hfs.names, ← mem_properties hgs.names, hmem]
  · intro h
    -- The same is written under every name, so what is sorted is the same up to its order.
    have hnames := (properties_names_sublist fs).nodup hfs.names
    have hnames' := (properties_names_sublist gs).nodup hgs.names
    have hperm : (properties fs).Perm (properties gs) := by
      refine (List.perm_ext_iff_of_nodup (.of_map _ hnames) (.of_map _ hnames')).mpr ?_
      rintro ⟨name, body⟩
      rw [mem_properties hfs.names, mem_properties hgs.names, h name]
    rw [sorted_eq_of_perm hnames hperm]

end Plebiscite.Canonical
