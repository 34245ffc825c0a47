import Plebiscite.Proofs.Number.Text
import Plebiscite.Value.Canonical

/-!
# Where the text of a value ends

A text is walked through from left to right, and all that has to be remembered is how many brackets
are open and whether the place is between quotation marks.  The text of a value leaves this as it
was, and meets no comma, colon or closing bracket of its surroundings on the way.  So it is known
where the text of a value ends, whatever follows it.

## Main definitions

- `Canonical.Place`, `Canonical.walk`: how far a text is read
- `Canonical.Whole`: texts that leave the place as it was

## Main results

- `Canonical.whole_plainChars`, `Canonical.whole_chars`: the text of every value is whole
- `Canonical.eq_of_append_eq`: whole texts are cut off in one way only
-/

namespace Plebiscite.Canonical

/-! ## Walking through a text -/

/-- Whether a place is between quotation marks. -/
inductive Mode where
  | outside
  | quoted
  /-- Right after a backslash. -/
  | escaped
deriving DecidableEq, Repr

/-- A place in a text. -/
structure Place where
  /-- The number of brackets that are open. -/
  depth : Nat
  mode : Mode
deriving DecidableEq, Repr

/-- The characters by which something open ends. -/
def delimiters : List Char :=
  [',', ':', ']', '\x7d']

/-- The place after one character.  A delimiter of what surrounds the text is not passed. -/
def step (p : Place) (c : Char) : Option Place :=
  match p.mode with
  -- Whatever is escaped, it does not end the quotation.
  | .escaped => some { p with mode := .quoted }
  | .quoted =>
    if c = '"' then some { p with mode := .outside }
    else if c = '\\' then some { p with mode := .escaped }
    else some p
  | .outside =>
    if c = '"' then some { p with mode := .quoted }
    else if c = '[' ∨ c = '\x7b' then some { p with depth := p.depth + 1 }
    else match p.depth with
      -- Nothing is open, so a delimiter belongs to what surrounds the text.
      | 0 => if c ∈ delimiters then none else some p
      | depth + 1 => if c = ']' ∨ c = '\x7d' then some { p with depth } else some p

/-- The place after a text, if that is passed. -/
def walk (p : Place) : List Char → Option Place
  | [] => some p
  | c :: cs => (step p c).bind fun q => walk q cs

theorem walk_append (p : Place) (x y : List Char) :
    walk p (x ++ y) = (walk p x).bind fun q => walk q y := by
  induction x generalizing p with
  | nil => rfl
  | cons c x ih =>
    simp only [List.cons_append, walk, Option.bind_assoc]
    congr 1
    funext q
    exact ih q

/-- A text that leaves the place as it was, also where nothing is open. -/
def Whole (x : List Char) : Prop :=
  ∀ depth, walk ⟨depth, .outside⟩ x = some ⟨depth, .outside⟩

/-- A text that leaves the place as it was within brackets. -/
def Inner (x : List Char) : Prop :=
  ∀ depth, walk ⟨depth + 1, .outside⟩ x = some ⟨depth + 1, .outside⟩

variable {x y r s : List Char}

theorem Whole.inner (h : Whole x) : Inner x := fun depth => h (depth + 1)

theorem Inner.append (hx : Inner x) (hy : Inner y) : Inner (x ++ y) := by
  intro depth
  rw [walk_append, hx depth]
  exact hy depth

theorem inner_comma : Inner [','] := fun _ => rfl

theorem inner_colon : Inner [':'] := fun _ => rfl

/-! ## Whole texts -/

/-- The characters that open, close or separate something. -/
def signs : List Char :=
  '"' :: '[' :: '\x7b' :: delimiters

theorem step_of_notMem_signs {c : Char} (h : c ∉ signs) (depth : Nat) :
    step ⟨depth, .outside⟩ c = some ⟨depth, .outside⟩ := by
  simp only [signs, delimiters, List.mem_cons, List.not_mem_nil, or_false, not_or] at h
  cases depth <;> simp [step, delimiters, h]

theorem whole_of_notMem_signs (h : ∀ c ∈ x, c ∉ signs) : Whole x := by
  intro depth
  induction x with
  | nil => rfl
  | cons c x ih =>
    rw [walk, step_of_notMem_signs (h c List.mem_cons_self)]
    exact ih fun d hd => h d (List.mem_cons_of_mem c hd)

theorem mem_hexDigit (n : Nat) : hexDigit n ≠ '"' ∧ hexDigit n ≠ '\\' := by
  have hall : ∀ k < 16, Nat.digitChar k ≠ '"' ∧ Nat.digitChar k ≠ '\\' := by
    decide
  exact hall (n % 16) (Nat.mod_lt n (by decide))

/-- A character is written as it is, or as a backslash with something after it. -/
theorem escape_cases (c : Char) :
    (escape c = [c] ∧ c ≠ '"' ∧ c ≠ '\\') ∨
      ∃ d ds, escape c = '\\' :: d :: ds ∧ ∀ e ∈ ds, e ≠ '"' ∧ e ≠ '\\' := by
  unfold escape
  split_ifs with hquote hbackslash
  case neg => exact .inl ⟨rfl, hquote, hbackslash⟩
  all_goals
    refine .inr ⟨_, _, rfl, ?_⟩
    simp [mem_hexDigit]

/-- What is escaped neither ends the quotation nor is left open. -/
theorem walk_escape (depth : Nat) (c : Char) :
    walk ⟨depth, .quoted⟩ (escape c) = some ⟨depth, .quoted⟩ := by
  rcases escape_cases c with ⟨hescape, hquote, hbackslash⟩ | ⟨d, ds, hescape, hds⟩
  · rw [hescape]
    simp [walk, step, hquote, hbackslash]
  · have hrest : walk ⟨depth, .quoted⟩ ds = some ⟨depth, .quoted⟩ := by
      clear hescape
      induction ds with
      | nil => rfl
      | cons e ds ih =>
        obtain ⟨hquote, hbackslash⟩ := hds e List.mem_cons_self
        have hstep : step ⟨depth, .quoted⟩ e = some ⟨depth, .quoted⟩ := by
          simp [step, hquote, hbackslash]
        rw [walk, hstep]
        exact ih fun e' he' => hds e' (List.mem_cons_of_mem e he')
    rw [hescape]
    exact hrest

theorem whole_quote (s : String) : Whole (quote s) := by
  have hbody : ∀ (depth : Nat) (cs : List Char),
      walk ⟨depth, .quoted⟩ (cs.flatMap escape ++ ['"']) = some ⟨depth, .outside⟩ := by
    intro depth cs
    induction cs with
    | nil => rfl
    | cons c cs ih =>
      rw [List.flatMap_cons, List.append_assoc, walk_append, walk_escape]
      exact ih
  -- The first mark goes inside, and the last one comes back.
  exact fun depth => hbody depth s.toList

theorem inner_commaSeparated {parts : List (List Char)} (h : ∀ part ∈ parts, Inner part) :
    Inner (commaSeparated parts) := by
  induction parts with
  | nil => exact fun _ => rfl
  | cons part parts ih =>
    have hfirst := h part List.mem_cons_self
    have hrest := ih fun other hother => h other (List.mem_cons_of_mem part hother)
    cases parts with
    | nil => exact hfirst
    -- A comma stands before every part but the first.
    | cons next parts => exact hfirst.append (inner_comma.append hrest)

theorem mem_sorted {p : Property} {ps : List Property} : p ∈ sorted ps ↔ p ∈ ps :=
  List.mem_mergeSort

/-- A pair of brackets closes what it opens. -/
theorem whole_bracketed {items : List (List Char)} (h : ∀ item ∈ items, Whole item) :
    Whole (bracketed items) := by
  intro depth
  show walk ⟨depth + 1, .outside⟩ (commaSeparated items ++ [']']) = _
  rw [walk_append, inner_commaSeparated (fun item hitem => (h item hitem).inner) depth]
  rfl

theorem whole_braced {ps : List Property} (h : ∀ p ∈ ps, Whole p.body) : Whole (braced ps) := by
  intro depth
  have hparts : ∀ part ∈ ps.map Property.chars, Inner part := by
    intro part hpart
    obtain ⟨p, hp, rfl⟩ := List.mem_map.mp hpart
    exact (whole_quote p.name).inner.append (inner_colon.append (h p hp).inner)
  show walk ⟨depth + 1, .outside⟩ (commaSeparated (ps.map Property.chars) ++ ['\x7d']) = _
  rw [walk_append, inner_commaSeparated hparts depth]
  rfl

/-- No digit and no mark of a number opens, closes or separates anything. -/
theorem whole_number (n : Number) : Whole (number n) := by
  have hsigns : ∀ c ∈ signs, c.isDigit = false ∧ c ∉ Decimal.marks :=
    List.forall_iff_forall_mem.mp (by decide)
  have hnull : ∀ c ∈ "null".toList, c ∉ signs :=
    List.forall_iff_forall_mem.mp (by decide)
  apply whole_of_notMem_signs
  cases n with
  | finite q =>
    intro c hc hsign
    obtain ⟨hdigit, hmark⟩ := hsigns c hsign
    exact Number.notMem_finiteText hdigit hmark q hc
  | nan | infinite => exact hnull

theorem whole_integer (n : Int) : Whole (toString n).toList := by
  have hsigns : ∀ c ∈ signs, c.isDigit = false ∧ c ≠ '-' :=
    List.forall_iff_forall_mem.mp (by decide)
  apply whole_of_notMem_signs
  intro c hc hsign
  obtain ⟨hdigit, hminus⟩ := hsigns c hsign
  rw [Number.toList_toString, List.mem_append] at hc
  rcases hc with hc | hc
  · split at hc
    · cases hc
    · exact hminus (List.mem_singleton.mp hc)
  · exact Decimal.notMem_toDigits hdigit _ hc

theorem whole_word {word : String} (h : word ∈ ["null", "true", "false"]) :
    Whole word.toList := by
  have hall : ∀ word ∈ ["null", "true", "false"], word.toList.Forall (· ∉ signs) := by
    decide
  exact whole_of_notMem_signs (List.forall_iff_forall_mem.mp (hall word h))

mutual

theorem whole_plainChars (v : Value) : Whole (plainChars v) := by
  cases v with
  | absent | null => exact whole_word (by decide)
  | bool b => cases b <;> exact whole_word (by decide)
  | number n => exact whole_number n
  | integer n => exact whole_integer n
  | text s => exact whole_quote s
  | array vs => exact whole_bracketed (whole_plainItems vs)
  | object fs => exact whole_braced (whole_plainProperties fs)

theorem whole_plainItems (vs : List Value) : ∀ item ∈ plainItems vs, Whole item := by
  cases vs with
  | nil => simp [plainItems]
  | cons v vs =>
    rw [plainItems, List.forall_mem_cons]
    exact ⟨whole_plainChars v, whole_plainItems vs⟩

theorem whole_plainProperties (fs : List (String × Value)) :
    ∀ p ∈ plainProperties fs, Whole p.body := by
  cases fs with
  | nil => simp [plainProperties]
  | cons f fs =>
    have hrest := whole_plainProperties fs
    have hfirst := whole_plainChars f.2
    obtain ⟨name, v⟩ := f
    cases v with
    | absent => exact hrest
    | _ => exact List.forall_mem_cons.mpr ⟨hfirst, hrest⟩

end

mutual

/-- The canonical text of a value can be taken out of any other text as a whole. -/
theorem whole_chars (v : Value) : Whole (chars v) := by
  cases v with
  | absent | null => exact whole_word (by decide)
  | bool b => cases b <;> exact whole_word (by decide)
  | number n => exact whole_number n
  | integer n => exact whole_integer n
  | text s => exact whole_quote s
  | array vs => exact whole_bracketed (whole_itemChars vs)
  | object fs =>
    rw [chars]
    split
    · exact whole_plainChars (.object fs)
    · have hfs := whole_properties fs
      exact whole_braced fun p hp => hfs p (mem_sorted.mp hp)

theorem whole_itemChars (vs : List Value) : ∀ item ∈ itemChars vs, Whole item := by
  cases vs with
  | nil => simp [itemChars]
  | cons v vs =>
    rw [itemChars, List.forall_mem_cons]
    exact ⟨whole_chars v, whole_itemChars vs⟩

theorem whole_properties (fs : List (String × Value)) : ∀ p ∈ properties fs, Whole p.body := by
  cases fs with
  | nil => simp [properties]
  | cons f fs =>
    have hrest := whole_properties fs
    have hfirst := whole_chars f.2
    obtain ⟨name, v⟩ := f
    cases v with
    | absent => exact hrest
    | _ => exact List.forall_mem_cons.mpr ⟨hfirst, hrest⟩

end

/-! ## Cutting -/

/-- What may follow a value: nothing, or a delimiter. -/
def Follows (r : List Char) : Prop :=
  ∀ c ∈ r.head?, c ∈ delimiters

/-- A whole text is not followed by more of a whole text. -/
theorem not_whole_of_delimiter {c : Char} (hx : Whole x) (hc : c ∈ delimiters) :
    ¬ Whole (x ++ c :: y) := by
  intro h
  have hstop : ∀ c ∈ delimiters, step ⟨0, .outside⟩ c = none :=
    List.forall_iff_forall_mem.mp (by decide)
  have hwalk := h 0
  rw [walk_append, hx 0, Option.bind_some, walk, hstop c hc] at hwalk
  cases hwalk

/-- There is only one way to cut a text where a value ends. -/
theorem eq_of_append_eq (hx : Whole x) (hy : Whole y) (hr : Follows r) (hs : Follows s)
    (h : x ++ r = y ++ s) : x = y ∧ r = s := by
  -- One of the texts begins with the other, and what it has more would begin with a delimiter.
  rcases List.append_eq_append_iff.mp h with ⟨t, rfl, rfl⟩ | ⟨t, rfl, rfl⟩
  · cases t with
    | nil => exact ⟨(List.append_nil x).symm, rfl⟩
    | cons c t => exact absurd hy (not_whole_of_delimiter hx (hr c rfl))
  · cases t with
    | nil => exact ⟨List.append_nil y, rfl⟩
    | cons c t => exact absurd hx (not_whole_of_delimiter hy (hs c rfl))

end Plebiscite.Canonical
