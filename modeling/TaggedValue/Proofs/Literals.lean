import Mathlib.Data.Bool.AllAny
import TaggedValue.Proofs.Number.FloatText
import TaggedValue.Proofs.Parts
import TaggedValue.Proofs.Text.Quotes
import TaggedValue.Value.Literal

/-!
# Literals can be told apart

The literal of a value says which value it is, with two exceptions: an object is shown by its type only,
and all floating-point numbers that are not numbers are shown alike. Behind a value within a literal there
is nothing or one of five characters. None of them occurs in a word, and every other literal has brackets
or quotes around it, so it is seen where each part ends: what is written for a value is written in front of
such an ending for no other value. This is carried through rows of items and of entries.
-/

namespace TaggedValue

/-! ## Endings -/

def endings : List Char := [',', ':', ']', ')', '}']

/-- What can stand behind a value: nothing, or a text that begins with a comma, a colon or a closing
bracket. -/
def Ends (rest : List Char) : Prop := ∀ c ∈ rest.head?, c ∈ endings

/-- It does not look like the next part of a row either. -/
def Closes (rest : List Char) : Prop := Ends rest ∧ ¬ [',', ' '] <+: rest

theorem ends_cons {c : Char} (hc : c ∈ endings) (cs : List Char) : Ends (c :: cs) := by
  rintro d ⟨⟩
  exact hc

theorem eq_nil_of_ends {v r : List Char} (hv : ∀ c ∈ v, c ∉ endings) (h : Ends (v ++ r)) :
    v = [] := by
  cases v with
  | nil => rfl
  | cons c cs => exact absurd (h c rfl) (hv c List.mem_cons_self)

/-- Where none of these characters occurs, the first of them is the end. -/
theorem append_inj_of_ends {v w r s : List Char} (hv : ∀ c ∈ v, c ∉ endings)
    (hw : ∀ c ∈ w, c ∉ endings) (hr : Ends r) (hs : Ends s) (h : v ++ r = w ++ s) :
    v = w ∧ r = s := by
  rcases List.append_eq_append_iff.mp h with ⟨u, rfl, rfl⟩ | ⟨u, rfl, rfl⟩
  · obtain rfl := eq_nil_of_ends (fun c hc => hw c (List.mem_append_right v hc)) hr
    exact ⟨(List.append_nil v).symm, rfl⟩
  · obtain rfl := eq_nil_of_ends (fun c hc => hv c (List.mem_append_right w hc)) hs
    exact ⟨List.append_nil w, rfl⟩

section Rows

variable {α : Type} {write : α → List Char}

/-- What is written for this is written, with an ending behind it, for nothing else. -/
def Legible (write : α → List Char) (a : α) : Prop :=
  ∀ b r s, Ends r → Ends s → write a ++ r = write b ++ s → a = b ∧ r = s

/-! ## Rows -/

/-- The parts behind the first one. -/
def more (write : α → List Char) (as : List α) : List Char :=
  as.flatMap fun a => ',' :: ' ' :: write a

/-- Parts with a comma and a blank between them. -/
def row (write : α → List Char) : List α → List Char
  | [] => []
  | a :: as => write a ++ more write as

theorem ends_more (as : List α) {r : List Char} (hr : Ends r) : Ends (more write as ++ r) := by
  cases as with
  | nil => exact hr
  | cons a as => exact ends_cons (by decide) _

theorem more_cons_append (a : α) (as : List α) (r : List Char) :
    more write (a :: as) ++ r = ',' :: ' ' :: (write a ++ (more write as ++ r)) := by
  rw [more, more, List.flatMap_cons, List.cons_append, List.cons_append, List.cons_append,
    List.cons_append, List.append_assoc]

/-- A row does not go on where it is closed. -/
theorem more_append_ne_of_closes {a : α} {as : List α} {r s : List Char} (hr : Closes r) :
    r ≠ more write (a :: as) ++ s := by
  intro h
  rw [more_cons_append] at h
  exact hr.2 ⟨_, h.symm⟩

theorem more_append_inj {as bs : List α} {r s : List Char} (has : ∀ a ∈ as, Legible write a)
    (hr : Closes r) (hs : Closes s) (h : more write as ++ r = more write bs ++ s) :
    as = bs ∧ r = s := by
  induction as generalizing bs with
  | nil =>
      cases bs with
      | nil => exact ⟨rfl, h⟩
      | cons b bs => exact absurd h (more_append_ne_of_closes hr)
  | cons a as ih =>
      cases bs with
      | nil => exact absurd h.symm (more_append_ne_of_closes hs)
      | cons b bs =>
          obtain ⟨ha, has⟩ := List.forall_mem_cons.mp has
          rw [more_cons_append, more_cons_append] at h
          have hparts := List.tail_eq_of_cons_eq (List.tail_eq_of_cons_eq h)
          -- behind each part stands the comma of the next one or what closes the row
          obtain ⟨rfl, hmore⟩ := ha b _ _ (ends_more as hr.1) (ends_more bs hs.1) hparts
          obtain ⟨rfl, hrest⟩ := ih has hmore
          exact ⟨rfl, hrest⟩

/-- **Rows.** If each part is legible, so is a row that is closed. -/
theorem row_append_inj {as bs : List α} {r s : List Char} (hends : ∀ a r, ¬ Ends (write a ++ r))
    (has : ∀ a ∈ as, Legible write a) (hr : Closes r) (hs : Closes s)
    (h : row write as ++ r = row write bs ++ s) : as = bs ∧ r = s := by
  cases as with
  | nil =>
      cases bs with
      | nil => exact ⟨rfl, h⟩
      | cons b bs =>
          rw [row, row, List.nil_append, List.append_assoc] at h
          exact absurd (h ▸ hr.1) (hends b _)
  | cons a as =>
      cases bs with
      | nil =>
          rw [row, row, List.nil_append, List.append_assoc] at h
          exact absurd (h ▸ hs.1) (hends a _)
      | cons b bs =>
          obtain ⟨ha, has⟩ := List.forall_mem_cons.mp has
          rw [row, row, List.append_assoc, List.append_assoc] at h
          obtain ⟨rfl, hmore⟩ := ha b _ _ (ends_more as hr.1) (ends_more bs hs.1) h
          obtain ⟨rfl, hrest⟩ := more_append_inj has hr hs hmore
          exact ⟨rfl, hrest⟩

end Rows

namespace Value

open Number (writeInt Layout)

/-! ## Literals as rows -/

/-- The literal of an entry: of its key and of its value, with a colon between them. -/
def entryChars (e : Entry) : List Char := e.1.literalChars ++ ':' :: ' ' :: e.2.literalChars

theorem literalMoreItems_eq (vs : List Value) : literalMoreItems vs = more literalChars vs := by
  induction vs with
  | nil => rfl
  | cons v vs ih =>
      rw [literalMoreItems, ih]
      rfl

theorem literalItems_eq (vs : List Value) : literalItems vs = row literalChars vs := by
  cases vs with
  | nil => rfl
  | cons v vs => rw [literalItems, literalMoreItems_eq, row]

theorem literalMoreEntries_eq (es : List Entry) : literalMoreEntries es = more entryChars es := by
  induction es with
  | nil => rfl
  | cons e es ih =>
      rw [literalMoreEntries, ih, more, more, List.flatMap_cons, entryChars, List.cons_append,
        List.cons_append, List.append_assoc]
      rfl

theorem literalEntries_eq (es : List Entry) : literalEntries es = row entryChars es := by
  cases es with
  | nil => rfl
  | cons e es =>
      rw [literalEntries, literalMoreEntries_eq, row, entryChars, List.append_assoc]
      rfl

/-! ## How literals begin -/

/-- The quote or bracket that a literal begins with, unless it is a word. -/
def opening? : Value → Option Char
  | .str _ => some '"'
  | .list _ => some '['
  | .tuple _ => some '('
  | .map _ => some '{'
  | .object _ => some '<'
  | .int _ => none
  | .float _ => none
  | .bool _ => none

/-- The characters that words consist of: digits, what else is in numbers, and the letters of the two
truth values. -/
def IsWordChar (c : Char) : Prop := c.isDigit = true ∨ c ∈ Layout.marks ++ ['t', 'r', 'u', 'l', 's']

theorem not_isWordChar : ∀ c ∈ '"' :: '[' :: '(' :: '{' :: '<' :: endings, ¬ IsWordChar c := by
  simp only [IsWordChar]
  exact List.all_iff_forall_prop.mp (by decide)

theorem isWordChar_of_mem_writeInt {i : Int} : ∀ c ∈ writeInt i, IsWordChar c := by
  intro c hc
  rcases (Number.spells_writeInt i).forall_mem c hc with hdigit | rfl | rfl
  · exact Or.inl hdigit
  · exact Or.inr (by decide)
  · exact Or.inr (by decide)

theorem isWordChar_of_mem_write {l : Layout} {x : Number.Binary64} : ∀ c ∈ l.write x, IsWordChar c :=
  fun c hc => (l.forall_mem_write x c hc).imp_right (List.mem_append_left _)

/-- Words consist of such characters, -/
theorem isWordChar_of_mem {v : Value} (hv : v.opening? = none) : ∀ c ∈ v.literalChars, IsWordChar c := by
  cases v with
  | int n => exact isWordChar_of_mem_writeInt
  | float x => exact isWordChar_of_mem_write
  | bool b =>
      have hletters : ∀ b, literalChars (.bool b) ⊆ Layout.marks ++ ['t', 'r', 'u', 'l', 's'] := by
        decide
      exact fun c hc => Or.inr (hletters b hc)
  | _ => cases hv

/-- and there is at least one. -/
theorem literalChars_ne_nil (v : Value) : v.literalChars ≠ [] := by
  cases v with
  | int n => exact (Number.spells_writeInt n.toInt).ne_nil
  | float x =>
      obtain ⟨c, hc, -⟩ := Layout.exists_mark_literal x
      exact List.ne_nil_of_mem hc
  | bool b => cases b <;> exact List.cons_ne_nil _ _
  | _ => exact List.cons_ne_nil _ _

theorem mem_of_opening? {v : Value} {c : Char} (h : v.opening? = some c) :
    c ∈ ['"', '[', '(', '{', '<'] := by
  cases v <;> cases h <;> decide

theorem exists_head (v : Value) (r : List Char) :
    ∃ c cs, v.literalChars ++ r = c :: cs ∧
      (v.opening? = some c ∨ v.opening? = none ∧ IsWordChar c) := by
  cases hopening : v.opening? with
  | none =>
      obtain ⟨c, cs, hcs⟩ := List.exists_cons_of_ne_nil v.literalChars_ne_nil
      have hc : IsWordChar c := isWordChar_of_mem hopening c (hcs ▸ List.mem_cons_self)
      rw [hcs]
      exact ⟨c, cs ++ r, rfl, Or.inr ⟨rfl, hc⟩⟩
  | some c =>
      refine ⟨c, (v.literalChars ++ r).tail, ?_, Or.inl rfl⟩
      cases v <;> cases hopening <;> rfl

/-- Literals that begin alike have the same opening. -/
theorem opening?_eq_of_append_eq {a b : Value} {r s : List Char}
    (h : a.literalChars ++ r = b.literalChars ++ s) : a.opening? = b.opening? := by
  have hbracket : ∀ c ∈ ['"', '[', '(', '{', '<'], ¬ IsWordChar c :=
    fun c hc => not_isWordChar c (List.mem_append_left endings hc)
  obtain ⟨c, cs, hcs, hc⟩ := a.exists_head r
  obtain ⟨d, ds, hds, hd⟩ := b.exists_head s
  rw [hcs, hds] at h
  obtain rfl := List.head_eq_of_cons_eq h
  rcases hc with ha | ⟨ha, hword⟩
  · rcases hd with hb | ⟨hb, hword⟩
    · rw [ha, hb]
    · exact absurd hword (hbracket c (mem_of_opening? ha))
  · rcases hd with hb | ⟨hb, -⟩
    · exact absurd hword (hbracket c (mem_of_opening? hb))
    · rw [ha, hb]

/-- A literal is no ending. -/
theorem not_ends_literalChars (v : Value) (r : List Char) : ¬ Ends (v.literalChars ++ r) := by
  have hbracket : ∀ c ∈ endings, c ∉ ['"', '[', '(', '{', '<'] :=
    List.all_iff_forall_prop.mp (by decide)
  obtain ⟨c, cs, hcs, hc⟩ := v.exists_head r
  intro h
  have hending : c ∈ endings := h c (by rw [hcs]; rfl)
  rcases hc with hopening | ⟨-, hword⟩
  · exact hbracket c hending (mem_of_opening? hopening)
  · exact not_isWordChar c (List.mem_append_right ['"', '[', '(', '{', '<'] hending) hword

/-! ## Words -/

/-- No integer has one of the marks in it by which a number is known, -/
theorem not_mem_writeInt {i : Int} : ∀ c ∈ ['.', 'e', 'i', 'N'], c ∉ writeInt i := by
  have hmark : ∀ c ∈ ['.', 'e', 'i', 'N'], ¬(c.isDigit = true ∨ c = '+' ∨ c = '-') :=
    List.all_iff_forall_prop.mp (by decide)
  exact fun c hc hmem => hmark c hc ((Number.spells_writeInt i).forall_mem c hmem)

theorem writeInt_ne_write (i : Int) (x : Number.Binary64) : writeInt i ≠ Layout.literal.write x := by
  intro h
  obtain ⟨c, hc, hmark⟩ := Layout.exists_mark_literal x
  exact not_mem_writeInt c hmark (h ▸ hc)

/-- and both truth values have one. -/
theorem writeInt_ne_bool (i : Int) (b : Bool) : writeInt i ≠ literalChars (.bool b) := by
  intro h
  apply not_mem_writeInt (i := i) 'e' (by decide)
  rw [h]
  cases b <;> decide

/-- Each truth value has a letter that is in no number. -/
theorem write_ne_bool (x : Number.Binary64) (b : Bool) :
    Layout.literal.write x ≠ literalChars (.bool b) := by
  have hletter : ∀ c ∈ ['u', 'l'], c ∉ Layout.literal.write x := by
    have hmark : ∀ c ∈ ['u', 'l'], ¬(c.isDigit = true ∨ c ∈ Layout.marks) :=
      List.all_iff_forall_prop.mp (by decide)
    exact fun c hc hmem => hmark c hc (Layout.literal.forall_mem_write x c hmem)
  intro h
  rw [h] at hletter
  cases b with
  | true => exact hletter 'u' (by decide) (by decide)
  | false => exact hletter 'l' (by decide) (by decide)

theorem writeInt_inj {m n : Int64} (h : writeInt m.toInt = writeInt n.toInt) : m = n := by
  have hm := Number.readInt64_eq_ok_iff.mpr (Number.spells_writeInt m.toInt)
  rw [h, Number.readInt64_eq_ok_iff.mpr (Number.spells_writeInt n.toInt)] at hm
  exact (Except.ok.inj hm).symm

/-- **Words.** No two values have the same word, but for what is no number. -/
theorem eq_of_word {a b : Value} (ha : a.opening? = none) (hb : b.opening? = none)
    (hnumber : ∀ x, a = .float x → x.isNaN = false) (h : a.literalChars = b.literalChars) :
    a = b := by
  cases a with
  | int m =>
      cases b with
      | int n => rw [writeInt_inj h]
      | float y => exact absurd h (writeInt_ne_write m.toInt y)
      | bool q => exact absurd h (writeInt_ne_bool m.toInt q)
      | _ => cases hb
  | float x =>
      cases b with
      | int n => exact absurd h.symm (writeInt_ne_write n.toInt x)
      | float y => rw [Layout.write_inj (hnumber x rfl) h]
      | bool q => exact absurd h (write_ne_bool x q)
      | _ => cases hb
  | bool p =>
      cases b with
      | int n => exact absurd h.symm (writeInt_ne_bool n.toInt p)
      | float y => exact absurd h.symm (write_ne_bool y p)
      | bool q =>
          have hwords : ∀ p q, literalChars (.bool p) = literalChars (.bool q) → p = q := by decide
          rw [hwords p q h]
      | _ => cases hb
  | _ => cases ha

theorem legible_of_word {a : Value} (ha : a.opening? = none)
    (hnumber : ∀ x, a = .float x → x.isNaN = false) : Legible literalChars a := by
  have hending : ∀ v : Value, v.opening? = none → ∀ c ∈ v.literalChars, c ∉ endings := by
    intro v hv c hc hmem
    exact not_isWordChar c (List.mem_append_right ['"', '[', '(', '{', '<'] hmem)
      (isWordChar_of_mem hv c hc)
  intro b r s hr hs h
  -- a literal that begins like a word is a word
  have hb : b.opening? = none := opening?_eq_of_append_eq h ▸ ha
  obtain ⟨hword, hrs⟩ := append_inj_of_ends (hending a ha) (hending b hb) hr hs h
  exact ⟨eq_of_word ha hb hnumber hword, hrs⟩

/-! ## Quotes and brackets -/

theorem legible_str (t : String) : Legible literalChars (.str t) := by
  intro b r s _ _ h
  have hopening := opening?_eq_of_append_eq h
  cases b with
  | str u =>
      obtain ⟨htext, hrs⟩ := Text.quoteChars_append_inj h
      exact ⟨congrArg str (String.toList_inj.mp htext), hrs⟩
  | _ => cases hopening

/-- A container is written as a row of its parts, in brackets that show its kind. -/
structure Bracketed {α : Type} (write : α → List Char) (wrap : List α → Value)
    (close : List α → List Char) : Prop where
  form : ∃ c, ∀ as, (wrap as).literalChars = c :: (row write as ++ close as)
  closes : ∀ as r, Closes (close as ++ r)
  /-- Whatever begins alike is such a container. -/
  exists_wrap : ∀ as b, (wrap as).opening? = b.opening? → ∃ bs, b = wrap bs
  not_ends : ∀ a r, ¬ Ends (write a ++ r)

theorem Bracketed.legible {α : Type} {write : α → List Char} {wrap : List α → Value}
    {close : List α → List Char} (h : Bracketed write wrap close) {as : List α}
    (has : ∀ a ∈ as, Legible write a) : Legible literalChars (wrap as) := by
  intro b r s _ _ heq
  obtain ⟨c, hform⟩ := h.form
  obtain ⟨bs, rfl⟩ := h.exists_wrap as b (opening?_eq_of_append_eq heq)
  rw [hform, hform, List.cons_append, List.cons_append, List.append_assoc, List.append_assoc] at heq
  obtain ⟨rfl, hclose⟩ := row_append_inj h.not_ends has (h.closes as r) (h.closes bs s)
    (List.tail_eq_of_cons_eq heq)
  exact ⟨rfl, List.append_cancel_left hclose⟩

theorem closes_bracket {c : Char} (hc : c ∈ [']', ')', '}']) (r : List Char) : Closes (c :: r) := by
  have hbracket : ∀ c ∈ [']', ')', '}'], c ∈ endings ∧ c ≠ ',' :=
    List.all_iff_forall_prop.mp (by decide)
  obtain ⟨hending, hcomma⟩ := hbracket c hc
  exact ⟨ends_cons hending r, fun h => hcomma (List.cons_prefix_cons.mp h).1.symm⟩

theorem bracketed_list : Bracketed literalChars list fun _ => [']'] where
  form := ⟨'[', fun vs => by
    rw [← literalItems_eq]
    rfl⟩
  closes _ r := closes_bracket (by decide) r
  exists_wrap vs b hb := by
    cases b with
    | list ws => exact ⟨ws, rfl⟩
    | _ => cases hb
  not_ends := not_ends_literalChars

/-- How a tuple of this length ends. -/
def tupleEnd (length : Nat) : List Char := if length = 1 then [',', ')'] else [')']

/-- A comma that no blank follows does not look like the next item. -/
theorem closes_tupleEnd (n : Nat) (r : List Char) : Closes (tupleEnd n ++ r) := by
  rw [tupleEnd]
  split
  · refine ⟨ends_cons (by decide) _, fun h => ?_⟩
    exact absurd (List.cons_prefix_cons.mp (List.cons_prefix_cons.mp h).2).1 (by decide)
  · exact closes_bracket (by decide) r

theorem bracketed_tuple : Bracketed literalChars tuple fun vs => tupleEnd vs.length where
  form := ⟨'(', fun vs => by
    rw [← literalItems_eq]
    rfl⟩
  closes vs r := closes_tupleEnd vs.length r
  exists_wrap vs b hb := by
    cases b with
    | tuple ws => exact ⟨ws, rfl⟩
    | _ => cases hb
  not_ends := not_ends_literalChars

theorem entryChars_append (e : Entry) (r : List Char) :
    entryChars e ++ r = e.1.literalChars ++ ':' :: ' ' :: (e.2.literalChars ++ r) := by
  rw [entryChars, List.append_assoc, List.cons_append, List.cons_append]

theorem legible_entryChars {e : Entry} (hkey : Legible literalChars e.1)
    (hvalue : Legible literalChars e.2) : Legible entryChars e := by
  intro f r s hr hs h
  rw [entryChars_append, entryChars_append] at h
  -- the colon ends the key, and what ends the entry ends its value
  obtain ⟨hk, hrest⟩ := hkey f.1 _ _ (ends_cons (by decide) _) (ends_cons (by decide) _) h
  obtain ⟨hv, hrs⟩ := hvalue f.2 _ _ hr hs (List.tail_eq_of_cons_eq (List.tail_eq_of_cons_eq hrest))
  exact ⟨Prod.ext hk hv, hrs⟩

theorem bracketed_map : Bracketed entryChars map fun _ => ['}'] where
  form := ⟨'{', fun es => by
    rw [← literalEntries_eq]
    rfl⟩
  closes _ r := closes_bracket (by decide) r
  exists_wrap es b hb := by
    cases b with
    | map fs => exact ⟨fs, rfl⟩
    | _ => cases hb
  not_ends e r := by
    rw [entryChars_append]
    exact not_ends_literalChars e.1 _

/-! ## Values -/

/-- What no literal identifies: objects, which are shown by their types only, and the floating-point
numbers that are no numbers, which are all shown alike. -/
inductive Indistinct : Value → Prop
  | object (o : Object) : Indistinct (.object o)
  | float {x : Number.Binary64} (nan : x.isNaN = true) : Indistinct (.float x)

/-- Nothing of this kind occurs in the value, at any depth. -/
def Transparent (v : Value) : Prop := ∀ u, Within u v → ¬ Indistinct u

theorem transparent_iff {v : Value} :
    Transparent v ↔ ¬ Indistinct v ∧ ∀ u, Part u v → Transparent u := forall_within_iff

/-- **Legible.** What is written for a transparent value is written in front of an ending for no other
value, at any depth. -/
theorem legible_of_transparent {a : Value} (ha : a.Transparent) : Legible literalChars a := by
  induction a using part_wellFounded.induction with
  | _ a ih =>
  obtain ⟨hdistinct, htransparent⟩ := transparent_iff.mp ha
  have hparts : ∀ u, Part u a → Legible literalChars u := fun u hu => ih u hu (htransparent u hu)
  cases a with
  | str t => exact legible_str t
  | int n => exact legible_of_word rfl nofun
  | float x =>
      refine legible_of_word rfl fun y hy => ?_
      obtain rfl := Value.float.inj hy
      exact Bool.eq_false_iff.mpr fun hnan => hdistinct (.float hnan)
  | bool q => exact legible_of_word rfl nofun
  | list vs => exact bracketed_list.legible fun v hv => hparts v (.item hv)
  | tuple vs => exact bracketed_tuple.legible fun v hv => hparts v (.component hv)
  | map es =>
      refine bracketed_map.legible fun e he => ?_
      exact legible_entryChars (hparts e.1 (.key he)) (hparts e.2 (.value he))
  | object o => exact absurd (.object o) hdistinct

theorem not_within_object_of_transparent {a : Value} (ha : a.Transparent) (o : Object) :
    ¬ Within (.object o) a := fun h => ha _ h (.object o)

/-- **Literals are unambiguous.** A value without objects and without numbers that are none has the same
literal as the values that it is equal to, and as no other value. -/
theorem literal_is_unambiguous {a : Value} (ha : a.Transparent) (b : Value) :
    a.literal = b.literal ↔ a.equal b = true := by
  rw [equal_comm, equal_iff_eq (not_within_object_of_transparent ha), literal, literal]
  constructor
  · intro h
    have hchars : a.literalChars ++ [] = b.literalChars ++ [] :=
      congrArg (· ++ []) (String.ofList_injective h)
    exact (legible_of_transparent ha b [] [] nofun nofun hchars).1.symm
  · rintro rfl
    rfl

/-- A whole number is told from an integer, and one text with a comma from two texts. -/
theorem literal_is_unambiguous_lookalikes :
    (tuple [.float ⟨0x3FF0000000000000⟩]).literal ≠ (tuple [.int 1]).literal ∧
    (list [.str "a\", \"b"]).literal ≠ (list [.str "a", .str "b"]).literal := by
  have hfloat : Transparent (tuple [.float ⟨0x3FF0000000000000⟩]) := by
    refine transparent_iff.mpr ⟨nofun, fun u hu => ?_⟩
    obtain rfl := List.mem_singleton.mp (part_tuple_iff.mp hu)
    refine transparent_iff.mpr ⟨?_, nofun⟩
    rintro ⟨⟩
    contradiction
  have htext : Transparent (list [.str "a\", \"b"]) := by
    refine transparent_iff.mpr ⟨nofun, fun u hu => ?_⟩
    obtain rfl := List.mem_singleton.mp (part_list_iff.mp hu)
    exact transparent_iff.mpr ⟨nofun, nofun⟩
  refine ⟨fun h => ?_, fun h => ?_⟩
  · exact absurd ((literal_is_unambiguous hfloat _).mp h) (by decide)
  · exact absurd ((literal_is_unambiguous htext _).mp h) (by decide)

end Value

end TaggedValue
