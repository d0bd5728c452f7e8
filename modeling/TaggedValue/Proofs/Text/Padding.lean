import TaggedValue.Text.Blank

/-!
# Blanks around a text

A text is padded if it has blanks before it and behind it. Trimming gives some text of which the
whole is the padded form, and where the padded text has no blanks of its own, trimming gives back
that very text.
-/

namespace TaggedValue.Text

/-- The second text is the first with blanks before and behind it. -/
def Padded (core cs : List Char) : Prop :=
  ∃ before after, cs = before ++ core ++ after ∧
    (∀ c ∈ before, isBlank c = true) ∧ ∀ c ∈ after, isBlank c = true

theorem blank_of_mem_takeWhile {cs : List Char} :
    ∀ c ∈ cs.takeWhile isBlank, isBlank c = true :=
  List.all_eq_true.mp List.all_takeWhile

theorem dropBlankEnd_append_takeWhile (cs : List Char) :
    dropBlankEnd cs ++ (cs.reverse.takeWhile isBlank).reverse = cs := by
  rw [dropBlankEnd, ← List.reverse_append, List.takeWhile_append_dropWhile, List.reverse_reverse]

/-- A text is its trimmed form with blanks around. -/
theorem padded_trim (cs : List Char) : Padded (trim cs) cs := by
  refine ⟨cs.takeWhile isBlank, ((cs.dropWhile isBlank).reverse.takeWhile isBlank).reverse,
    ?_, blank_of_mem_takeWhile, ?_⟩
  · rw [trim, List.append_assoc, dropBlankEnd_append_takeWhile, List.takeWhile_append_dropWhile]
  · intro c hc
    exact blank_of_mem_takeWhile c (List.mem_reverse.mp hc)

/-! ## Texts without blanks -/

theorem dropWhile_of_clear {cs : List Char} (hcs : cs ≠ [])
    (hclear : ∀ c ∈ cs, isBlank c = false) (rest : List Char) :
    (cs ++ rest).dropWhile isBlank = cs ++ rest := by
  cases cs with
  | nil => exact absurd rfl hcs
  | cons c cs =>
      have hc : isBlank c = false := hclear c List.mem_cons_self
      rw [List.cons_append, List.dropWhile_cons, hc]
      rfl

/-- Trimming takes the blanks that stand around a text without blanks, and nothing else. -/
theorem trim_of_padded {core cs : List Char} (h : Padded core cs) (hcore : core ≠ [])
    (hclear : ∀ c ∈ core, isBlank c = false) : trim cs = core := by
  obtain ⟨before, after, rfl, hbefore, hafter⟩ := h
  have hfront : (before ++ core ++ after).dropWhile isBlank = core ++ after := by
    rw [List.append_assoc, List.dropWhile_append_of_pos hbefore,
      dropWhile_of_clear hcore hclear after]
  have hback : ((core ++ after).reverse).dropWhile isBlank = core.reverse := by
    have hafter' : ∀ c ∈ after.reverse, isBlank c = true :=
      fun c hc => hafter c (List.mem_reverse.mp hc)
    have hclear' : ∀ c ∈ core.reverse, isBlank c = false :=
      fun c hc => hclear c (List.mem_reverse.mp hc)
    have hcore' : core.reverse ≠ [] := fun hnil => hcore (List.reverse_eq_nil_iff.mp hnil)
    rw [List.reverse_append, List.dropWhile_append_of_pos hafter']
    simpa using dropWhile_of_clear hcore' hclear' []
  rw [trim, hfront, dropBlankEnd, hback, List.reverse_reverse]

/-- What has no blanks of its own stands between blanks in one way only. -/
theorem trim_iff_of_clear {P : List Char → Prop} {cs : List Char}
    (hclear : ∀ core, P core → core ≠ [] ∧ ∀ c ∈ core, isBlank c = false) :
    P (trim cs) ↔ ∃ core, Padded core cs ∧ P core := by
  constructor
  · intro h
    exact ⟨trim cs, padded_trim cs, h⟩
  · rintro ⟨core, hpadded, h⟩
    obtain ⟨hcore, hblanks⟩ := hclear core h
    rwa [trim_of_padded hpadded hcore hblanks]

end TaggedValue.Text
