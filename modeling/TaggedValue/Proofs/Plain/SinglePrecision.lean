import TaggedValue.Proofs.Number.Spelling
import TaggedValue.Proofs.Plain.Scalars

/-!
# Numbers in texts, at single precision

A text is extracted at double precision first and narrowed then, so a number that it spells is rounded
twice. Each rounding is correct for what it rounds, for decimals of any length. Both together are correct
for the spelled number too, unless the first one ends on a middle between two neighbours of single precision
and the number is on the side of the odd one. Such numbers exist right beside every middle, and the one at the
end of the range makes a finite number infinite.
-/

namespace TaggedValue

open Number (Binary32 Binary64 Decimal Figures Format IsDigits Spells SpellsDecimal SpellsNumber
  digitsValue readBinary64)
open Text (Padded)

/-! ## Spelled numbers between blanks -/

theorem Number.SpellsDecimal.clear {cs : List Char} {d : Decimal} (h : SpellsDecimal cs d) :
    cs ≠ [] ∧ ∀ c ∈ cs, Text.isBlank c = false := by
  have hfigures : ∀ {text digits : List Char} {places : Nat}, Figures text digits places →
      ∀ c ∈ text, Text.isBlank c = false := by
    intro text digits places figures c hc
    rcases figures.forall_mem c hc with hdigit | rfl
    · exact isBlank_eq_false_of_isDigit hdigit
    · rfl
  cases h with
  | plain figures => exact ⟨figures.ne_nil, hfigures figures⟩
  | @exponent _ _ _ _ letter _ figures hletter power =>
      have hblank : Text.isBlank letter = false := by
        rcases hletter with rfl | rfl
        · rfl
        · rfl
      exact ⟨List.append_ne_nil_of_left_ne_nil figures.ne_nil _,
        List.forall_mem_append.mpr
          ⟨hfigures figures, List.forall_mem_cons.mpr ⟨hblank, power.clear⟩⟩⟩

theorem Number.SpellsNumber.clear {cs : List Char} {negative : Bool} {q : ℚ}
    (h : SpellsNumber cs negative q) : cs ≠ [] ∧ ∀ c ∈ cs, Text.isBlank c = false := by
  cases h with
  | bare decimal => exact decimal.clear
  | plus decimal => exact ⟨List.cons_ne_nil _ _, List.forall_mem_cons.mpr ⟨rfl, decimal.clear.2⟩⟩
  | minus decimal => exact ⟨List.cons_ne_nil _ _, List.forall_mem_cons.mpr ⟨rfl, decimal.clear.2⟩⟩

/-- At double precision a spelled number is extracted correctly rounded. -/
theorem Value.extractFloat_of_spells {s : String} {core : List Char} {negative : Bool} {q : ℚ}
    (hpadded : Padded core s.toList) (hcore : SpellsNumber core negative q) :
    ∃ d, (Value.str s).extractFloat = .ok d ∧ d.isNegative = negative ∧ d.IsNearest q := by
  obtain ⟨hne, hclear⟩ := hcore.clear
  obtain ⟨d, hread, hsign, hnearest⟩ := hcore.readBinary64
  rw [← Text.trim_of_padded hpadded hne hclear] at hread
  exact ⟨d, extractFloat_eq_ok_iff.mpr hread, hsign, hnearest⟩

namespace PlainType

/-- **A number in a text, at single precision.** Whatever decimal a text spells between its blanks, one
number is correct for it at double precision, and the one extracted is correct for that number. It is correct
for the decimal itself unless the double precision number misleads: this is a middle between neighbours, and
the decimal is on the side of the odd one. The sign is that of the text throughout. -/
theorem single_text_is_rounded_twice {s : String} {core : List Char} {negative : Bool} {q : ℚ}
    (hpadded : Padded core s.toList) (hcore : SpellsNumber core negative q) :
    ∃ (d : Binary64) (x : Binary32),
      float.extract (.str s) = .ok d ∧ d.isNegative = negative ∧ d.IsNearest q ∧
      single.extract (.str s) = .ok x ∧ x.isNegative = negative ∧ x.IsNearest d.value ∧
      (x.IsNearest q ↔ ¬ d.Misleads q) := by
  obtain ⟨d, hextract, hsign, hnearest⟩ := Value.extractFloat_of_spells hpadded hcore
  obtain ⟨decimal, hq, -⟩ := hcore.exists_decimal
  rw [← hsign] at hq
  refine ⟨d, Binary32.ofBinary64 d, hextract, hsign, hnearest, ?_, ?_, ?_, ?_⟩
  · show (Value.str s).extractFloat.map Binary32.ofBinary64 = .ok (Binary32.ofBinary64 d)
    rw [hextract]
    rfl
  · rw [(Binary32.cell_ofBinary64 hnearest.le_infinity).1, hsign]
  · exact Binary32.isNearest_ofBinary64 hnearest.le_infinity
  · subst hq
    exact Binary32.isNearest_ofBinary64_iff decimal.value_nonneg hnearest

/-- A number of 39 digits between an ideographic space and a line end: it is less by one than the middle
behind the largest single precision number, and the double precision number is that middle. -/
theorem single_text_is_rounded_twice_below_overflow :
    Padded "-3402823567797336616375393954581425684.47E+2".toList
      "\u3000-3402823567797336616375393954581425684.47E+2\r\n".toList ∧
    SpellsNumber "-3402823567797336616375393954581425684.47E+2".toList true
      (-340282356779733661637539395458142568447) ∧
    ∃ (d : Binary64) (x : Binary32),
      float.extract (.str "\u3000-3402823567797336616375393954581425684.47E+2\r\n") = .ok d ∧
      d.isNegative = true ∧ d.IsNearest (-340282356779733661637539395458142568447) ∧
      single.extract (.str "\u3000-3402823567797336616375393954581425684.47E+2\r\n") = .ok x ∧
      x.isNegative = true ∧ x.IsNearest d.value ∧
      (x.IsNearest (-340282356779733661637539395458142568447) ↔
        ¬ d.Misleads (-340282356779733661637539395458142568447)) := by
  have hpadded : Padded "-3402823567797336616375393954581425684.47E+2".toList
      "\u3000-3402823567797336616375393954581425684.47E+2\r\n".toList :=
    ⟨['\u3000'], ['\r', '\n'], by decide, List.all_eq_true.mp rfl, List.all_eq_true.mp rfl⟩
  have hspells : SpellsNumber "-3402823567797336616375393954581425684.47E+2".toList true
      (-340282356779733661637539395458142568447) := by
    have hdigits : IsDigits ("3402823567797336616375393954581425684".toList ++ "47".toList) :=
      ⟨by decide, List.all_eq_true.mp rfl⟩
    have hpower : Spells "+2".toList 2 := .plus ⟨by decide, List.all_eq_true.mp rfl⟩
    have hvalue : digitsValue ("3402823567797336616375393954581425684".toList ++ "47".toList) =
        340282356779733661637539395458142568447 := by decide +kernel
    have hplaces : (2 : Int) - "47".toList.length = (0 : Nat) := by decide
    have hspells := SpellsNumber.minus (.exponent (.point hdigits) (Or.inr rfl) hpower)
    rw [hvalue, hplaces, Decimal.value_whole] at hspells
    push_cast at hspells
    exact hspells
  exact ⟨hpadded, hspells, single_text_is_rounded_twice hpadded hspells⟩

/-- Right behind the middle between one and the next single precision number, that number is nearest, but
one is extracted. -/
theorem single_text_beside_middle :
    Padded "1.00000005960464477539062501".toList "1.00000005960464477539062501".toList ∧
    SpellsNumber "1.00000005960464477539062501".toList false
      (100000005960464477539062501 / 10 ^ 26) ∧
    single.extract (.str "1.00000005960464477539062501") = .ok ⟨0x3f800000⟩ ∧
    Binary32.IsNearest ⟨0x3f800001⟩ (100000005960464477539062501 / 10 ^ 26) ∧
    ¬ Binary32.IsNearest ⟨0x3f800000⟩ (100000005960464477539062501 / 10 ^ 26) := by
  have hsize : (0 : ℚ) ≤ 100000005960464477539062501 / 10 ^ 26 := by positivity
  have hcell : Format.binary32.Cell (100000005960464477539062501 / 10 ^ 26) 0x3f800001 := by
    have hnearest : Format.binary32.nearest 100000005960464477539062501 (10 ^ 26) = 0x3f800001 := by
      decide +kernel
    have hcell := Format.proper_binary32.cell_nearest 100000005960464477539062501
      (Nat.pow_pos (by decide : 0 < 10) : 0 < 10 ^ 26)
    rw [hnearest] at hcell
    push_cast at hcell
    exact hcell
  refine ⟨⟨[], [], by simp, nofun, nofun⟩, ?_, ?_, ?_, fun hone => ?_⟩
  · have hdigits : IsDigits ("1".toList ++ "00000005960464477539062501".toList) :=
      ⟨by decide, List.all_eq_true.mp rfl⟩
    have hvalue : digitsValue ("1".toList ++ "00000005960464477539062501".toList) =
        100000005960464477539062501 := by decide +kernel
    have hspells := SpellsNumber.bare (.plain (.point hdigits))
    rw [hvalue, Decimal.value_places] at hspells
    push_cast at hspells
    exact hspells
  · have hread : readBinary64 (Text.trim "1.00000005960464477539062501".toList) =
        .ok ⟨0x3ff0000010000000⟩ := by decide +kernel
    have hnarrow : Binary32.ofBinary64 ⟨0x3ff0000010000000⟩ = ⟨0x3f800000⟩ := by decide +kernel
    have hfloat : (Value.str "1.00000005960464477539062501").extractFloat =
        .ok ⟨0x3ff0000010000000⟩ := Value.extractFloat_eq_ok_iff.mpr hread
    show (Value.str "1.00000005960464477539062501").extractFloat.map Binary32.ofBinary64 = _
    rw [hfloat, ← hnarrow]
    rfl
  · exact (@Binary32.isNearest_iff_cell ⟨0x3f800001⟩ _ hsize).mpr hcell
  · have hone := (@Binary32.isNearest_iff_cell ⟨0x3f800000⟩ _ hsize).mp hone
    exact absurd (hcell.unique hone) (by decide)

end PlainType

end TaggedValue
