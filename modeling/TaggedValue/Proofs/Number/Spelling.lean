import TaggedValue.Proofs.Number.Decimals
import TaggedValue.Proofs.Number.Narrowing

/-!
# Spelled numbers are rounded correctly

A number is spelled by a decimal behind an optional sign, and the spelling denotes an exact rational. Whatever
the length of the digits and the size of the exponent, reading the text gives the double precision number
that is correct for that rational. Decimals out of reach, which are settled without their power of ten, lie
beyond the middles on which this depends.
-/

namespace TaggedValue.Number

namespace Decimal

open Format (binary64)

/-- The exact number that a decimal stands for. -/
def value (d : Decimal) : ℚ := d.digits * 10 ^ d.exponent

theorem value_nonneg (d : Decimal) : 0 ≤ d.value :=
  mul_nonneg (Nat.cast_nonneg _) (zpow_nonneg (by norm_num) _)

theorem value_whole (n k : Nat) : value ⟨n, k⟩ = (n * 10 ^ k : Nat) := by
  rw [value, zpow_natCast, Nat.cast_mul, Nat.cast_pow, Nat.cast_ofNat]

theorem value_places (n k : Nat) : value ⟨n, -(k : Int)⟩ = n / (10 ^ k : Nat) := by
  rw [value, zpow_neg, zpow_natCast, Nat.cast_pow, Nat.cast_ofNat, div_eq_mul_inv]

/-- A whole number out of reach overflows, -/
theorem overflow_le_of_outOfReach {n k : Nat} (hn : n ≠ 0) (hfar : outOfReach < k) :
    binary64.overflow ≤ (n * 10 ^ k : Nat) := by
  have hpower : 2 ^ 1024 ≤ n * 10 ^ k :=
    calc 2 ^ 1024 ≤ 8 ^ outOfReach := by decide +kernel
      _ ≤ 10 ^ outOfReach := Nat.pow_le_pow_left (by decide) _
      _ ≤ 10 ^ k := Nat.pow_le_pow_right (by decide) hfar.le
      _ ≤ n * 10 ^ k := Nat.le_mul_of_pos_left _ (Nat.pos_of_ne_zero hn)
  calc binary64.overflow ≤ binary64.value binary64.infinity :=
        Format.proper_binary64.overflow_lt.le
    _ = (2 ^ 1024 : Nat) := by
        rw [Format.value_infinity_binary64, Nat.cast_pow, Nat.cast_ofNat]
    _ ≤ (n * 10 ^ k : Nat) := Nat.cast_le.mpr hpower

/-- and one with too many decimal places is less than half of the least number. -/
theorem lt_middle_of_outOfReach {n k : Nat} (hfar : n.log2 + outOfReach < k) :
    (n / (10 ^ k : Nat) : ℚ) < binary64.middle 0 := by
  have hleast : binary64.steps 0 + binary64.steps (0 + 1) = 1 := rfl
  have hreach : n.log2 + 1 + (binary64.depth + 1) ≤ 3 * k := by
    have hdepth : binary64.depth = 1074 := rfl
    rw [outOfReach] at hfar
    omega
  rw [Format.div_lt_middle_iff binary64 (Nat.pow_pos (by decide)), hleast, Nat.one_mul]
  calc 2 * (n * 2 ^ binary64.depth) = n * 2 ^ (binary64.depth + 1) := by ring
    _ < 2 ^ (n.log2 + 1) * 2 ^ (binary64.depth + 1) :=
        Nat.mul_lt_mul_of_pos_right Nat.lt_log2_self (Nat.two_pow_pos _)
    _ = 2 ^ (n.log2 + 1 + (binary64.depth + 1)) := (pow_add 2 _ _).symm
    _ ≤ 2 ^ (3 * k) := Nat.pow_le_pow_right (by decide) hreach
    _ = 8 ^ k := pow_mul 2 3 k
    _ ≤ 10 ^ k := Nat.pow_le_pow_left (by decide) k

/-- **A decimal is rounded correctly**: it lies in the cell of its pattern. -/
theorem cell_toPattern (d : Decimal) : binary64.Cell d.value d.toPattern := by
  obtain ⟨n, e⟩ := d
  rcases Nat.eq_zero_or_pos n with rfl | hn
  · have hzero : (0 : ℚ) < binary64.middle 0 := by
      rw [← binary64.value_zero]
      exact binary64.value_lt_middle 0
    rw [value, toPattern_zero, Nat.cast_zero, zero_mul]
    exact Format.cell_zero hzero
  · rcases Int.lt_or_le e 0 with hneg | hwhole
    · obtain ⟨k, hk, rfl⟩ : ∃ k : Nat, 0 < k ∧ e = -(k : Int) := ⟨(-e).toNat, by omega, by omega⟩
      rw [value_places]
      rcases Nat.lt_or_ge (n.log2 + outOfReach) k with hfar | hreach
      · rw [toPattern_far_places hn.ne' hfar]
        exact Format.cell_zero (lt_middle_of_outOfReach hfar)
      · rw [toPattern_places hn.ne' hk hreach]
        exact Format.proper_binary64.cell_nearest n (Nat.pow_pos (by decide))
    · obtain ⟨k, rfl⟩ := Int.eq_ofNat_of_zero_le hwhole
      rw [value_whole]
      rcases Nat.lt_or_ge outOfReach k with hfar | hreach
      · rw [toPattern_far_whole hn.ne' hfar]
        exact Format.proper_binary64.cell_infinity (overflow_le_of_outOfReach hn.ne' hfar)
      · have hcell := Format.proper_binary64.cell_nearest (n * 10 ^ k) Nat.one_pos
        rw [Nat.cast_one, div_one] at hcell
        rw [toPattern_whole hn.ne' hreach]
        exact hcell

end Decimal

/-! ## Spelled numbers -/

/-- A text spells a number: whether there is a minus sign, and the exact number. -/
inductive SpellsNumber : List Char → Bool → ℚ → Prop
  | bare {cs : List Char} {d : Decimal} (decimal : SpellsDecimal cs d) :
      SpellsNumber cs false d.value
  | plus {cs : List Char} {d : Decimal} (decimal : SpellsDecimal cs d) :
      SpellsNumber ('+' :: cs) false d.value
  | minus {cs : List Char} {d : Decimal} (decimal : SpellsDecimal cs d) :
      SpellsNumber ('-' :: cs) true (-d.value)

theorem readBinary64_of_decimal {cs rest : List Char} {negative : Bool} {d : Decimal}
    (hsign : splitSign cs = (negative, rest)) (hread : readDecimal rest = some d) :
    readBinary64 cs = .ok (.ofPattern negative d.toPattern) := by
  have hcs : cs ≠ [] := by
    rintro rfl
    cases hsign
    cases hread
  rw [readBinary64, List.isEmpty_eq_false_iff.mpr hcs, hsign]
  dsimp only
  rw [if_neg Bool.false_ne_true, hread]

/-- A spelled number is that of a decimal under the sign, and is read so. -/
theorem SpellsNumber.exists_decimal {cs : List Char} {negative : Bool} {q : ℚ}
    (h : SpellsNumber cs negative q) :
    ∃ d : Decimal, q = withSign negative d.value ∧
      readBinary64 cs = .ok (.ofPattern negative d.toPattern) := by
  cases h with
  | @bare _ d decimal =>
      exact ⟨d, rfl, readBinary64_of_decimal decimal.splitSign_eq (readDecimal_eq_some_iff.mpr decimal)⟩
  | @plus cs d decimal =>
      have hsign : splitSign ('+' :: cs) = (false, cs) := rfl
      exact ⟨d, rfl, readBinary64_of_decimal hsign (readDecimal_eq_some_iff.mpr decimal)⟩
  | @minus cs d decimal =>
      have hsign : splitSign ('-' :: cs) = (true, cs) := rfl
      exact ⟨d, rfl, readBinary64_of_decimal hsign (readDecimal_eq_some_iff.mpr decimal)⟩

/-- **A spelled number is read correctly rounded**, with the sign of its text. -/
theorem SpellsNumber.readBinary64 {cs : List Char} {negative : Bool} {q : ℚ}
    (h : SpellsNumber cs negative q) :
    ∃ x, readBinary64 cs = .ok x ∧ x.isNegative = negative ∧ x.IsNearest q := by
  obtain ⟨d, rfl, hread⟩ := h.exists_decimal
  have hcell := d.cell_toPattern
  obtain ⟨hsign, hpattern⟩ := Binary64.fields_ofPattern hcell.le_infinity negative
  refine ⟨_, hread, hsign, ?_⟩
  rw [Binary64.IsNearest, hsign, hpattern]
  exact Format.proper_binary64.rounds_of_cell d.value_nonneg hcell

end TaggedValue.Number
