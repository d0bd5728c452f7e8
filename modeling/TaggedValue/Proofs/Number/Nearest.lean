import Mathlib.Algebra.Order.Ring.Abs
import Mathlib.Data.Rat.Cast.Order
import Mathlib.Tactic.FieldSimp
import Mathlib.Tactic.Linarith
import TaggedValue.Proofs.Number.Rounding

/-!
# The nearest number of a format

A number is rounded correctly to a format if it becomes the nearest finite number there, or of two equally
near ones the one whose last bit is zero, or infinity from the middle between the largest finite number and
the power of two behind it on. `Format.Rounds` says so of exact rational values, without rounding anything.

The proofs cut the line at the middles between neighbours. The middle itself belongs to the even
neighbour, and a number lies in the cell of a pattern if it is on the near side of exactly the middles from
this pattern on. Rounding a quotient finds the cell in which it lies, and the pattern of a cell is the one
that is correct for the numbers in it.
-/

namespace TaggedValue.Number

/-- A whole number bounds a rounded quotient if the quotient is not beyond the half behind it. The half
belongs to the even number. -/
theorem divHalfEven_le_iff {den : Nat} (hden : 0 < den) (num n : Nat) :
    divHalfEven num den ≤ n ↔
      2 * num < (2 * n + 1) * den ∨ 2 * num = (2 * n + 1) * den ∧ Even n := by
  have hnum : den * (num / den) + num % den = num := Nat.div_add_mod num den
  have hrest : num % den < den := Nat.mod_lt num hden
  have hhalf : (2 * n + 1) * den = 2 * (den * n) + den := by ring
  rw [divHalfEven, Nat.even_iff, hhalf]
  generalize num / den = quotient at *
  generalize num % den = rest at *
  subst hnum
  rcases Nat.lt_trichotomy quotient n with hlt | rfl | hgt
  · have hstep : den * quotient + den ≤ den * n := Nat.mul_le_mul_left den hlt
    split_ifs <;> omega
  · split_ifs <;> omega
  · have hstep : den * n + den ≤ den * quotient := Nat.mul_le_mul_left den hgt
    split_ifs <;> omega

/-- A size under a sign. -/
def withSign (negative : Bool) (size : ℚ) : ℚ := if negative then -size else size

namespace Format

/-! ## Values and middles -/

section Values

variable (f : Format)

/-- The exact number that a pattern stands for. Infinity counts as the power of two behind the largest
finite number. -/
def value (pattern : Nat) : ℚ := f.steps pattern / 2 ^ f.depth

/-- The middle between a pattern and the next one. -/
def middle (pattern : Nat) : ℚ := (f.value pattern + f.value (pattern + 1)) / 2

/-- The middle between the largest finite number and the power of two behind it. -/
def overflow : ℚ := f.middle (f.infinity - 1)

theorem value_strictMono : StrictMono f.value := by
  intro p r h
  have hsteps : (f.steps p : ℚ) < f.steps r := Nat.cast_lt.mpr (f.steps_strictMono h)
  exact div_lt_div_of_pos_right hsteps (by positivity)

theorem value_zero : f.value 0 = 0 := by
  rw [value, steps, if_pos f.hidden_pos, Nat.cast_zero, zero_div]

theorem value_nonneg (p : Nat) : 0 ≤ f.value p := by
  rw [← f.value_zero]
  exact f.value_strictMono.monotone (Nat.zero_le p)

theorem value_lt_middle (p : Nat) : f.value p < f.middle p := by
  have hnext := f.value_strictMono (Nat.lt_succ_self p)
  rw [middle]
  linarith

theorem middle_lt_value_succ (p : Nat) : f.middle p < f.value (p + 1) := by
  have hnext := f.value_strictMono (Nat.lt_succ_self p)
  rw [middle]
  linarith

theorem middle_strictMono : StrictMono f.middle :=
  strictMono_nat_of_lt_succ fun p => (f.middle_lt_value_succ p).trans (f.value_lt_middle (p + 1))

theorem middle_eq (p : Nat) :
    f.middle p = ((f.steps p + f.steps (p + 1) : Nat) : ℚ) / (2 * 2 ^ f.depth : Nat) := by
  rw [middle, value, value]
  push_cast
  field_simp

/-- A quotient is compared with a middle by whole numbers. -/
theorem div_lt_middle_iff {den : Nat} (hden : 0 < den) (num p : Nat) :
    (num / den : ℚ) < f.middle p ↔
      2 * (num * 2 ^ f.depth) < (f.steps p + f.steps (p + 1)) * den := by
  have hden' : (0 : ℚ) < den := Nat.cast_pos.mpr hden
  have hunit : (0 : ℚ) < (2 * 2 ^ f.depth : Nat) := Nat.cast_pos.mpr (by positivity)
  rw [middle_eq, div_lt_div_iff₀ hden' hunit, ← Nat.cast_mul, ← Nat.cast_mul, Nat.cast_lt,
    Nat.mul_left_comm]

theorem div_eq_middle_iff {den : Nat} (hden : 0 < den) (num p : Nat) :
    (num / den : ℚ) = f.middle p ↔
      2 * (num * 2 ^ f.depth) = (f.steps p + f.steps (p + 1)) * den := by
  have hden' : (den : ℚ) ≠ 0 := Nat.cast_ne_zero.mpr hden.ne'
  have hunit : ((2 * 2 ^ f.depth : Nat) : ℚ) ≠ 0 := Nat.cast_ne_zero.mpr (by positivity)
  rw [middle_eq, div_eq_div_iff hden' hunit, ← Nat.cast_mul, ← Nat.cast_mul, Nat.cast_inj,
    Nat.mul_left_comm]

end Values

/-! ## Correct rounding -/

/-- **A number is rounded correctly** to a sign and a pattern: from the overflow middle on it is infinite,
and before it no finite number of either sign is nearer, nor is another one as near unless the last bit of
the pattern is zero. -/
structure Rounds (f : Format) (negative : Bool) (p : Nat) (q : ℚ) : Prop where
  le_infinity : p ≤ f.infinity
  infinite_iff : p = f.infinity ↔ f.overflow ≤ |q|
  nearest : p < f.infinity → ∀ s, ∀ r < f.infinity,
    |withSign negative (f.value p) - q| ≤ |withSign s (f.value r) - q|
  even : p < f.infinity → ∀ s, ∀ r < f.infinity,
    |withSign negative (f.value p) - q| = |withSign s (f.value r) - q| →
      withSign s (f.value r) = withSign negative (f.value p) ∨ Even p

/-- A format with at least one bit in each field: its last finite pattern is odd. -/
structure Proper (f : Format) : Prop where
  even_hidden : Even f.hidden
  infinity_pos : 0 < f.infinity

theorem proper_binary64 : binary64.Proper := ⟨⟨2 ^ 51, by decide⟩, by decide⟩

theorem proper_binary32 : binary32.Proper := ⟨⟨2 ^ 22, by decide⟩, by decide⟩

/-! ## Cells -/

variable {f : Format} {m : ℚ} {p r : Nat}

/-- A number is on the near side of the middle behind a pattern. The middle itself is on the side of the
even pattern. -/
def Below (f : Format) (m : ℚ) (p : Nat) : Prop := m < f.middle p ∨ m = f.middle p ∧ Even p

theorem not_below_iff : ¬ f.Below m p ↔ f.middle p < m ∨ m = f.middle p ∧ ¬ Even p := by
  rw [Below, not_or, not_lt, not_and]
  constructor
  · rintro ⟨hle, hodd⟩
    rcases hle.eq_or_lt with heq | hlt
    · exact Or.inr ⟨heq.symm, hodd heq.symm⟩
    · exact Or.inl hlt
  · rintro (hlt | ⟨heq, hodd⟩)
    · exact ⟨hlt.le, fun heq => absurd heq hlt.ne'⟩
    · exact ⟨heq.ge, fun _ => hodd⟩

theorem Below.mono (h : f.Below m p) (hle : p ≤ r) : f.Below m r := by
  rcases hle.eq_or_lt with rfl | hlt
  · exact h
  · have hmiddle := f.middle_strictMono hlt
    rcases h with h | ⟨h, -⟩
    · exact Or.inl (h.trans hmiddle)
    · exact Or.inl (h.trans_lt hmiddle)

theorem Proper.below_last_iff (hf : f.Proper) : f.Below m (f.infinity - 1) ↔ m < f.overflow := by
  have hodd : ¬ Even (f.infinity - 1) := by
    rw [← Nat.even_add_one, Nat.sub_add_cancel hf.infinity_pos]
    exact hf.even_hidden.mul_left _
  exact or_iff_left fun h => hodd h.2

/-- A number lies in the cell of a pattern: the middles behind this pattern and the ones after it are
those that it is on the near side of. -/
structure Cell (f : Format) (m : ℚ) (p : Nat) : Prop where
  le_infinity : p ≤ f.infinity
  le_iff : ∀ r < f.infinity, (p ≤ r ↔ f.Below m r)

theorem Cell.unique (hp : f.Cell m p) (hr : f.Cell m r) : p = r := by
  have hle : ∀ {p r}, f.Cell m p → f.Cell m r → p ≤ r := by
    intro p r hp hr
    rcases hr.le_infinity.eq_or_lt with rfl | hlt
    · exact hp.le_infinity
    · rw [hp.le_iff r hlt, ← hr.le_iff r hlt]
  exact (hle hp hr).antisymm (hle hr hp)

/-- The middles on both sides of a pattern are enough. -/
theorem cell_of_below (hbelow : f.Below m p) (habove : ∀ r, r + 1 = p → ¬ f.Below m r) :
    f.Cell m (min f.infinity p) := by
  refine ⟨Nat.min_le_left _ _, fun r hr => ?_⟩
  have hmin : min f.infinity p ≤ r ↔ p ≤ r := by omega
  rw [hmin]
  constructor
  · exact hbelow.mono
  · intro h
    by_contra hlt
    obtain ⟨t, rfl⟩ : ∃ t, p = t + 1 := ⟨p - 1, by omega⟩
    exact habove t rfl (h.mono (by omega))

theorem Proper.cell_infinity (hf : f.Proper) (h : f.overflow ≤ m) : f.Cell m f.infinity := by
  have hlast : ¬ f.Below m (f.infinity - 1) := by rwa [hf.below_last_iff, not_lt]
  exact ⟨le_rfl, fun r hr => iff_of_false (by omega) fun hbelow => hlast (hbelow.mono (by omega))⟩

theorem cell_zero (h : m < f.middle 0) : f.Cell m 0 :=
  ⟨Nat.zero_le _, fun r _ => iff_of_true (Nat.zero_le r) (Below.mono (Or.inl h) (Nat.zero_le r))⟩

theorem Proper.overflow_lt (hf : f.Proper) : f.overflow < f.value f.infinity := by
  have hnext := f.middle_lt_value_succ (f.infinity - 1)
  rwa [Nat.sub_add_cancel hf.infinity_pos] at hnext

/-! ## Rounding finds the cell -/

/-- Behind a significand the middle is half a unit further. -/
theorem Proper.below_significand_iff (hf : f.Proper) {num den shift significand : Nat}
    (hden : 0 < den) (hhigh : significand < 2 * f.hidden)
    (hlow : shift = 0 ∨ f.hidden ≤ significand) :
    f.Below (num / den) (shift * f.hidden + significand) ↔
      2 * (num * 2 ^ f.depth) < (2 * significand + 1) * (den * 2 ^ shift) ∨
        2 * (num * 2 ^ f.depth) = (2 * significand + 1) * (den * 2 ^ shift) ∧ Even significand := by
  have hunit : (significand * 2 ^ shift + (significand + 1) * 2 ^ shift) * den =
      (2 * significand + 1) * (den * 2 ^ shift) := by ring
  have hparity : Even (shift * f.hidden + significand) ↔ Even significand := by
    rw [Nat.even_add, iff_true_left (hf.even_hidden.mul_left shift)]
  rw [Below, f.div_lt_middle_iff hden, f.div_eq_middle_iff hden, Nat.add_assoc,
    f.steps_significand hhigh.le hlow,
    f.steps_significand hhigh (hlow.imp_right Nat.le_succ_of_le), hunit, hparity]

/-- The shift is zero, or it leaves as many bits as a significand has. -/
theorem log2_bounds (n bits : Nat) :
    n < 2 * 2 ^ bits * 2 ^ (n.log2 - bits) ∧
      (n.log2 - bits = 0 ∨ 2 ^ bits * 2 ^ (n.log2 - bits) ≤ n) := by
  constructor
  · calc n < 2 ^ (n.log2 + 1) := Nat.lt_log2_self
      _ ≤ 2 ^ (bits + 1 + (n.log2 - bits)) := Nat.pow_le_pow_right Nat.two_pos (by omega)
      _ = 2 * 2 ^ bits * 2 ^ (n.log2 - bits) := by rw [pow_add, pow_succ']
  · rcases Nat.eq_zero_or_pos (n.log2 - bits) with hzero | hpos
    · exact Or.inl hzero
    · have hn : n ≠ 0 := by
        rintro rfl
        simp at hpos
      refine Or.inr ?_
      calc 2 ^ bits * 2 ^ (n.log2 - bits) = 2 ^ n.log2 := by
            rw [← pow_add, Nat.add_sub_cancel' (by omega)]
        _ ≤ n := Nat.log2_self_le hn

theorem quotient_bounds (num : Nat) {den : Nat} (hden : 0 < den) (bits : Nat) :
    num < 2 * 2 ^ bits * (den * 2 ^ ((num / den).log2 - bits)) ∧
      ((num / den).log2 - bits = 0 ∨ 2 ^ bits * (den * 2 ^ ((num / den).log2 - bits)) ≤ num) := by
  obtain ⟨hhigh, hlow⟩ := log2_bounds (num / den) bits
  generalize (num / den).log2 - bits = shift at *
  constructor
  · calc num < 2 * 2 ^ bits * 2 ^ shift * den := (Nat.div_lt_iff_lt_mul hden).mp hhigh
      _ = 2 * 2 ^ bits * (den * 2 ^ shift) := by ring
  · refine hlow.imp_right fun hlow => ?_
    calc 2 ^ bits * (den * 2 ^ shift) = 2 ^ bits * 2 ^ shift * den := by ring
      _ ≤ num := (Nat.le_div_iff_mul_le hden).mp hlow

/-- A quotient of as many bits as a significand has is rounded to a significand. -/
theorem divHalfEven_bounds {num den : Nat} (hden : 0 < den) {shift : Nat}
    (hhigh : num < 2 * f.hidden * den) (hlow : shift = 0 ∨ f.hidden * den ≤ num) :
    divHalfEven num den ≤ 2 * f.hidden ∧ (shift = 0 ∨ f.hidden ≤ divHalfEven num den) := by
  constructor
  · rw [divHalfEven_le_iff hden]
    left
    calc 2 * num < 2 * (2 * f.hidden * den) := Nat.mul_lt_mul_of_pos_left hhigh Nat.two_pos
      _ = 2 * (2 * f.hidden) * den := by ring
      _ ≤ (2 * (2 * f.hidden) + 1) * den := Nat.mul_le_mul_right den (Nat.le_succ _)
  · refine hlow.imp_right fun hlow => ?_
    have hpos := f.hidden_pos
    by_contra hlt
    have hbelow := (divHalfEven_le_iff hden num (f.hidden - 1)).mp (by omega)
    have hhalf : (2 * (f.hidden - 1) + 1) * den < 2 * f.hidden * den :=
      Nat.mul_lt_mul_of_pos_right (by omega) hden
    have hdouble : 2 * (f.hidden * den) = 2 * f.hidden * den := (Nat.mul_assoc _ _ _).symm
    omega

section Significand

variable {num den shift : Nat} (hden : 0 < den)
  (hhigh : num * 2 ^ f.depth < 2 * f.hidden * (den * 2 ^ shift))
  (hlow : shift = 0 ∨ f.hidden * (den * 2 ^ shift) ≤ num * 2 ^ f.depth)

include hden hhigh hlow

/-- A quotient is on the near side of the middle behind the significand to which it is rounded, -/
theorem Proper.below_rounded (hf : f.Proper) :
    f.Below (num / den)
      (shift * f.hidden + divHalfEven (num * 2 ^ f.depth) (den * 2 ^ shift)) := by
  have hunit : 0 < den * 2 ^ shift := Nat.mul_pos hden (Nat.two_pow_pos shift)
  have hround := divHalfEven_le_iff hunit (num * 2 ^ f.depth)
  obtain ⟨hmost, hleast⟩ := divHalfEven_bounds hunit hhigh hlow
  generalize divHalfEven (num * 2 ^ f.depth) (den * 2 ^ shift) = significand at *
  rcases hmost.eq_or_lt with rfl | hlt
  · -- the significand has carried, and is the first one under the next shift
    have hcarry : shift * f.hidden + 2 * f.hidden = (shift + 1) * f.hidden + f.hidden := by ring
    have hfirst : f.hidden < 2 * f.hidden := lt_two_mul_self f.hidden_pos
    rw [hcarry, hf.below_significand_iff hden hfirst (Or.inr le_rfl)]
    left
    calc 2 * (num * 2 ^ f.depth) < 2 * (2 * f.hidden * (den * 2 ^ shift)) :=
          Nat.mul_lt_mul_of_pos_left hhigh Nat.two_pos
      _ = 2 * f.hidden * (den * 2 ^ (shift + 1)) := by ring
      _ ≤ (2 * f.hidden + 1) * (den * 2 ^ (shift + 1)) :=
          Nat.mul_le_mul_right _ (Nat.le_succ _)
  · rw [hf.below_significand_iff hden hlt hleast, ← hround]

/-- and on the far side of the middle in front of it. -/
theorem Proper.not_below_rounded (hf : f.Proper)
    (hr : r + 1 = shift * f.hidden + divHalfEven (num * 2 ^ f.depth) (den * 2 ^ shift)) :
    ¬ f.Below (num / den) r := by
  have hpos := f.hidden_pos
  have hunit : 0 < den * 2 ^ shift := Nat.mul_pos hden (Nat.two_pow_pos shift)
  have hround := divHalfEven_le_iff hunit (num * 2 ^ f.depth)
  obtain ⟨hmost, hleast⟩ := divHalfEven_bounds hunit hhigh hlow
  generalize divHalfEven (num * 2 ^ f.depth) (den * 2 ^ shift) = significand at *
  by_cases hsame : shift = 0 ∨ f.hidden < significand
  · obtain ⟨before, rfl⟩ : ∃ before, significand = before + 1 :=
      ⟨significand - 1, by rcases hsame with rfl | _ <;> omega⟩
    obtain rfl : r = shift * f.hidden + before := by omega
    rw [hf.below_significand_iff hden (by omega) (hsame.imp_right (by omega)), ← hround]
    omega
  · -- the pattern in front is the last one under the shift before
    obtain ⟨s, rfl⟩ : ∃ s, shift = s + 1 := ⟨shift - 1, by omega⟩
    obtain rfl : significand = f.hidden := by omega
    obtain rfl : r = s * f.hidden + (2 * f.hidden - 1) := by
      have hcarry : (s + 1) * f.hidden = s * f.hidden + f.hidden := Nat.succ_mul s f.hidden
      omega
    have hscaled : 4 * f.hidden * (den * 2 ^ s) ≤ 2 * (num * 2 ^ f.depth) :=
      calc 4 * f.hidden * (den * 2 ^ s) = 2 * (f.hidden * (den * 2 ^ (s + 1))) := by ring
        _ ≤ 2 * (num * 2 ^ f.depth) :=
          Nat.mul_le_mul_left 2 (hlow.resolve_left (Nat.succ_ne_zero s))
    have hhalf : (2 * (2 * f.hidden - 1) + 1) * (den * 2 ^ s) < 4 * f.hidden * (den * 2 ^ s) :=
      Nat.mul_lt_mul_of_pos_right (by omega) (Nat.mul_pos hden (Nat.two_pow_pos s))
    rw [hf.below_significand_iff hden (by omega) (Or.inr (by omega))]
    omega

end Significand

/-- **Rounding finds the cell** of a quotient. -/
theorem Proper.cell_nearest (hf : f.Proper) (num : Nat) {den : Nat} (hden : 0 < den) :
    f.Cell (num / den) (f.nearest num den) := by
  obtain ⟨hhigh, hlow⟩ := quotient_bounds (num * 2 ^ f.depth) hden f.fractionBits
  exact cell_of_below (hf.below_rounded hden hhigh hlow)
    fun _ hr => hf.not_below_rounded hden hhigh hlow hr

/-- The numbers of another format are quotients by a power of two. -/
theorem Proper.cell_nearest_value (hf : f.Proper) (g : Format) (p : Nat) :
    f.Cell (g.value p) (f.nearest (g.steps p) (Nat.pow 2 g.depth)) := by
  have hcell := hf.cell_nearest (g.steps p) (Nat.two_pow_pos g.depth)
  rw [Nat.cast_pow, Nat.cast_ofNat] at hcell
  exact hcell

/-! ## Distances -/

/-- Of two numbers the lower one is nearer up to the middle between them, and the higher one from it on. -/
theorem abs_sub_le_abs_sub_iff {a b : ℚ} (hab : a < b) (m : ℚ) :
    (|a - m| ≤ |b - m| ↔ m ≤ (a + b) / 2) ∧ (|b - m| ≤ |a - m| ↔ (a + b) / 2 ≤ m) := by
  have hpos : 0 < 2 * (b - a) := by linarith
  have hup : (b - m) ^ 2 - (a - m) ^ 2 = 2 * (b - a) * ((a + b) / 2 - m) := by ring
  have hdown : (a - m) ^ 2 - (b - m) ^ 2 = 2 * (b - a) * (m - (a + b) / 2) := by ring
  constructor
  · rw [← sq_le_sq, ← sub_nonneg, hup, mul_nonneg_iff_of_pos_left hpos, sub_nonneg]
  · rw [← sq_le_sq, ← sub_nonneg, hdown, mul_nonneg_iff_of_pos_left hpos, sub_nonneg]

/-- On the near side of the middle behind it a pattern is nearer than the ones after it, -/
theorem Below.abs_sub_le (h : f.Below m p) (hr : p < r) :
    |f.value p - m| ≤ |f.value r - m| ∧ (|f.value p - m| = |f.value r - m| → Even p) := by
  obtain ⟨hup, hdown⟩ := abs_sub_le_abs_sub_iff (f.value_strictMono hr) m
  have hnext : f.value (p + 1) ≤ f.value r := f.value_strictMono.monotone hr
  have hmiddle : f.middle p ≤ (f.value p + f.value r) / 2 := by
    rw [middle]
    linarith
  rcases h with hlt | ⟨heq, heven⟩
  · refine ⟨hup.mpr (hlt.le.trans hmiddle), fun htie => ?_⟩
    exact absurd (hdown.mp htie.ge) (not_le.mpr (hlt.trans_le hmiddle))
  · exact ⟨hup.mpr (heq.le.trans hmiddle), fun _ => heven⟩

/-- and on its far side the next pattern is nearer than the ones before it. -/
theorem abs_sub_le_of_not_below (h : ¬ f.Below m p) (hr : r ≤ p) :
    |f.value (p + 1) - m| ≤ |f.value r - m| ∧
      (|f.value (p + 1) - m| = |f.value r - m| → Even (p + 1)) := by
  obtain ⟨hup, hdown⟩ := abs_sub_le_abs_sub_iff (f.value_strictMono (Nat.lt_succ_of_le hr)) m
  have hvalue : f.value r ≤ f.value p := f.value_strictMono.monotone hr
  have hmiddle : (f.value r + f.value (p + 1)) / 2 ≤ f.middle p := by
    rw [middle]
    linarith
  rcases not_below_iff.mp h with hlt | ⟨heq, hodd⟩
  · refine ⟨hdown.mpr (hmiddle.trans hlt.le), fun htie => ?_⟩
    exact absurd (hup.mp htie.ge) (not_le.mpr (hmiddle.trans_lt hlt))
  · exact ⟨hdown.mpr (hmiddle.trans heq.ge), fun _ => Nat.even_add_one.mpr hodd⟩

/-- The pattern of a cell is nearest to the numbers in it. -/
theorem Cell.abs_sub_le (h : f.Cell m p) (hp : p < f.infinity) (r : Nat) :
    |f.value p - m| ≤ |f.value r - m| ∧
      (|f.value p - m| = |f.value r - m| → r = p ∨ Even p) := by
  rcases Nat.lt_trichotomy r p with hlt | rfl | hgt
  · obtain ⟨t, rfl⟩ : ∃ t, p = t + 1 := ⟨p - 1, by omega⟩
    have habove : ¬ f.Below m t := by
      rw [← h.le_iff t (by omega)]
      omega
    obtain ⟨hle, htie⟩ := abs_sub_le_of_not_below habove (Nat.le_of_lt_succ hlt)
    exact ⟨hle, fun heq => Or.inr (htie heq)⟩
  · exact ⟨le_rfl, fun _ => Or.inl rfl⟩
  · obtain ⟨hle, htie⟩ := ((h.le_iff p hp).mp le_rfl).abs_sub_le hgt
    exact ⟨hle, fun heq => Or.inr (htie heq)⟩

end Format

/-! ## Signs -/

section Signs

variable {s negative : Bool} {a m : ℚ}

theorem withSign_inj {b : ℚ} (h : withSign negative a = withSign negative b) : a = b := by
  cases negative with
  | true => exact neg_injective h
  | false => exact h

theorem abs_withSign (hm : 0 ≤ m) : |withSign negative m| = m := by
  cases negative with
  | true => exact (abs_neg m).trans (abs_of_nonneg hm)
  | false => exact abs_of_nonneg hm

theorem abs_withSign_sub : |withSign negative a - withSign negative m| = |a - m| := by
  cases negative with
  | true =>
      show |-a - -m| = |a - m|
      rw [neg_sub_neg, abs_sub_comm]
  | false => rfl

theorem abs_withSign_sub_of_ne (ha : 0 ≤ a) (hm : 0 ≤ m) (hs : s ≠ negative) :
    |withSign s a - withSign negative m| = a + m := by
  have hsum : 0 ≤ a + m := add_nonneg ha hm
  cases s with
  | true =>
      obtain rfl : negative = false := by simpa using hs
      show |-a - m| = a + m
      rw [← neg_add', abs_neg, abs_of_nonneg hsum]
  | false =>
      obtain rfl : negative = true := by simpa using hs
      show |a - -m| = a + m
      rw [sub_neg_eq_add, abs_of_nonneg hsum]

end Signs

namespace Format

/-! ## Cells and correct rounding -/

variable {f : Format} {negative : Bool} {p : Nat} {m : ℚ}

/-- What lies in the cell of a pattern is rounded correctly to it. -/
theorem Proper.rounds_of_cell (hf : f.Proper) (hm : 0 ≤ m) (h : f.Cell m p) :
    f.Rounds negative p (withSign negative m) where
  le_infinity := h.le_infinity
  infinite_iff := by
    have hpos := hf.infinity_pos
    have hle := h.le_infinity
    have hfinite := h.le_iff (f.infinity - 1) (by omega)
    rw [hf.below_last_iff] at hfinite
    rw [abs_withSign hm, ← not_lt, ← hfinite]
    omega
  nearest := by
    intro hp s r hr
    rw [abs_withSign_sub]
    by_cases hs : s = negative
    · rw [hs, abs_withSign_sub]
      exact (h.abs_sub_le hp r).1
    · have hzero := (h.abs_sub_le hp 0).1
      rw [value_zero, zero_sub, abs_neg, abs_of_nonneg hm] at hzero
      rw [abs_withSign_sub_of_ne (f.value_nonneg r) hm hs]
      linarith [f.value_nonneg r]
  even := by
    intro hp s r hr
    rw [abs_withSign_sub]
    by_cases hs : s = negative
    · rw [hs, abs_withSign_sub]
      intro htie
      exact ((h.abs_sub_le hp r).2 htie).imp_left fun heq => by rw [heq]
    · -- a number of the other sign is as near only if zero is
      rw [abs_withSign_sub_of_ne (f.value_nonneg r) hm hs]
      intro htie
      obtain ⟨hle, hzero⟩ := h.abs_sub_le hp 0
      rw [value_zero, zero_sub, abs_neg, abs_of_nonneg hm] at hle hzero
      rcases hzero (by linarith [f.value_nonneg r]) with rfl | heven
      · exact Or.inr Even.zero
      · exact Or.inr heven

/-- What is rounded correctly to a finite pattern is on the near side of the middle behind it, -/
theorem Rounds.below (h : f.Rounds negative p (withSign negative m)) (hf : f.Proper) (hm : 0 ≤ m)
    (hp : p < f.infinity) : f.Below m p := by
  rcases (Nat.succ_le_of_lt hp).eq_or_lt with hlast | hnext
  · have hfinite := h.infinite_iff
    rw [abs_withSign hm, iff_false_left hp.ne, not_le] at hfinite
    have hbelow := hf.below_last_iff.mpr hfinite
    rwa [← hlast] at hbelow
  · have hstep := f.value_strictMono (Nat.lt_succ_self p)
    obtain ⟨hup, hdown⟩ := abs_sub_le_abs_sub_iff hstep m
    have hnear := h.nearest hp negative (p + 1) hnext
    have htie := h.even hp negative (p + 1) hnext
    rw [abs_withSign_sub, abs_withSign_sub] at hnear htie
    rcases (hup.mp hnear).lt_or_eq with hlt | heq
    · exact Or.inl hlt
    · have hne : withSign negative (f.value (p + 1)) ≠ withSign negative (f.value p) :=
        fun hsame => hstep.ne' (withSign_inj hsame)
      exact Or.inr ⟨heq, (htie (hnear.antisymm (hdown.mpr heq.ge))).resolve_left hne⟩

/-- and on the far side of the middle in front of it. -/
theorem Rounds.not_below (h : f.Rounds negative (p + 1) (withSign negative m)) (hf : f.Proper)
    (hm : 0 ≤ m) : ¬ f.Below m p := by
  rcases h.le_infinity.eq_or_lt with hlast | hp
  · have hinfinite := h.infinite_iff.mp hlast
    rw [abs_withSign hm] at hinfinite
    have hbelow := hf.below_last_iff.not.mpr (not_lt.mpr hinfinite)
    rwa [← hlast] at hbelow
  · have hstep := f.value_strictMono (Nat.lt_succ_self p)
    obtain ⟨hup, hdown⟩ := abs_sub_le_abs_sub_iff hstep m
    have hnear := h.nearest hp negative p (by omega)
    have htie := h.even hp negative p (by omega)
    rw [abs_withSign_sub, abs_withSign_sub] at hnear htie
    rw [not_below_iff]
    rcases (hdown.mp hnear).lt_or_eq with hlt | heq
    · exact Or.inl hlt
    · have hne : withSign negative (f.value p) ≠ withSign negative (f.value (p + 1)) :=
        fun hsame => hstep.ne (withSign_inj hsame)
      have heven := (htie (hnear.antisymm (hup.mpr heq.ge))).resolve_left hne
      exact Or.inr ⟨heq.symm, Nat.even_add_one.mp heven⟩

/-- **To round correctly is to find the cell.** -/
theorem Proper.rounds_iff_cell (hf : f.Proper) (hm : 0 ≤ m) :
    f.Rounds negative p (withSign negative m) ↔ f.Cell m p := by
  refine ⟨fun h => ⟨h.le_infinity, fun r hr => ⟨fun hle => ?_, fun hbelow => ?_⟩⟩,
    hf.rounds_of_cell hm⟩
  · exact (h.below hf hm (by omega)).mono hle
  · by_contra hlt
    obtain ⟨t, rfl⟩ : ∃ t, p = t + 1 := ⟨p - 1, by omega⟩
    exact h.not_below hf hm (hbelow.mono (by omega))

end Format

end TaggedValue.Number
