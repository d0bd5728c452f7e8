import TaggedValue.Number.Binary32
import TaggedValue.Proofs.Number.Nearest

/-!
# Rounding twice

A number that is rounded to a wide format first and then to a narrow one is mostly rounded as if it had gone
to the narrow one at once. The middles between neighbours of the narrow format are numbers of the wide one,
so the first rounding carries nothing across them. But it may end on one of them, and then the second goes
to the even neighbour, on whichever side the number was. These are all the numbers that are rounded wrongly:
those with the odd neighbour on their side.

Narrowing from double to single precision is the second rounding.
-/

namespace TaggedValue.Number

namespace Format

variable {f wide narrow : Format} {m : ℚ} {p q r : Nat}

/-! ## Middles in the wide format -/

/-- The wide format has a number for every middle of the narrow one. -/
structure HoldsMiddles (wide narrow : Format) : Prop where
  hidden : 2 * narrow.hidden ≤ wide.hidden
  depth : narrow.depth < wide.depth
  range : narrow.value narrow.infinity ≤ wide.value wide.infinity

/-- A significand stands for a number of steps under every power of two. -/
theorem exists_steps_eq (f : Format) {significand : Nat} (h : significand ≤ 2 * f.hidden) (e : Nat) :
    ∃ p, f.steps p = significand * 2 ^ e := by
  induction e generalizing significand with
  | zero => exact ⟨0 * f.hidden + significand, f.steps_significand h (Or.inl rfl)⟩
  | succ e ih =>
      rcases Nat.lt_or_ge significand f.hidden with hsmall | hlarge
      · obtain ⟨p, hp⟩ := @ih (2 * significand) (by omega)
        exact ⟨p, by rw [hp, pow_succ]; ring⟩
      · exact ⟨_, f.steps_significand h (Or.inr hlarge)⟩

theorem HoldsMiddles.exists_value_eq (h : HoldsMiddles wide narrow) (hr : r < narrow.infinity) :
    ∃ w ≤ wide.infinity, wide.value w = narrow.middle r := by
  obtain ⟨shift, significand, hpattern, hhigh, hlow⟩ := narrow.exists_significand r
  obtain ⟨e, he⟩ : ∃ e, wide.depth = narrow.depth + 1 + e := Nat.exists_eq_add_of_le h.depth
  have hwidth : 2 * significand + 1 ≤ 2 * wide.hidden := by
    have hhidden := h.hidden
    omega
  obtain ⟨w, hw⟩ := wide.exists_steps_eq hwidth (shift + e)
  have hvalue : wide.value w = narrow.middle r := by
    rw [hpattern, middle_eq, value, hw, Nat.add_assoc, narrow.steps_significand hhigh.le hlow,
      narrow.steps_significand hhigh (hlow.imp_right Nat.le_succ_of_le), he, pow_add, pow_add,
      pow_succ]
    push_cast
    field_simp
    ring
  have hrange : wide.value w < wide.value wide.infinity :=
    calc wide.value w = narrow.middle r := hvalue
      _ < narrow.value (r + 1) := narrow.middle_lt_value_succ r
      _ ≤ narrow.value narrow.infinity := narrow.value_strictMono.monotone hr
      _ ≤ wide.value wide.infinity := h.range
  exact ⟨w, (wide.value_strictMono.lt_iff_lt.mp hrange).le, hvalue⟩

/-! ## The first rounding -/

/-- Nothing is carried across a number of the format, neither down -/
theorem Cell.lt_of_value_lt (h : f.Cell m p) (hr : r ≤ f.infinity) (hlt : f.value p < f.value r) :
    m < f.value r := by
  have hpr : p < r := f.value_strictMono.lt_iff_lt.mp hlt
  obtain ⟨t, rfl⟩ : ∃ t, r = t + 1 := ⟨r - 1, by omega⟩
  have hnext := f.middle_lt_value_succ t
  rcases (h.le_iff t (by omega)).mp (by omega) with hbelow | ⟨heq, -⟩
  · exact hbelow.trans hnext
  · exact heq.trans_lt hnext

/-- nor up. -/
theorem Cell.lt_of_lt_value (h : f.Cell m p) (hlt : f.value r < f.value p) : f.value r < m := by
  have hrp : r < p := f.value_strictMono.lt_iff_lt.mp hlt
  have habove : ¬ f.Below m r := by
    rw [← h.le_iff r (hrp.trans_le h.le_infinity)]
    omega
  rcases not_below_iff.mp habove with hmiddle | ⟨heq, -⟩
  · exact (f.value_lt_middle r).trans hmiddle
  · exact (f.value_lt_middle r).trans_eq heq.symm

/-- Off the middles of the narrow format, the number keeps its side of them. -/
theorem HoldsMiddles.below_iff (h : HoldsMiddles wide narrow) (hwide : wide.Cell m p)
    (hr : r < narrow.infinity) (hne : wide.value p ≠ narrow.middle r) :
    narrow.Below (wide.value p) r ↔ narrow.Below m r := by
  obtain ⟨w, hw, hvalue⟩ := h.exists_value_eq hr
  rw [← hvalue] at hne
  rw [Below, Below, ← hvalue]
  rcases lt_or_gt_of_ne hne with hlt | hgt
  · exact iff_of_true (Or.inl hlt) (Or.inl (hwide.lt_of_value_lt hw hlt))
  · have hm := hwide.lt_of_lt_value hgt
    refine iff_of_false ?_ ?_
    · rintro (hlt | ⟨heq, -⟩)
      · exact hgt.not_gt hlt
      · exact hne heq
    · rintro (hlt | ⟨heq, -⟩)
      · exact hm.not_gt hlt
      · exact hm.ne' heq

/-! ## The second rounding -/

/-- The pattern of the wide format to which a number was rounded stands for a middle of the narrow one,
and the number itself is not on the side of the even neighbour, to which the middle belongs. -/
def Misleads (wide narrow : Format) (m : ℚ) (p : Nat) : Prop :=
  ∃ r < narrow.infinity, wide.value p = narrow.middle r ∧
    (Even r ∧ wide.value p < m ∨ ¬ Even r ∧ m < wide.value p)

/-- A middle is on the side of a number unless the number is on the side of the odd neighbour. -/
theorem below_middle_iff :
    (f.Below (f.middle r) r ↔ f.Below m r) ↔
      ¬ (Even r ∧ f.middle r < m ∨ ¬ Even r ∧ m < f.middle r) := by
  rcases lt_trichotomy m (f.middle r) with hlt | rfl | hgt
  · simp [Below, hlt, hlt.not_gt]
  · simp [Below]
  · simp [Below, hgt, hgt.not_gt, hgt.ne']

/-- **Rounding twice** finds the cell of the number unless the first rounding misleads. -/
theorem HoldsMiddles.cell_iff (h : HoldsMiddles wide narrow) (hwide : wide.Cell m p)
    (hnarrow : narrow.Cell (wide.value p) q) :
    narrow.Cell m q ↔ ¬ Misleads wide narrow m p := by
  constructor
  · rintro hcell ⟨r, hr, heq, hodd⟩
    have hsame : narrow.Below (wide.value p) r ↔ narrow.Below m r :=
      (hnarrow.le_iff r hr).symm.trans (hcell.le_iff r hr)
    rw [heq] at hsame hodd
    exact below_middle_iff.mp hsame hodd
  · intro hleads
    refine ⟨hnarrow.le_infinity, fun r hr => (hnarrow.le_iff r hr).trans ?_⟩
    by_cases heq : wide.value p = narrow.middle r
    · rw [heq, below_middle_iff, ← heq]
      exact fun hodd => hleads ⟨r, hr, heq, hodd⟩
    · exact h.below_iff hwide hr heq

/-! ## Double and single precision -/

theorem value_infinity_binary32 : binary32.value binary32.infinity = 2 ^ 128 := by
  have hsteps : binary32.steps binary32.infinity = 2 ^ (128 + binary32.depth) := by decide +kernel
  rw [value, hsteps, Nat.cast_pow, Nat.cast_ofNat, pow_add, mul_div_cancel_right₀ _ (by positivity)]

theorem value_infinity_binary64 : binary64.value binary64.infinity = 2 ^ 1024 := by
  have hsteps : binary64.steps binary64.infinity = 2 ^ (1024 + binary64.depth) := by decide +kernel
  rw [value, hsteps, Nat.cast_pow, Nat.cast_ofNat, pow_add, mul_div_cancel_right₀ _ (by positivity)]

theorem holdsMiddles_binary64 : HoldsMiddles binary64 binary32 where
  hidden := by decide
  depth := by decide
  range := by
    rw [value_infinity_binary32, value_infinity_binary64]
    exact pow_le_pow_right₀ one_le_two (by decide)

end Format

/-- A sign weighs more than any pattern, so both can be told from their sum. -/
theorem sign_and_pattern {weight p : Nat} (hp : p < weight) (negative : Bool) :
    decide (weight ≤ if negative then weight + p else p) = negative ∧
      (if negative then weight + p else p) % weight = p := by
  cases negative with
  | true =>
      exact ⟨decide_eq_true (Nat.le_add_right _ _),
        (Nat.add_mod_left _ _).trans (Nat.mod_eq_of_lt hp)⟩
  | false => exact ⟨decide_eq_false (Nat.not_le.mpr hp), Nat.mod_eq_of_lt hp⟩

namespace Binary64

theorem fields_ofPattern {p : Nat} (hp : p ≤ Format.binary64.infinity) (negative : Bool) :
    (ofPattern negative p).isNegative = negative ∧ (ofPattern negative p).pattern = p := by
  have hweight : p < signBit := hp.trans_lt (by decide)
  have hbits : (ofPattern negative p).bits.toNat = if negative then signBit + p else p := by
    have hwidth : signBit + signBit = UInt64.size := rfl
    refine UInt64.toNat_ofNat_of_lt ?_
    split <;> omega
  rw [isNegative, pattern, hbits]
  exact sign_and_pattern hweight negative

/-- The exact value. Infinity counts as the power of two behind the largest number. -/
def value (x : Binary64) : ℚ := withSign x.isNegative (Format.binary64.value x.pattern)

/-- What `q` is when it is rounded correctly to double precision. -/
def IsNearest (x : Binary64) (q : ℚ) : Prop := Format.binary64.Rounds x.isNegative x.pattern q

/-- The number is the middle between two neighbours of single precision, the power of two behind the largest
one being counted among them, and `q` is on the side of the odd neighbour. -/
def Misleads (x : Binary64) (q : ℚ) : Prop :=
  Format.binary64.Misleads Format.binary32 |q| x.pattern

end Binary64

namespace Binary32

theorem fields_ofPattern {p : Nat} (hp : p ≤ Format.binary32.infinity) (negative : Bool) :
    (ofPattern negative p).isNegative = negative ∧ (ofPattern negative p).pattern = p := by
  have hweight : p < signBit := hp.trans_lt (by decide)
  have hbits : (ofPattern negative p).bits.toNat = if negative then signBit + p else p := by
    have hwidth : signBit + signBit = UInt32.size := rfl
    refine UInt32.toNat_ofNat_of_lt ?_
    split <;> omega
  rw [isNegative, pattern, hbits]
  exact sign_and_pattern hweight negative

/-- What `q` is when it is rounded correctly to single precision. -/
def IsNearest (x : Binary32) (q : ℚ) : Prop := Format.binary32.Rounds x.isNegative x.pattern q

theorem isNearest_iff_cell {x : Binary32} {m : ℚ} (hm : 0 ≤ m) :
    x.IsNearest (withSign x.isNegative m) ↔ Format.binary32.Cell m x.pattern := by
  rw [IsNearest]
  exact Format.proper_binary32.rounds_iff_cell hm

/-- Narrowing keeps the sign and finds the cell of the size. -/
theorem cell_ofBinary64 {d : Binary64} (hd : d.pattern ≤ Format.binary64.infinity) :
    (ofBinary64 d).isNegative = d.isNegative ∧
      Format.binary32.Cell (Format.binary64.value d.pattern) (ofBinary64 d).pattern := by
  have hcell : ∃ p, ofBinary64 d = ofPattern d.isNegative p ∧
      Format.binary32.Cell (Format.binary64.value d.pattern) p := by
    rw [ofBinary64]
    dsimp only
    rw [if_neg (Nat.not_lt.mpr hd)]
    by_cases hinfinite : d.pattern = Format.binary64.infinity
    · have hoverflow : Format.binary32.overflow ≤ Format.binary64.value d.pattern := by
        rw [hinfinite]
        exact Format.proper_binary32.overflow_lt.le.trans Format.holdsMiddles_binary64.range
      rw [if_pos hinfinite]
      exact ⟨_, rfl, Format.proper_binary32.cell_infinity hoverflow⟩
    · rw [if_neg hinfinite]
      exact ⟨_, rfl, Format.proper_binary32.cell_nearest_value Format.binary64 d.pattern⟩
  obtain ⟨p, hp, hcell⟩ := hcell
  obtain ⟨hsign, hpattern⟩ := fields_ofPattern hcell.le_infinity d.isNegative
  rw [hp, hsign, hpattern]
  exact ⟨rfl, hcell⟩

/-- **Narrowing rounds correctly** what it narrows. -/
theorem isNearest_ofBinary64 {d : Binary64} (hd : d.pattern ≤ Format.binary64.infinity) :
    (ofBinary64 d).IsNearest d.value := by
  obtain ⟨hsign, hcell⟩ := cell_ofBinary64 hd
  rw [Binary64.value, ← hsign, isNearest_iff_cell (Format.value_nonneg _ _)]
  exact hcell

/-- **Narrowing what was rounded** is correct for the number itself unless the first rounding misleads. -/
theorem isNearest_ofBinary64_iff {d : Binary64} {m : ℚ} (hm : 0 ≤ m)
    (hd : d.IsNearest (withSign d.isNegative m)) :
    (ofBinary64 d).IsNearest (withSign d.isNegative m) ↔ ¬ d.Misleads (withSign d.isNegative m) := by
  rw [Binary64.IsNearest, Format.proper_binary64.rounds_iff_cell hm] at hd
  obtain ⟨hsign, hcell⟩ := cell_ofBinary64 hd.le_infinity
  rw [← hsign, isNearest_iff_cell hm, Binary64.Misleads, abs_withSign hm]
  exact Format.holdsMiddles_binary64.cell_iff hd hcell

end Binary32

end TaggedValue.Number
