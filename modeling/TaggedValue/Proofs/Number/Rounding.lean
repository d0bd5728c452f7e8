import Mathlib.Algebra.Order.Ring.Nat
import Mathlib.Order.Monotone.Basic
import Mathlib.Tactic.Ring
import TaggedValue.Number.Decimal

/-!
# The shortest digits round to their number

Rounding looks at a quotient only: numerator and denominator may be scaled alike. A number of steps
rounds to the pattern that stands for it, so all its digits together read back, and the search for fewer
digits ends with some that read back too.
-/

namespace TaggedValue.Number

/-! ## Quotients -/

theorem divHalfEven_scale {k : Nat} (hk : 0 < k) (num den : Nat) :
    divHalfEven (k * num) (k * den) = divHalfEven num den := by
  have hlow : 2 * (k * (num % den)) < k * den ↔ 2 * (num % den) < den := by
    rw [Nat.mul_left_comm]
    exact Nat.mul_lt_mul_left hk
  have hhigh : k * den < 2 * (k * (num % den)) ↔ den < 2 * (num % den) := by
    rw [Nat.mul_left_comm]
    exact Nat.mul_lt_mul_left hk
  simp only [divHalfEven, Nat.mul_div_mul_left _ _ hk, Nat.mul_mod_mul_left, hlow, hhigh]

theorem divHalfEven_mul {den : Nat} (hden : 0 < den) (n : Nat) : divHalfEven (n * den) den = n := by
  have hrest : 2 * (n * den % den) < den := by
    rw [Nat.mul_mod_left]
    exact hden
  rw [divHalfEven]
  exact (if_pos hrest).trans (Nat.mul_div_cancel n hden)

namespace Format

variable (f : Format)

theorem hidden_pos : 0 < f.hidden := Nat.pow_pos Nat.two_pos

theorem nearest_scale {k : Nat} (hk : 0 < k) (num den : Nat) :
    f.nearest (k * num) (k * den) = f.nearest num den := by
  simp only [nearest, Nat.mul_assoc, Nat.mul_div_mul_left _ _ hk, divHalfEven_scale hk]

/-! ## Patterns and steps -/

/-- The steps of a significand under a shift. The significand may have carried to twice the hidden bit. -/
theorem steps_significand {shift significand : Nat} (hhigh : significand ≤ 2 * f.hidden)
    (hlow : shift = 0 ∨ f.hidden ≤ significand) :
    f.steps (shift * f.hidden + significand) = significand * 2 ^ shift := by
  have hpos := f.hidden_pos
  rcases Nat.lt_or_ge significand f.hidden with hsmall | hlarge
  · obtain rfl : shift = 0 := hlow.resolve_right (Nat.not_le.mpr hsmall)
    rw [Nat.zero_mul, Nat.zero_add, steps, if_pos hsmall, pow_zero, Nat.mul_one]
  · obtain ⟨fraction, rfl⟩ := Nat.exists_eq_add_of_le hlarge
    have hnormal : ¬ shift * f.hidden + (f.hidden + fraction) < f.hidden := by omega
    rw [steps, if_neg hnormal, Nat.pow_eq]
    rcases Nat.lt_or_ge fraction f.hidden with hfraction | hcarry
    · have hfields : shift * f.hidden + (f.hidden + fraction) =
          fraction + f.hidden * (shift + 1) := by ring
      rw [hfields, Nat.add_mul_mod_self_left, Nat.add_mul_div_left _ _ hpos,
        Nat.mod_eq_of_lt hfraction, Nat.div_eq_of_lt hfraction, Nat.zero_add, Nat.add_sub_cancel]
    · obtain rfl : fraction = f.hidden := by omega
      have hfields : shift * f.hidden + (f.hidden + f.hidden) = f.hidden * (shift + 2) := by ring
      rw [hfields, Nat.mul_mod_right, Nat.mul_div_cancel_left _ hpos, Nat.add_zero,
        Nat.add_sub_assoc (by decide), pow_add]
      ring

/-- Every pattern is a significand under a shift, and the shift is zero unless the hidden bit is set. -/
theorem exists_significand (pattern : Nat) :
    ∃ shift significand, pattern = shift * f.hidden + significand ∧
      significand < 2 * f.hidden ∧ (shift = 0 ∨ f.hidden ≤ significand) := by
  have hpos := f.hidden_pos
  rcases Nat.lt_or_ge pattern f.hidden with hsmall | hlarge
  · exact ⟨0, pattern, by omega, by omega, Or.inl rfl⟩
  · -- the exponent field is at least one, and one is taken off it for the hidden bit
    have hfield : 1 ≤ pattern / f.hidden := (Nat.one_le_div_iff hpos).mpr hlarge
    have hfraction : pattern % f.hidden < f.hidden := Nat.mod_lt _ hpos
    refine ⟨pattern / f.hidden - 1, f.hidden + pattern % f.hidden, ?_, by omega, Or.inr (by omega)⟩
    calc pattern = (pattern / f.hidden - 1 + 1) * f.hidden + pattern % f.hidden := by
            rw [Nat.sub_add_cancel hfield, Nat.div_add_mod']
      _ = (pattern / f.hidden - 1) * f.hidden + (f.hidden + pattern % f.hidden) := by ring

theorem steps_lt_succ (pattern : Nat) : f.steps pattern < f.steps (pattern + 1) := by
  obtain ⟨shift, significand, rfl, hhigh, hlow⟩ := f.exists_significand pattern
  rw [f.steps_significand hhigh.le hlow, Nat.add_assoc,
    f.steps_significand hhigh (hlow.imp_right Nat.le_succ_of_le)]
  exact Nat.mul_lt_mul_of_pos_right (Nat.lt_succ_self significand) (Nat.two_pow_pos shift)

/-- Patterns grow with the numbers that they stand for. -/
theorem steps_strictMono : StrictMono f.steps := strictMono_nat_of_lt_succ f.steps_lt_succ

theorem steps_pos {pattern : Nat} (h : 0 < pattern) : 0 < f.steps pattern :=
  (Nat.zero_le _).trans_lt (f.steps_strictMono h)

/-- The shift is read off the number of steps. -/
theorem exists_shift (pattern : Nat) :
    ∃ shift significand, f.steps pattern = significand * 2 ^ shift ∧
      pattern = shift * f.hidden + significand ∧
      (f.steps pattern).log2 - f.fractionBits = shift := by
  obtain ⟨shift, significand, hpattern, hhigh, hlow⟩ := f.exists_significand pattern
  have hsteps : f.steps pattern = significand * 2 ^ shift := by
    rw [hpattern, f.steps_significand hhigh.le hlow]
  refine ⟨shift, significand, hsteps, hpattern, ?_⟩
  have hwidth : significand < 2 ^ (f.fractionBits + 1) := by
    rwa [pow_succ, Nat.mul_comm]
  rw [hsteps]
  rcases hlow with rfl | hlow
  · rw [pow_zero, Nat.mul_one]
    rcases Nat.eq_zero_or_pos significand with rfl | hpos
    · rw [Nat.log2_zero, Nat.zero_sub]
    · exact Nat.sub_eq_zero_of_le (Nat.le_of_lt_succ ((Nat.log2_lt hpos.ne').mpr hwidth))
  · have hshift := Nat.two_pow_pos shift
    have hne : significand * 2 ^ shift ≠ 0 := (Nat.mul_pos (f.hidden_pos.trans_le hlow) hshift).ne'
    have hlog : (significand * 2 ^ shift).log2 = f.fractionBits + shift := by
      rw [Nat.log2_eq_iff hne, Nat.add_right_comm, pow_add, pow_add _ (f.fractionBits + 1)]
      exact ⟨Nat.mul_le_mul_right _ hlow, Nat.mul_lt_mul_of_pos_right hwidth hshift⟩
    rw [hlog, Nat.add_sub_cancel_left]

/-- **A number of steps rounds to its pattern.** -/
theorem nearest_steps {pattern : Nat} (h : pattern ≤ f.infinity) :
    f.nearest (f.steps pattern) (2 ^ f.depth) = pattern := by
  have hdepth : 0 < 2 ^ f.depth := Nat.two_pow_pos _
  have hscaled : f.steps pattern * Nat.pow 2 f.depth / 2 ^ f.depth = f.steps pattern :=
    Nat.mul_div_cancel _ hdepth
  obtain ⟨shift, significand, hsteps, hpattern, hshift⟩ := f.exists_shift pattern
  have hrounded : divHalfEven (f.steps pattern * Nat.pow 2 f.depth)
      (2 ^ f.depth * Nat.pow 2 shift) = significand := by
    rw [hsteps, Nat.mul_assoc, Nat.mul_comm (2 ^ shift)]
    exact divHalfEven_mul (Nat.mul_pos hdepth (Nat.two_pow_pos shift)) significand
  rw [nearest, hscaled, hshift, hrounded, ← hpattern]
  exact Nat.min_eq_right h

end Format

namespace Decimal

open Format (binary64)

/-! ## Decimals within reach -/

theorem toPattern_zero (e : Int) : toPattern ⟨0, e⟩ = 0 := if_pos rfl

/-- A whole number is rounded as it is, -/
theorem toPattern_whole {n e : Nat} (hn : n ≠ 0) (he : e ≤ outOfReach) :
    toPattern ⟨n, e⟩ = binary64.nearest (n * 10 ^ e) 1 := by
  have hreach : ¬ (outOfReach : Int) < e := by omega
  rw [toPattern, if_neg hn, if_pos (Int.natCast_nonneg e), if_neg hreach]
  rfl

/-- and one with decimal places as a quotient. -/
theorem toPattern_places {n k : Nat} (hn : n ≠ 0) (hk : 0 < k) (hreach : k ≤ n.log2 + outOfReach) :
    toPattern ⟨n, -(k : Int)⟩ = binary64.nearest n (10 ^ k) := by
  have hsign : ¬ (0 : Int) ≤ -(k : Int) := by omega
  have hplaces : (-(-(k : Int))).toNat = k := by omega
  rw [toPattern, if_neg hn]
  dsimp only
  rw [if_neg hsign, hplaces, if_neg (Nat.not_lt.mpr hreach)]
  rfl

/-- Out of reach a whole number is infinite, -/
theorem toPattern_far_whole {n e : Nat} (hn : n ≠ 0) (he : outOfReach < e) :
    toPattern ⟨n, e⟩ = binary64.infinity := by
  have hfar : (outOfReach : Int) < e := Int.ofNat_lt.mpr he
  rw [toPattern, if_neg hn, if_pos (Int.natCast_nonneg e), if_pos hfar]

/-- and one with too many decimal places is zero. -/
theorem toPattern_far_places {n k : Nat} (hn : n ≠ 0) (hfar : n.log2 + outOfReach < k) :
    toPattern ⟨n, -(k : Int)⟩ = 0 := by
  have hsign : ¬ (0 : Int) ≤ -(k : Int) := by omega
  have hplaces : (-(-(k : Int))).toNat = k := by omega
  rw [toPattern, if_neg hn]
  dsimp only
  rw [if_neg hsign, hplaces, if_pos hfar]

/-- Fives for decimal places: a quotient by a power of two. -/
theorem toPattern_fives {n k : Nat} (hn : n ≠ 0) (hk : 0 < k) :
    toPattern ⟨n * 5 ^ k, -(k : Int)⟩ = binary64.nearest n (2 ^ k) := by
  have hfives : 0 < 5 ^ k := Nat.pow_pos (by decide)
  have hdigits : n * 5 ^ k ≠ 0 := Nat.mul_ne_zero hn hfives.ne'
  have hreach : k ≤ (n * 5 ^ k).log2 := by
    rw [Nat.le_log2 hdigits]
    calc 2 ^ k ≤ 5 ^ k := Nat.pow_le_pow_left (by decide) k
      _ ≤ n * 5 ^ k := Nat.le_mul_of_pos_left _ (Nat.pos_of_ne_zero hn)
  have hten : 10 ^ k = 5 ^ k * 2 ^ k := Nat.mul_pow 5 2 k
  rw [toPattern_places hdigits hk (hreach.trans (Nat.le_add_right _ _)), hten, Nat.mul_comm n,
    binary64.nearest_scale hfives]

/-- Zeros written at the end change nothing, be they before the point or behind it. -/
theorem toPattern_zeros {n e k : Nat} (hk : k ≤ outOfReach)
    (h : toPattern ⟨n, e⟩ ≠ binary64.infinity) :
    toPattern ⟨n * 10 ^ (e + k), -(k : Int)⟩ = toPattern ⟨n, e⟩ := by
  by_cases hn : n = 0
  · subst hn
    rw [Nat.zero_mul, toPattern_zero, toPattern_zero]
  · have he : e ≤ outOfReach := by
      by_contra hfar
      exact h (toPattern_far_whole hn (Nat.lt_of_not_le hfar))
    have hzeros : n * 10 ^ (e + k) ≠ 0 := Nat.mul_ne_zero hn (Nat.pow_pos (by decide)).ne'
    rw [toPattern_whole hn he]
    rcases Nat.eq_zero_or_pos k with rfl | hpos
    · rw [show -((0 : Nat) : Int) = (0 : Nat) from rfl, toPattern_whole hzeros (Nat.zero_le _), pow_zero,
        Nat.mul_one, Nat.add_zero]
    · have hsplit : n * 10 ^ (e + k) = 10 ^ k * (n * 10 ^ e) := by
        rw [pow_add, ← Nat.mul_assoc, Nat.mul_comm]
      have hscale := binary64.nearest_scale (Nat.pow_pos (by decide) : 0 < 10 ^ k) (n * 10 ^ e) 1
      rw [toPattern_places hzeros hpos (by omega), hsplit, ← hscale, Nat.mul_one]

/-! ## The shortest decimal -/

/-- Whether a decimal on this power of ten reads back. -/
def candidate? (tie : Tie) (pattern : Nat) (e : Int) : Option Decimal :=
  (neighbours tie (binary64.steps pattern) e).find? (·.toPattern == pattern)

-- The denominator of the neighbours is a power that is too large to be computed on the way.
attribute [local irreducible] neighbours in
theorem search_succ (tie : Tie) (pattern fuel : Nat) (e : Int) :
    search tie pattern (fuel + 1) e =
      match candidate? tie pattern e with
      | some d => some d
      | none => search tie pattern fuel (e - 1) := rfl

theorem toPattern_of_search {tie : Tie} {pattern fuel : Nat} {e : Int} {d : Decimal}
    (h : search tie pattern fuel e = some d) : d.toPattern = pattern := by
  induction fuel generalizing e with
  | zero => exact absurd h (Option.some_ne_none d).symm
  | succ fuel ih =>
      rw [search_succ] at h
      cases hfind : candidate? tie pattern e with
      | none =>
          rw [hfind] at h
          exact ih h
      | some found =>
          rw [hfind] at h
          rw [candidate?] at hfind
          have hback := List.find?_some hfind
          rw [← Option.some.inj h]
          exact beq_iff_eq.mp hback

/-- All digits of a number together read back. -/
theorem toPattern_exact {pattern : Nat} (hpos : 0 < pattern) (h : pattern ≤ binary64.infinity) :
    (exact (binary64.steps pattern)).toPattern = pattern := by
  have hsteps : binary64.steps pattern ≠ 0 := (binary64.steps_pos hpos).ne'
  have hdepth : 0 < binary64.depth := by decide
  rw [exact, Nat.pow_eq, toPattern_fives hsteps hdepth, binary64.nearest_steps h]

/-- **The shortest digits read back.** -/
theorem toPattern_shortest (tie : Tie) {pattern : Nat} (h : pattern ≤ binary64.infinity) :
    (shortest tie pattern).toPattern = pattern := by
  rcases Nat.eq_zero_or_pos pattern with rfl | hpos
  · rfl
  · rw [shortest, if_neg hpos.ne']
    dsimp only
    generalize coarsest _ = start
    cases hsearch : search tie pattern (start + binary64.depth).toNat start with
    | none => exact toPattern_exact hpos h
    | some d => exact toPattern_of_search hsearch

end Decimal

end TaggedValue.Number
