import TaggedValue.Number.FloatText
import TaggedValue.Number.Layout
import TaggedValue.Proofs.Number.Decimals
import TaggedValue.Proofs.Number.Rounding

/-!
# Written numbers are read back

A double precision number is written in full or with an exponent. Both forms begin with a mantissa, that
is digits with at most one point among them, and the reader takes a mantissa for its digits and their
places. So the decimal that is read has the value of the shortest one, if not its digits: zeros are
written behind it to reach the point. In literals a point or an exponent, or else the word for infinity,
tells a number from an integer.
-/

namespace TaggedValue.Number

/-! ## Digits -/

theorem forall_mem_zeros (k : Nat) : ∀ c ∈ List.replicate k '0', c.isDigit = true := by
  intro c hc
  rw [List.eq_of_mem_replicate hc]
  rfl

theorem IsDigits.append {ds es : List Char} (hds : IsDigits ds)
    (hes : ∀ c ∈ es, c.isDigit = true) : IsDigits (ds ++ es) :=
  ⟨List.append_ne_nil_of_left_ne_nil hds.1 es,
    fun c hc => (List.mem_append.mp hc).elim (hds.2 c) (hes c)⟩

theorem digitsValue_append_zeros (ds : List Char) (k : Nat) :
    digitsValue (ds ++ List.replicate k '0') = digitsValue ds * 10 ^ k := by
  rw [digitsValue, Nat.ofDigitChars_append, Nat.ofDigitChars_replicate_zero, Nat.mul_comm, digitsValue]

theorem digitsValue_zeros_append (k : Nat) (ds : List Char) :
    digitsValue (List.replicate k '0' ++ ds) = digitsValue ds := by
  rw [digitsValue, Nat.ofDigitChars_append, Nat.ofDigitChars_replicate_zero, Nat.mul_zero, digitsValue]

/-! ## Mantissas -/

/-- A text of digits with at most one point among them, all its digits, and how many of them are behind
the point. -/
inductive Mantissa : List Char → List Char → Nat → Prop
  | whole {ds : List Char} (digits : IsDigits ds) : Mantissa ds ds 0
  | point {ds places : List Char} (digits : IsDigits ds)
      (more : ∀ c ∈ places, c.isDigit = true) :
      Mantissa (ds ++ '.' :: places) (ds ++ places) places.length

/-- It is a case of figures: there is a digit before the point. -/
theorem Mantissa.figures {text digits : List Char} {places : Nat} (h : Mantissa text digits places) :
    Figures text digits places := by
  cases h with
  | whole hdigits => exact .whole hdigits
  | point hdigits hmore => exact .point (hdigits.append hmore)

theorem Mantissa.readDecimal_append {text digits : List Char} {places : Nat}
    (h : Mantissa text digits places) {ending : List Char}
    (hending : ∀ c ∈ ending.head?, c = 'e') :
    readDecimal (text ++ ending) = readEnding (digitsValue digits) places ending :=
  h.figures.readDecimal_append fun c hc => Or.inl (hending c hc)

theorem Mantissa.readDecimal {text digits : List Char} {places : Nat}
    (h : Mantissa text digits places) :
    readDecimal text = some ⟨digitsValue digits, -(places : Int)⟩ :=
  readDecimal_eq_some_iff.mpr (.plain h.figures)

/-- A mantissa begins with a digit. -/
theorem Mantissa.exists_head {text digits : List Char} {places : Nat}
    (h : Mantissa text digits places) : ∃ c cs, text = c :: cs ∧ c.isDigit = true := by
  have hdigits : ∀ ds rest, IsDigits ds → ∃ c cs, ds ++ rest = c :: cs ∧ c.isDigit = true := by
    intro ds rest hds
    cases ds with
    | nil => exact absurd rfl hds.1
    | cons c cs => exact ⟨c, cs ++ rest, rfl, isDigits_cons hds⟩
  cases h with
  | whole hwhole =>
      have hhead := hdigits _ [] hwhole
      rwa [List.append_nil] at hhead
  | point hwhole _ => exact hdigits _ _ hwhole

/-- It holds nothing but digits and the point. -/
theorem Mantissa.forall_mem {text digits : List Char} {places : Nat}
    (h : Mantissa text digits places) : ∀ c ∈ text, c.isDigit = true ∨ c = '.' :=
  h.figures.forall_mem

theorem Mantissa.point_mem {text digits : List Char} {places : Nat}
    (h : Mantissa text digits places) (hplaces : 0 < places) : '.' ∈ text := by
  cases h with
  | whole _ => exact absurd hplaces (Nat.lt_irrefl 0)
  | point _ _ => exact List.mem_append_right _ List.mem_cons_self

namespace Layout

/-! ## Both forms of a decimal -/

/-- The digits before the exponent, with a point behind the first of them. -/
theorem mantissa_scientific {ds : List Char} (hds : IsDigits ds) :
    Mantissa (if ds.length = 1 then ds else ds.take 1 ++ '.' :: ds.drop 1) ds (ds.length - 1) := by
  by_cases hone : ds.length = 1
  · rw [if_pos hone, hone]
    exact .whole hds
  · have hfirst : IsDigits (ds.take 1) :=
      ⟨by simpa using hds.1, fun c hc => hds.2 c (List.mem_of_mem_take hc)⟩
    have hmore : ∀ c ∈ ds.drop 1, c.isDigit = true := fun c hc => hds.2 c (List.mem_of_mem_drop hc)
    have h := Mantissa.point hfirst hmore
    rw [List.take_append_drop, List.length_drop] at h
    rwa [if_neg hone]

theorem readExponent_write (l : Layout) (e : Int) :
    readExponent ((if e < 0 then ['-'] else if l.plusSign then ['+'] else []) ++
      Nat.toDigits 10 e.natAbs) = some e := by
  have hspells := spells_writeInt e
  rw [writeInt] at hspells
  rw [readExponent_eq_some_iff]
  by_cases hneg : e < 0
  · rw [if_pos hneg] at hspells ⊢
    exact hspells
  · rw [if_neg hneg] at hspells ⊢
    by_cases hplus : l.plusSign
    · have hvalue : (digitsValue (Nat.toDigits 10 e.natAbs) : Int) = e := by
        rw [digitsValue_toDigits]
        omega
      have hspells := Spells.plus (isDigits_toDigits e.natAbs)
      rw [hvalue] at hspells
      rw [if_pos hplus]
      exact hspells
    · rw [if_neg hplus]
      exact hspells

/-- A decimal with an exponent is read as it is. -/
theorem readDecimal_scientific (l : Layout) (d : Decimal) : readDecimal (l.scientific d) = some d := by
  have hdigits := isDigits_toDigits d.digits
  have hlength : 0 < (Nat.toDigits 10 d.digits).length := List.length_pos_iff.mpr hdigits.1
  rw [scientific, (mantissa_scientific hdigits).readDecimal_append (by simp), readEnding,
    readExponent_write, digitsValue_toDigits]
  have hexponent : d.exponent + (Nat.toDigits 10 d.digits).length - 1 -
      ((Nat.toDigits 10 d.digits).length - 1 : Nat) = d.exponent := by omega
  rw [Option.map_some, hexponent]

/-- A whole number in full: zeros up to the point, and one behind it in layouts that show the point. -/
theorem mantissa_full_whole (l : Layout) (n k : Nat) :
    ∃ ds, Mantissa (l.full ⟨n, k⟩) ds l.wholePoint.toNat ∧
      digitsValue ds = n * 10 ^ (k + l.wholePoint.toNat) := by
  have hdigits : IsDigits (Nat.toDigits 10 n ++ List.replicate k '0') :=
    (isDigits_toDigits n).append (forall_mem_zeros k)
  have hvalue : digitsValue (Nat.toDigits 10 n ++ List.replicate k '0') = n * 10 ^ k := by
    rw [digitsValue_append_zeros, digitsValue_toDigits]
  have hfull : l.full ⟨n, k⟩ = Nat.toDigits 10 n ++ List.replicate k '0' ++
      (if l.wholePoint then ['.', '0'] else []) := by
    rw [full, if_pos (Int.natCast_nonneg k)]
    rfl
  rw [hfull]
  cases l.wholePoint with
  | false =>
      refine ⟨_, ?_, hvalue⟩
      rw [if_neg Bool.false_ne_true, List.append_nil]
      exact .whole hdigits
  | true =>
      refine ⟨_, .point hdigits (forall_mem_zeros 1), ?_⟩
      have hpoint := digitsValue_append_zeros (Nat.toDigits 10 n ++ List.replicate k '0') 1
      rwa [hvalue, Nat.mul_assoc, ← pow_add] at hpoint

/-- A number with decimal places in full: the point stands before the last digits, and zeros before them
if there are too few. -/
theorem mantissa_full_places (l : Layout) {n k : Nat} (hk : 0 < k) :
    ∃ ds, Mantissa (l.full ⟨n, -(k : Int)⟩) ds k ∧ digitsValue ds = n := by
  have hdigits := isDigits_toDigits n
  have hvalue := digitsValue_toDigits n
  have hsign : ¬ (0 : Int) ≤ -(k : Int) := by omega
  have hplaces : (-(-(k : Int))).toNat = k := by omega
  rw [full]
  dsimp only
  rw [if_neg hsign, hplaces]
  generalize Nat.toDigits 10 n = ds at hdigits hvalue ⊢
  -- either there are digits left before the point, or zeros fill up to it
  by_cases hfew : k < ds.length
  · have hfront : IsDigits (ds.take (ds.length - k)) := by
      refine ⟨?_, fun c hc => hdigits.2 c (List.mem_of_mem_take hc)⟩
      rw [← List.length_pos_iff, List.length_take]
      omega
    have hback : (ds.drop (ds.length - k)).length = k := by
      rw [List.length_drop]
      omega
    have hmore : ∀ c ∈ ds.drop (ds.length - k), c.isDigit = true :=
      fun c hc => hdigits.2 c (List.mem_of_mem_drop hc)
    have h := Mantissa.point hfront hmore
    rw [List.take_append_drop, hback] at h
    rw [if_pos hfew]
    exact ⟨ds, h, hvalue⟩
  · have hzero : IsDigits ['0'] := ⟨nofun, forall_mem_zeros 1⟩
    have hlength : (List.replicate (k - ds.length) '0' ++ ds).length = k := by
      rw [List.length_append, List.length_replicate]
      omega
    have hmore : ∀ c ∈ List.replicate (k - ds.length) '0' ++ ds, c.isDigit = true :=
      fun c hc => (List.mem_append.mp hc).elim (forall_mem_zeros _ c) (hdigits.2 c)
    have h := Mantissa.point hzero hmore
    rw [hlength] at h
    rw [if_neg hfew]
    refine ⟨_, h, ?_⟩
    rw [← hvalue, ← digitsValue_zeros_append (k - ds.length) ds]
    exact digitsValue_zeros_append 1 _

/-- **In full.** The mantissa has the value of the decimal, with a place behind the point in layouts that
always show it. -/
theorem exists_mantissa_full (l : Layout) (d : Decimal) :
    ∃ ds k, Mantissa (l.full d) ds k ∧ (l.wholePoint = true → 0 < k) ∧
      (d.toPattern ≠ Format.binary64.infinity →
        Decimal.toPattern ⟨digitsValue ds, -(k : Int)⟩ = d.toPattern) := by
  obtain ⟨n, e⟩ := d
  by_cases hwhole : 0 ≤ e
  · obtain ⟨k, rfl⟩ := Int.eq_ofNat_of_zero_le hwhole
    obtain ⟨ds, hmantissa, hvalue⟩ := l.mantissa_full_whole n k
    have hone : l.wholePoint.toNat ≤ Decimal.outOfReach := l.wholePoint.toNat_le.trans (by decide)
    -- a finite pattern keeps the exponent within reach, so that the zeros can be counted
    refine ⟨ds, _, hmantissa, fun hpoint => ?_, fun hfinite => ?_⟩
    · rw [hpoint]
      exact Nat.one_pos
    · rw [hvalue, Decimal.toPattern_zeros hone hfinite]
  · obtain ⟨k, hk, rfl⟩ : ∃ k : Nat, 0 < k ∧ e = -(k : Int) := ⟨(-e).toNat, by omega, by omega⟩
    obtain ⟨ds, hmantissa, hvalue⟩ := l.mantissa_full_places (n := n) hk
    exact ⟨ds, k, hmantissa, fun _ => hk, fun _ => by rw [hvalue]⟩

/-- A written decimal is read as one with the same value. -/
theorem exists_readDecimal (l : Layout) {d : Decimal}
    (h : d.toPattern ≠ Format.binary64.infinity) :
    ∃ e, readDecimal (l.decimal d) = some e ∧ e.toPattern = d.toPattern := by
  rw [decimal]
  split
  · obtain ⟨ds, k, hmantissa, -, hvalue⟩ := l.exists_mantissa_full d
    exact ⟨_, hmantissa.readDecimal, hvalue h⟩
  · exact ⟨d, l.readDecimal_scientific d, rfl⟩

/-! ## Which characters are written -/

/-- The letter of an exponent, a sign and digits. -/
def IsExponent (cs : List Char) : Prop :=
  ∃ sign ds, cs = 'e' :: (sign ++ ds) ∧ sign ∈ [[], ['-'], ['+']] ∧ IsDigits ds

/-- A written decimal is a mantissa, or a mantissa and an exponent. -/
theorem exists_mantissa (l : Layout) (d : Decimal) :
    ∃ text ds k ending, l.decimal d = text ++ ending ∧ Mantissa text ds k ∧
      (ending = [] ∧ (l.wholePoint = true → 0 < k) ∨ IsExponent ending) := by
  rw [decimal]
  split
  · obtain ⟨ds, k, hmantissa, hpoint, -⟩ := l.exists_mantissa_full d
    exact ⟨_, ds, k, [], (List.append_nil _).symm, hmantissa, Or.inl ⟨rfl, hpoint⟩⟩
  · have hmantissa := mantissa_scientific (isDigits_toDigits d.digits)
    refine ⟨_, _, _, _, rfl, hmantissa, Or.inr ⟨_, _, rfl, ?_, isDigits_toDigits _⟩⟩
    split
    · decide
    · split
      · decide
      · decide

end Layout

/-! ## Numbers -/

theorem Binary64.ofPattern_pattern (x : Binary64) : ofPattern x.isNegative x.pattern = x := by
  have hbits : (if x.isNegative then signBit + x.pattern else x.pattern) = x.bits.toNat := by
    have hbound := x.bits.toNat_lt
    unfold isNegative pattern signBit
    by_cases hneg : 0x8000000000000000 ≤ x.bits.toNat
    · rw [if_pos (decide_eq_true hneg)]
      omega
    · rw [if_neg (by simpa using hneg)]
      omega
  rw [ofPattern, hbits, UInt64.ofNat_toNat]

/-- A size is read behind a sign as it is without. -/
theorem readBinary64_signed {size : List Char} {p : Nat} (negative : Bool)
    (hhead : ∀ c ∈ size.head?, c ≠ '-' ∧ c ≠ '+')
    (hsize : (∃ d, readDecimal size = some d ∧ d.toPattern = p) ∨
      readDecimal size = none ∧ readWord size = some p) :
    readBinary64 (if negative then '-' :: size else size) = .ok (.ofPattern negative p) := by
  have hne : size ≠ [] := by
    rintro rfl
    rcases hsize with ⟨d, hd, -⟩ | ⟨-, hword⟩
    · cases hd
    · cases hword
  have hsign : splitSign (if negative then '-' :: size else size) = (negative, size) := by
    cases negative with
    | true => rfl
    | false =>
        obtain ⟨c, cs, rfl⟩ := List.exists_cons_of_ne_nil hne
        obtain ⟨hminus, hplus⟩ := hhead c rfl
        exact splitSign_of_ne hminus hplus cs
  have hsigned : (if negative then '-' :: size else size).isEmpty = false := by
    cases negative with
    | true => rfl
    | false => exact List.isEmpty_eq_false_iff.mpr hne
  rw [readBinary64, hsigned, hsign]
  dsimp only
  rw [if_neg Bool.false_ne_true]
  rcases hsize with ⟨d, hd, rfl⟩ | ⟨hnone, hword⟩
  · rw [hd]
  · rw [hnone, hword]

namespace Layout

/-- What is written of a number without its sign. -/
def size (l : Layout) (x : Binary64) : List Char :=
  if x.isInfinite then ['i', 'n', 'f'] else l.decimal (Decimal.shortest l.tie x.pattern)

theorem write_eq (l : Layout) {x : Binary64} (hx : x.isNaN = false) :
    l.write x = if x.isNegative then '-' :: l.size x else l.size x := by
  rw [write, hx]
  rfl

theorem write_of_isNaN (l : Layout) {x : Binary64} (hx : x.isNaN = true) :
    l.write x = ['N', 'a', 'N'] := by
  rw [write, hx]
  rfl

theorem exists_head_size (l : Layout) (x : Binary64) :
    ∃ c cs, l.size x = c :: cs ∧ (c = 'i' ∨ c.isDigit = true) := by
  rw [size]
  split
  · exact ⟨_, _, rfl, Or.inl rfl⟩
  · obtain ⟨text, ds, k, ending, htext, hmantissa, -⟩ :=
      l.exists_mantissa (Decimal.shortest l.tie x.pattern)
    obtain ⟨c, cs, rfl, hc⟩ := hmantissa.exists_head
    exact ⟨c, cs ++ ending, htext, Or.inr hc⟩

/-- **What is written is read back**, in every layout: a number and no other is read from its text. -/
theorem readBinary64_write (l : Layout) {x : Binary64} (hx : x.isNaN = false) :
    readBinary64 (l.write x) = .ok x := by
  have hhead : ∀ c ∈ (l.size x).head?, c ≠ '-' ∧ c ≠ '+' := by
    obtain ⟨d, ds, hsize, hd⟩ := l.exists_head_size x
    rw [hsize]
    rintro c ⟨⟩
    rcases hd with rfl | hd
    · decide
    · exact ⟨ne_of_isDigit hd rfl, ne_of_isDigit hd rfl⟩
  have hsize : (∃ d, readDecimal (l.size x) = some d ∧ d.toPattern = x.pattern) ∨
      readDecimal (l.size x) = none ∧ readWord (l.size x) = some x.pattern := by
    rw [size]
    by_cases hinf : x.isInfinite
    · have hpattern : x.pattern = Format.binary64.infinity := beq_iff_eq.mp hinf
      rw [if_pos hinf, hpattern]
      exact Or.inr ⟨rfl, by decide⟩
    · have hne : x.pattern ≠ Format.binary64.infinity := fun h => hinf (beq_iff_eq.mpr h)
      have hle : x.pattern ≤ Format.binary64.infinity := by simpa [Binary64.isNaN] using hx
      have hshortest := Decimal.toPattern_shortest l.tie hle
      rw [← hshortest] at hne
      obtain ⟨d, hd, hvalue⟩ := l.exists_readDecimal hne
      rw [if_neg hinf]
      exact Or.inl ⟨d, hd, hvalue.trans hshortest⟩
  rw [l.write_eq hx, readBinary64_signed x.isNegative hhead hsize, x.ofPattern_pattern]

/-- A number is written like no other. -/
theorem write_inj {l : Layout} {x y : Binary64} (hx : x.isNaN = false)
    (h : l.write x = l.write y) : x = y := by
  have hread := l.readBinary64_write hx
  rw [h] at hread
  cases hy : y.isNaN with
  | true =>
      have hnan : readBinary64 ['N', 'a', 'N'] = .ok (.nan false) := by decide
      rw [l.write_of_isNaN hy, hnan] at hread
      obtain rfl := Except.ok.inj hread
      exact absurd hx (by decide)
  | false =>
      rw [l.readBinary64_write hy] at hread
      exact (Except.ok.inj hread).symm

/-! ## Characters -/

/-- The characters other than digits that numbers are written with. -/
def marks : List Char := ['-', '+', '.', 'e', 'i', 'n', 'f', 'N', 'a']

theorem IsExponent.forall_mem {cs : List Char} (h : IsExponent cs) :
    ∀ c ∈ cs, c.isDigit = true ∨ c ∈ marks := by
  obtain ⟨sign, ds, rfl, hsign, hds⟩ := h
  have hmarks : ∀ s ∈ [[], ['-'], ['+']], s ⊆ marks := by decide
  intro c hc
  rcases List.mem_cons.mp hc with rfl | hc
  · exact Or.inr (by decide)
  · rcases List.mem_append.mp hc with hc | hc
    · exact Or.inr (hmarks sign hsign hc)
    · exact Or.inl (hds.2 c hc)

theorem forall_mem_size (l : Layout) (x : Binary64) :
    ∀ c ∈ l.size x, c.isDigit = true ∨ c ∈ marks := by
  rw [size]
  split
  · have hword : ['i', 'n', 'f'] ⊆ marks := by decide
    exact fun c hc => Or.inr (hword hc)
  · obtain ⟨text, ds, k, ending, htext, hmantissa, hending⟩ :=
      l.exists_mantissa (Decimal.shortest l.tie x.pattern)
    rw [htext]
    intro c hc
    rcases List.mem_append.mp hc with hc | hc
    · rcases hmantissa.forall_mem c hc with hdigit | rfl
      · exact Or.inl hdigit
      · exact Or.inr (by decide)
    · rcases hending with ⟨rfl, -⟩ | hexponent
      · cases hc
      · exact hexponent.forall_mem c hc

theorem forall_mem_write (l : Layout) (x : Binary64) :
    ∀ c ∈ l.write x, c.isDigit = true ∨ c ∈ marks := by
  intro c hc
  cases hx : x.isNaN with
  | true =>
      rw [l.write_of_isNaN hx] at hc
      have hword : ['N', 'a', 'N'] ⊆ marks := by decide
      exact Or.inr (hword hc)
  | false =>
      rw [l.write_eq hx] at hc
      split at hc
      · rcases List.mem_cons.mp hc with rfl | hc
        · exact Or.inr (by decide)
        · exact l.forall_mem_size x c hc
      · exact l.forall_mem_size x c hc

/-- **A literal is no integer.** It has a point, an exponent or a word in it. -/
theorem exists_mark_literal (x : Binary64) : ∃ c ∈ literal.write x, c ∈ ['.', 'e', 'i', 'N'] := by
  have hsize : ∃ c ∈ literal.size x, c ∈ ['.', 'e', 'i', 'N'] := by
    rw [size]
    split
    · exact ⟨'i', by decide, by decide⟩
    · obtain ⟨text, ds, k, ending, htext, hmantissa, hending⟩ :=
        literal.exists_mantissa (Decimal.shortest literal.tie x.pattern)
      rw [htext]
      rcases hending with ⟨-, hpoint⟩ | ⟨sign, es, rfl, -⟩
      · exact ⟨'.', List.mem_append_left _ (hmantissa.point_mem (hpoint rfl)), by decide⟩
      · exact ⟨'e', List.mem_append_right _ List.mem_cons_self, by decide⟩
  cases hx : x.isNaN with
  | true =>
      rw [literal.write_of_isNaN hx]
      exact ⟨'N', by decide, by decide⟩
  | false =>
      obtain ⟨c, hc, hmark⟩ := hsize
      rw [literal.write_eq hx]
      split
      · exact ⟨c, List.mem_cons_of_mem _ hc, hmark⟩
      · exact ⟨c, hc, hmark⟩

end Layout

end TaggedValue.Number
