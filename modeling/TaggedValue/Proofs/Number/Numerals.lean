import TaggedValue.Number.IntegerText
import TaggedValue.Proofs.Outcome

/-!
# Numerals

An integer is spelled by ASCII digits behind an optional sign. The relation `Spells` says so without
any reading, and reading a signed 64-bit integer is compared with it: a text is read exactly if it
spells an integer of that range, and then as the integer that it spells. The reader stops as soon as
the digits so far are out of range, which is soon enough, since more digits never make a number
smaller. What is written for an integer spells it.
-/

namespace TaggedValue.Number

/-! ## Digits -/

/-- One or more ASCII digits. -/
def IsDigits (ds : List Char) : Prop := ds ≠ [] ∧ ∀ c ∈ ds, c.isDigit = true

/-- The number that digits stand for, in decimal. -/
def digitsValue (ds : List Char) : Nat := Nat.ofDigitChars 10 ds 0

theorem ofDigitChars_cons (c : Char) (cs : List Char) (value : Nat) :
    Nat.ofDigitChars 10 (c :: cs) value =
      Nat.ofDigitChars 10 cs (10 * value + digitValue c) :=
  Nat.ofDigitChars_cons

/-- More digits never make a number smaller. -/
theorem le_ofDigitChars (cs : List Char) (value : Nat) :
    value ≤ Nat.ofDigitChars 10 cs value := by
  induction cs generalizing value with
  | nil => exact Nat.le_refl value
  | cons c cs ih =>
      rw [ofDigitChars_cons]
      have hnext := ih (10 * value + digitValue c)
      omega

theorem takeWhile_isDigit {ds rest : List Char} (hds : ∀ c ∈ ds, c.isDigit = true)
    (hrest : ∀ c ∈ rest.head?, c.isDigit = false) : (ds ++ rest).takeWhile Char.isDigit = ds := by
  rw [List.takeWhile_append_of_pos hds]
  cases rest with
  | nil => exact List.append_nil ds
  | cons c cs =>
      rw [List.takeWhile_cons, hrest c rfl]
      exact List.append_nil ds

theorem dropWhile_isDigit {ds rest : List Char} (hds : ∀ c ∈ ds, c.isDigit = true)
    (hrest : ∀ c ∈ rest.head?, c.isDigit = false) : (ds ++ rest).dropWhile Char.isDigit = rest := by
  rw [List.dropWhile_append_of_pos hds]
  cases rest with
  | nil => rfl
  | cons c cs =>
      rw [List.dropWhile_cons, hrest c rfl]
      rfl

/-! ## Spelling -/

/-- A text spells an integer with digits behind an optional sign. -/
inductive Spells : List Char → Int → Prop
  | bare {ds : List Char} (digits : IsDigits ds) : Spells ds (digitsValue ds)
  | plus {ds : List Char} (digits : IsDigits ds) : Spells ('+' :: ds) (digitsValue ds)
  | minus {ds : List Char} (digits : IsDigits ds) : Spells ('-' :: ds) (-(digitsValue ds : Int))

theorem Spells.ne_nil {cs : List Char} {n : Int} (h : Spells cs n) : cs ≠ [] := by
  cases h with
  | bare digits => exact digits.1
  | plus digits => exact List.cons_ne_nil _ _
  | minus digits => exact List.cons_ne_nil _ _

/-- Only digits and signs spell integers. -/
theorem Spells.forall_mem {cs : List Char} {n : Int} (h : Spells cs n) :
    ∀ c ∈ cs, c.isDigit = true ∨ c = '+' ∨ c = '-' := by
  intro c hc
  cases h with
  | bare digits => exact Or.inl (digits.2 c hc)
  | plus digits =>
      rcases List.mem_cons.mp hc with rfl | hc
      · exact Or.inr (Or.inl rfl)
      · exact Or.inl (digits.2 c hc)
  | minus digits =>
      rcases List.mem_cons.mp hc with rfl | hc
      · exact Or.inr (Or.inr rfl)
      · exact Or.inl (digits.2 c hc)

theorem isDigits_cons {c : Char} {cs : List Char} (h : IsDigits (c :: cs)) : c.isDigit = true :=
  h.2 c List.mem_cons_self

theorem spells_minus_iff {ds : List Char} {n : Int} :
    Spells ('-' :: ds) n ↔ IsDigits ds ∧ n = -(digitsValue ds : Int) := by
  constructor
  · intro h
    cases h with
    | bare digits => exact absurd (isDigits_cons digits) (by decide)
    | minus digits => exact ⟨digits, rfl⟩
  · rintro ⟨digits, rfl⟩
    exact .minus digits

theorem spells_plus_iff {ds : List Char} {n : Int} :
    Spells ('+' :: ds) n ↔ IsDigits ds ∧ n = digitsValue ds := by
  constructor
  · intro h
    cases h with
    | bare digits => exact absurd (isDigits_cons digits) (by decide)
    | plus digits => exact ⟨digits, rfl⟩
  · rintro ⟨digits, rfl⟩
    exact .plus digits

theorem spells_bare_iff {c : Char} {cs : List Char} {n : Int} (hplus : c ≠ '+')
    (hminus : c ≠ '-') : Spells (c :: cs) n ↔ IsDigits (c :: cs) ∧ n = digitsValue (c :: cs) := by
  constructor
  · intro h
    cases h with
    | bare digits => exact ⟨digits, rfl⟩
    | plus digits => exact absurd rfl hplus
    | minus digits => exact absurd rfl hminus
  · rintro ⟨digits, rfl⟩
    exact .bare digits

/-! ## Reading digits -/

/-- Digits are read as the number that they continue, if that is within the limit. -/
theorem readDigits_eq_ok_iff {limit : Nat} {beyond : IntegerFlaw} {cs : List Char} {value n : Nat}
    (hvalue : value ≤ limit) :
    readDigits limit beyond value cs = .ok n ↔
      (∀ c ∈ cs, c.isDigit = true) ∧ Nat.ofDigitChars 10 cs value = n ∧ n ≤ limit := by
  induction cs generalizing value with
  | nil =>
      rw [readDigits, Nat.ofDigitChars_nil, Except.ok.injEq]
      constructor
      · rintro rfl
        exact ⟨nofun, rfl, hvalue⟩
      · rintro ⟨-, rfl, -⟩
        rfl
  | cons c cs ih =>
      rw [readDigits, ofDigitChars_cons, List.forall_mem_cons]
      split
      case isTrue hc =>
        dsimp only
        split
        case isTrue hbeyond =>
          constructor
          · intro h
            cases h
          · rintro ⟨-, rfl, hn⟩
            have hle := le_ofDigitChars cs (10 * value + digitValue c)
            omega
        case isFalse hwithin =>
          rw [ih (Nat.le_of_not_lt hwithin)]
          exact and_congr_left fun _ => (and_iff_right hc).symm
      case isFalse hc =>
        constructor
        · intro h
          cases h
        · rintro ⟨⟨hdigit, -⟩, -⟩
          exact absurd hdigit hc

/-- What is made of digits is made of the number that they stand for. -/
theorem map_readDigits_eq_ok_iff {limit : Nat} {beyond : IntegerFlaw} {ds : List Char}
    {f : Nat → Int64} {n : Int64} (hds : ds ≠ []) :
    (readDigits limit beyond 0 ds).map f = .ok n ↔
      IsDigits ds ∧ digitsValue ds ≤ limit ∧ f (digitsValue ds) = n := by
  rw [map_eq_ok_iff]
  simp only [readDigits_eq_ok_iff (Nat.zero_le limit)]
  constructor
  · rintro ⟨v, ⟨hdigits, rfl, hv⟩, hn⟩
    exact ⟨⟨hds, hdigits⟩, hv, hn⟩
  · rintro ⟨⟨-, hdigits⟩, hv, hn⟩
    exact ⟨digitsValue ds, ⟨hdigits, rfl, hv⟩, hn⟩

/-! ## Reading integers -/

/-- A signed 64-bit integer is made of its own value, and of no other integer in the range. -/
theorem ofInt_eq_iff {x : Int} {n : Int64} :
    (-0x8000000000000000 ≤ x ∧ x ≤ 0x7fffffffffffffff) ∧ Int64.ofInt x = n ↔ x = n.toInt := by
  constructor
  · rintro ⟨⟨hlow, hhigh⟩, rfl⟩
    exact (Int64.toInt_ofInt_of_le (by omega) (by omega)).symm
  · rintro rfl
    have hlow := n.le_toInt
    have hhigh := n.toInt_lt
    exact ⟨⟨by omega, by omega⟩, Int64.ofInt_toInt n⟩

theorem readDigits_up_eq_ok_iff {ds : List Char} {n : Int64} (hds : ds ≠ []) :
    ((readDigits 0x7fffffffffffffff .tooLarge 0 ds).map fun n : Nat => Int64.ofInt n) = .ok n ↔
      IsDigits ds ∧ n.toInt = digitsValue ds := by
  rw [map_readDigits_eq_ok_iff hds, eq_comm (a := n.toInt), ← ofInt_eq_iff]
  refine and_congr_right fun _ => and_congr_left fun _ => ?_
  omega

theorem readDigits_down_eq_ok_iff {ds : List Char} {n : Int64} (hds : ds ≠ []) :
    ((readDigits 0x8000000000000000 .tooSmall 0 ds).map fun n : Nat => Int64.ofInt (-n)) =
        .ok n ↔
      IsDigits ds ∧ n.toInt = -(digitsValue ds : Int) := by
  rw [map_readDigits_eq_ok_iff hds, eq_comm (a := n.toInt), ← ofInt_eq_iff]
  refine and_congr_right fun _ => and_congr_left fun _ => ?_
  omega

/-- Digits may be turned into an integer first and into a value then. -/
theorem map_cast_eq_map {ε : Type} (x : Except ε Nat) (f : Int → Int64) :
    Except.map f (Nat.cast <$> x) = x.map fun n : Nat => f n := by
  cases x with
  | error flaw => rfl
  | ok n => rfl

theorem readInt64_minus {ds : List Char} (hds : ds ≠ []) :
    readInt64 ('-' :: ds) =
      (readDigits 0x8000000000000000 .tooSmall 0 ds).map fun n : Nat => Int64.ofInt (-n) := by
  cases ds with
  | nil => exact absurd rfl hds
  | cons d ds => exact map_cast_eq_map _ _

theorem readInt64_plus {ds : List Char} (hds : ds ≠ []) :
    readInt64 ('+' :: ds) =
      (readDigits 0x7fffffffffffffff .tooLarge 0 ds).map fun n : Nat => Int64.ofInt n := by
  cases ds with
  | nil => exact absurd rfl hds
  | cons d ds => exact map_cast_eq_map _ _

theorem readInt64_bare {c : Char} {cs : List Char} (hplus : c ≠ '+') (hminus : c ≠ '-') :
    readInt64 (c :: cs) =
      (readDigits 0x7fffffffffffffff .tooLarge 0 (c :: cs)).map fun n : Nat => Int64.ofInt n := by
  rw [readInt64]
  · exact map_cast_eq_map _ _
  all_goals simp [hplus, hminus]

/-- **Reading finds what is spelled.** A text is read as a signed 64-bit integer exactly if it
spells that integer. -/
theorem readInt64_eq_ok_iff {cs : List Char} {n : Int64} :
    readInt64 cs = .ok n ↔ Spells cs n.toInt := by
  cases cs with
  | nil => exact ⟨nofun, fun h => absurd rfl h.ne_nil⟩
  | cons c ds =>
      by_cases hminus : c = '-'
      · subst hminus
        rw [spells_minus_iff]
        by_cases hds : ds = []
        · subst hds
          exact ⟨nofun, fun h => absurd rfl h.1.1⟩
        · rw [readInt64_minus hds, readDigits_down_eq_ok_iff hds]
      · by_cases hplus : c = '+'
        · subst hplus
          rw [spells_plus_iff]
          by_cases hds : ds = []
          · subst hds
            exact ⟨nofun, fun h => absurd rfl h.1.1⟩
          · rw [readInt64_plus hds, readDigits_up_eq_ok_iff hds]
        · rw [spells_bare_iff hplus hminus, readInt64_bare hplus hminus,
            readDigits_up_eq_ok_iff (List.cons_ne_nil c ds)]

/-! ## Writing integers -/

theorem isDigits_toDigits (n : Nat) : IsDigits (Nat.toDigits 10 n) := by
  refine ⟨Nat.toDigits_ne_nil, fun c hc => ?_⟩
  exact Nat.isDigit_of_mem_toDigits (by decide) (by decide) hc

/-- Digits that are written for a number stand for it. -/
theorem digitsValue_toDigits (n : Nat) : digitsValue (Nat.toDigits 10 n) = n :=
  Nat.ofDigitChars_ten_toDigits

/-- **Writing spells what is written.** -/
theorem spells_writeInt (i : Int) : Spells (writeInt i) i := by
  have hdigits := isDigits_toDigits i.natAbs
  have hvalue := digitsValue_toDigits i.natAbs
  unfold writeInt
  split
  case isTrue hneg =>
    have habs : -(digitsValue (Nat.toDigits 10 i.natAbs) : Int) = i := by
      rw [hvalue]
      omega
    have hspells := Spells.minus hdigits
    rwa [habs] at hspells
  case isFalse hneg =>
    have habs : (digitsValue (Nat.toDigits 10 i.natAbs) : Int) = i := by
      rw [hvalue]
      omega
    have hspells := Spells.bare hdigits
    rwa [habs] at hspells

end TaggedValue.Number
