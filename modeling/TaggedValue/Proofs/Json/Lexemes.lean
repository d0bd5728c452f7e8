import TaggedValue.Json.Parser
import TaggedValue.Json.Printer
import TaggedValue.Proofs.Number.Numerals

/-!
# Written texts and integers are read back

The two kinds of interchange text that are more than brackets and words. A text is read character by
character, so it is enough that the written form of one character is read as that character, be it
escaped or not. An integer is read as far as its digits go, so it comes back where it is followed by
nothing that could continue a number.
-/

namespace TaggedValue

namespace Json

/-! ## Characters -/

/-- The two digits of a control are those of its number. -/
theorem readHex_control : ∀ n < 0x20,
    Text.readHex ['0', '0', Nat.digitChar (n / 16), Nat.digitChar (n % 16)] = some n := by
  decide

theorem readEscape_control {c : Char} (hc : c.toNat < 0x20) (rest : List Char) :
    readEscape ('u' :: '0' :: '0' :: Nat.digitChar (c.toNat / 16) ::
      Nat.digitChar (c.toNat % 16) :: rest) = some (c, rest) := by
  have hunit : readUnit ('0' :: '0' :: Nat.digitChar (c.toNat / 16) ::
      Nat.digitChar (c.toNat % 16) :: rest) = some (c.toNat, rest) := by
    rw [readUnit, if_neg (by simp)]
    show (Text.readHex ['0', '0', _, _]).map (·, rest) = _
    rw [readHex_control _ hc]
    rfl
  have hchar : Text.isCharacter c.toNat = true := by
    rw [Text.isCharacter, decide_eq_true (show c.toNat < 0xD800 by omega), Bool.true_or]
  rw [readEscape, hunit]
  show (if Text.isCharacter c.toNat then some (Char.ofNat c.toNat, rest) else _) = _
  rw [if_pos hchar, Char.ofNat_toNat]

/-- **One character.** The written form of a character is read as that character. -/
theorem readChars_escape (fuel : Nat) (c : Char) (rest : List Char) :
    readChars (fuel + 1) (escape c ++ rest) =
      (readChars fuel rest).map fun (s, r) => (c :: s, r) := by
  unfold escape
  split
  case h_8 hquote hslash _ _ _ _ _ =>
    split
    case isTrue hcontrol =>
      show (readEscape _).bind _ = _
      exact congrArg (Option.bind · _) (readEscape_control hcontrol rest)
    case isFalse hplain =>
      rw [List.singleton_append, readChars]
      · rw [if_neg hplain]
      · simpa using hquote
      · simpa using hslash
  all_goals rfl

/-! ## Texts -/

theorem escape_ne_nil (c : Char) : escape c ≠ [] := by
  unfold escape
  split
  case h_8 =>
    split
    · exact List.cons_ne_nil _ _
    · exact List.cons_ne_nil _ _
  all_goals exact List.cons_ne_nil _ _

/-- The characters of a written text are read back up to its last quote. -/
theorem readChars_flatMap_escape {fuel : Nat} {s : List Char}
    (hfuel : (s.flatMap escape).length < fuel) (rest : List Char) :
    readChars fuel (s.flatMap escape ++ '"' :: rest) = some (s, rest) := by
  induction s generalizing fuel with
  | nil =>
      cases fuel with
      | zero => cases hfuel
      | succ fuel => rfl
  | cons c s ih =>
      rw [List.flatMap_cons, List.length_append] at hfuel
      -- one call is spent on each character, and no character is written with nothing
      have hc : 0 < (escape c).length := List.length_pos_iff.mpr (escape_ne_nil c)
      cases fuel with
      | zero => cases hfuel
      | succ fuel =>
          rw [List.flatMap_cons, List.append_assoc, readChars_escape, ih (by omega)]
          rfl

/-- **Texts.** A written text is read as that text, whatever characters are in it. -/
theorem readText_write (s : String) (rest : List Char) :
    readText (s.toList.flatMap escape ++ '"' :: rest) = some (s, rest) := by
  rw [readText, readChars_flatMap_escape (by simp only [List.length_append]; omega)]
  exact congrArg (fun s => some (s, rest)) (String.ofList_toList)

theorem writeText_append (s : String) (rest : List Char) :
    writeText s ++ rest = '"' :: (s.toList.flatMap escape ++ '"' :: rest) := by
  rw [writeText, List.cons_append, List.append_assoc, List.singleton_append]

theorem skipBlanks_cons {c : Char} (hc : isBlank c = false) (cs : List Char) :
    skipBlanks (c :: cs) = c :: cs := by
  rw [skipBlanks, List.dropWhile_cons, hc]
  rfl

/-- A written key is read up to the colon behind it. -/
theorem readKey_write (name : String) (rest : List Char) :
    readKey (writeText name ++ ':' :: rest) = some (name, rest) := by
  rw [writeText_append, readKey, skipBlanks_cons rfl]
  show (readText _).bind _ = _
  rw [readText_write]
  rfl

end Json

namespace JsonNumber

/-! ## Integers -/

/-- A text that does not continue the number before it. -/
def Stops (rest : List Char) : Prop :=
  ∀ c ∈ rest.head?, c.isDigit = false ∧ c ≠ '.' ∧ c ≠ 'e' ∧ c ≠ 'E'

theorem stops_nil : Stops [] := nofun

theorem stops_cons {c : Char} (hc : c.isDigit = false ∧ c ≠ '.' ∧ c ≠ 'e' ∧ c ≠ 'E')
    (cs : List Char) : Stops (c :: cs) := by
  intro d hd
  cases hd
  exact hc

/-- Digits that fit are all taken. -/
theorem takeLeading_digits {ds : List Char} {value : Nat}
    (h : Nat.ofDigitChars 10 ds value ≤ maxLeading) :
    takeLeading value ds = (Nat.ofDigitChars 10 ds value, 0) := by
  induction ds generalizing value with
  | nil => rfl
  | cons c ds ih =>
      rw [Number.ofDigitChars_cons] at h ⊢
      have hnext := Number.le_ofDigitChars ds (10 * value + Number.digitValue c)
      rw [takeLeading]
      show (if maxLeading < 10 * value + Number.digitValue c then _ else _) = _
      rw [if_neg (by omega), ih h]

theorem exists_head_toDigits (n : Nat) :
    ∃ c cs, Nat.toDigits 10 n = c :: cs ∧ c.isDigit = true := by
  cases hds : Nat.toDigits 10 n with
  | nil => exact absurd hds Nat.toDigits_ne_nil
  | cons c cs =>
      have hdigits := Number.isDigits_toDigits n
      rw [hds] at hdigits
      exact ⟨c, cs, rfl, Number.isDigits_cons hdigits⟩

/-- The decimal digits of a positive number start with no zero. -/
theorem head?_toDigits {n : Nat} (hn : 0 < n) : (Nat.toDigits 10 n).head? ≠ some '0' := by
  induction n using Nat.strongRecOn with
  | _ n ih =>
  rw [Nat.toDigits_eq_if (by decide)]
  split
  case isTrue hlt =>
    have hdigit : ∀ d < 10, 0 < d → some (Nat.digitChar d) ≠ some '0' := by decide
    exact hdigit n hlt hn
  case isFalse hge =>
    have hhead := ih (n / 10) (by omega) (by omega)
    obtain ⟨d, ds, hds, -⟩ := exists_head_toDigits (n / 10)
    rw [hds] at hhead ⊢
    exact hhead

theorem needless_zero_toDigits (n : Nat) :
    ((Nat.toDigits 10 n).head? == some '0' && (Nat.toDigits 10 n).length != 1) = false := by
  rcases Nat.eq_zero_or_pos n with rfl | hn
  · rfl
  · rw [beq_false_of_ne (head?_toDigits hn), Bool.false_and]

/-- The digits of a number that fits 64 bits are read as that number. -/
theorem readUnsigned_toDigits (negative : Bool) {n : Nat} (hn : n ≤ maxLeading)
    {rest : List Char} (hrest : Stops rest) :
    readUnsigned negative (Nat.toDigits 10 n ++ rest) = (ofWhole negative n).map (·, rest) := by
  have hdigits : ∀ c ∈ Nat.toDigits 10 n, c.isDigit = true := (Number.isDigits_toDigits n).2
  have hleading : takeLeading 0 (Nat.toDigits 10 n) = (n, 0) := by
    have hvalue : Nat.ofDigitChars 10 (Nat.toDigits 10 n) 0 = n := Nat.ofDigitChars_ten_toDigits
    rw [takeLeading_digits (by rwa [hvalue]), hvalue]
  have hwhole : (Nat.toDigits 10 n).isEmpty = false :=
    List.isEmpty_eq_false_iff.mpr Nat.toDigits_ne_nil
  have hstop : ∀ c ∈ rest.head?, c.isDigit = false := fun c hc => (hrest c hc).1
  rw [readUnsigned, Number.takeWhile_isDigit hdigits hstop, Number.dropWhile_isDigit hdigits hstop]
  dsimp only
  rw [hwhole, needless_zero_toDigits, hleading]
  cases rest with
  | nil => rfl
  | cons c cs =>
      obtain ⟨-, hpoint, hsmall, hcapital⟩ := hrest c rfl
      simp [hsmall, hcapital]

/-- A number that is no fraction. -/
inductive IsInteger : JsonNumber → Prop
  | int (n : Int64) : IsInteger (.int n)
  | large (n : UInt64) (beyond : 0x8000000000000000 ≤ n.toNat) : IsInteger (.large n beyond)

/-- A character that begins a number. -/
def BeginsNumber (c : Char) : Prop := c = '-' ∨ c.isDigit = true

theorem exists_head_write {n : JsonNumber} (hn : n.IsInteger) :
    ∃ c cs, n.write = c :: cs ∧ BeginsNumber c := by
  cases hn with
  | int n =>
      show ∃ c cs, Number.writeInt n.toInt = c :: cs ∧ BeginsNumber c
      unfold Number.writeInt
      split
      · exact ⟨'-', _, rfl, Or.inl rfl⟩
      · obtain ⟨c, cs, hds, hc⟩ := exists_head_toDigits n.toInt.natAbs
        exact ⟨c, cs, hds, Or.inr hc⟩
  | large n beyond =>
      obtain ⟨c, cs, hds, hc⟩ := exists_head_toDigits n.toNat
      exact ⟨c, cs, hds, Or.inr hc⟩

theorem BeginsNumber.ne {c d : Char} (hc : BeginsNumber c) (hd : d ≠ '-' ∧ d.isDigit = false) :
    c ≠ d := by
  rintro rfl
  rcases hc with hc | hc
  · exact hd.1 hc
  · exact absurd (hc.symm.trans hd.2) (by decide)

theorem read_digit {c : Char} (hc : c.isDigit = true) (cs : List Char) :
    read (c :: cs) = readUnsigned false (c :: cs) := by
  rw [read]
  rintro r ⟨rfl, -⟩
  exact absurd hc (by decide)

theorem ofNat?_of_lt {n : Nat} (hn : n < 0x8000000000000000) :
    ofNat? n = some (.int (Int64.ofNat n)) := by
  rw [ofNat?, dif_pos (by omega), dif_neg (by omega)]

theorem ofNat?_of_le {n : UInt64} (hn : 0x8000000000000000 ≤ n.toNat) :
    ofNat? n.toNat = some (.large n hn) := by
  have hlt := n.toNat_lt
  rw [ofNat?, dif_pos hlt, dif_pos hn]
  simp

theorem ofWhole_true {n : Nat} (hpos : 0 < n) (hn : n ≤ 0x8000000000000000) :
    ofWhole true n = some (.int (Int64.ofInt (-(n : Int)))) := by
  have hinside : ¬ (n = 0 || 0x8000000000000000 < n) = true := by
    simp only [Bool.or_eq_true, decide_eq_true_eq]
    omega
  rw [ofWhole, if_pos rfl, if_neg hinside]

/-- The digits of a number are read without sign, as a digit stands in front. -/
theorem read_toDigits {n : Nat} (hn : n ≤ maxLeading) {rest : List Char} (hrest : Stops rest) :
    read (Nat.toDigits 10 n ++ rest) = (ofNat? n).map (·, rest) := by
  have hread := readUnsigned_toDigits false hn hrest
  obtain ⟨c, cs, hds, hc⟩ := exists_head_toDigits n
  rw [hds, List.cons_append] at hread ⊢
  rw [read_digit hc, hread, ofWhole]
  rfl

/-- **Integers.** A written integer is read as that integer, if what follows does not continue it. -/
theorem read_write {n : JsonNumber} (hn : n.IsInteger) {rest : List Char} (hrest : Stops rest) :
    read (n.write ++ rest) = some (n, rest) := by
  cases hn with
  | int n =>
      have hlow := n.le_toInt
      have hhigh := n.toInt_lt
      show read (Number.writeInt n.toInt ++ rest) = _
      unfold Number.writeInt
      split
      case isTrue hneg =>
        have habs : (n.toInt.natAbs : Int) = -n.toInt := by omega
        rw [List.cons_append]
        show readUnsigned true _ = _
        rw [readUnsigned_toDigits true (by rw [maxLeading]; omega) hrest,
          ofWhole_true (by omega) (by omega), habs, Int.neg_neg, Int64.ofInt_toInt]
        rfl
      case isFalse hneg =>
        have habs : (n.toInt.natAbs : Int) = n.toInt := by omega
        rw [read_toDigits (by rw [maxLeading]; omega) hrest, ofNat?_of_lt (by omega)]
        rw [← Int64.ofInt_eq_ofNat, habs, Int64.ofInt_toInt]
        rfl
  | large n beyond =>
      have hlt := n.toNat_lt
      show read (Nat.toDigits 10 n.toNat ++ rest) = _
      rw [read_toDigits (by rw [maxLeading]; omega) hrest, ofNat?_of_le beyond]
      rfl

end JsonNumber

end TaggedValue
