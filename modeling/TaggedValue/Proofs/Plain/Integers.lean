import TaggedValue.Plain.Extract
import TaggedValue.Proofs.Number.Numerals
import TaggedValue.Proofs.Text.Padding

/-!
# Extraction of integers

Every integer is first taken as a signed 64-bit integer, be it from an integer or from a text, and
then narrowed to the type that is wanted. So the range in which a text is read is that of the type,
as far as the signed 64-bit integers reach: the upper half of the unsigned 64-bit integers has
spellings that are refused. Refusals of texts are all of one code, wherever the fault lies. Whatever
blanks stand around it, a written integer is read as the integer.
-/

namespace TaggedValue

open Number (IntType Spells)
open Text (Padded)

/-! ## Narrowing -/

theorem Number.IntType.member?_eq_some_iff {t : IntType} {n : Int} {m : t.Member} :
    t.member? n = some m ↔ n = m.val := by
  unfold member?
  split
  case isTrue hn =>
    rw [Option.some.injEq]
    exact Subtype.ext_iff
  case isFalse hn =>
    constructor
    · intro h
      cases h
    · rintro rfl
      exact absurd m.property hn

theorem toInt_ofInt_of_contains {n : Int} (h : IntType.signed64.Contains n) :
    (Int64.ofInt n).toInt = n := by
  obtain ⟨hlow, hhigh⟩ := h
  simp only [IntType.low, IntType.high] at hlow hhigh
  exact Int64.toInt_ofInt_of_le (by omega) (by omega)

theorem contains_toInt (n : Int64) : IntType.signed64.Contains n.toInt := by
  have hlow := n.le_toInt
  have hhigh := n.toInt_lt
  exact ⟨by simp only [IntType.low]; omega, by simp only [IntType.high]; omega⟩

namespace Value

/-- A member is extracted exactly if its value is extracted as a signed 64-bit integer. -/
theorem extractInt_eq_ok_iff {t : IntType} {v : Value} {m : t.Member} :
    v.extractInt t = .ok m ↔ ∃ n, v.extractInt64 = .ok n ∧ n.toInt = m.val := by
  rw [extractInt, bind_eq_ok_iff]
  refine exists_congr fun n => and_congr_right fun _ => ?_
  rw [← IntType.member?_eq_some_iff]
  cases t.member? n.toInt with
  | none => simp
  | some m => simp

/-- What goes wrong with an integer is found on the way to 64 bits, or it is out of range. -/
theorem extractInt_eq_error_iff {t : IntType} {v : Value} {fault : Fault} :
    v.extractInt t = .error fault ↔
      v.extractInt64 = .error fault ∨
        ∃ n, v.extractInt64 = .ok n ∧ ¬ t.Contains n.toInt ∧ fault = .outOfRange n t := by
  rw [extractInt]
  cases v.extractInt64 with
  | error f => simp [Except.bind]
  | ok n =>
      simp only [Except.bind, IntType.member?]
      by_cases hn : t.Contains n.toInt
      · simp [hn]
      · simp [hn, eq_comm]

theorem extractInt_of_contains {t : IntType} {v : Value} {n : Int64} (h : v.extractInt64 = .ok n)
    (hn : t.Contains n.toInt) : v.extractInt t = .ok ⟨n.toInt, hn⟩ :=
  extractInt_eq_ok_iff.mpr ⟨n, h, rfl⟩

theorem extractInt_of_not_contains {t : IntType} {v : Value} {n : Int64}
    (h : v.extractInt64 = .ok n) (hn : ¬ t.Contains n.toInt) :
    v.extractInt t = .error (.outOfRange n t) :=
  extractInt_eq_error_iff.mpr (Or.inr ⟨n, h, hn, rfl⟩)

end Value

/-! ## Texts -/

theorem isBlank_eq_false_of_isDigit {c : Char} (h : c.isDigit = true) :
    Text.isBlank c = false := by
  obtain ⟨hlow, hhigh⟩ : 48 ≤ c.toNat ∧ c.toNat ≤ 57 := Char.isDigit_iff_toNat.mp h
  simp only [Text.isBlank, Bool.or_eq_false_iff, Bool.and_eq_false_iff, decide_eq_false_iff_not,
    beq_eq_false_iff_ne]
  omega

theorem Number.Spells.clear {cs : List Char} {n : Int} (h : Spells cs n) :
    ∀ c ∈ cs, Text.isBlank c = false := by
  intro c hc
  rcases h.forall_mem c hc with hdigit | rfl | rfl
  · exact isBlank_eq_false_of_isDigit hdigit
  · rfl
  · rfl

/-- Numerals have no blanks, so there is one way to take the blanks off around them. -/
theorem spells_trim_iff {cs : List Char} {n : Int} :
    Spells (Text.trim cs) n ↔ ∃ core, Padded core cs ∧ Spells core n :=
  Text.trim_iff_of_clear (P := fun core => Spells core n) fun _ h => ⟨h.ne_nil, h.clear⟩

theorem Value.extractInt64_str_eq_ok_iff {s : String} {n : Int64} :
    (Value.str s).extractInt64 = .ok n ↔
      ∃ core, Padded core s.toList ∧ Spells core n.toInt := by
  rw [Value.extractInt64, mapError_eq_ok_iff, Number.readInt64_eq_ok_iff, spells_trim_iff]

theorem Value.code_of_extractInt64_str {s : String} {fault : Fault}
    (h : (Value.str s).extractInt64 = .error fault) : fault.code = .conversion := by
  rw [Value.extractInt64] at h
  cases hread : Number.readInt64 (Text.trim s.toList) with
  | ok n =>
      rw [hread] at h
      cases h
  | error flaw =>
      rw [hread] at h
      cases h
      rfl

namespace PlainType

/-- **The text of an integer.** At every type of integers, a member is extracted from a text exactly
if the text, with the blanks around it taken off, spells that member and the member is in the signed
64-bit range. Every other text is refused as a failed conversion. -/
theorem integer_text_is_read_exactly (t : IntType) (s : String) :
    (∀ m : t.Member, (int t).extract (.str s) = .ok m ↔
      (∃ core, Padded core s.toList ∧ Spells core m.val) ∧ IntType.signed64.Contains m.val) ∧
    ∀ fault, (int t).extract (.str s) = .error fault → fault.code = .conversion := by
  refine ⟨fun m => ?_, fun fault h => ?_⟩
  · show (Value.str s).extractInt t = .ok m ↔ _
    rw [Value.extractInt_eq_ok_iff]
    simp only [Value.extractInt64_str_eq_ok_iff]
    constructor
    · rintro ⟨n, hspells, hn⟩
      rw [← hn]
      exact ⟨hspells, contains_toInt n⟩
    · rintro ⟨hspells, hrange⟩
      refine ⟨Int64.ofInt m.val, ?_, toInt_ofInt_of_contains hrange⟩
      rwa [toInt_ofInt_of_contains hrange]
  · rcases Value.extractInt_eq_error_iff.mp h with h | ⟨n, -, -, rfl⟩
    · exact Value.code_of_extractInt64_str h
    · rfl

/-- The least integer beyond the signed range is an unsigned 64-bit integer, and its text is refused
as too large. -/
theorem integer_text_beyond_signed_range :
    IntType.unsigned64.Contains 9223372036854775808 ∧
    Padded "9223372036854775808".toList "9223372036854775808".toList ∧
    Spells "9223372036854775808".toList 9223372036854775808 ∧
    (int .unsigned64).extract (.str "9223372036854775808") =
      .error (.notInteger "9223372036854775808" .tooLarge) := by
  refine ⟨by decide, ⟨[], [], by simp, nofun, nofun⟩, ?_, ?_⟩
  · have hdigits : Number.IsDigits "9223372036854775808".toList :=
      ⟨by decide, List.all_eq_true.mp rfl⟩
    exact .bare hdigits
  · rfl

/-! ## Integers written as texts -/

/-- The literal of an integer, with blanks around it. -/
theorem padded_literal {before after : String} (n : Int64)
    (hbefore : ∀ c ∈ before.toList, Text.isBlank c = true)
    (hafter : ∀ c ∈ after.toList, Text.isBlank c = true) :
    Padded (Number.writeInt n.toInt) (before ++ (Value.int n).literal ++ after).toList := by
  have hliteral : (Value.int n).literal.toList = Number.writeInt n.toInt := String.toList_ofList
  refine ⟨before.toList, after.toList, ?_, hbefore, hafter⟩
  rw [String.toList_append, String.toList_append, hliteral]

/-- **A written integer reads as the integer.** Put blanks before and behind the literal of any signed
64-bit integer. At every type of integers the outcome of extraction is that of the integer itself: the
same member, or the one failed conversion that an integer can come to. -/
theorem written_integer_reads_as_integer (t : IntType) (n : Int64) {before after : String}
    (hbefore : ∀ c ∈ before.toList, Text.isBlank c = true)
    (hafter : ∀ c ∈ after.toList, Text.isBlank c = true) :
    (int t).extract (.str (before ++ (Value.int n).literal ++ after)) =
      (int t).extract (.int n) ∧
    ((∃ m, (int t).extract (.int n) = .ok m ∧ m.val = n.toInt) ∨
      ∃ fault, (int t).extract (.int n) = .error fault ∧ fault = .outOfRange n t ∧
        fault.code = .conversion) := by
  have htext : (Value.str (before ++ (Value.int n).literal ++ after)).extractInt64 = .ok n := by
    rw [Value.extractInt64_str_eq_ok_iff]
    exact ⟨_, padded_literal n hbefore hafter, Number.spells_writeInt n.toInt⟩
  have hinteger : (Value.int n).extractInt64 = .ok n := rfl
  constructor
  · show Value.extractInt t _ = Value.extractInt t _
    rw [Value.extractInt, Value.extractInt, htext, hinteger]
  · by_cases hn : t.Contains n.toInt
    · exact Or.inl ⟨_, Value.extractInt_of_contains hinteger hn, rfl⟩
    · exact Or.inr ⟨_, Value.extractInt_of_not_contains hinteger hn, rfl, rfl⟩

/-- The least signed 64-bit integer between an ideographic space and a line end, which 32 bits cannot
hold. -/
theorem written_integer_reads_as_integer_least :
    (∀ c ∈ "\u3000".toList, Text.isBlank c = true) ∧ (∀ c ∈ "\r\n".toList, Text.isBlank c = true) ∧
    (int .signed32).extract (.str ("\u3000" ++ "-9223372036854775808" ++ "\r\n")) =
      .error (.outOfRange (-9223372036854775808) .signed32) := by
  have hbefore : ∀ c ∈ "\u3000".toList, Text.isBlank c = true :=
    List.all_eq_true.mp (by decide)
  have hafter : ∀ c ∈ "\r\n".toList, Text.isBlank c = true := List.all_eq_true.mp (by decide)
  have hliteral : (Value.int (-9223372036854775808)).literal = "-9223372036854775808" := by
    decide +kernel
  have hread := (written_integer_reads_as_integer .signed32 (-9223372036854775808) hbefore hafter).1
  rw [hliteral] at hread
  exact ⟨hbefore, hafter, hread⟩

end PlainType

end TaggedValue
