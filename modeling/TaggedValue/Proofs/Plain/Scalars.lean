import TaggedValue.Proofs.Plain.Integers

/-!
# What single values stand for

A value stands for a truth value, an integer or a number if it is one, or if it is a text that spells
one between blanks. These relations say so without the order in which extraction tries things. A value
of any other kind stands for nothing: an integer for no truth value and no floating-point number, and
neither of these for an integer.
-/

namespace TaggedValue

open Number (Binary64 Spells)
open Text (Padded)

/-! ## Words for truth values -/

/-- The words that are read as a truth value. -/
def boolWords : Bool → List String
  | true => ["true", "TRUE", "True", "YES", "yes"]
  | false => ["false", "FALSE", "False", "NO", "no"]

theorem readBool_eq_some_iff {word : String} {b : Bool} :
    readBool word = some b ↔ word ∈ boolWords b := by
  unfold readBool
  split
  all_goals cases b <;> simp_all [boolWords]

theorem clear_of_mem_boolWords {word : String} {b : Bool} (h : word ∈ boolWords b) :
    word.toList ≠ [] ∧ ∀ c ∈ word.toList, Text.isBlank c = false := by
  have hwords : ∀ word ∈ boolWords b,
      word.toList ≠ [] ∧ word.toList.any Text.isBlank = false := by
    cases b with
    | true => decide
    | false => decide
  obtain ⟨hword, hblanks⟩ := hwords word h
  exact ⟨hword, fun c hc => Bool.eq_false_iff.mpr (List.any_eq_false.mp hblanks c hc)⟩

namespace Value

/-! ## Standing for something -/

/-- A truth value stands for itself, and a text for the one whose word it holds between blanks. -/
def DenotesBool : Value → Bool → Prop
  | .bool c, b => c = b
  | .str s, b => ∃ core, Padded core s.toList ∧ String.ofList core ∈ boolWords b
  | _, _ => False

/-- An integer stands for itself, and a text for the signed 64-bit integer that it spells between
blanks. -/
def DenotesInt : Value → Int64 → Prop
  | .int m, n => m = n
  | .str s, n => ∃ core, Padded core s.toList ∧ Spells core n.toInt
  | _, _ => False

/-- A number stands for itself, and a text for the one that its trimmed form is read as. -/
def DenotesFloat : Value → Binary64 → Prop
  | .float y, x => y = x
  | .str s, x => Number.readBinary64 (Text.trim s.toList) = .ok x
  | _, _ => False

theorem denotesBool_str_iff {s : String} {b : Bool} :
    DenotesBool (.str s) b ↔ String.ofList (Text.trim s.toList) ∈ boolWords b := by
  have hclear : ∀ core, String.ofList core ∈ boolWords b →
      core ≠ [] ∧ ∀ c ∈ core, Text.isBlank c = false := by
    intro core hcore
    have hword := clear_of_mem_boolWords hcore
    rwa [String.toList_ofList] at hword
  exact (Text.trim_iff_of_clear hclear).symm

/-! ## Extraction finds what a value stands for -/

theorem extractBool_eq_ok_iff {v : Value} {b : Bool} : v.extractBool = .ok b ↔ v.DenotesBool b := by
  cases v with
  | bool c => rw [extractBool, Except.ok.injEq, DenotesBool]
  | str s =>
      rw [denotesBool_str_iff, ← readBool_eq_some_iff, extractBool]
      cases readBool (String.ofList (Text.trim s.toList)) with
      | none => exact iff_of_false nofun nofun
      | some c => rw [Except.ok.injEq, Option.some.injEq]
  | _ =>
      constructor
      · intro h
        cases h
      · intro h
        cases h

theorem extractInt64_eq_ok_iff {v : Value} {n : Int64} :
    v.extractInt64 = .ok n ↔ v.DenotesInt n := by
  cases v with
  | int m => rw [extractInt64, Except.ok.injEq, DenotesInt]
  | str s => rw [extractInt64_str_eq_ok_iff, DenotesInt]
  | _ =>
      constructor
      · intro h
        cases h
      · intro h
        cases h

theorem extractFloat_eq_ok_iff {v : Value} {x : Binary64} :
    v.extractFloat = .ok x ↔ v.DenotesFloat x := by
  cases v with
  | float y => rw [extractFloat, Except.ok.injEq, DenotesFloat]
  | str s => rw [extractFloat, mapError_eq_ok_iff, DenotesFloat]
  | _ =>
      constructor
      · intro h
        cases h
      · intro h
        cases h

end Value

end TaggedValue
