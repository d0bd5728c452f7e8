import TaggedValue.Proofs.Plain.Collecting
import TaggedValue.Proofs.Plain.Integers
import TaggedValue.Proofs.Properties.AsMap

/-!
# Extraction undoes boxing

A member of a plain type is boxed in one way and extracted in another. Integers are widened to 64
bits and then narrowed with a check of the range, lists are gone through item by item, and tables are
turned into maps and gathered into tables again. What comes out is the member that went in, at every
nesting of lists and tables, and nothing on the way takes a text for a number: leniency starts from
the type that is wanted, and a text is only ever boxed as a text.
-/

namespace TaggedValue

open Number (IntType)

/-! ## Integers -/

/-- A type of integers that a value can hold: all of them are signed 64-bit integers. -/
def Number.IntType.isHeld : IntType → Bool
  | signed64 | signed32 | unsigned32 => true
  | unsigned64 | unsignedSize => false

theorem Number.IntType.contains_signed64 {t : IntType} (ht : t.isHeld = true) {n : Int}
    (hn : t.Contains n) : signed64.Contains n := by
  obtain ⟨hlow, hhigh⟩ := hn
  cases t with
  | unsigned64 => cases ht
  | unsignedSize => cases ht
  | _ =>
      simp only [low, high] at hlow hhigh
      exact ⟨by simp only [low]; omega, by simp only [high]; omega⟩

theorem extractInt_int {t : IntType} (ht : t.isHeld = true) (m : t.Member) :
    (Value.int (Int64.ofInt m.val)).extractInt t = .ok m := by
  rw [Value.extractInt_eq_ok_iff]
  exact ⟨_, rfl, toInt_ofInt_of_contains (IntType.contains_signed64 ht m.property)⟩

/-! ## The law -/

namespace PlainType

/-- The map that boxes a table has its entries in order as they stand. -/
theorem box_table (t : PlainType) (xs : Table t.Member) :
    (table t).box xs = .map (Entries.named t.box xs.bindings) :=
  congrArg Value.map (Entries.ofPairs_named t.box xs)

/-- Every member keeps all its bits in a value. Unsigned 64-bit integers reach beyond what a value
holds, and single precision numbers are held in double precision, where a not-a-number is quiet. -/
def isFaithful : PlainType → Bool
  | int t => t.isHeld
  | single => false
  | list t | table t => t.isFaithful
  | value | text | bool | float | properties => true

/-- **Extraction undoes boxing**, at every type made of values, texts, truth values, held integers,
double precision numbers and properties by lists and tables: the member comes back as it was. -/
theorem extraction_undoes_boxing :
    ∀ (t : PlainType), t.isFaithful = true → ∀ x : t.Member, t.extract (t.box x) = .ok x
  | value, _, _ => rfl
  | text, _, _ => rfl
  | bool, _, _ => rfl
  | int _, ht, n => extractInt_int ht n
  | float, _, _ => rfl
  | single, ht, _ => nomatch ht
  | properties, _, p => Properties.ofValue_toValue p
  | list t, ht, xs => extractItems_map (extraction_undoes_boxing t ht) xs
  | table t, ht, xs => by
      have hentries := extractEntries_named (extraction_undoes_boxing t ht) xs.bindings
      rw [box_table]
      show (extractEntries t.extract (Entries.named t.box xs.bindings)).map Table.ofList = .ok xs
      rw [hentries]
      exact congrArg Except.ok (Table.ofList_bindings xs)

/-- A text that spells a number and one of blanks stay texts, in lists and under names that are not
given in order. -/
theorem extraction_undoes_boxing_texts :
    (table (list text)).isFaithful = true ∧
    (table (list text)).extract ((table (list text)).box
        (Table.ofList [("b", ["7", " "]), ("a", []), ("B", ["true"])])) =
      .ok (Table.ofList [("b", ["7", " "]), ("a", []), ("B", ["true"])]) :=
  ⟨rfl, extraction_undoes_boxing (table (list text)) rfl _⟩

end PlainType

end TaggedValue
