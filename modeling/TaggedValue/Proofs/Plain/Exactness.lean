import TaggedValue.Proofs.Plain.Boxing
import TaggedValue.Proofs.Plain.Conformance

/-!
# Members that come back from a value

Whether a member comes back from the value that boxes it is decided at the numbers in it. Integers have to
lie in the signed 64-bit range, and single precision numbers have to survive the way to double precision
and back. All else is kept by every value, and a list or a table comes back exactly if each of its items
does (`extract_box_eq_ok_iff`).
-/

namespace TaggedValue.PlainType

open Number (Binary32 IntType)

/-- A value holds every number in the member exactly. -/
def Exact : (t : PlainType) → t.Member → Prop
  | int _, n => IntType.signed64.Contains n.val
  | single, x => Binary32.ofBinary64 x.widen = x
  | list t, xs => ∀ x ∈ xs, t.Exact x
  | table t, xs => ∀ b ∈ xs.bindings, t.Exact b.2
  | value, _ | text, _ | bool, _ | float, _ | properties, _ => True

theorem extract_box_int_eq_ok_iff {t : IntType} {n : t.Member} :
    (int t).extract ((int t).box n) = .ok n ↔ IntType.signed64.Contains n.val := by
  show (Value.int (Int64.ofInt n.val)).extractInt t = .ok n ↔ _
  rw [Value.extractInt_eq_ok_iff]
  constructor
  · rintro ⟨m, -, hm⟩
    rw [← hm]
    exact contains_toInt m
  · intro h
    exact ⟨_, rfl, toInt_ofInt_of_contains h⟩

/-- **A member comes back** from its value exactly if the value holds its numbers exactly. -/
theorem extract_box_eq_ok_iff :
    ∀ (t : PlainType) {x : t.Member}, t.extract (t.box x) = .ok x ↔ t.Exact x
  | value, _ | text, _ | bool, _ | float, _ => iff_of_true rfl trivial
  | int _, _ => extract_box_int_eq_ok_iff
  | single, x => by
      show Except.ok (Binary32.ofBinary64 x.widen) = .ok x ↔ Binary32.ofBinary64 x.widen = x
      rw [Except.ok.injEq]
  | properties, p => iff_of_true (Properties.ofValue_toValue p) trivial
  | list t, xs => by
      show extractItems t.extract (xs.map t.box) = .ok xs ↔ ∀ x ∈ xs, t.Exact x
      rw [extractItems_eq_ok_iff, List.forall₂_map_left_iff, List.forall₂_same]
      simp only [extract_box_eq_ok_iff t]
  | table t, xs => by
      have hasc := Entries.ascending_named t.box xs.ascending
      rw [box_table, extract_table_eq_ok_iff, Exact]
      simp only [Value.map.injEq, exists_eq_left', extractEntries_eq_ok_iff]
      rw [exists_ofList_iff (R := fun w y => t.extract w = .ok y) hasc, Entries.named,
        List.forall₂_map_left_iff, List.forall₂_same]
      simp only [extract_box_eq_ok_iff t, true_and]

/-- Types that keep all bits have no other members. -/
theorem exact_of_isFaithful : ∀ {t : PlainType}, t.isFaithful = true → ∀ x : t.Member, t.Exact x
  | value, _, _ | text, _, _ | bool, _, _ | float, _, _ | properties, _, _ => trivial
  | int _, ht, n => IntType.contains_signed64 ht n.property
  | single, ht, _ => nomatch ht
  | list t, ht, _ => fun x _ => exact_of_isFaithful (t := t) ht x
  | table t, ht, _ => fun b _ => exact_of_isFaithful (t := t) ht b.2

end TaggedValue.PlainType
