import Mathlib.Logic.Relation
import TaggedValue.Proofs.Json.Decoding
import TaggedValue.Proofs.Json.Encoding

/-!
# The parts of a tree

As for values, what stands directly in an array or an object is a `Part`, and what occurs anywhere is
`Within`. A tree is in order if all its objects are, at every depth.
-/

namespace TaggedValue.Json

/-- The items of arrays and the members of objects. -/
inductive Part : Json → Json → Prop
  | item {j : Json} {js : List Json} (mem : j ∈ js) : Part j (.array js)
  | member {m : String × Json} {ms : List (String × Json)} (mem : m ∈ ms) : Part m.2 (.object ms)

theorem part_array_iff {j : Json} {js : List Json} : Part j (.array js) ↔ j ∈ js :=
  ⟨fun h => by cases h; assumption, .item⟩

theorem part_object_iff {j : Json} {ms : List (String × Json)} :
    Part j (.object ms) ↔ ∃ m ∈ ms, j = m.2 := by
  constructor
  · intro h
    cases h with
    | member mem => exact ⟨_, mem, rfl⟩
  · rintro ⟨m, hm, rfl⟩
    exact .member hm

theorem sizeOf_lt_of_part {i j : Json} (h : Part i j) : sizeOf i < sizeOf j := by
  cases h with
  | item mem => exact sizeOf_lt_array mem
  | member mem => exact sizeOf_lt_object mem

theorem part_wellFounded : WellFounded Part :=
  Subrelation.wf sizeOf_lt_of_part (measure sizeOf).wf

/-- A tree occurs in itself, and in whatever one of its wholes occurs in. -/
def Within : Json → Json → Prop := Relation.ReflTransGen Part

theorem Within.refl (j : Json) : Within j j := Relation.ReflTransGen.refl

theorem Within.of_part {i j k : Json} (h : Within i j) (hp : Part j k) : Within i k :=
  Relation.ReflTransGen.tail h hp

theorem within_iff {i k : Json} : Within i k ↔ i = k ∨ ∃ j, Part j k ∧ Within i j := by
  rw [Within, Relation.ReflTransGen.cases_tail_iff, eq_comm]
  simp only [and_comm]

/-! ## Trees in order -/

/-- A list that a function leaves as it is has only elements that it leaves as they are. -/
theorem eq_of_map_eq_self {α : Type} {f : α → α} {as : List α} (h : as.map f = as) :
    ∀ a ∈ as, f a = a := by
  have hid : as.map f = as.map id := by rw [h, List.map_id]
  exact List.map_inj_left.mp hid

/-- The members of an object in order ascend, and are in order themselves. -/
theorem ordered_object_iff {ms : List (String × Json)} :
    (object ms).ordered = .object ms ↔
      (ms.Pairwise fun a b => a.1 < b.1) ∧ ∀ m ∈ ms, m.2.ordered = m.2 := by
  constructor
  · intro h
    rw [ordered, ofMembers, object.injEq, orderedMembers_eq_map] at h
    have hasc : ms.Pairwise fun a b => a.1 < b.1 := by
      rw [← h]
      exact Table.ascending_foldl_insertInto _ List.Pairwise.nil
    -- ordering the members leaves their names alone, so they are kept as they come
    have hnames : (ms.map fun m => (m.1, m.2.ordered)).Pairwise fun a b => a.1 < b.1 :=
      List.pairwise_map.mpr hasc
    rw [Table.foldl_insertInto_of_ascending [] hnames, List.nil_append] at h
    refine ⟨hasc, fun m hm => ?_⟩
    exact congrArg Prod.snd (eq_of_map_eq_self h m hm)
  · rintro ⟨hasc, hms⟩
    exact ordered_object hasc hms

theorem ordered_of_part {i j : Json} (h : j.ordered = j) (hp : Part i j) : i.ordered = i := by
  cases hp with
  | @item i js mem =>
      rw [ordered, array.injEq, orderedItems_eq_map] at h
      exact eq_of_map_eq_self h i mem
  | @member m ms mem => exact (ordered_object_iff.mp h).2 m mem

/-- **In order means in the order of keys.** In a tree in order the members of every object, at any
depth, stand in ascending order of their names. -/
theorem names_ascend_of_ordered {j : Json} (h : j.ordered = j) {ms : List (String × Json)}
    (hms : Within (.object ms) j) : ms.Pairwise fun a b => a.1 < b.1 := by
  have hordered : (object ms).ordered = .object ms := by
    induction hms with
    | refl => exact h
    | tail _ hp ih => exact ih (ordered_of_part h hp)
  exact (ordered_object_iff.mp hordered).1

end TaggedValue.Json
