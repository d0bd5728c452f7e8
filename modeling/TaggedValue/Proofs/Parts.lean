import Mathlib.Logic.Relation
import TaggedValue.Proofs.Entries.Changes
import TaggedValue.Proofs.Outcome
import TaggedValue.Proofs.Sameness
import TaggedValue.Value.Access

/-!
# The parts of a value

What can be said of a value "at every depth" is said with two relations: `Part`, for what stands
directly in a list, a tuple or a map, be it as a key or as a value, and `Within`, for what occurs
anywhere. A value in which no object occurs is equal to none but itself. A value is *ordered* if the
keys of every map within it strictly ascend.
-/

namespace TaggedValue.Value

/-! ## Direct parts -/

/-- The items of lists and tuples, and the keys and values of maps. -/
inductive Part : Value → Value → Prop
  | item {v : Value} {vs : List Value} (mem : v ∈ vs) : Part v (.list vs)
  | component {v : Value} {vs : List Value} (mem : v ∈ vs) : Part v (.tuple vs)
  | key {e : Entry} {es : List Entry} (mem : e ∈ es) : Part e.1 (.map es)
  | value {e : Entry} {es : List Entry} (mem : e ∈ es) : Part e.2 (.map es)

theorem part_list_iff {v : Value} {vs : List Value} : Part v (.list vs) ↔ v ∈ vs :=
  ⟨fun h => by cases h; assumption, .item⟩

theorem part_tuple_iff {v : Value} {vs : List Value} : Part v (.tuple vs) ↔ v ∈ vs :=
  ⟨fun h => by cases h; assumption, .component⟩

theorem part_map_iff {v : Value} {es : List Entry} :
    Part v (.map es) ↔ ∃ e ∈ es, v = e.1 ∨ v = e.2 := by
  constructor
  · intro h
    cases h with
    | key mem => exact ⟨_, mem, Or.inl rfl⟩
    | value mem => exact ⟨_, mem, Or.inr rfl⟩
  · rintro ⟨e, he, rfl | rfl⟩
    · exact .key he
    · exact .value he

theorem sizeOf_lt_of_part {u v : Value} (h : Part u v) : sizeOf u < sizeOf v := by
  cases h with
  | @item _ vs mem =>
      have := List.sizeOf_lt_of_mem mem
      rw [list.sizeOf_spec]
      omega
  | @component _ vs mem =>
      have := List.sizeOf_lt_of_mem mem
      rw [tuple.sizeOf_spec]
      omega
  | @key e es mem =>
      have := List.sizeOf_lt_of_mem mem
      rw [Entries.sizeOf_entry] at this
      rw [map.sizeOf_spec]
      omega
  | @value e es mem =>
      have := List.sizeOf_lt_of_mem mem
      rw [Entries.sizeOf_entry] at this
      rw [map.sizeOf_spec]
      omega

/-- What holds of a value as soon as it holds of its parts holds of every value. -/
theorem part_wellFounded : WellFounded Part :=
  Subrelation.wf sizeOf_lt_of_part (measure sizeOf).wf

/-! ## Parts at any depth -/

/-- A value occurs in itself, and in whatever one of its wholes occurs in. -/
def Within : Value → Value → Prop := Relation.ReflTransGen Part

theorem Within.refl (v : Value) : Within v v := Relation.ReflTransGen.refl

theorem Within.of_part {u v w : Value} (h : Within u v) (hp : Part v w) : Within u w :=
  Relation.ReflTransGen.tail h hp

/-- What occurs in a value is the value, or occurs in one of its parts. -/
theorem within_iff {u w : Value} : Within u w ↔ u = w ∨ ∃ v, Within u v ∧ Part v w := by
  rw [Within, Relation.ReflTransGen.cases_tail_iff, eq_comm]

/-- Something holds everywhere in a value if it holds of the value and everywhere in its parts. -/
theorem forall_within_iff {P : Value → Prop} {v : Value} :
    (∀ u, Within u v → P u) ↔ P v ∧ ∀ w, Part w v → ∀ u, Within u w → P u := by
  constructor
  · intro h
    exact ⟨h v (Within.refl v), fun w hw u hu => h u (hu.of_part hw)⟩
  · rintro ⟨htop, hparts⟩ u hu
    rcases within_iff.mp hu with rfl | ⟨w, huw, hw⟩
    · exact htop
    · exact hparts w hw u huw

/-! ## Values without objects -/

/-- Entries are their keys and their values side by side. -/
theorem zip_keys_values (es : List Entry) : (Entries.keys es).zip (Entries.values es) = es := by
  have hzip := List.zip_unzip es
  rwa [List.unzip_eq_map] at hzip

/-- **Equality is equality** where no object occurs. Only objects can be equal and yet not identical in
every respect. -/
theorem eq_of_same {v w : Value} (h : ∀ o, ¬ Within (.object o) v) (hs : Same v w) : v = w := by
  induction v using part_wellFounded.induction generalizing w with
  | _ v ih =>
  have hparts : ∀ u, Part u v → ∀ x, Same u x → u = x :=
    fun u hu x hx => ih u hu (fun o ho => h o (ho.of_part hu)) hx
  cases hs with
  | str s => rfl
  | int n => rfl
  | @float x y bits =>
      obtain ⟨b⟩ := x
      cases bits
      rfl
  | bool b => rfl
  | list items =>
      rw [eq_of_forall₂ items fun u hu => hparts u (.item hu)]
  | tuple items =>
      rw [eq_of_forall₂ items fun u hu => hparts u (.component hu)]
  | @map es fs keys values =>
      have hkeys : Entries.keys es = Entries.keys fs := by
        refine eq_of_forall₂ keys fun u hu => hparts u ?_
        obtain ⟨e, he, rfl⟩ := List.mem_map.mp hu
        exact .key he
      have hvalues : Entries.values es = Entries.values fs := by
        refine eq_of_forall₂ values fun u hu => hparts u ?_
        obtain ⟨e, he, rfl⟩ := List.mem_map.mp hu
        exact .value he
      rw [← zip_keys_values es, hkeys, hvalues, zip_keys_values fs]
  | @object o p identity => exact absurd (Within.refl (.object o)) (h o)

theorem equal_iff_eq {v w : Value} (h : ∀ o, ¬ Within (.object o) v) :
    w.equal v = true ↔ w = v := by
  constructor
  · intro heq
    rw [equal_comm] at heq
    exact (eq_of_same h ((equal_iff_same v w).mp heq)).symm
  · rintro rfl
    exact equal_self w

/-! ## Ordered values -/

/-- The keys of all maps in a value strictly ascend. -/
def Ordered (v : Value) : Prop := ∀ es, Within (.map es) v → Entries.Ascending es

/-- A value is ordered if it is no unordered map itself and all its parts are ordered. -/
theorem ordered_iff {v : Value} :
    Ordered v ↔ (∀ es, v = .map es → Entries.Ascending es) ∧ ∀ u, Part u v → Ordered u := by
  have hall : ∀ w, Ordered w ↔ ∀ u, Within u w → ∀ es, u = .map es → Entries.Ascending es :=
    fun w => ⟨fun h u hu es hes => h es (hes ▸ hu), fun h es hes => h _ hes es rfl⟩
  simp only [hall]
  exact forall_within_iff

theorem Ordered.of_part {u v : Value} (h : Ordered v) (hp : Part u v) : Ordered u :=
  (ordered_iff.mp h).2 u hp

theorem ordered_list_iff {vs : List Value} : Ordered (.list vs) ↔ ∀ v ∈ vs, Ordered v := by
  rw [ordered_iff]
  simp only [part_list_iff]
  exact and_iff_right nofun

theorem ordered_tuple_iff {vs : List Value} : Ordered (.tuple vs) ↔ ∀ v ∈ vs, Ordered v := by
  rw [ordered_iff]
  simp only [part_tuple_iff]
  exact and_iff_right nofun

theorem ordered_map_iff {es : List Entry} :
    Ordered (.map es) ↔ Entries.Ascending es ∧ ∀ e ∈ es, Ordered e.1 ∧ Ordered e.2 := by
  rw [ordered_iff]
  constructor
  · rintro ⟨htop, hparts⟩
    exact ⟨htop es rfl, fun e he => ⟨hparts _ (.key he), hparts _ (.value he)⟩⟩
  · rintro ⟨hasc, hes⟩
    refine ⟨fun fs hfs => ?_, fun u hu => ?_⟩
    · cases hfs
      exact hasc
    · obtain ⟨e, he, rfl | rfl⟩ := part_map_iff.mp hu
      · exact (hes e he).1
      · exact (hes e he).2

/-- A value without parts is ordered. -/
theorem ordered_of_isScalar {v : Value} (h : v.isScalar = true) : Ordered v := by
  rw [ordered_iff]
  refine ⟨fun es hv => ?_, fun u hu => ?_⟩
  · subst hv
    cases h
  · cases hu <;> cases h

theorem ordered_str (s : String) : Ordered (.str s) :=
  ordered_iff.mpr ⟨nofun, nofun⟩

theorem ordered_ofPairs {ps : List Entry} (h : ∀ p ∈ ps, Ordered p.1 ∧ Ordered p.2) :
    Ordered (Value.ofPairs ps) := by
  rw [Value.ofPairs, ordered_map_iff]
  refine ⟨Entries.ascending_ofPairs ps, fun e he => ?_⟩
  obtain ⟨⟨p, hp, hpe⟩, q, hq, hqe⟩ := Entries.mem_ofPairs he
  exact ⟨hpe ▸ (h p hp).1, hqe ▸ (h q hq).2⟩

/-- A map in order is what its own entries make. -/
theorem ofPairs_of_ordered {es : List Entry} (h : Ordered (.map es)) :
    Value.ofPairs es = .map es := by
  rw [Value.ofPairs, Entries.ofPairs_of_ascending (ordered_map_iff.mp h).1]

end TaggedValue.Value
