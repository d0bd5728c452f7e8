import TaggedValue.Plain.Composite
import TaggedValue.Proofs.Plain.Collecting
import TaggedValue.Proofs.Properties

/-!
# Items

A program holds values and properties, and members of plain and composite types that have values and
properties inside. Boxing a member makes an ordered value if all that is inside is ordered, and
whatever is inside a member that was extracted from an ordered value is ordered.
-/

namespace TaggedValue

/-- What a program holds. -/
inductive Item
  | value (v : Value)
  | properties (p : Properties)

/-- All values in an item are ordered. -/
def Item.Ordered : Item → Prop
  | value v => v.Ordered
  | properties p => p.Ordered

/-! ## Plain types -/

namespace PlainType

/-- The values and properties inside a member. -/
def contents : (t : PlainType) → t.Member → List Item
  | value, v => [.value v]
  | properties, p => [.properties p]
  | list t, xs => xs.flatMap (contents t)
  | table t, xs => xs.toList.flatMap fun b => contents t b.2
  | text, _ | bool, _ | int _, _ | float, _ | single, _ => []

theorem ordered_box :
    ∀ (t : PlainType) {x : t.Member}, (∀ i ∈ t.contents x, i.Ordered) → (t.box x).Ordered
  | value, v, h => h (.value v) List.mem_cons_self
  | text, s, _ => Value.ordered_str s
  | bool, _, _ | int _, _, _ | float, _, _ | single, _, _ => Value.ordered_of_isScalar rfl
  | properties, p, h => Properties.ordered_toValue (h (.properties p) List.mem_cons_self)
  | list t, xs, h => by
      refine Value.ordered_list_iff.mpr fun v hv => ?_
      obtain ⟨x, hx, rfl⟩ := List.mem_map.mp hv
      exact ordered_box t fun i hi => h i (List.mem_flatMap.mpr ⟨x, hx, hi⟩)
  | table t, xs, h => by
      refine Value.ordered_ofPairs fun e he => ?_
      obtain ⟨b, hb, rfl⟩ := List.mem_map.mp he
      refine ⟨Value.ordered_str b.1, ?_⟩
      exact ordered_box t fun i hi => h i (List.mem_flatMap.mpr ⟨b, hb, hi⟩)

theorem ordered_of_extract :
    ∀ (t : PlainType) {v : Value} {x : t.Member}, v.Ordered → t.extract v = .ok x →
      ∀ i ∈ t.contents x, i.Ordered
  | value, v, x, hv, h => by
      cases h
      exact List.forall_mem_singleton.mpr hv
  | properties, v, x, hv, h =>
      List.forall_mem_singleton.mpr (Properties.ordered_of_ofValue hv h)
  | text, _, _, _, _ | bool, _, _, _, _ | int _, _, _, _, _ | float, _, _, _, _
  | single, _, _, _, _ => nofun
  | list t, v, xs, hv, h => by
      intro i hmem
      obtain ⟨x, hx, hi⟩ := List.mem_flatMap.mp hmem
      have hitems : ∀ vs : List Value, (∀ w ∈ vs, w.Ordered) →
          extractItems t.extract vs = .ok xs → ∀ i ∈ t.contents x, i.Ordered :=
        fun vs hvs hxs =>
          forall_of_forall₂_right (extractItems_eq_ok_iff.mp hxs)
            (fun w hw y hy => ordered_of_extract t (hvs w hw) hy) x hx
      unfold extract at h
      split at h
      · exact hitems _ (Value.ordered_list_iff.mp hv) h i hi
      · exact hitems _ (Value.ordered_tuple_iff.mp hv) h i hi
      · cases h
  | table t, v, xs, hv, h => by
      intro i hmem
      obtain ⟨b, hb, hi⟩ := List.mem_flatMap.mp hmem
      unfold extract at h
      split at h
      · next es =>
        obtain ⟨bs, hbs, rfl⟩ := map_eq_ok_iff.mp h
        have hall : Table.All (fun y => ∀ i ∈ t.contents y, i.Ordered) (Table.ofList bs) :=
          Table.all_ofList (forall_of_forall₂_right (extractEntries_eq_ok_iff.mp hbs) fun e he b hb =>
            ordered_of_extract t ((Value.ordered_map_iff.mp hv).2 e he).2 hb.2)
        exact hall b hb i hi
      · cases h

end PlainType

/-! ## Composite types -/

namespace CompositeType

/-- The values and properties inside a member. -/
def contents : (t : CompositeType) → t.Member → List Item
  | plain t, x => t.contents x
  | list t, xs => xs.flatMap (contents t)
  | tuple n t, xs => (List.finRange n).flatMap fun i => contents (t i) (xs i)
  | map k t, xs => xs.flatMap fun e => contents k e.1 ++ contents t e.2

theorem ordered_box :
    ∀ (t : CompositeType) {x : t.Member}, (∀ i ∈ t.contents x, i.Ordered) → (t.box x).Ordered
  | plain t, x, h => t.ordered_box h
  | list t, xs, h => by
      refine Value.ordered_list_iff.mpr fun v hv => ?_
      obtain ⟨x, hx, rfl⟩ := List.mem_map.mp hv
      exact ordered_box t fun i hi => h i (List.mem_flatMap.mpr ⟨x, hx, hi⟩)
  | tuple n t, xs, h => by
      refine Value.ordered_tuple_iff.mpr fun v hv => ?_
      obtain ⟨p, rfl⟩ := List.mem_ofFn.mp hv
      refine ordered_box (t p) fun i hi => h i ?_
      exact List.mem_flatMap.mpr ⟨p, List.mem_finRange p, hi⟩
  | map k t, xs, h => by
      refine Value.ordered_ofPairs fun e he => ?_
      obtain ⟨x, hx, rfl⟩ := List.mem_map.mp he
      refine ⟨ordered_box k fun i hi => h i ?_, ordered_box t fun i hi => h i ?_⟩
      · exact List.mem_flatMap.mpr ⟨x, hx, List.mem_append_left _ hi⟩
      · exact List.mem_flatMap.mpr ⟨x, hx, List.mem_append_right _ hi⟩

end CompositeType

end TaggedValue
