import TaggedValue.Proofs.Items
import TaggedValue.Proofs.Operations
import TaggedValue.Proofs.Sameness

/-!
# Runs

A program starts with nothing in hand and takes one operation after another; what an operation makes
of items in hand is one more item in hand. A value is *built* if some run has it in hand. Nothing is
taken away, so a hand also holds every earlier state of what was changed.

The invariant of runs is order: every map in every value in hand has strictly ascending keys, at
every depth. Its one use is the search, which finds what occurs and nothing else.
-/

namespace TaggedValue

/-- What one operation makes of items in hand. -/
inductive Made (hand : List Item) : Item → Prop
  -- from members of composite types, and back to members of plain types
  | boxed {t : CompositeType} {x : t.Member} (inside : ∀ i ∈ t.contents x, i ∈ hand) :
      Made hand (.value (t.box x))
  | extracted {t : PlainType} {v : Value} {x : t.Member} {i : Item} (held : .value v ∈ hand)
      (done : t.extract v = .ok x) (inside : i ∈ t.contents x) : Made hand i
  -- from values
  | object (o : Object) : Made hand (.value (.object o))
  | list {vs : List Value} (held : ∀ v ∈ vs, .value v ∈ hand) : Made hand (.value (.list vs))
  | tuple {vs : List Value} (held : ∀ v ∈ vs, .value v ∈ hand) : Made hand (.value (.tuple vs))
  | map {ps : List Entry} (held : ∀ p ∈ ps, .value p.1 ∈ hand ∧ .value p.2 ∈ hand) :
      Made hand (.value (Value.ofPairs ps))
  -- parts of values
  | index {v i x : Value} (held : .value v ∈ hand) (done : v.index i = .ok x) :
      Made hand (.value x)
  | key {v k : Value} {ks : List Value} (held : .value v ∈ hand) (done : v.keys = .ok ks)
      (mem : k ∈ ks) : Made hand (.value k)
  | element {v x : Value} {xs : List Value} (held : .value v ∈ hand) (done : v.values = .ok xs)
      (mem : x ∈ xs) : Made hand (.value x)
  | position {s : Sequence} {p : Nat} {x : Value} (held : .value s.toValue ∈ hand)
      (done : s.get p = .ok x) : Made hand (.value x)
  -- changed values
  | indexSet {v i x w : Value} (held : .value v ∈ hand) (heldIndex : .value i ∈ hand)
      (heldNew : .value x ∈ hand) (done : v.indexSet i x = .ok w) : Made hand (.value w)
  | set {v k x w : Value} (held : .value v ∈ hand) (heldKey : .value k ∈ hand)
      (heldNew : .value x ∈ hand) (done : v.set k x = .ok w) : Made hand (.value w)
  | positionSet {s : Sequence} {p : Nat} {x w : Value} (held : .value s.toValue ∈ hand)
      (heldNew : .value x ∈ hand) (done : s.set p x = .ok w) : Made hand (.value w)
  | push {v x w : Value} (held : .value v ∈ hand) (heldNew : .value x ∈ hand)
      (done : v.push x = .ok w) : Made hand (.value w)
  | append {vs ws : List Value} (held : .value (.list vs) ∈ hand)
      (heldNew : .value (.list ws) ∈ hand) : Made hand (.value (.list (vs ++ ws)))
  | removeAt {vs ws : List Value} {p : Nat} (held : .value (.list vs) ∈ hand)
      (done : Sequence.removeAt vs p = .ok ws) : Made hand (.value (.list ws))
  | remove {v k w : Value} {removed : Option Value} (held : .value v ∈ hand)
      (done : v.remove k = .ok (w, removed)) : Made hand (.value w)
  | removed {v k w x : Value} (held : .value v ∈ hand) (done : v.remove k = .ok (w, some x)) :
      Made hand (.value x)
  -- properties
  | collected {bs : List (String × Value)} (held : ∀ b ∈ bs, .value b.2 ∈ hand) :
      Made hand (.properties (Table.ofList bs))
  | bind {p : Properties} {name : String} {v : Value} (held : .properties p ∈ hand)
      (heldNew : .value v ∈ hand) : Made hand (.properties (p.set name v).1)
  | unbind {p : Properties} {name : String} (held : .properties p ∈ hand) :
      Made hand (.properties (p.remove name).1)
  | bound {p : Properties} {name : String} {v : Value} (held : .properties p ∈ hand)
      (done : p.get? name = some v) : Made hand (.value v)
  | merge {p q : Properties} (held : .properties p ∈ hand) (heldNew : .properties q ∈ hand) :
      Made hand (.properties (Table.merge p q))
  | asValue {p : Properties} (held : .properties p ∈ hand) : Made hand (.value p.toValue)
  | ofValue {p : Properties} {v : Value} (held : .value v ∈ hand)
      (done : Properties.ofValue v = .ok p) : Made hand (.properties p)
  -- from trees, text and layers
  | decoded {j : Json} {v : Value} (done : j.toValue = .ok v) : Made hand (.value v)
  | read {text : String} {v : Value} (done : Value.ofJsonText text = .ok v) :
      Made hand (.value v)
  | decodedProperties {j : Json} {p : Properties} (done : Properties.ofJson j = .ok p) :
      Made hand (.properties p)
  | readProperties {text : String} {p : Properties} (done : Properties.ofJsonText text = .ok p) :
      Made hand (.properties p)
  | loaded {ls : List Layer} {p : Properties} (done : Properties.ofLayers ls = .ok p) :
      Made hand (.properties p)
  | loadedFile {path : String} {content : Option String} {p : Properties}
      (done : Properties.ofFile path content = .ok p) : Made hand (.properties p)

/-- The hands that operations lead to, one after another. -/
inductive Run : List Item → Prop
  | start : Run []
  | step {hand : List Item} {i : Item} (run : Run hand) (made : Made hand i) : Run (i :: hand)

/-- A value that some run has in hand. -/
def Value.Built (v : Value) : Prop := ∃ hand, Run hand ∧ Item.value v ∈ hand

/-- What is boxed without any value inside can be built at once. -/
theorem Value.built_box {t : CompositeType} {x : t.Member} (h : t.contents x = []) :
    (t.box x).Built := by
  refine ⟨_, .step .start (.boxed (t := t) (x := x) ?_), List.mem_cons_self⟩
  rw [h]
  exact nofun

/-! ## The invariant -/

/-- **One step.** An operation makes an ordered item of ordered items. -/
theorem Made.ordered {hand : List Item} {i : Item} (hhand : ∀ x ∈ hand, x.Ordered)
    (h : Made hand i) : i.Ordered := by
  have hvalue : ∀ {v : Value}, .value v ∈ hand → v.Ordered := fun hv => hhand _ hv
  have hproperties : ∀ {p : Properties}, .properties p ∈ hand → p.Ordered := fun hp => hhand _ hp
  cases h with
  | @boxed t x inside => exact t.ordered_box fun i hi => hhand i (inside i hi)
  | @extracted t v x i held done inside => exact t.ordered_of_extract (hvalue held) done i inside
  | object o => exact Value.ordered_of_isScalar rfl
  | list held => exact Value.ordered_list_iff.mpr fun v hv => hvalue (held v hv)
  | tuple held => exact Value.ordered_tuple_iff.mpr fun v hv => hvalue (held v hv)
  | map held =>
      exact Value.ordered_ofPairs fun p hp => ⟨hvalue (held p hp).1, hvalue (held p hp).2⟩
  | index held done => exact Value.ordered_of_index (hvalue held) done
  | key held done mem => exact Value.ordered_of_keys (hvalue held) done _ mem
  | element held done mem => exact Value.ordered_of_values (hvalue held) done _ mem
  | position held done => exact Sequence.ordered_of_get (hvalue held) done
  | indexSet held heldIndex heldNew done =>
      exact Value.ordered_of_indexSet (hvalue held) (hvalue heldIndex) (hvalue heldNew) done
  | set held heldKey heldNew done =>
      exact Value.ordered_of_set (hvalue held) (hvalue heldKey) (hvalue heldNew) done
  | positionSet held heldNew done =>
      exact Sequence.ordered_of_set (hvalue held) (hvalue heldNew) done
  | push held heldNew done => exact Value.ordered_of_push (hvalue held) (hvalue heldNew) done
  | append held heldNew =>
      refine Value.ordered_list_iff.mpr fun v hv => ?_
      rcases List.mem_append.mp hv with hv | hv
      · exact Value.ordered_list_iff.mp (hvalue held) v hv
      · exact Value.ordered_list_iff.mp (hvalue heldNew) v hv
  | removeAt held done => exact Sequence.ordered_of_removeAt (hvalue held) done
  | remove held done => exact (Value.ordered_of_remove (hvalue held) done).1
  | removed held done => exact (Value.ordered_of_remove (hvalue held) done).2 _ rfl
  | collected held => exact Table.all_ofList fun b hb => hvalue (held b hb)
  | bind held heldNew => exact Table.all_insert (hproperties held) (hvalue heldNew) _
  | unbind held => exact Table.all_erase (hproperties held) _
  | bound held done => exact Properties.ordered_of_get? (hproperties held) done
  | merge held heldNew => exact Table.all_merge (hproperties held) (hproperties heldNew)
  | asValue held => exact Properties.ordered_toValue (hproperties held)
  | ofValue held done => exact Properties.ordered_of_ofValue (hvalue held) done
  | decoded done => exact Json.ordered_of_toValue done
  | read done => exact Value.ordered_of_ofJsonText done
  | decodedProperties done => exact Properties.ordered_of_ofJson done
  | readProperties done => exact Properties.ordered_of_ofJsonText done
  | loaded done => exact Properties.ordered_of_ofLayers done
  | loadedFile done => exact Properties.ordered_of_ofFile done

/-- **Whole runs.** Everything that a run has in hand is ordered. -/
theorem Run.ordered {hand : List Item} (h : Run hand) : ∀ i ∈ hand, i.Ordered := by
  induction h with
  | start => exact nofun
  | step run made ih => exact List.forall_mem_cons.mpr ⟨made.ordered ih, ih⟩

theorem Value.Built.ordered {v : Value} (h : v.Built) : v.Ordered := by
  obtain ⟨hand, run, hv⟩ := h
  exact run.ordered _ hv

/-! ## Maps in hand -/

open Entries (Ascending place)

/-- **Maps ascend in every run.** Whatever the operations, every map that occurs in a value in hand
has strictly ascending keys, and the search finds the position of an equal key, if and only if there
is one. -/
theorem Run.maps_ascend {hand : List Item} (run : Run hand) {v : Value}
    (held : .value v ∈ hand) {es : List Entry} (within : Value.Within (.map es) v) :
    Ascending es ∧
    ∀ key : Value,
      (∀ i, place es key = .found i ↔ ∃ e, es[i]? = some e ∧ e.1.equal key = true) ∧
      ((∃ i, place es key = .found i) ↔ ∃ e ∈ es, e.1.equal key = true) := by
  have hasc : Ascending es := run.ordered _ held es within
  have hplace : ∀ key i, place es key = .found i
      ↔ ∃ e, es[i]? = some e ∧ e.1.equal key = true := by
    intro key i
    rw [Entries.place_eq_found_iff hasc]
    simp only [Value.equal_iff_compare_eq_eq]
  refine ⟨hasc, fun key => ⟨hplace key, ?_⟩⟩
  simp only [hplace]
  constructor
  · rintro ⟨i, e, hi, he⟩
    exact ⟨e, List.mem_of_getElem? hi, he⟩
  · rintro ⟨e, hmem, he⟩
    obtain ⟨i, hi⟩ := List.getElem?_of_mem hmem
    exact ⟨i, e, hi, he⟩

/-- A map made of three pairs with two keys, and then used as a key itself. -/
theorem Run.maps_ascend_map_as_key :
    ∃ (hand : List Item) (v : Value),
      Run hand ∧ .value v ∈ hand ∧
      Value.Within (.map [(.str "a", .bool true), (.str "b", .bool false)]) v ∧
      Ascending [(.str "a", .bool true), (.str "b", .bool false)] ∧
      place [(.str "a", .bool true), (.str "b", .bool false)] (.str "b") = .found 1 := by
  have hinner : Made [] (.value (.map [(.str "a", .bool true), (.str "b", .bool false)])) :=
    .boxed (t := .map (.plain .text) (.plain .bool))
      (x := [("b", true), ("a", true), ("b", false)]) (fun _ hi => hi)
  have houter : Made [.value (.map [(.str "a", .bool true), (.str "b", .bool false)])]
      (.value (.map [(.map [(.str "a", .bool true), (.str "b", .bool false)],
        .map [(.str "a", .bool true), (.str "b", .bool false)])])) :=
    @Made.map _ [(.map [(.str "a", .bool true), (.str "b", .bool false)],
      .map [(.str "a", .bool true), (.str "b", .bool false)])] (by simp)
  have hrun := Run.step (.step .start hinner) houter
  have hwithin : Value.Within (.map [(.str "a", .bool true), (.str "b", .bool false)])
      (.map [(.map [(.str "a", .bool true), (.str "b", .bool false)],
        .map [(.str "a", .bool true), (.str "b", .bool false)])]) :=
    (Value.Within.refl _).of_part
      (Value.part_map_iff.mpr ⟨_, List.mem_cons_self, Or.inl rfl⟩)
  obtain ⟨hasc, hplace⟩ := Run.maps_ascend hrun List.mem_cons_self hwithin
  refine ⟨_, _, hrun, List.mem_cons_self, hwithin, hasc, ?_⟩
  exact ((hplace (.str "b")).1 1).mpr ⟨(.str "b", .bool false), rfl, by decide⟩

end TaggedValue
