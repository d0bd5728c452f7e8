import TaggedValue.Proofs.Properties.AsMap
import TaggedValue.Proofs.Runs

/-!
# Properties and maps of names convert into each other

Properties keep their names in the order of texts and become a map by sorting under the order of values;
a map is taken apart entry by entry and its names are put in their places again. Each way undoes the
other: on texts the two orders are one, and the maps that programs build have each key once. A table of
values is taken out of a map by another walk, which reports other faults but takes the same maps and
makes the same bindings of them.
-/

namespace TaggedValue

open Entries (named)

namespace Properties

/-- In a map in order the names stand as properties keep them. -/
theorem toValue_of_ofValue {v : Value} {p : Properties} (hv : v.Ordered) (h : ofValue v = .ok p) :
    p.toValue = v := by
  obtain ⟨bs, rfl, rfl⟩ := ofValue_eq_ok_iff.mp h
  have hnames : bs.Pairwise fun a b => a.1 < b.1 :=
    (Entries.ascending_named_iff fun v => v).mp (Value.ordered_map_iff.mp hv).1
  rw [toValue_eq_map, entries, Table.bindings_ofList hnames]

/-- A map is converted if all its keys are texts. -/
theorem exists_ofValue_iff {v : Value} :
    (∃ p, ofValue v = .ok p) ↔ ∃ es, v = .map es ∧ ∀ e ∈ es, ∃ name, e.1 = .str name := by
  simp only [← Entries.exists_named_iff, ofValue_eq_ok_iff]
  constructor
  · rintro ⟨p, bs, rfl, -⟩
    exact ⟨_, rfl, bs, rfl⟩
  · rintro ⟨es, rfl, bs, rfl⟩
    exact ⟨_, bs, rfl, rfl⟩

end Properties

namespace PlainType

/-- Values are extracted under their names as they are. -/
theorem extractEntries_ok_eq_ok_iff {es : List Entry} {bs : List (String × Value)} :
    extractEntries .ok es = .ok bs ↔ es = named (fun v => v) bs := by
  have hentry : ∀ (e : Entry) (b : String × Value),
      (e.1 = .str b.1 ∧ Except.ok (ε := Fault) e.2 = .ok b.2) ↔ e = (.str b.1, b.2) := by
    intro e b
    rw [Except.ok.injEq, Prod.ext_iff]
  rw [extractEntries_eq_ok_iff, named]
  simp only [hentry]
  rw [← List.forall₂_map_right_iff (R := Eq), List.forall₂_eq_eq_eq]

theorem extract_table_value_eq_ok_iff {v : Value} {p : Properties} :
    (table value).extract v = .ok p ↔
      ∃ bs, v = .map (named (fun v => v) bs) ∧ Table.ofList bs = p := by
  cases v with
  | map es =>
      show (extractEntries .ok es).map Table.ofList = .ok p ↔ _
      rw [map_eq_ok_iff]
      simp only [extractEntries_ok_eq_ok_iff, Value.map.injEq]
  | _ =>
      refine iff_of_false nofun ?_
      rintro ⟨bs, hbs, -⟩
      cases hbs

/-- **Properties and maps of names are in bijection.** Properties come back from the map that they
convert into. A map that a program can build gives properties if and only if all its keys are texts, and
then these convert into that very map. A table of values is extracted from the same maps as properties
are, with the same bindings. -/
theorem properties_correspond_to_maps (p : Properties) {v : Value} (hv : v.Built) :
    properties.extract p.toValue = .ok p ∧
    (∀ q, properties.extract v = .ok q → q.toValue = v ∧ q.toValue.equal v = true) ∧
    ((∃ q, properties.extract v = .ok q) ↔
      ∃ es, v = .map es ∧ ∀ e ∈ es, ∃ name, e.1 = .str name) ∧
    ∀ q : Properties, properties.extract v = .ok q ↔ (table value).extract v = .ok q := by
  refine ⟨Properties.ofValue_toValue p, fun q hq => ?_, Properties.exists_ofValue_iff, fun q => ?_⟩
  · have hback : q.toValue = v := Properties.toValue_of_ofValue hv.ordered hq
    refine ⟨hback, ?_⟩
    rw [hback]
    exact Value.equal_self v
  · rw [extract_table_value_eq_ok_iff]
    exact Properties.ofValue_eq_ok_iff

/-- Two names, bound in one order and listed in the other. -/
theorem properties_correspond_to_maps_of_two :
    (Value.map [(.str "a", .bool false), (.str "b", .bool true)]).Built ∧
    properties.extract (.map [(.str "a", .bool false), (.str "b", .bool true)]) =
      .ok (Table.ofList [("b", .bool true), ("a", .bool false)]) ∧
    Properties.toValue (Table.ofList [("b", .bool true), ("a", .bool false)]) =
      .map [(.str "a", .bool false), (.str "b", .bool true)] := by
  have hbuilt : (Value.map [(.str "a", .bool false), (.str "b", .bool true)]).Built :=
    Value.built_box (t := .map (.plain .text) (.plain .bool)) (x := [("b", true), ("a", false)]) rfl
  have hextract : properties.extract (.map [(.str "a", .bool false), (.str "b", .bool true)]) =
      .ok (Table.ofList [("b", .bool true), ("a", .bool false)]) := rfl
  exact ⟨hbuilt, hextract, ((properties_correspond_to_maps {} hbuilt).2.1 _ hextract).1⟩

end PlainType

end TaggedValue
