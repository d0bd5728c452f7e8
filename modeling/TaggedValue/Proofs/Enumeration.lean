import TaggedValue.Proofs.Entries.Distinct
import TaggedValue.Proofs.Entries.Histories
import TaggedValue.Proofs.Positions
import TaggedValue.Proofs.Runs

/-!
# Containers are made of what they enumerate

A container can be asked for its size, for all its parts at once and for single ones, and it grows part by
part. Each payload has its own way to do so: texts are taken apart into code points, lists and tuples hold
their items, and maps search among sorted entries. All of them obey one law: the parts that are enumerated
are those that are counted and those that are read one by one, and the container is built from them again.
For a map the order in which its pairs are put in makes no difference.
-/

namespace TaggedValue

/-! ## Sequences part by part -/

namespace Sequence

/-- Reading one position after another gives all elements. -/
theorem mapM_get (s : Sequence) : (List.range s.elements.length).mapM s.get = .ok s.elements := by
  apply mapM_eq_ok_of_forall₂
  rw [List.forall₂_iff_get]
  refine ⟨List.length_range, fun i _ hi => ?_⟩
  rw [get_eq_ok_iff, List.get_eq_getElem, List.get_eq_getElem, List.getElem_range]
  exact List.getElem?_eq_getElem hi

theorem isEmpty_elements (s : Sequence) : s.elements.isEmpty = s.isEmpty := by
  cases s with
  | text t => exact List.isEmpty_map
  | list vs => rfl
  | tuple vs => rfl

theorem isEmpty_toValue (s : Sequence) : s.toValue.isEmpty = .ok s.isEmpty := by
  cases s <;> rfl

/-- An index from the front reads the element at its position, if there is one. -/
theorem index_eq_ok_iff {s : Sequence} {i : Int64} {p : Nat} (hp : i.toInt = p) {x : Value} :
    s.toValue.index (.int i) = .ok x ↔ s.elements[p]? = some x := by
  by_cases hlt : p < s.length
  · rw [index_of_addresses ⟨hlt, Or.inl hp.symm⟩, get_eq_ok_iff]
  · have houtside : ¬(-(s.length : Int) ≤ i.toInt ∧ i.toInt < s.length) := by omega
    have hnone : s.elements[p]? = none :=
      List.getElem?_eq_none (s.length_elements ▸ Nat.le_of_not_lt hlt)
    rw [(refuses_of_outside houtside).1, hnone]
    exact iff_of_false nofun nofun

end Sequence

/-! ## Growing part by part -/

namespace Value

/-- Pushes values one after another. -/
def pushEach (v : Value) (xs : List Value) : Except Fault Value :=
  xs.foldlM (fun w x => w.push x) v

theorem pushEach_list (vs ws : List Value) : pushEach (.list vs) ws = .ok (.list (vs ++ ws)) := by
  induction ws generalizing vs with
  | nil =>
      rw [List.append_nil]
      rfl
  | cons w ws ih =>
      have hstep : pushEach (.list vs) (w :: ws) = pushEach (.list (vs ++ [w])) ws := rfl
      rw [hstep, ih, List.append_assoc, List.singleton_append]

theorem pushEach_str (s : String) (cs : List Char) :
    pushEach (.str s) (cs.map Sequence.ofChar) = .ok (.str (s ++ String.ofList cs)) := by
  induction cs generalizing s with
  | nil =>
      rw [String.ofList_nil, String.append_empty]
      rfl
  | cons c cs ih =>
      have hstep : pushEach (.str s) ((c :: cs).map Sequence.ofChar) =
          pushEach (.str (s ++ String.ofList [c])) (cs.map Sequence.ofChar) := rfl
      rw [hstep, ih, String.append_assoc, ← String.ofList_append, List.singleton_append]

end Value

/-! ## The law -/

namespace Value

/-- A container is made of what it enumerates. -/
structure MadeOf (v : Value) (xs : List Value) : Prop where
  values : v.values = .ok xs
  length : v.length = .ok xs.length
  isEmpty : v.isEmpty = .ok xs.isEmpty
  /-- Reading position after position finds no end before the last part. -/
  positions : ∀ s, v.sequence? = some s → (List.range xs.length).mapM s.get = .ok xs
  /-- A part has the same place in the enumeration and under a signed index. -/
  index : v.isSequence = true → ∀ (i : Int64) (p : Nat), i.toInt = p →
    ∀ x, v.index (.int i) = .ok x ↔ xs[p]? = some x
  text : v.kind = .str → pushEach (.str "") xs = .ok v
  list : v.kind = .list → pushEach (.list []) xs = .ok v
  tuple : v.kind = .tuple → .tuple xs = v
  /-- Each key is enumerated where its value is, and the pairs of both make the map in any order. -/
  map : v.kind = .map → ∃ ks, v.keys = .ok ks ∧
    List.Forall₂ (fun k x => v.index k = .ok x) ks xs ∧
    ∀ ps, ps.Perm (ks.zip xs) → ofPairs ps = v

theorem madeOf_elements (s : Sequence) : s.toValue.MadeOf s.elements where
  values := s.values_toValue
  length := by rw [s.length_toValue, s.length_elements]
  isEmpty := by rw [s.isEmpty_toValue, s.isEmpty_elements]
  positions t ht := by
    have hts : t = s := by
      cases s <;> exact (Option.some.inj ht).symm
    rw [hts]
    exact s.mapM_get
  index _ i p hp x := Sequence.index_eq_ok_iff hp
  text hkind := by
    cases s with
    | text t =>
        show pushEach (.str "") (t.toList.map Sequence.ofChar) = .ok (.str t)
        rw [pushEach_str, String.ofList_toList, String.empty_append]
    | list vs => cases hkind
    | tuple vs => cases hkind
  list hkind := by
    cases s with
    | text t => cases hkind
    | list vs => exact pushEach_list [] vs
    | tuple vs => cases hkind
  tuple hkind := by
    cases s with
    | text t => cases hkind
    | list vs => cases hkind
    | tuple vs => rfl
  map hkind := by
    cases s <;> cases hkind

theorem madeOf_values {es : List Entry} (h : Entries.Ascending es) :
    (map es).MadeOf (Entries.values es) where
  values := rfl
  length := congrArg Except.ok (List.length_map _).symm
  isEmpty := congrArg Except.ok List.isEmpty_map.symm
  positions := nofun
  index := nofun
  text := nofun
  list := nofun
  tuple := nofun
  map _ := by
    refine ⟨Entries.keys es, rfl, (Entries.finiteFunction_of_ascending h).values_of_keys, ?_⟩
    intro ps hps
    rw [zip_keys_values] at hps
    exact congrArg Value.map (Entries.ofPairs_of_perm h hps)

/-- **Containers are rebuilt from their enumeration**: every text, list, tuple and map that a program can
build enumerates as many parts as it counts, gives each of them when it is read part by part, and is
built from them again. -/
theorem container_is_made_of_its_values {v : Value} (hv : v.Built) (hcontainer : v.isScalar = false) :
    ∃ xs, v.MadeOf xs := by
  cases v with
  | str s => exact ⟨_, madeOf_elements (.text s)⟩
  | list vs => exact ⟨_, madeOf_elements (.list vs)⟩
  | tuple vs => exact ⟨_, madeOf_elements (.tuple vs)⟩
  | map es => exact ⟨_, madeOf_values (ordered_map_iff.mp hv.ordered).1⟩
  | _ => cases hcontainer

/-- The pairs of a map in reverse, under texts in which code points differ in size. -/
theorem container_is_made_of_its_values_reversed :
    (map [(.str "a", .bool true), (.str "é", .bool false), (.str "∞", .bool true)]).Built ∧
    (map [(.str "a", .bool true), (.str "é", .bool false), (.str "∞", .bool true)]).isScalar =
      false ∧
    ofPairs [(.str "∞", .bool true), (.str "é", .bool false), (.str "a", .bool true)] =
      map [(.str "a", .bool true), (.str "é", .bool false), (.str "∞", .bool true)] := by
  have hbuilt :
      (map [(.str "a", .bool true), (.str "é", .bool false), (.str "∞", .bool true)]).Built :=
    built_box (t := .map (.plain .text) (.plain .bool))
      (x := [("é", false), ("∞", true), ("a", true)]) rfl
  obtain ⟨xs, hmade⟩ := container_is_made_of_its_values hbuilt rfl
  obtain ⟨ks, hkeys, -, hpairs⟩ := hmade.map rfl
  have hxs := hmade.values
  cases hkeys
  cases hxs
  refine ⟨hbuilt, rfl, hpairs _ ?_⟩
  exact List.reverse_perm [(str "a", bool true), (str "é", bool false), (str "∞", bool true)]

end Value

end TaggedValue
