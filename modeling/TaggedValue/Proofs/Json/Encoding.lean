import TaggedValue.Json.Codec
import TaggedValue.Proofs.Entries.Names
import TaggedValue.Proofs.Outcome
import TaggedValue.Proofs.Parts

/-!
# Trees of values

Items, members and pairs are written one by one, and `Written` says for every value what its tree is
made of. The members of all objects in the tree of an ordered value are in order, as the keys of its
maps are. A value that can be written has no object in it, and for such values equality is plain
equality.
-/

namespace TaggedValue

/-! ## Trees in order -/

namespace Json

theorem ofMembers_of_ascending {ms : List (String × Json)}
    (h : ms.Pairwise fun a b => a.1 < b.1) : ofMembers ms = .object ms := by
  rw [ofMembers, Table.foldl_insertInto_of_ascending [] h, List.nil_append]

theorem orderedItems_eq_map (js : List Json) : orderedItems js = js.map ordered := by
  induction js with
  | nil => rfl
  | cons j js ih => rw [orderedItems, ih, List.map_cons]

theorem orderedMembers_eq_map (ms : List (String × Json)) :
    orderedMembers ms = ms.map fun m => (m.1, m.2.ordered) := by
  induction ms with
  | nil => rfl
  | cons m ms ih => rw [orderedMembers, ih, List.map_cons]

theorem ordered_array {js : List Json} (h : ∀ j ∈ js, j.ordered = j) :
    (array js).ordered = .array js := by
  rw [ordered, orderedItems_eq_map, List.map_congr_left h, List.map_id']

theorem ordered_object {ms : List (String × Json)} (hms : ms.Pairwise fun a b => a.1 < b.1)
    (h : ∀ m ∈ ms, m.2.ordered = m.2) : (object ms).ordered = .object ms := by
  have hmembers : ∀ m ∈ ms, (m.1, m.2.ordered) = m := by
    intro m hm
    rw [h m hm]
  rw [ordered, orderedMembers_eq_map, List.map_congr_left hmembers, List.map_id',
    ofMembers_of_ascending hms]

theorem ordered_tagged (tag : String) {js : List Json} (h : ∀ j ∈ js, j.ordered = j) :
    (object [(tag, .array js)]).ordered = .object [(tag, .array js)] :=
  ordered_object (List.pairwise_singleton _ _) (List.forall_mem_singleton.mpr (ordered_array h))

end Json

namespace Value

/-! ## Lists of values -/

theorem toJsonItems_eq_ok_iff {vs : List Value} {js : List Json} :
    toJsonItems vs = .ok js ↔ List.Forall₂ (fun v j => v.toJson = .ok j) vs js := by
  induction vs generalizing js with
  | nil =>
      rw [toJsonItems, List.forall₂_nil_left_iff, Except.ok.injEq, eq_comm]
  | cons v vs ih =>
      rw [toJsonItems, gather_eq_ok_iff, List.forall₂_cons_left_iff]
      simp only [ih]
      constructor
      · rintro ⟨j, hj, ks, hks, rfl⟩
        exact ⟨j, ks, hj, hks, rfl⟩
      · rintro ⟨j, ks, hj, hks, rfl⟩
        exact ⟨j, hj, ks, hks, rfl⟩

/-- An entry is written as this pair. -/
def WrittenAsPair (e : Entry) (j : Json) : Prop :=
  ∃ k l, e.1.toJson = .ok k ∧ e.2.toJson = .ok l ∧ j = .array [k, l]

theorem toJsonPairs_eq_ok_iff {es : List Entry} {js : List Json} :
    toJsonPairs es = .ok js ↔ List.Forall₂ WrittenAsPair es js := by
  induction es generalizing js with
  | nil =>
      rw [toJsonPairs, List.forall₂_nil_left_iff, Except.ok.injEq, eq_comm]
  | cons e es ih =>
      rw [toJsonPairs, bind_eq_ok_iff, List.forall₂_cons_left_iff]
      simp only [gather_eq_ok_iff, ih]
      constructor
      · rintro ⟨k, hk, l, hl, rest, hrest, rfl⟩
        exact ⟨_, rest, ⟨k, l, hk, hl, rfl⟩, hrest, rfl⟩
      · rintro ⟨_, rest, ⟨k, l, hk, hl, rfl⟩, hrest, rfl⟩
        exact ⟨k, hk, l, hl, rest, hrest, rfl⟩

theorem allTextKeys_cons {e : Entry} {es : List Entry} :
    allTextKeys (e :: es) = true ↔ (∃ s, e.1 = .str s) ∧ allTextKeys es = true := by
  have hkey : e.1.str?.isSome = true ↔ ∃ s, e.1 = .str s := by
    cases he : e.1 <;> simp [str?]
  rw [allTextKeys, List.all_cons, Bool.and_eq_true, hkey, allTextKeys]

theorem allTextKeys_iff {es : List Entry} :
    allTextKeys es = true ↔ ∀ e ∈ es, ∃ s, e.1 = .str s := by
  induction es with
  | nil => simp [allTextKeys]
  | cons e es ih => rw [allTextKeys_cons, ih, List.forall_mem_cons]

/-- An entry with a text for a key is written as this member. -/
def WrittenAsMember (e : Entry) (m : String × Json) : Prop :=
  e.1 = .str m.1 ∧ e.2.toJson = .ok m.2

theorem toJsonMembers_eq_ok_iff {es : List Entry} {ms : List (String × Json)}
    (hkeys : allTextKeys es = true) :
    toJsonMembers es = .ok ms ↔ List.Forall₂ WrittenAsMember es ms := by
  induction es generalizing ms with
  | nil =>
      rw [toJsonMembers, List.forall₂_nil_left_iff, Except.ok.injEq, eq_comm]
  | cons e es ih =>
      obtain ⟨k, v⟩ := e
      obtain ⟨⟨s, rfl⟩, hrest⟩ := allTextKeys_cons.mp hkeys
      rw [toJsonMembers, gather_eq_ok_iff, List.forall₂_cons_left_iff]
      simp only [ih hrest]
      constructor
      · rintro ⟨j, hj, rest, hms, rfl⟩
        exact ⟨(s, j), rest, ⟨rfl, hj⟩, hms, rfl⟩
      · rintro ⟨⟨name, j⟩, rest, ⟨hname, hj⟩, hms, rfl⟩
        cases hname
        exact ⟨j, hj, rest, hms, rfl⟩

theorem allTextKeys_of_members {es : List Entry} {ms : List (String × Json)}
    (h : List.Forall₂ WrittenAsMember es ms) : allTextKeys es = true := by
  refine allTextKeys_iff.mpr fun e he => ?_
  obtain ⟨m, hkey, -⟩ := exists_of_forall₂_left h e he
  exact ⟨m.1, hkey⟩

/-! ## Every value -/

/-- What a value is written as, when its parts are. -/
inductive Written : Value → Json → Prop
  | str (s : String) : Written (.str s) (.text s)
  | int (n : Int64) : Written (.int n) (.number (.int n))
  | float (x : Number.Binary64) (finite : x.isFinite = true) :
      Written (.float x) (.number (.float x finite))
  | bool (b : Bool) : Written (.bool b) (.bool b)
  | list {vs : List Value} {js : List Json}
      (items : List.Forall₂ (fun v j => v.toJson = .ok j) vs js) : Written (.list vs) (.array js)
  | tuple {vs : List Value} {js : List Json}
      (items : List.Forall₂ (fun v j => v.toJson = .ok j) vs js) :
      Written (.tuple vs) (.object [(tupleTag, .array js)])
  | members {es : List Entry} {ms : List (String × Json)}
      (members : List.Forall₂ WrittenAsMember es ms) : Written (.map es) (.object ms)
  | pairs {es : List Entry} {js : List Json} (keys : allTextKeys es = false)
      (pairs : List.Forall₂ WrittenAsPair es js) :
      Written (.map es) (.object [(mapTag, .array js)])

/-- **Writing by cases.** A value is written as a tree exactly in the ways that `Written` lists. -/
theorem toJson_eq_ok_iff {v : Value} {j : Json} : v.toJson = .ok j ↔ Written v j := by
  constructor
  · intro h
    cases v with
    | str s =>
        cases h
        exact .str s
    | int n =>
        cases h
        exact .int n
    | float x =>
        unfold toJson JsonNumber.ofBinary64? at h
        by_cases hx : x.isFinite = true
        · rw [dif_pos hx] at h
          cases h
          exact .float x hx
        · rw [dif_neg hx] at h
          cases h
    | bool b =>
        cases h
        exact .bool b
    | list vs =>
        rw [toJson, map_eq_ok_iff] at h
        obtain ⟨js, hjs, rfl⟩ := h
        exact .list (toJsonItems_eq_ok_iff.mp hjs)
    | tuple vs =>
        rw [toJson, map_eq_ok_iff] at h
        obtain ⟨js, hjs, rfl⟩ := h
        exact .tuple (toJsonItems_eq_ok_iff.mp hjs)
    | map es =>
        rw [toJson] at h
        by_cases hkeys : allTextKeys es = true
        · rw [if_pos hkeys, map_eq_ok_iff] at h
          obtain ⟨ms, hms, rfl⟩ := h
          exact .members ((toJsonMembers_eq_ok_iff hkeys).mp hms)
        · rw [if_neg hkeys, map_eq_ok_iff] at h
          obtain ⟨js, hjs, rfl⟩ := h
          exact .pairs (Bool.not_eq_true _ ▸ hkeys) (toJsonPairs_eq_ok_iff.mp hjs)
    | object o => cases h
  · intro h
    cases h with
    | str s => rfl
    | int n => rfl
    | float x finite =>
        unfold toJson JsonNumber.ofBinary64?
        rw [dif_pos finite]
    | bool b => rfl
    | list items =>
        rw [toJson, toJsonItems_eq_ok_iff.mpr items]
        rfl
    | tuple items =>
        rw [toJson, toJsonItems_eq_ok_iff.mpr items]
        rfl
    | members members =>
        have hkeys := allTextKeys_of_members members
        rw [toJson, if_pos hkeys, (toJsonMembers_eq_ok_iff hkeys).mpr members]
        rfl
    | pairs keys pairs =>
        rw [toJson, keys, if_neg Bool.false_ne_true, toJsonPairs_eq_ok_iff.mpr pairs]
        rfl

/-! ## Members are in order -/

/-- The names of members ascend as the keys of the entries do. -/
theorem pairwise_names {es : List Entry} {ms : List (String × Json)}
    (h : List.Forall₂ WrittenAsMember es ms) (hes : Entries.Ascending es) :
    ms.Pairwise fun a b => a.1 < b.1 := by
  have hkeys : List.Forall₂ (fun e m => e.1 = .str m.1) es ms := h.imp fun _ _ hem => hem.1
  exact (Entries.ascending_iff_of_keys hkeys).mp hes

/-- **In order.** The tree of an ordered value has the members of all its objects in order, each
name once. -/
theorem ordered_toJson {v : Value} {j : Json} (hord : v.Ordered) (h : v.toJson = .ok j) :
    j.ordered = j := by
  induction v using part_wellFounded.induction generalizing j with
  | _ v ih =>
  have hparts : ∀ u, Part u v → ∀ k, u.toJson = .ok k → k.ordered = k := by
    intro u hu k hk
    exact ih u hu (hord.of_part hu) hk
  cases toJson_eq_ok_iff.mp h with
  | str s => rfl
  | int n => rfl
  | float x finite => rfl
  | bool b => rfl
  | list items =>
      exact Json.ordered_array
        (forall_of_forall₂_right items fun u hu k hk => hparts u (.item hu) k hk)
  | tuple items =>
      exact Json.ordered_tagged tupleTag
        (forall_of_forall₂_right items fun u hu k hk => hparts u (.component hu) k hk)
  | members members =>
      refine Json.ordered_object (pairwise_names members (ordered_map_iff.mp hord).1) ?_
      exact forall_of_forall₂_right members fun e he m hm => hparts e.2 (.value he) m.2 hm.2
  | pairs keys pairs =>
      refine Json.ordered_tagged mapTag (forall_of_forall₂_right pairs fun e he j hj => ?_)
      obtain ⟨k, l, hk, hl, rfl⟩ := hj
      have hk' : k.ordered = k := hparts e.1 (.key he) k hk
      have hl' : l.ordered = l := hparts e.2 (.value he) l hl
      exact Json.ordered_array (by simp [hk', hl'])

/-! ## Parts can be written -/

/-- Whoever can write a value can write its parts. -/
theorem exists_toJson_of_part {u v : Value} {j : Json} (h : v.toJson = .ok j) (hp : Part u v) :
    ∃ k, u.toJson = .ok k := by
  cases toJson_eq_ok_iff.mp h with
  | list items => exact exists_of_forall₂_left items u (part_list_iff.mp hp)
  | tuple items => exact exists_of_forall₂_left items u (part_tuple_iff.mp hp)
  | members members =>
      obtain ⟨e, he, hu⟩ := part_map_iff.mp hp
      obtain ⟨m, hkey, hvalue⟩ := exists_of_forall₂_left members e he
      rcases hu with rfl | rfl
      · rw [hkey]
        exact ⟨.text m.1, rfl⟩
      · exact ⟨m.2, hvalue⟩
  | pairs keys pairs =>
      obtain ⟨e, he, hu⟩ := part_map_iff.mp hp
      obtain ⟨_, k, l, hkey, hvalue, -⟩ := exists_of_forall₂_left pairs e he
      rcases hu with rfl | rfl
      · exact ⟨k, hkey⟩
      · exact ⟨l, hvalue⟩
  | _ => cases hp

/-! ## Equality of what can be written -/

theorem not_within_object_of_toJson {v : Value} {j : Json} (h : v.toJson = .ok j) (o : Object) :
    ¬ Within (.object o) v := by
  have hwithin : ∀ u, Within u v → ∃ k, u.toJson = .ok k := by
    intro u hu
    induction hu using Relation.ReflTransGen.head_induction_on with
    | refl => exact ⟨j, h⟩
    | head hpart _ ih =>
        obtain ⟨k, hk⟩ := ih
        exact exists_toJson_of_part hk hpart
  intro ho
  obtain ⟨k, hk⟩ := hwithin _ ho
  cases hk

theorem equal_iff_eq_of_toJson {v w : Value} {j : Json} (h : v.toJson = .ok j) :
    w.equal v = true ↔ w = v :=
  equal_iff_eq (not_within_object_of_toJson h)

end Value

end TaggedValue
