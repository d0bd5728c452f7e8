import TaggedValue.Proofs.Json.RoundTrip
import TaggedValue.Proofs.Json.Spelling
import TaggedValue.Proofs.Properties.Conversion

/-!
# Properties as trees

Properties are written member by member and read member by member, and no name is taken for a tag. What
is written is the tree of the map that they convert into, since all keys of that map are texts. What is
read is what would be read as a value and converted then, for every tree but one kind: under a tag the
value is a tuple or another map, while properties see a name that is bound to a list.
-/

namespace TaggedValue

open Entries (named)

/-! ## Trees under a tag -/

/-- The tree is an object with one member, which has an array under one of the tags. -/
def Json.Tagged (j : Json) : Prop :=
  ∃ key js, (key = tupleTag ∨ key = mapTag) ∧ j = .object [(key, .array js)]

theorem Json.not_tagged_object_iff {ms : List (String × Json)} :
    ¬ Tagged (.object ms) ↔ Untagged ms := by
  constructor
  · rintro h key js rfl
    exact ⟨fun htuple => h ⟨key, js, .inl htuple, rfl⟩, fun hmap => h ⟨key, js, .inr hmap, rfl⟩⟩
  · rintro h ⟨key, js, htag, hj⟩
    cases hj
    obtain ⟨htuple, hmap⟩ := h key js rfl
    rcases htag with rfl | rfl
    · exact htuple rfl
    · exact hmap rfl

/-! ## Values that come back -/

/-- What is read from the tree of a value is equal to it. -/
def Value.ComesBack (v : Value) : Prop :=
  ∃ j w, v.toJson = .ok j ∧ j.toValue = .ok w ∧ w.equal v = true

/-- It is then the very same, since no object is in it. -/
theorem Value.comesBack_iff {v : Value} {j : Json} (h : v.toJson = .ok j) :
    v.ComesBack ↔ j.toValue = .ok v := by
  constructor
  · rintro ⟨k, w, hk, hw, heq⟩
    rw [h] at hk
    cases hk
    rw [equal_iff_eq_of_toJson h] at heq
    rwa [heq] at hw
  · intro hv
    exact ⟨j, v, h, hv, equal_self v⟩

namespace Properties

/-! ## Writing -/

theorem toMembers_eq (bs : List (String × Value)) :
    toMembers bs = Value.toJsonMembers (named (fun v => v) bs) := by
  induction bs with
  | nil => rfl
  | cons b bs ih =>
      rw [toMembers, ih, Entries.named_cons, Value.toJsonMembers]
      rfl

theorem allTextKeys_entries (p : Properties) : Value.allTextKeys p.entries = true :=
  Value.allTextKeys_iff.mpr (Entries.exists_named_iff.mp ⟨p.bindings, rfl⟩)

/-- **One tree.** Properties are written as their map is, and writing fails alike. -/
theorem toJson_eq (p : Properties) : p.toJson = p.toValue.toJson := by
  rw [toValue_eq_map, Value.toJson, if_pos p.allTextKeys_entries]
  exact congrArg (Except.map Json.object) (toMembers_eq p.toList)

/-- A binding is written as this member. -/
def WrittenAs (b : String × Value) (m : String × Json) : Prop :=
  b.1 = m.1 ∧ b.2.toJson = .ok m.2

theorem toJson_eq_ok_iff {p : Properties} {j : Json} :
    p.toJson = .ok j ↔ ∃ ms, j = .object ms ∧ List.Forall₂ WrittenAs p.bindings ms := by
  have hentry : ∀ (b : String × Value) (m : String × Json),
      Value.WrittenAsMember (.str b.1, b.2) m ↔ WrittenAs b m := by
    intro b m
    rw [Value.WrittenAsMember, WrittenAs, Value.str.injEq]
  have hmembers : ∀ ms, toMembers p.toList = .ok ms ↔ List.Forall₂ WrittenAs p.bindings ms := by
    intro ms
    have hentries : toMembers p.toList = Value.toJsonMembers p.entries := toMembers_eq p.toList
    rw [hentries, Value.toJsonMembers_eq_ok_iff p.allTextKeys_entries, entries, named,
      List.forall₂_map_left_iff]
    simp only [hentry]
  rw [toJson, map_eq_ok_iff]
  simp only [hmembers, and_comm, eq_comm]

/-! ## Reading -/

/-- Members are read as values under their names, be it for properties or for a map. -/
theorem toValueMembers_eq (ms : List (String × Json)) :
    Json.toValueMembers ms = (ofMembers ms).map (named fun v => v) := by
  induction ms with
  | nil => rfl
  | cons m ms ih =>
      rw [Json.toValueMembers, ofMembers, ih]
      cases m.2.toValue with
      | error r => rfl
      | ok v =>
          cases ofMembers ms with
          | error r => rfl
          | ok bs => rfl

theorem ofMembers_eq_ok_iff {ms : List (String × Json)} {bs : List (String × Value)} :
    ofMembers ms = .ok bs ↔
      List.Forall₂ (fun m b => m.1 = b.1 ∧ m.2.toValue = .ok b.2) ms bs := by
  induction ms generalizing bs with
  | nil => rw [ofMembers, List.forall₂_nil_left_iff, Except.ok.injEq, eq_comm]
  | cons m ms ih =>
      rw [ofMembers, gather_eq_ok_iff, List.forall₂_cons_left_iff]
      simp only [ih]
      constructor
      · rintro ⟨v, hv, rest, hrest, rfl⟩
        exact ⟨(m.1, v), rest, ⟨rfl, hv⟩, hrest, rfl⟩
      · rintro ⟨⟨name, v⟩, rest, ⟨rfl, hv⟩, hrest, rfl⟩
        exact ⟨v, hv, rest, hrest, rfl⟩

theorem ofJson_object_eq_ok_iff {ms : List (String × Json)} {p : Properties} :
    ofJson (.object ms) = .ok p ↔ ∃ bs, ofMembers ms = .ok bs ∧ Table.ofList bs = p := by
  rw [ofJson, mapError_eq_ok_iff, map_eq_ok_iff]

/-! ## There and back -/

/-- Members of which each is read as the value that it was written for make the properties again. -/
theorem ofJson_of_comesBack {p : Properties} {ms : List (String × Json)}
    (hms : List.Forall₂ WrittenAs p.bindings ms) (h : ∀ b ∈ p.toList, b.2.ComesBack) :
    ofJson (.object ms) = .ok p := by
  have hread : ofMembers ms = .ok p.bindings := by
    refine ofMembers_eq_ok_iff.mpr (forall₂_turn hms fun b hb m hm => ?_)
    exact ⟨hm.1.symm, (Value.comesBack_iff hm.2).mp (h b hb)⟩
  exact ofJson_object_eq_ok_iff.mpr ⟨p.bindings, hread, Table.ofList_bindings p⟩

theorem comesBack_of_ofJson {p : Properties} {ms : List (String × Json)}
    (hms : List.Forall₂ WrittenAs p.bindings ms) (h : ofJson (.object ms) = .ok p) :
    ∀ b ∈ p.toList, b.2.ComesBack := by
  obtain ⟨bs, hbs, hp⟩ := ofJson_object_eq_ok_iff.mp h
  have hback : List.Forall₂ (fun b c => b.1 = c.1 ∧ ∃ j, b.2.toJson = .ok j ∧ j.toValue = .ok c.2)
      p.bindings bs :=
    forall₂_through hms (ofMembers_eq_ok_iff.mp hbs) fun b _ m c hbm hmc =>
      ⟨hbm.1.trans hmc.1, m.2, hbm.2, hmc.2⟩
  -- the names are those of the properties, so the bindings come in order and none is replaced
  have hnames : p.bindings.map Prod.fst = bs.map Prod.fst := by
    rw [← List.forall₂_eq_eq_eq, List.forall₂_map_left_iff, List.forall₂_map_right_iff]
    exact hback.imp fun _ _ h => h.1
  have hasc : bs.Pairwise fun a b => a.1 < b.1 := by
    have hordered := List.pairwise_map.mpr p.ascending
    rw [hnames] at hordered
    exact List.pairwise_map.mp hordered
  have hkept : bs = p.bindings := by rw [← Table.bindings_ofList hasc, hp]
  rw [hkept, List.forall₂_same] at hback
  intro b hb
  obtain ⟨-, j, hj, hv⟩ := hback b hb
  exact (Value.comesBack_iff hj).mpr hv

/-- **Properties survive as trees.** They are written as the map is that they convert into: both succeed
or fail alike, and give the same tree. Read as properties, the tree gives the properties again if and
only if each of their values comes back from a tree of its own, whatever their names are. -/
theorem written_as_map_and_read_back (p : Properties) :
    p.toJson = p.toValue.toJson ∧
    ∀ j, p.toJson = .ok j → (ofJson j = .ok p ↔ ∀ b ∈ p.toList, b.2.ComesBack) := by
  refine ⟨toJson_eq p, fun j hj => ?_⟩
  obtain ⟨ms, rfl, hms⟩ := toJson_eq_ok_iff.mp hj
  exact ⟨comesBack_of_ofJson hms, ofJson_of_comesBack hms⟩

/-- A tag for the only name, bound to a list: as a value the tree would be a tuple. -/
theorem written_as_map_and_read_back_tag_with_list :
    (toJson (Table.ofList [(tupleTag, .list [.int 1, .str "a"])])) =
      .ok (.object [(tupleTag, .array [.number (.int 1), .text "a"])]) ∧
    ofJson (.object [(tupleTag, .array [.number (.int 1), .text "a"])]) =
      .ok (Table.ofList [(tupleTag, .list [.int 1, .str "a"])]) ∧
    (Json.object [(tupleTag, .array [.number (.int 1), .text "a"])]).toValue =
      .ok (.tuple [.int 1, .str "a"]) := by
  have hwritten : (toJson (Table.ofList [(tupleTag, .list [.int 1, .str "a"])])) =
      .ok (.object [(tupleTag, .array [.number (.int 1), .text "a"])]) := rfl
  refine ⟨hwritten, ((written_as_map_and_read_back _).2 _ hwritten).mpr ?_, rfl⟩
  intro b hb
  obtain rfl := List.mem_singleton.mp hb
  exact ⟨.array [.number (.int 1), .text "a"], .list [.int 1, .str "a"], rfl, rfl, by decide⟩

/-! ## Two ways to read -/

/-- A map that is built from names converts into the properties built from them: of several pairs with
one name both keep the last. -/
theorem ofValue_ofPairs_named (bs : List (String × Value)) :
    ofValue (Value.ofPairs (named (fun v => v) bs)) = .ok (Table.ofList bs) := by
  have hkeys : ∀ e ∈ Entries.ofPairs (named (fun v => v) bs), ∃ name, e.1 = .str name := by
    intro e he
    obtain ⟨⟨d, hd, hkey⟩, -⟩ := Entries.mem_ofPairs he
    rw [← hkey]
    exact Entries.exists_named_iff.mp ⟨bs, rfl⟩ d hd
  obtain ⟨cs, hcs⟩ := Entries.exists_named_iff.mpr hkeys
  have hasc : cs.Pairwise fun a b => a.1 < b.1 := by
    apply (Entries.ascending_named_iff fun v => v).mp
    rw [← hcs]
    exact Entries.ascending_ofPairs _
  have hlookup : ∀ name, Table.lookup name cs = Table.lookup name bs.reverse := by
    intro name
    have hreverse : (named (fun v => v) bs).reverse = named (fun v => v) bs.reverse :=
      List.map_reverse.symm
    have hmap := Entries.lookup_ofPairs (named (fun v => v) bs) (.str name)
    rwa [hcs, hreverse, Entries.lookup_named, Entries.lookup_named, Option.map_id',
      Option.map_id'] at hmap
  refine ofValue_eq_ok_iff.mpr ⟨cs, congrArg Value.map hcs, Table.eq_of_get? fun name => ?_⟩
  rw [Table.get?_ofList bs, ← hlookup, Table.get?, Table.bindings_ofList hasc]

/-- Without a tag, the members are read into a map of names, and that converts into properties. -/
theorem ofJson_untagged_eq_ok_iff {ms : List (String × Json)} (h : Json.Untagged ms)
    {p : Properties} :
    ofJson (.object ms) = .ok p ↔ ∃ v, (Json.object ms).toValue = .ok v ∧ ofValue v = .ok p := by
  rw [ofJson_object_eq_ok_iff, Json.toValue_untagged h, toValueMembers_eq]
  simp only [map_eq_ok_iff]
  constructor
  · rintro ⟨bs, hbs, rfl⟩
    exact ⟨_, ⟨_, ⟨bs, hbs, rfl⟩, rfl⟩, ofValue_ofPairs_named bs⟩
  · rintro ⟨v, ⟨es, ⟨bs, hbs, rfl⟩, rfl⟩, hp⟩
    rw [ofValue_ofPairs_named] at hp
    cases hp
    exact ⟨bs, hbs, rfl⟩

/-- Only objects have members. What is read from any other tree is no map. -/
theorem ofJson_eq_ok_iff_of_not_tagged {j : Json} (h : ¬ j.Tagged) {p : Properties} :
    ofJson j = .ok p ↔ ∃ v, j.toValue = .ok v ∧ ofValue v = .ok p := by
  cases j with
  | object ms => exact ofJson_untagged_eq_ok_iff (Json.not_tagged_object_iff.mp h)
  | _ =>
      refine iff_of_false nofun ?_
      rintro ⟨v, hv, hp⟩
      cases Json.toValue_eq_ok_iff.mp hv <;> cases hp

/-! ## Equal properties -/

theorem writable_of_ofJson {j : Json} {p : Properties} (h : ofJson j = .ok p) :
    ∀ b ∈ p.toList, b.2.Writable := by
  cases j with
  | object ms =>
      obtain ⟨bs, hbs, rfl⟩ := ofJson_object_eq_ok_iff.mp h
      refine Table.all_ofList (forall_of_forall₂_right (ofMembers_eq_ok_iff.mp hbs) ?_)
      intro m _ b hmb
      exact Value.writable_of_toValue hmb.2
  | _ => cases h

/-- A value that can be written has no object in it, so it is equal to no value but itself, and
properties with such values are equal to no others. -/
theorem eq_of_equal {p q : Properties} (hp : ∀ b ∈ p.toList, b.2.Writable)
    (h : p.equal q = true) : p = q := by
  rw [equal, Bool.and_eq_true, beq_iff_eq, List.all_eq_true] at h
  obtain ⟨hsize, hall⟩ := h
  have hpairs : List.Forall₂ (fun b c => (b.1 == c.1 && b.2.equal c.2) = true) p.bindings
      q.bindings :=
    List.forall₂_iff_zip.mpr ⟨hsize, fun {b c} hbc => hall (b, c) hbc⟩
  refine Table.ext (eq_of_forall₂ hpairs fun b hb c hbc => ?_)
  obtain ⟨hname, hvalue⟩ := Bool.and_eq_true_iff.mp hbc
  obtain ⟨j, hj⟩ := hp b hb
  rw [Value.equal_comm, Value.equal_iff_eq_of_toJson hj] at hvalue
  exact Prod.ext (beq_iff_eq.mp hname) hvalue.symm

/-! ## Under a tag -/

/-- Properties bind the tag itself, to the list that the array is read as. -/
theorem bindings_of_ofJson_tag {key : String} {js : List Json} {p : Properties}
    (h : ofJson (.object [(key, .array js)]) = .ok p) :
    ∃ vs, (Json.array js).toValue = .ok (.list vs) ∧ p.bindings = [(key, .list vs)] := by
  obtain ⟨bs, hbs, rfl⟩ := ofJson_object_eq_ok_iff.mp h
  obtain ⟨⟨name, v⟩, rest, ⟨hname, hv⟩, hnil, rfl⟩ :=
    List.forall₂_cons_left_iff.mp (ofMembers_eq_ok_iff.mp hbs)
  cases List.forall₂_nil_left_iff.mp hnil
  cases hname
  cases Json.toValue_eq_ok_iff.mp hv with
  | @array _ vs items => exact ⟨vs, hv, Table.bindings_ofList (List.pairwise_singleton _ _)⟩

/-- **Under a tag the two ways part.** The properties that bind the tag convert into a map that is larger
than the array as a list, while what the tag makes of the array is not. -/
theorem ne_of_tagged {j : Json} (hj : j.Tagged) {p q : Properties} {v : Value}
    (hp : ofJson j = .ok p) (hv : j.toValue = .ok v) (hq : ofValue v = .ok q) : p ≠ q := by
  rintro rfl
  obtain ⟨key, js, htag, rfl⟩ := hj
  obtain ⟨vs, hvs, hbindings⟩ := bindings_of_ofJson_tag hp
  have htagged : ¬ Json.Untagged [(key, .array js)] :=
    fun h => Json.not_tagged_object_iff.mpr h ⟨key, js, htag, rfl⟩
  obtain ⟨tag, js', ws, hms, hws, hsize⟩ := Value.exists_list_of_tagged htagged hv
  cases hms
  rw [hvs] at hws
  cases hws
  have hback : v = .map [(.str key, .list vs)] := by
    rw [← toValue_of_ofValue (Json.ordered_of_toValue hv) hq, toValue_eq_map, entries, hbindings]
    rfl
  rw [hback, Value.map.sizeOf_spec, List.cons.sizeOf_spec, Entries.sizeOf_entry] at hsize
  dsimp only at hsize
  omega

/-! ## Agreement -/

/-- **Two ways of loading properties.** A tree is read as properties at once, or as a value that is
converted then. For every tree that is not one array under a tag, the two ways give the same properties
or none. For the others they never give equal ones. -/
theorem ways_of_loading_agree_but_under_tags (j : Json) :
    (¬ j.Tagged → ∀ p, ofJson j = .ok p ↔
      ∃ v, j.toValue = .ok v ∧ PlainType.properties.extract v = .ok p) ∧
    (j.Tagged → ∀ p q v, ofJson j = .ok p → j.toValue = .ok v →
      PlainType.properties.extract v = .ok q → p.equal q = false) := by
  refine ⟨fun hj p => ofJson_eq_ok_iff_of_not_tagged hj, ?_⟩
  intro hj p q v hp hv hq
  rw [Bool.eq_false_iff]
  intro heq
  exact ne_of_tagged hj hp hv hq (eq_of_equal (writable_of_ofJson hp) heq)

/-- A tag that is bound to a truth value is a name like any other; pairs under the map tag are a list
for the one way and a map for the other. -/
theorem ways_of_loading_agree_but_under_tags_pairs :
    (∃ v, (Json.object [(mapTag, .bool true)]).toValue = .ok v ∧
      PlainType.properties.extract v = .ok (Table.ofList [(mapTag, .bool true)])) ∧
    equal (Table.ofList [(mapTag, .list [.list [.str "a", .bool true]])])
      (Table.ofList [("a", .bool true)]) = false := by
  have huntagged : ¬ (Json.object [(mapTag, .bool true)]).Tagged := by
    rintro ⟨key, js, -, h⟩
    cases h
  have htagged : (Json.object [(mapTag, .array [.array [.text "a", .bool true]])]).Tagged :=
    ⟨_, _, .inr rfl, rfl⟩
  exact ⟨((ways_of_loading_agree_but_under_tags _).1 huntagged _).mp rfl,
    (ways_of_loading_agree_but_under_tags _).2 htagged _ _ _ rfl rfl rfl⟩

end Properties

end TaggedValue
