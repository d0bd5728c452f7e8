import TaggedValue.Proofs.Json.Decoding
import TaggedValue.Proofs.Json.Encoding
import TaggedValue.Proofs.Runs

/-!
# There and back

A value is written as a tree and the tree is read. Almost every value comes back as it was. The one
that does not is a map with a single entry that binds a tag to a list: it is written as a plain
object, and that object reads as a tuple or as a map with other keys. Misreadings never cancel out,
since each of them makes the value smaller and no reading makes a value larger.
-/

namespace TaggedValue

namespace Value

/-! ## Maps that are taken for something else -/

/-- A map with one entry, which binds a tag to a list. -/
def Mistakable (v : Value) : Prop :=
  ∃ key vs, (key = tupleTag ∨ key = mapTag) ∧ v = .map [(.str key, .list vs)]

/-- No value in it is mistakable. -/
def Unmistakable (v : Value) : Prop := ∀ u, Within u v → ¬ Mistakable u

theorem unmistakable_iff {v : Value} :
    Unmistakable v ↔ ¬ Mistakable v ∧ ∀ u, Part u v → Unmistakable u :=
  forall_within_iff

theorem not_mistakable_of_kind_ne {v : Value} (h : v.kind ≠ .map) : ¬ Mistakable v := by
  rintro ⟨key, vs, -, rfl⟩
  exact h rfl

theorem unmistakable_str (s : String) : Unmistakable (.str s) :=
  unmistakable_iff.mpr ⟨not_mistakable_of_kind_ne (by simp [kind]), nofun⟩

/-- The members of a map have a tag only if the map is mistakable. -/
theorem untagged_iff {es : List Entry} {ms : List (String × Json)}
    (h : List.Forall₂ WrittenAsMember es ms) : Json.Untagged ms ↔ ¬ Mistakable (.map es) := by
  constructor
  · rintro huntagged ⟨key, vs, htag, hes⟩
    cases hes
    obtain ⟨⟨name, j⟩, ms', ⟨hname, hj⟩, hnil, rfl⟩ := List.forall₂_cons_left_iff.mp h
    cases List.forall₂_nil_left_iff.mp hnil
    cases hname
    cases toJson_eq_ok_iff.mp hj with
    | @list _ js items =>
        obtain ⟨htuple, hmap⟩ := huntagged name js rfl
        rcases htag with hkey | hkey
        · exact htuple hkey
        · exact hmap hkey
  · rintro hes key js rfl
    obtain ⟨⟨k, v⟩, es', ⟨rfl, hv⟩, hnil, rfl⟩ := List.forall₂_cons_right_iff.mp h
    cases List.forall₂_nil_right_iff.mp hnil
    -- only a list is written as an array
    cases toJson_eq_ok_iff.mp hv with
    | @list vs _ items =>
        refine ⟨?_, ?_⟩
        · intro hkey
          exact hes ⟨key, vs, Or.inl hkey, rfl⟩
        · intro hkey
          exact hes ⟨key, vs, Or.inr hkey, rfl⟩

/-! ## What comes back as it was -/

/-- **There and back.** An ordered value without mistakable maps is read as it was. -/
theorem toValue_of_toJson {v : Value} {j : Json} (hord : v.Ordered) (hclear : v.Unmistakable)
    (h : v.toJson = .ok j) : j.toValue = .ok v := by
  induction v using part_wellFounded.induction generalizing j with
  | _ v ih =>
  have hparts : ∀ u, Part u v → ∀ k, u.toJson = .ok k → k.toValue = .ok u := by
    intro u hu k hk
    exact ih u hu (hord.of_part hu) ((unmistakable_iff.mp hclear).2 u hu) hk
  rw [Json.toValue_eq_ok_iff]
  cases toJson_eq_ok_iff.mp h with
  | str s => exact .text s
  | int n => exact .int n
  | float x finite => exact .float x finite
  | bool b => exact .bool b
  | list items =>
      exact .array (forall₂_turn items fun u hu k hk => hparts u (.item hu) k hk)
  | tuple items =>
      exact .taggedTuple (forall₂_turn items fun u hu k hk => hparts u (.component hu) k hk)
  | @members es ms members =>
      have huntagged := (untagged_iff members).mpr (unmistakable_iff.mp hclear).1
      rw [← ofPairs_of_ordered hord]
      refine .members huntagged (forall₂_turn members fun e he m hm => ?_)
      exact ⟨hm.1, hparts e.2 (.value he) m.2 hm.2⟩
  | @pairs es js keys pairs =>
      rw [← ofPairs_of_ordered hord]
      refine .taggedMap (forall₂_turn pairs fun e he j hj => ?_)
      obtain ⟨k, l, hk, hl, rfl⟩ := hj
      exact ⟨k, l, rfl, hparts e.1 (.key he) k hk, hparts e.2 (.value he) l hl⟩

/-! ## What comes back smaller -/

/-- The second value is not larger than the first, and smaller if that has a mistakable map. -/
def Shrinks (v w : Value) : Prop :=
  sizeOf w ≤ sizeOf v ∧ (¬ Unmistakable v → sizeOf w < sizeOf v)

theorem Shrinks.of_unmistakable {v : Value} (h : Unmistakable v) : Shrinks v v :=
  ⟨Nat.le_refl _, fun hv => absurd h hv⟩

theorem Shrinks.of_lt {v w : Value} (h : sizeOf w < sizeOf v) : Shrinks v w :=
  ⟨Nat.le_of_lt h, fun _ => h⟩

/-- A list in which no element grows does not grow, and shrinks if some element does. -/
theorem sizeOf_le_of_forall₂ {α : Type} [SizeOf α] {Q : α → Prop} {as bs : List α}
    (h : List.Forall₂ (fun a b => sizeOf b ≤ sizeOf a ∧ (Q a → sizeOf b < sizeOf a)) as bs) :
    sizeOf bs ≤ sizeOf as ∧ ((∃ a ∈ as, Q a) → sizeOf bs < sizeOf as) := by
  induction h with
  | nil => exact ⟨Nat.le_refl _, fun ⟨a, ha, _⟩ => absurd ha List.not_mem_nil⟩
  | @cons a b as bs hab _ ih =>
      rw [List.cons.sizeOf_spec, List.cons.sizeOf_spec]
      refine ⟨by omega, ?_⟩
      rintro ⟨c, hc, hQ⟩
      rcases List.mem_cons.mp hc with rfl | hc
      · have := hab.2 hQ
        omega
      · have := ih.2 ⟨c, hc, hQ⟩
        omega

theorem exists_part_of_not_unmistakable {v : Value} (htop : ¬ Mistakable v)
    (h : ¬ Unmistakable v) : ∃ u, Part u v ∧ ¬ Unmistakable u := by
  refine Classical.byContradiction fun hparts => h (unmistakable_iff.mpr ⟨htop, fun u hu => ?_⟩)
  exact Classical.byContradiction fun hclear => hparts ⟨u, hu, hclear⟩

theorem Shrinks.of_parts {v w : Value} (htop : ¬ Mistakable v) (hle : sizeOf w ≤ sizeOf v)
    (hlt : ∀ u, Part u v → ¬ Unmistakable u → sizeOf w < sizeOf v) : Shrinks v w := by
  refine ⟨hle, ?_⟩
  intro hclear
  obtain ⟨u, hu, hu'⟩ := exists_part_of_not_unmistakable htop hclear
  exact hlt u hu hu'

theorem Shrinks.list {vs ws : List Value} (h : List.Forall₂ Shrinks vs ws) :
    Shrinks (.list vs) (.list ws) := by
  obtain ⟨hle, hlt⟩ := sizeOf_le_of_forall₂ h
  have hv : sizeOf (Value.list vs) = 1 + sizeOf vs := list.sizeOf_spec vs
  have hw : sizeOf (Value.list ws) = 1 + sizeOf ws := list.sizeOf_spec ws
  refine .of_parts (not_mistakable_of_kind_ne (by simp [kind])) (by omega) ?_
  intro u hu hu'
  have := hlt ⟨u, part_list_iff.mp hu, hu'⟩
  omega

theorem Shrinks.tuple {vs ws : List Value} (h : List.Forall₂ Shrinks vs ws) :
    Shrinks (.tuple vs) (.tuple ws) := by
  obtain ⟨hle, hlt⟩ := sizeOf_le_of_forall₂ h
  have hv : sizeOf (Value.tuple vs) = 1 + sizeOf vs := tuple.sizeOf_spec vs
  have hw : sizeOf (Value.tuple ws) = 1 + sizeOf ws := tuple.sizeOf_spec ws
  refine .of_parts (not_mistakable_of_kind_ne (by simp [kind])) (by omega) ?_
  intro u hu hu'
  have := hlt ⟨u, part_tuple_iff.mp hu, hu'⟩
  omega

theorem Shrinks.entry {e f : Entry} (hkey : Shrinks e.1 f.1) (hvalue : Shrinks e.2 f.2) :
    sizeOf f ≤ sizeOf e ∧
      (¬ Unmistakable e.1 ∨ ¬ Unmistakable e.2 → sizeOf f < sizeOf e) := by
  obtain ⟨hkeyle, hkeylt⟩ := hkey
  obtain ⟨hvaluele, hvaluelt⟩ := hvalue
  rw [Entries.sizeOf_entry e, Entries.sizeOf_entry f]
  refine ⟨by omega, ?_⟩
  rintro (hk | hv)
  · have := hkeylt hk
    omega
  · have := hvaluelt hv
    omega

theorem Shrinks.map {es fs : List Entry}
    (h : List.Forall₂ (fun e f => Shrinks e.1 f.1 ∧ Shrinks e.2 f.2) es fs)
    (htop : ¬ Mistakable (.map es)) : Shrinks (.map es) (ofPairs fs) := by
  obtain ⟨hle, hlt⟩ := sizeOf_le_of_forall₂ (h.imp fun e f hef => Shrinks.entry hef.1 hef.2)
  -- building the map may drop entries, which only helps
  have hmade := Entries.sizeOf_ofPairs_le fs
  have hv : sizeOf (Value.map es) = 1 + sizeOf es := map.sizeOf_spec es
  have hw : sizeOf (ofPairs fs) = 1 + sizeOf (Entries.ofPairs fs) := map.sizeOf_spec _
  refine .of_parts htop (by omega) ?_
  intro u hu hu'
  obtain ⟨e, he, rfl | rfl⟩ := part_map_iff.mp hu
  · have := hlt ⟨e, he, Or.inl hu'⟩
    omega
  · have := hlt ⟨e, he, Or.inr hu'⟩
    omega

theorem shrinks_of_leaf {v w : Value} {j : Json} (hkind : v.kind ≠ .map)
    (hleaf : ∀ u, ¬ Part u v) (h : v.toJson = .ok j) (hj : j.toValue = .ok w) :
    Shrinks v w := by
  have hclear : v.Unmistakable :=
    unmistakable_iff.mpr ⟨not_mistakable_of_kind_ne hkind, fun u hu => absurd hu (hleaf u)⟩
  have hord : v.Ordered := by
    refine ordered_iff.mpr ⟨fun es hv => ?_, fun u hu => absurd hu (hleaf u)⟩
    exact absurd (congrArg kind hv) hkind
  rw [toValue_of_toJson hord hclear h] at hj
  cases hj
  exact .of_unmistakable hclear

/-- Pairs are smaller as entries than as lists. -/
theorem sizeOf_le_of_pairs (ps : List Entry) :
    sizeOf ps ≤ sizeOf (ps.map fun e => list [e.1, e.2]) := by
  induction ps with
  | nil => exact Nat.le_refl _
  | cons e ps ih =>
      rw [List.map_cons, List.cons.sizeOf_spec, List.cons.sizeOf_spec, Entries.sizeOf_entry,
        list.sizeOf_spec, List.cons.sizeOf_spec, List.cons.sizeOf_spec]
      omega

/-- What a tag makes of an array is not larger than the array as a list. -/
theorem exists_list_of_tagged {ms : List (String × Json)} {w : Value}
    (hms : ¬ Json.Untagged ms) (h : (Json.object ms).toValue = .ok w) :
    ∃ tag js ws, ms = [(tag, .array js)] ∧ (Json.array js).toValue = .ok (list ws) ∧
      sizeOf w ≤ sizeOf (list ws) := by
  cases Json.toValue_eq_ok_iff.mp h with
  | @taggedTuple js ws items =>
      have hsize : sizeOf (tuple ws) = sizeOf (list ws) := by
        rw [tuple.sizeOf_spec, list.sizeOf_spec]
      exact ⟨tupleTag, js, ws, rfl, Json.toValue_eq_ok_iff.mpr (.array items),
        Nat.le_of_eq hsize⟩
  | @taggedMap js ps pairs =>
      refine ⟨mapTag, js, _, rfl,
        Json.toValue_eq_ok_iff.mpr (.array (Json.items_of_pairs pairs)), ?_⟩
      have hmade := Entries.sizeOf_ofPairs_le ps
      have hpairs := sizeOf_le_of_pairs ps
      rw [ofPairs, map.sizeOf_spec, list.sizeOf_spec]
      omega
  | members untagged members => exact absurd untagged hms

/-- **Nothing grows on the way.** What is written and read back is not larger than it was, and
smaller if there is a mistakable map in it. -/
theorem shrinks_of_toJson {v w : Value} {j : Json} (h : v.toJson = .ok j)
    (hj : j.toValue = .ok w) : Shrinks v w := by
  induction v using part_wellFounded.induction generalizing j w with
  | _ v ih =>
  cases toJson_eq_ok_iff.mp h with
  | list items =>
      cases Json.toValue_eq_ok_iff.mp hj with
      | array items' =>
          exact .list (forall₂_through items items' fun u hu k x hk hx => ih u (.item hu) hk hx)
  | tuple items =>
      rw [Json.toValue_tagged_tuple, map_eq_ok_iff] at hj
      obtain ⟨ws, hws, rfl⟩ := hj
      rw [Json.toValueItems_eq_ok_iff] at hws
      exact .tuple (forall₂_through items hws fun u hu k x hk hx => ih u (.component hu) hk hx)
  | @members es ms members =>
      by_cases huntagged : Json.Untagged ms
      · rw [Json.toValue_untagged huntagged, map_eq_ok_iff] at hj
        obtain ⟨fs, hfs, rfl⟩ := hj
        rw [Json.toValueMembers_eq_ok_iff] at hfs
        refine .map (forall₂_through members hfs fun e he m f hem hmf => ⟨?_, ?_⟩)
          ((untagged_iff members).mp huntagged)
        · rw [hem.1, hmf.1]
          exact .of_unmistakable (unmistakable_str m.1)
        · exact ih e.2 (.value he) hem.2 hmf.2
      · -- the value of the one entry is read as a list would be, only under a tag
        obtain ⟨tag, js, ws, rfl, hws, hw⟩ := exists_list_of_tagged huntagged hj
        obtain ⟨e, es', ⟨-, he⟩, hnil, rfl⟩ := List.forall₂_cons_right_iff.mp members
        cases List.forall₂_nil_right_iff.mp hnil
        have hle := (ih e.2 (.value List.mem_cons_self) he hws).1
        apply Shrinks.of_lt
        rw [map.sizeOf_spec, List.cons.sizeOf_spec, Entries.sizeOf_entry]
        omega
  | @pairs es js keys pairs =>
      rw [Json.toValue_tagged_map, map_eq_ok_iff] at hj
      obtain ⟨fs, hfs, rfl⟩ := hj
      rw [Json.toValuePairs_eq_ok_iff] at hfs
      refine .map (forall₂_through pairs hfs fun e he j f hej hjf => ?_) ?_
      · obtain ⟨k, l, hk, hl, rfl⟩ := hej
        obtain ⟨k', l', hkl, hk', hl'⟩ := hjf
        cases hkl
        exact ⟨ih e.1 (.key he) hk hk', ih e.2 (.value he) hl hl'⟩
      · rintro ⟨key, vs, -, hes⟩
        cases hes
        cases keys
  | _ => exact shrinks_of_leaf (by simp [kind]) nofun h hj

/-! ## Values of programs -/

/-- **Lossless but for mistakable maps.** Take any value that a program can build and that can be
written. Its tree is in order. Without a mistakable map in it, the value comes back as it was, in
every key, value and kind. With one, whatever comes back is another value, and a smaller one. -/
theorem json_round_trip {v : Value} (hv : v.Built) {j : Json} (h : v.toJson = .ok j) :
    j.ordered = j ∧
    (v.Unmistakable → j.toValue = .ok v) ∧
    (¬ v.Unmistakable → ∀ w, j.toValue = .ok w → w.equal v = false ∧ sizeOf w < sizeOf v) := by
  refine ⟨ordered_toJson hv.ordered h, ?_, ?_⟩
  · intro hclear
    exact toValue_of_toJson hv.ordered hclear h
  · intro hclear w hw
    have hlt : sizeOf w < sizeOf v := (shrinks_of_toJson h hw).2 hclear
    refine ⟨?_, hlt⟩
    rw [Bool.eq_false_iff, ne_eq, equal_iff_eq_of_toJson h]
    rintro rfl
    exact Nat.lt_irrefl _ hlt

/-- A tag may stand for a truth value. -/
theorem json_round_trip_tag_with_bool :
    ∃ j, (map [(str tupleTag, bool true)]).toJson = .ok j ∧
      j.toValue = .ok (map [(str tupleTag, bool true)]) := by
  have hbuilt : (map [(str tupleTag, bool true)]).Built :=
    ⟨_, .step .start (.boxed (t := .map (.plain .text) (.plain .bool))
      (x := [(tupleTag, true)]) fun _ hi => hi), List.mem_cons_self⟩
  have hclear : (map [(str tupleTag, bool true)]).Unmistakable := by
    refine unmistakable_iff.mpr ⟨?_, fun u hu => ?_⟩
    · rintro ⟨key, vs, -, h⟩
      simp at h
    · obtain ⟨e, he, hu⟩ := part_map_iff.mp hu
      obtain rfl := List.mem_singleton.mp he
      rcases hu with rfl | rfl
      · exact unmistakable_str tupleTag
      · exact unmistakable_iff.mpr ⟨not_mistakable_of_kind_ne (by decide), nofun⟩
  exact ⟨_, rfl, (json_round_trip hbuilt rfl).2.1 hclear⟩

/-- A map that binds the tuple tag to the empty list comes back as the empty tuple. -/
theorem json_round_trip_tag_with_list :
    (map [(str tupleTag, list [])]).Built ∧
    (map [(str tupleTag, list [])]).toJson = .ok (.object [(tupleTag, .array [])]) ∧
    (Json.object [(tupleTag, .array [])]).toValue = .ok (tuple []) ∧
    (tuple []).equal (map [(str tupleTag, list [])]) = false := by
  refine ⟨⟨_, .step .start ?_, List.mem_cons_self⟩, rfl, rfl, rfl⟩
  exact .boxed (t := .map (.plain .text) (.list (.plain .bool))) (x := [(tupleTag, [])])
    fun _ hi => hi

/-- **What exactly is lost.** Take any value that a program can build and that can be written. Its
tree is in order and is read as an equal value if and only if no map at any depth has as its only
entry a tag bound to a list. -/
theorem comes_back_iff_unmistakable {v : Value} (hv : v.Built) {j : Json} (h : v.toJson = .ok j) :
    j.ordered = j ∧ ((∃ w, j.toValue = .ok w ∧ w.equal v = true) ↔ v.Unmistakable) := by
  refine ⟨ordered_toJson hv.ordered h, ?_, ?_⟩
  · rintro ⟨w, hw, heq⟩
    rw [equal_iff_eq_of_toJson h] at heq
    subst heq
    refine Classical.byContradiction fun hclear => ?_
    -- what is misread comes back smaller, so it is not itself
    exact Nat.lt_irrefl _ ((shrinks_of_toJson h hw).2 hclear)
  · intro hclear
    exact ⟨v, toValue_of_toJson hv.ordered hclear h, equal_self v⟩

/-- A tag bound to a list is lost, be it in a part of a key, and kept if there is another entry. -/
theorem comes_back_iff_unmistakable_tags :
    (∃ j, (map [(list [map [(str mapTag, list [])]], bool true)]).toJson = .ok j ∧
      ¬ ∃ w, j.toValue = .ok w ∧
        w.equal (map [(list [map [(str mapTag, list [])]], bool true)]) = true) ∧
    ∃ j, (map [(str mapTag, list []), (str tupleTag, list [])]).toJson = .ok j ∧
      ∃ w, j.toValue = .ok w ∧
        w.equal (map [(str mapTag, list []), (str tupleTag, list [])]) = true := by
  have hlost : (map [(list [map [(str mapTag, list [])]], bool true)]).Built :=
    built_box (t := .map (.list (.map (.plain .text) (.list (.plain .bool)))) (.plain .bool))
      (x := [([[(mapTag, [])]], true)]) rfl
  have hwithin : Within (map [(str mapTag, list [])])
      (map [(list [map [(str mapTag, list [])]], bool true)]) :=
    ((Within.refl _).of_part (.item List.mem_cons_self)).of_part
      (.key (e := (list [map [(str mapTag, list [])]], bool true)) List.mem_cons_self)
  have hkept : (map [(str mapTag, list []), (str tupleTag, list [])]).Built :=
    built_box (t := .map (.plain .text) (.list (.plain .bool)))
      (x := [(mapTag, []), (tupleTag, [])]) rfl
  have hclear : (map [(str mapTag, list []), (str tupleTag, list [])]).Unmistakable := by
    have hnil : (list []).Unmistakable := by
      refine unmistakable_iff.mpr ⟨not_mistakable_of_kind_ne (by decide), fun u hu => ?_⟩
      exact absurd (part_list_iff.mp hu) List.not_mem_nil
    refine unmistakable_iff.mpr ⟨?_, fun u hu => ?_⟩
    · rintro ⟨key, vs, -, h⟩
      simp at h
    · obtain ⟨e, he, hu⟩ := part_map_iff.mp hu
      simp only [List.mem_cons, List.not_mem_nil, or_false] at he
      rcases he with rfl | rfl
      · rcases hu with rfl | rfl
        · exact unmistakable_str mapTag
        · exact hnil
      · rcases hu with rfl | rfl
        · exact unmistakable_str tupleTag
        · exact hnil
  refine ⟨⟨_, rfl, fun hback => ?_⟩, _, rfl, ?_⟩
  · have hall := (comes_back_iff_unmistakable hlost rfl).2.mp hback
    exact hall _ hwithin ⟨mapTag, [], Or.inr rfl, rfl⟩
  · exact (comes_back_iff_unmistakable hkept rfl).2.mpr hclear

end Value

end TaggedValue
