import TaggedValue.Proofs.Json.Parts
import TaggedValue.Proofs.Json.Spelling

/-!
# What cannot be written

Writing has a form for lists, one for tuples and two for maps, and each of them stops at the first
part that it cannot write. Beside it stands a walk that knows none of these forms: it lists everything
that occurs in a value, depth first, and never stops. Writing fails exactly if something foreign is on
the way, and it names the first such leaf (`toJson_reports`).

What is written keeps all entries of maps apart. Texts among keys ascend as names do, so the members
that stand for the entries of a map are as many as the entries, and none of them replaces another.
-/

namespace TaggedValue.Value

/-! ## Depth first -/

mutual

/-- Everything that occurs in a value, depth first: a value before its parts, and these in their
places, each key before its value. -/
def walk : Value → List Value
  | .str s => [.str s]
  | .int n => [.int n]
  | .float x => [.float x]
  | .bool b => [.bool b]
  | .list vs => .list vs :: walkItems vs
  | .tuple vs => .tuple vs :: walkItems vs
  | .map es => .map es :: walkEntries es
  | .object o => [.object o]
termination_by structural v => v

def walkItems : List Value → List Value
  | [] => []
  | v :: vs => walk v ++ walkItems vs
termination_by structural vs => vs

def walkEntries : List (Value × Value) → List Value
  | [] => []
  | (k, v) :: es => (walk k ++ walk v) ++ walkEntries es
termination_by structural es => es

end

theorem walkItems_eq_flatMap (vs : List Value) : walkItems vs = vs.flatMap walk := by
  induction vs with
  | nil => rfl
  | cons v vs ih => rw [walkItems, ih, List.flatMap_cons]

theorem walkEntries_eq_flatMap (es : List Entry) :
    walkEntries es = es.flatMap fun e => walk e.1 ++ walk e.2 := by
  induction es with
  | nil => rfl
  | cons e es ih => rw [walkEntries, ih, List.flatMap_cons]

/-- The walk comes to a value itself and to where it comes in its parts. -/
theorem mem_walk_iff_part {u v : Value} :
    u ∈ walk v ↔ u = v ∨ ∃ w, Part w v ∧ u ∈ walk w := by
  have hleaf : ∀ v : Value, walk v = [v] → (∀ w, ¬ Part w v) →
      (u ∈ walk v ↔ u = v ∨ ∃ w, Part w v ∧ u ∈ walk w) := by
    intro v hv hparts
    rw [hv, List.mem_singleton]
    exact ⟨Or.inl, fun h => h.resolve_right fun ⟨w, hw, _⟩ => hparts w hw⟩
  cases v with
  | list vs =>
      rw [walk, List.mem_cons, walkItems_eq_flatMap, List.mem_flatMap]
      simp only [part_list_iff]
  | tuple vs =>
      rw [walk, List.mem_cons, walkItems_eq_flatMap, List.mem_flatMap]
      simp only [part_tuple_iff]
  | map es =>
      rw [walk, List.mem_cons, walkEntries_eq_flatMap, List.mem_flatMap]
      apply or_congr_right
      simp only [part_map_iff, List.mem_append]
      constructor
      · rintro ⟨e, he, hu | hu⟩
        · exact ⟨e.1, ⟨e, he, Or.inl rfl⟩, hu⟩
        · exact ⟨e.2, ⟨e, he, Or.inr rfl⟩, hu⟩
      · rintro ⟨w, ⟨e, he, rfl | rfl⟩, hu⟩
        · exact ⟨e, he, Or.inl hu⟩
        · exact ⟨e, he, Or.inr hu⟩
  | _ => exact hleaf _ rfl nofun

/-- **The walk misses nothing.** It lists what occurs in a value and nothing else. -/
theorem mem_walk_iff {u v : Value} : u ∈ walk v ↔ Within u v := by
  induction v using part_wellFounded.induction with
  | _ v ih =>
  rw [mem_walk_iff_part, within_iff]
  apply or_congr_right
  constructor
  · rintro ⟨w, hw, hu⟩
    exact ⟨w, (ih w hw).mp hu, hw⟩
  · rintro ⟨w, hu, hw⟩
    exact ⟨w, hw, (ih w hw).mpr hu⟩

/-! ## The first foreign leaf -/

/-- Why a foreign leaf cannot be written. -/
def refusal? : Value → Option Refusal
  | .float x => if x.isFinite then none else some (.float x)
  | .object o => some (.object o.typeName)
  | _ => none

theorem refusal?_eq_none_iff {v : Value} : v.refusal? = none ↔ ¬ Foreign v := by
  cases v with
  | float x =>
      rw [refusal?]
      cases hx : x.isFinite with
      | true =>
          refine iff_of_true rfl fun h => ?_
          cases h with
          | float infinite => exact Bool.false_ne_true (infinite.symm.trans hx)
      | false => exact iff_of_false nofun fun h => h (.float hx)
  | object o => exact iff_of_false nofun fun h => h (.object o)
  | _ => exact iff_of_true rfl nofun

/-- Why a value cannot be written, once for each foreign leaf, depth first. -/
def refusals (v : Value) : List Refusal := v.walk.filterMap refusal?

theorem exists_mem_refusals_iff {v : Value} :
    (∃ r, r ∈ v.refusals) ↔ ∃ u, Within u v ∧ Foreign u := by
  have hforeign : ∀ u : Value, Foreign u ↔ ∃ r, u.refusal? = some r := by
    intro u
    rw [← Option.ne_none_iff_exists', ne_eq, refusal?_eq_none_iff, Classical.not_not]
  simp only [refusals, List.mem_filterMap, mem_walk_iff, hforeign]
  constructor
  · rintro ⟨r, u, hu, hr⟩
    exact ⟨u, hu, r, hr⟩
  · rintro ⟨u, hu, r, hr⟩
    exact ⟨r, u, hu, hr⟩

theorem refusals_list (vs : List Value) : (list vs).refusals = vs.flatMap refusals := by
  rw [refusals, walk, List.filterMap_cons_none rfl, walkItems_eq_flatMap, List.filterMap_flatMap]
  rfl

theorem refusals_tuple (vs : List Value) : (tuple vs).refusals = vs.flatMap refusals := by
  rw [refusals, walk, List.filterMap_cons_none rfl, walkItems_eq_flatMap, List.filterMap_flatMap]
  rfl

theorem refusals_map (es : List Entry) :
    (map es).refusals = es.flatMap fun e => e.1.refusals ++ e.2.refusals := by
  rw [refusals, walk, List.filterMap_cons_none rfl, walkEntries_eq_flatMap,
    List.filterMap_flatMap]
  simp only [List.filterMap_append]
  rfl

mutual

/-- **Writing names the first foreign leaf** of those that the walk comes to. -/
theorem toJson_reports : ∀ v : Value, Reports v.toJson v.refusals
  | .str s => Reports.ok (Json.text s)
  | .int n => Reports.ok (Json.number (.int n))
  | .float x => by
      cases hx : x.isFinite with
      | true =>
          have hwritten : (float x).toJson = .ok (.number (.float x hx)) :=
            toJson_eq_ok_iff.mpr (.float x hx)
          have hnone : (float x).refusals = [] := by simp [refusals, walk, refusal?, hx]
          rw [hwritten, hnone]
          exact .ok _
      | false =>
          have hfails : (float x).toJson = .error (.float x) := by
            simp [toJson, JsonNumber.ofBinary64?, hx]
          have hone : (float x).refusals = [.float x] := by simp [refusals, walk, refusal?, hx]
          rw [hfails, hone]
          exact .error _ _
  | .bool b => Reports.ok (Json.bool b)
  | .list vs => by
      rw [toJson, refusals_list]
      exact (toJsonItems_reports vs).map _
  | .tuple vs => by
      rw [toJson, refusals_tuple]
      exact (toJsonItems_reports vs).map _
  | .map es => by
      rw [toJson, refusals_map]
      by_cases hkeys : allTextKeys es = true
      · rw [if_pos hkeys]
        exact (toJsonMembers_reports es hkeys).map _
      · rw [if_neg hkeys]
        exact (toJsonPairs_reports es).map _
  | .object o => Reports.error (Refusal.object o.typeName) []

theorem toJsonItems_reports :
    ∀ vs : List Value, Reports (toJsonItems vs) (vs.flatMap refusals)
  | [] => .ok []
  | v :: vs => (toJson_reports v).gather (toJsonItems_reports vs) fun j => j

/-- Keys that are texts are not written as trees, and nothing in them is foreign. -/
theorem toJsonMembers_reports : ∀ es : List (Value × Value), allTextKeys es = true →
    Reports (toJsonMembers es) (es.flatMap fun e => e.1.refusals ++ e.2.refusals)
  | [], _ => .ok []
  | (k, v) :: es, hkeys => by
      obtain ⟨⟨s, hk⟩, hrest⟩ := allTextKeys_cons.mp hkeys
      have hnone : k.refusals = [] := by
        rw [show k = .str s from hk]
        rfl
      rw [toJsonMembers, List.flatMap_cons, hnone, List.nil_append]
      exact (toJson_reports v).gather (toJsonMembers_reports es hrest) _

theorem toJsonPairs_reports : ∀ es : List (Value × Value),
    Reports (toJsonPairs es) (es.flatMap fun e => e.1.refusals ++ e.2.refusals)
  | [] => .ok []
  | (k, v) :: es => by
      rw [toJsonPairs, List.flatMap_cons, List.append_assoc]
      refine (toJson_reports k).bind fun j _ => ?_
      exact (toJson_reports v).gather (toJsonPairs_reports es) fun l => .array [j, l]

end

/-! ## One member for each entry -/

/-- These members stand for these entries. -/
structure OneMemberEach (es : List Entry) (ms : List (String × Json)) : Prop where
  /-- Each entry is written as the member in its place. -/
  members : List.Forall₂ WrittenAsMember es ms
  /-- No two members have one name. -/
  ascending : ms.Pairwise fun a b => a.1 < b.1
  /-- Put into an object one after another, all of them stay. -/
  kept : Json.ofMembers ms = .object ms

theorem oneMemberEach_of_written {es : List Entry} {j : Json} (hord : (map es).Ordered)
    (hkeys : allTextKeys es = true) (h : (map es).toJson = .ok j) :
    ∃ ms, j = .object ms ∧ OneMemberEach es ms := by
  cases toJson_eq_ok_iff.mp h with
  | @members _ ms members =>
      have hasc := pairwise_names members (ordered_map_iff.mp hord).1
      exact ⟨ms, rfl, members, hasc, Json.ofMembers_of_ascending hasc⟩
  | pairs keys pairs => exact absurd (hkeys.symm.trans keys) (by decide)

/-- What is written for a part stands in the tree of the whole. Only texts among keys are no trees. -/
theorem within_of_part {u v : Value} {j : Json} (h : v.toJson = .ok j) (hp : Part u v) :
    (∃ s, u = .str s) ∨ ∃ k, u.toJson = .ok k ∧ Json.Within k j := by
  cases toJson_eq_ok_iff.mp h with
  | list items =>
      obtain ⟨k, hmem, hk⟩ := exists_mem_of_forall₂_left items u (part_list_iff.mp hp)
      exact .inr ⟨k, hk, (Json.Within.refl k).of_part (.item hmem)⟩
  | @tuple vs js items =>
      obtain ⟨k, hmem, hk⟩ := exists_mem_of_forall₂_left items u (part_tuple_iff.mp hp)
      have harray : Json.Within k (.array js) := (Json.Within.refl k).of_part (.item hmem)
      exact .inr ⟨k, hk, harray.of_part (.member (m := (tupleTag, .array js)) List.mem_cons_self)⟩
  | members members =>
      obtain ⟨e, he, hu⟩ := part_map_iff.mp hp
      obtain ⟨m, hmem, hkey, hvalue⟩ := exists_mem_of_forall₂_left members e he
      rcases hu with rfl | rfl
      · exact .inl ⟨m.1, hkey⟩
      · exact .inr ⟨m.2, hvalue, (Json.Within.refl m.2).of_part (.member hmem)⟩
  | @pairs es js keys pairs =>
      obtain ⟨e, he, hu⟩ := part_map_iff.mp hp
      obtain ⟨_, hmem, k, l, hkey, hvalue, rfl⟩ := exists_mem_of_forall₂_left pairs e he
      have hpair : ∀ i, i ∈ [k, l] → Json.Within i (.object [(mapTag, .array js)]) := by
        intro i hi
        have hentry : Json.Within i (.array js) :=
          ((Json.Within.refl i).of_part (.item hi)).of_part (.item hmem)
        exact hentry.of_part (.member (m := (mapTag, .array js)) List.mem_cons_self)
      rcases hu with rfl | rfl
      · exact .inr ⟨k, hkey, hpair k (by simp)⟩
      · exact .inr ⟨l, hvalue, hpair l (by simp)⟩
  | _ => cases hp

/-- Every map in a value is written somewhere in its tree. -/
theorem within_of_map {v : Value} {es : List Entry} (hes : Within (.map es) v) :
    ∀ {j : Json}, v.toJson = .ok j → ∃ k, (map es).toJson = .ok k ∧ Json.Within k j := by
  induction hes with
  | refl =>
      intro j h
      exact ⟨j, h, Json.Within.refl j⟩
  | @tail u v hu hp ih =>
      intro j h
      rcases within_of_part h hp with ⟨s, rfl⟩ | ⟨k, hk, hkj⟩
      · -- no map occurs in a text
        rcases within_iff.mp hu with heq | ⟨w, -, hw⟩
        · cases heq
        · cases hw
      · obtain ⟨l, hl, hlk⟩ := ih hk
        exact ⟨l, hl, Relation.ReflTransGen.trans hlk hkj⟩

/-! ## Values of programs -/

/-- **Writing fails on what is foreign, and names the first of it.** Take any value that a program can
build. Writing fails if and only if an object or a number that is not finite occurs in it, at any depth
and in keys as well. The report is that of the first such leaf on the walk, and since all maps are in
order, the walk goes through their entries in the order of keys. If the value is written, its tree is
in order, and somewhere in it each map with texts for keys has one member for each entry. -/
theorem writes_or_names_first_foreign {v : Value} (hv : v.Built) :
    ((∃ r, v.toJson = .error r) ↔ ∃ u, Within u v ∧ Foreign u) ∧
    (∀ report, v.toJson.mapError Refusal.report = .error report ↔
      ∃ r, v.walk.findSome? refusal? = some r ∧
        report = ⟨.invalidArgument, some r.message⟩) ∧
    v.Ordered ∧
    (∀ j, v.toJson = .ok j → j.ordered = j ∧
      ∀ es, Within (.map es) v → allTextKeys es = true →
        ∃ ms, Json.Within (.object ms) j ∧ OneMemberEach es ms) := by
  have hreports := toJson_reports v
  refine ⟨?_, ?_, hv.ordered, ?_⟩
  · rw [hreports.exists_error_iff, exists_mem_refusals_iff]
  · intro report
    rw [mapError_eq_error_iff]
    simp only [hreports.eq_error_iff, refusals, List.head?_filterMap, eq_comm (b := report)]
    rfl
  · intro j h
    refine ⟨ordered_toJson hv.ordered h, fun es hes hkeys => ?_⟩
    obtain ⟨k, hk, hkj⟩ := within_of_map hes h
    have hord : (map es).Ordered :=
      fun fs hfs => hv.ordered fs (Relation.ReflTransGen.trans hfs hes)
    obtain ⟨ms, rfl, hms⟩ := oneMemberEach_of_written hord hkeys hk
    exact ⟨ms, hkj, hms⟩

/-- A number inside a key is named before the object that the key is bound to. -/
theorem writes_or_names_first_foreign_in_key :
    (map [(tuple [float ⟨0x7ff8000000000000⟩], object ⟨1, "Note", .unit⟩)]).Built ∧
    (map [(tuple [float ⟨0x7ff8000000000000⟩], object ⟨1, "Note", .unit⟩)]).toJson.mapError
        Refusal.report =
      .error ⟨.invalidArgument, some "float NaN has no JSON form"⟩ := by
  have hnumber : Made [] (.value (float ⟨0x7ff8000000000000⟩)) :=
    .boxed (t := .plain .float) (x := ⟨0x7ff8000000000000⟩) fun _ hi => hi
  have htuple : Made [.value (float ⟨0x7ff8000000000000⟩)]
      (.value (tuple [float ⟨0x7ff8000000000000⟩])) := .tuple (by simp)
  have hmap : Made [.value (object ⟨1, "Note", .unit⟩),
        .value (tuple [float ⟨0x7ff8000000000000⟩]), .value (float ⟨0x7ff8000000000000⟩)]
      (.value (map [(tuple [float ⟨0x7ff8000000000000⟩], object ⟨1, "Note", .unit⟩)])) :=
    @Made.map _ [(tuple [float ⟨0x7ff8000000000000⟩], object ⟨1, "Note", .unit⟩)] (by simp)
  have hbuilt : (map [(tuple [float ⟨0x7ff8000000000000⟩], object ⟨1, "Note", .unit⟩)]).Built :=
    ⟨_, (((Run.start.step hnumber).step htuple).step (.object _)).step hmap, List.mem_cons_self⟩
  refine ⟨hbuilt, ((writes_or_names_first_foreign hbuilt).2.1 _).mpr ?_⟩
  exact ⟨.float ⟨0x7ff8000000000000⟩, by decide, by decide⟩

end TaggedValue.Value
