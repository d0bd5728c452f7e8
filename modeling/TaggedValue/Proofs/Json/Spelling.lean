import TaggedValue.Proofs.Json.Decoding
import TaggedValue.Proofs.Json.Encoding
import TaggedValue.Proofs.Runs

/-!
# Every value that can be written has a spelling

Which values can be written, and which are read? The same ones. What a tree stands for can be
written again, since trees have no leaf that could not be, and conversely every value that can be
written has a tree that is read as that very value (`exists_spelling`). This need not be the tree
that it is written as: a map that would be taken for something else is spelled in pairs under the map
tag, as any map may be. What writing loses is thus lost by the choice between two spellings, and not
for want of one.
-/

namespace TaggedValue

/-- A tree in order that stands for a value. -/
def Json.Spells (j : Json) (v : Value) : Prop := j.ordered = j ∧ j.toValue = .ok v

namespace Value

/-! ## What can be written -/

/-- Some tree is written for the value. -/
def Writable (v : Value) : Prop := ∃ j, v.toJson = .ok j

/-- The leaves that no tree has. -/
inductive Foreign : Value → Prop
  | object (o : Object) : Foreign (.object o)
  | float {x : Number.Binary64} (infinite : x.isFinite = false) : Foreign (.float x)

theorem not_foreign_of_writable {v : Value} (h : Writable v) : ¬ Foreign v := by
  obtain ⟨j, hj⟩ := h
  intro hforeign
  cases hforeign with
  | object o => cases hj
  | float infinite =>
      cases toJson_eq_ok_iff.mp hj with
      | float x finite => exact Bool.false_ne_true (infinite.symm.trans finite)

/-- A value can be written unless it is a foreign leaf itself or has a part that cannot. -/
theorem writable_iff {v : Value} : Writable v ↔ ¬ Foreign v ∧ ∀ u, Part u v → Writable u := by
  constructor
  · intro h
    refine ⟨not_foreign_of_writable h, fun u hu => ?_⟩
    obtain ⟨j, hj⟩ := h
    exact exists_toJson_of_part hj hu
  · rintro ⟨hleaf, hparts⟩
    cases v with
    | str s => exact ⟨_, rfl⟩
    | int n => exact ⟨_, rfl⟩
    | float x =>
        cases hx : x.isFinite with
        | false => exact absurd (.float hx) hleaf
        | true => exact ⟨_, toJson_eq_ok_iff.mpr (.float x hx)⟩
    | bool b => exact ⟨_, rfl⟩
    | list vs =>
        obtain ⟨js, hjs⟩ := exists_forall₂ fun v hv => hparts v (.item hv)
        exact ⟨_, toJson_eq_ok_iff.mpr (.list hjs)⟩
    | tuple vs =>
        obtain ⟨js, hjs⟩ := exists_forall₂ fun v hv => hparts v (.component hv)
        exact ⟨_, toJson_eq_ok_iff.mpr (.tuple hjs)⟩
    | map es =>
        cases hkeys : allTextKeys es with
        | true =>
            have hmembers : ∀ e ∈ es, ∃ m, WrittenAsMember e m := by
              intro e he
              obtain ⟨s, hs⟩ := allTextKeys_iff.mp hkeys e he
              obtain ⟨j, hj⟩ := hparts e.2 (.value he)
              exact ⟨(s, j), hs, hj⟩
            obtain ⟨ms, hms⟩ := exists_forall₂ hmembers
            exact ⟨_, toJson_eq_ok_iff.mpr (.members hms)⟩
        | false =>
            have hpairs : ∀ e ∈ es, ∃ j, WrittenAsPair e j := by
              intro e he
              obtain ⟨k, hk⟩ := hparts e.1 (.key he)
              obtain ⟨l, hl⟩ := hparts e.2 (.value he)
              exact ⟨_, k, l, hk, hl, rfl⟩
            obtain ⟨js, hjs⟩ := exists_forall₂ hpairs
            exact ⟨_, toJson_eq_ok_iff.mpr (.pairs hkeys hjs)⟩
    | object o => exact absurd (.object o) hleaf

theorem writable_list_iff {vs : List Value} : Writable (.list vs) ↔ ∀ v ∈ vs, Writable v := by
  rw [writable_iff]
  simp only [part_list_iff]
  exact and_iff_right nofun

theorem writable_tuple_iff {vs : List Value} : Writable (.tuple vs) ↔ ∀ v ∈ vs, Writable v := by
  rw [writable_iff]
  simp only [part_tuple_iff]
  exact and_iff_right nofun

theorem writable_ofPairs {ps : List Entry} (h : ∀ p ∈ ps, Writable p.1 ∧ Writable p.2) :
    Writable (Value.ofPairs ps) := by
  refine writable_iff.mpr ⟨nofun, fun u hu => ?_⟩
  obtain ⟨e, he, hu⟩ := part_map_iff.mp hu
  obtain ⟨⟨p, hp, hpe⟩, q, hq, hqe⟩ := Entries.mem_ofPairs he
  rcases hu with rfl | rfl
  · exact hpe ▸ (h p hp).1
  · exact hqe ▸ (h q hq).2

/-- **What is read can be written.** -/
theorem writable_of_toValue {j : Json} {v : Value} (h : j.toValue = .ok v) : Writable v := by
  refine Json.toValue_induction ?bool ?int ?float ?str ?list ?tuple ?map h
  case bool | int | str => exact fun _ => ⟨_, rfl⟩
  case float => exact fun x finite => ⟨_, toJson_eq_ok_iff.mpr (.float x finite)⟩
  case list => exact fun _ => writable_list_iff.mpr
  case tuple => exact fun _ => writable_tuple_iff.mpr
  case map => exact fun _ => writable_ofPairs

/-! ## Spellings -/

theorem exists_spellings {vs : List Value} (h : ∀ v ∈ vs, ∃ j : Json, j.Spells v) :
    ∃ js : List Json, (∀ j ∈ js, j.ordered = j) ∧
      List.Forall₂ (fun j v => j.toValue = .ok v) js vs := by
  obtain ⟨js, hjs⟩ := exists_forall₂ h
  refine ⟨js, forall_of_forall₂_right hjs fun _ _ _ hj => hj.1, ?_⟩
  exact List.Forall₂.flip (hjs.imp fun _ _ hj => hj.2)

/-- A map in order has a spelling in pairs as soon as its keys and values have spellings. -/
theorem exists_spelling_in_pairs {es : List Entry} (hord : (map es).Ordered)
    (h : ∀ u, Part u (.map es) → ∃ j : Json, j.Spells u) :
    ∃ js, (Json.object [(mapTag, .array js)]).Spells (.map es) := by
  have hpairs : ∀ e ∈ es, ∃ j : Json, j.ordered = j ∧ Json.PairReadAs j e := by
    intro e he
    obtain ⟨k, hk, hkey⟩ := h e.1 (.key he)
    obtain ⟨l, hl, hvalue⟩ := h e.2 (.value he)
    exact ⟨.array [k, l], Json.ordered_array (by simp [hk, hl]), k, l, rfl, hkey, hvalue⟩
  obtain ⟨js, hjs⟩ := exists_forall₂ hpairs
  refine ⟨js, Json.ordered_tagged mapTag ?_, ?_⟩
  · exact forall_of_forall₂_right hjs fun _ _ _ hj => hj.1
  · rw [← ofPairs_of_ordered hord]
    refine Json.toValue_eq_ok_iff.mpr (.taggedMap ?_)
    exact List.Forall₂.flip (hjs.imp fun _ _ hj => hj.2)

/-- **Every value has a spelling** that can be written and is in order. -/
theorem exists_spelling {v : Value} (hord : v.Ordered) (h : v.Writable) :
    ∃ j : Json, j.Spells v := by
  induction v using part_wellFounded.induction with
  | _ v ih =>
  obtain ⟨hleaf, hwritable⟩ := writable_iff.mp h
  have hparts : ∀ u, Part u v → ∃ j : Json, j.Spells u :=
    fun u hu => ih u hu (hord.of_part hu) (hwritable u hu)
  cases v with
  | str s => exact ⟨.text s, rfl, rfl⟩
  | int n => exact ⟨.number (.int n), rfl, rfl⟩
  | float x =>
      cases hx : x.isFinite with
      | false => exact absurd (.float hx) hleaf
      | true => exact ⟨.number (.float x hx), rfl, rfl⟩
  | bool b => exact ⟨.bool b, rfl, rfl⟩
  | list vs =>
      obtain ⟨js, hjs, hread⟩ := exists_spellings fun v hv => hparts v (.item hv)
      exact ⟨.array js, Json.ordered_array hjs, Json.toValue_eq_ok_iff.mpr (.array hread)⟩
  | tuple vs =>
      obtain ⟨js, hjs, hread⟩ := exists_spellings fun v hv => hparts v (.component hv)
      exact ⟨.object [(tupleTag, .array js)], Json.ordered_tagged tupleTag hjs,
        Json.toValue_eq_ok_iff.mpr (.taggedTuple hread)⟩
  | map es =>
      obtain ⟨js, hjs⟩ := exists_spelling_in_pairs hord hparts
      exact ⟨_, hjs⟩
  | object o => exact absurd (.object o) hleaf

/-- **What can be written is what can be read.** Take any value that a program can build. A tree is
written for it exactly when some tree in order stands for it. No other tree stands for a value equal
to it unless it can be written, and that value is the very same. And if it is a map, pairs under the
map tag spell it, whatever its keys look like. -/
theorem writable_iff_spelled {v : Value} (hv : v.Built) :
    (Writable v ↔ ∃ j : Json, j.Spells v) ∧
    (∀ (j : Json) (w : Value), j.toValue = .ok w → w.equal v = true → w = v ∧ Writable v) ∧
    (Writable v → ∀ es, v = .map es → ∃ js, (Json.object [(mapTag, .array js)]).Spells v) := by
  refine ⟨⟨exists_spelling hv.ordered, ?_⟩, ?_, ?_⟩
  · rintro ⟨j, -, hj⟩
    exact writable_of_toValue hj
  · intro j w hj heq
    obtain ⟨k, hk⟩ := writable_of_toValue hj
    rw [equal_comm, equal_iff_eq_of_toJson hk] at heq
    exact ⟨heq.symm, heq ▸ ⟨k, hk⟩⟩
  · rintro hwritable es rfl
    refine exists_spelling_in_pairs hv.ordered fun u hu => ?_
    exact exists_spelling (hv.ordered.of_part hu) ((writable_iff.mp hwritable).2 u hu)

/-- The map that is taken for the empty tuple when it is written has another spelling. -/
theorem writable_iff_spelled_tag_with_list :
    (map [(str tupleTag, list [])]).Built ∧ Writable (map [(str tupleTag, list [])]) ∧
      ∃ js, (Json.object [(mapTag, .array js)]).Spells (map [(str tupleTag, list [])]) := by
  have hbuilt : (map [(str tupleTag, list [])]).Built :=
    built_box (t := .map (.plain .text) (.list (.plain .bool))) (x := [(tupleTag, [])]) rfl
  have hwritable : Writable (map [(str tupleTag, list [])]) := ⟨_, rfl⟩
  exact ⟨hbuilt, hwritable, (writable_iff_spelled hbuilt).2.2 hwritable _ rfl⟩

end Value

end TaggedValue
