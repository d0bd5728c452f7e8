import Mathlib.Data.List.Dedup
import TaggedValue.Proofs.Table
import TaggedValue.Properties.Basic

/-!
# Properties in layers

A configuration is put together from layers: the first one gives the defaults, and each later one is
merged onto what there is and wins where both set a name. Beside the merged properties stands the plain
way to ask layers for a name, which goes through them from the last one back until one has an answer
(`get?_layered`). Layers can also be merged among themselves before they are merged onto others, and
since merging is associative no such grouping makes a difference (`merge_merged`).
-/

namespace TaggedValue.Properties

/-! ## One layer after another -/

/-- Properties with layers merged onto them in turn. -/
def layered (base : Properties) (layers : List Properties) : Properties :=
  layers.foldl Table.merge base

/-- The layers are asked from the last one back, and the first answer counts. -/
theorem get?_layered (base : Properties) (layers : List Properties) (name : String) :
    (layered base layers).get? name =
      (base :: layers).reverse.findSome? fun p => p.get? name := by
  induction layers generalizing base with
  | nil =>
      rw [List.reverse_singleton, List.findSome?_singleton]
      rfl
  | cons p layers ih =>
      have hstep : layered base (p :: layers) = layered (Table.merge base p) layers := rfl
      rw [hstep, ih, List.reverse_cons, List.reverse_cons, List.reverse_cons, List.append_assoc,
        List.findSome?_append, List.findSome?_append, List.findSome?_singleton]
      rw [Table.get?_merge, List.singleton_append, List.findSome?_cons, List.findSome?_singleton]
      cases p.get? name with
      | none => rfl
      | some x => rfl

/-- The last of the layers that set a name sets it to this value. -/
def LastSet (layers : List Properties) (name : String) (x : Value) : Prop :=
  ∃ before p after, layers = before ++ p :: after ∧ p.get? name = some x ∧
    ∀ q ∈ after, q.get? name = none

theorem get?_layered_eq_some_iff {base : Properties} {layers : List Properties} {name : String}
    {x : Value} :
    (layered base layers).get? name = some x ↔ LastSet (base :: layers) name x := by
  rw [get?_layered, List.findSome?_eq_some_iff]
  constructor
  · rintro ⟨after, p, before, hsplit, hp, hafter⟩
    refine ⟨before.reverse, p, after.reverse, ?_, hp, fun q hq => hafter q (List.mem_reverse.mp hq)⟩
    rw [← List.reverse_inj, hsplit]
    simp
  · rintro ⟨before, p, after, hsplit, hp, hafter⟩
    refine ⟨after.reverse, p, before.reverse, ?_, hp, fun q hq => hafter q (List.mem_reverse.mp hq)⟩
    rw [hsplit]
    simp

theorem get?_layered_eq_none_iff {base : Properties} {layers : List Properties} {name : String} :
    (layered base layers).get? name = none ↔ ∀ p ∈ base :: layers, p.get? name = none := by
  rw [get?_layered, List.findSome?_eq_none_iff]
  simp only [List.mem_reverse]

/-! ## How many names there are -/

/-- A name is set in the end if some layer sets it. -/
theorem mem_names_layered_iff {base : Properties} {layers : List Properties} {name : String} :
    name ∈ (layered base layers).names ↔ name ∈ (base :: layers).flatMap Table.names := by
  rw [Table.mem_names_iff, Ne, get?_layered_eq_none_iff, List.mem_flatMap]
  simp only [Table.mem_names_iff, not_forall, exists_prop]

/-- Each name counts once, however many layers set it. -/
theorem size_layered (base : Properties) (layers : List Properties) :
    (layered base layers).size = ((base :: layers).flatMap Table.names).dedup.length := by
  rw [← Table.length_names]
  apply List.Perm.length_eq
  rw [List.perm_ext_iff_of_nodup (Table.nodup_names _) (List.nodup_dedup _)]
  intro name
  rw [mem_names_layered_iff, List.mem_dedup]

/-! ## Layers merged beforehand -/

/-- A way to merge layers in twos, where both can have been merged from layers before. -/
inductive Grouping
  | layer (p : Properties)
  | merge (lower upper : Grouping)

namespace Grouping

/-- The layers in their order, without the grouping. -/
def layers : Grouping → List Properties
  | layer p => [p]
  | merge g h => g.layers ++ h.layers

def merged : Grouping → Properties
  | layer p => p
  | merge g h => Table.merge g.merged h.merged

/-- To merge what was merged beforehand is to merge one layer after another. -/
theorem merge_merged (g : Grouping) (base : Properties) :
    Table.merge base g.merged = layered base g.layers := by
  induction g generalizing base with
  | layer p => rfl
  | merge g h ihg ihh =>
      calc Table.merge base (Table.merge g.merged h.merged)
          = Table.merge (Table.merge base g.merged) h.merged := (Table.merge_assoc ..).symm
        _ = layered (layered base g.layers) h.layers := by rw [ihg, ihh]
        _ = layered base (g.layers ++ h.layers) := List.foldl_append.symm

theorem merged_eq_layered {g : Grouping} {base : Properties} {layers : List Properties}
    (h : g.layers = base :: layers) : g.merged = layered base layers := by
  have hmerge : Table.merge {} g.merged = layered {} (base :: layers) := h ▸ g.merge_merged {}
  have hbase : layered {} (base :: layers) = layered base layers :=
    congrArg (layered · layers) (Table.empty_merge base)
  rw [← Table.empty_merge g.merged, ← hbase]
  exact hmerge

end Grouping

/-! ## The law -/

/-- **Layers are right-biased.** After layers were merged onto properties in turn, each name has the value
of the last layer that sets it, and there are as many names as are set by any of them. Every grouping of
the layers gives the same properties; empty ones below or above leave a layer as it is, and so does the
layer itself. -/
theorem merging_layers_is_right_biased (base : Properties) (layers : List Properties) :
    (∀ name x, (layered base layers).get? name = some x ↔ LastSet (base :: layers) name x) ∧
    (∀ name, (layered base layers).get? name = none ↔ ∀ p ∈ base :: layers, p.get? name = none) ∧
    (layered base layers).size = ((base :: layers).flatMap Table.names).dedup.length ∧
    (∀ g : Grouping, g.layers = base :: layers → g.merged = layered base layers) ∧
    Table.merge {} base = base ∧ Table.merge base {} = base ∧ Table.merge base base = base := by
  refine ⟨fun _ _ => get?_layered_eq_some_iff, fun _ => get?_layered_eq_none_iff,
    size_layered base layers, fun _ h => Grouping.merged_eq_layered h, ?_, ?_, ?_⟩
  · exact Table.empty_merge base
  · exact Table.merge_empty base
  · exact Table.merge_self base

/-- Three layers of which any two overlap. The upper two are merged first. -/
theorem merging_layers_is_right_biased_regrouped :
    (Grouping.merge (.layer (Table.ofList [("A", .int 1), ("B", .int 1)]))
        (.merge (.layer (Table.ofList [("B", .int 2), ("C", .int 2)]))
          (.layer (Table.ofList [("A", .int 3), ("C", .int 3)])))).merged =
      layered (Table.ofList [("A", .int 1), ("B", .int 1)])
        [Table.ofList [("B", .int 2), ("C", .int 2)], Table.ofList [("A", .int 3), ("C", .int 3)]] ∧
    (layered (Table.ofList [("A", .int 1), ("B", .int 1)])
        [Table.ofList [("B", .int 2), ("C", .int 2)],
          Table.ofList [("A", .int 3), ("C", .int 3)]]).get? "B" = some (.int 2) := by
  obtain ⟨hlast, -, -, hgroupings, -⟩ := merging_layers_is_right_biased
    (Table.ofList [("A", .int 1), ("B", .int 1)])
    [Table.ofList [("B", .int 2), ("C", .int 2)], Table.ofList [("A", .int 3), ("C", .int 3)]]
  refine ⟨hgroupings _ rfl, (hlast "B" (.int 2)).mpr ?_⟩
  refine ⟨[Table.ofList [("A", .int 1), ("B", .int 1)]], _,
    [Table.ofList [("A", .int 3), ("C", .int 3)]], rfl, rfl, ?_⟩
  rw [List.forall_mem_singleton]
  rfl

end TaggedValue.Properties
