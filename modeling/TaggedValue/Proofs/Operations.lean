import TaggedValue.Proofs.Outcome
import TaggedValue.Proofs.Parts

/-!
# Access and changes keep values ordered

One lemma for each operation of values: from ordered values it makes ordered values. Sequences come
first, since every value with positions is handled as one.
-/

namespace TaggedValue

/-! ## Sequences -/

namespace Sequence

theorem toValue_of_sequence? {v : Value} {s : Sequence} (h : v.sequence? = some s) :
    s.toValue = v := by
  cases v <;> cases h <;> rfl

/-- Reading a position gives what stands there among the elements. -/
theorem get_eq_ok_iff {s : Sequence} {p : Nat} {x : Value} :
    s.get p = .ok x ↔ s.elements[p]? = some x := by
  have hget : s.get p = s.elements[p]?.elim (.error (s.outside .read p)) .ok := by
    cases s with
    | text t =>
        rw [elements, List.getElem?_map, get]
        cases t.toList[p]? with
        | none => rfl
        | some c => rfl
    | list vs =>
        rw [elements, get]
        cases vs[p]? with
        | none => rfl
        | some v => rfl
    | tuple vs =>
        rw [elements, get]
        cases vs[p]? with
        | none => rfl
        | some v => rfl
  rw [hget]
  cases s.elements[p]? with
  | none => simp
  | some v => simp

theorem ordered_elements {s : Sequence} (hs : s.toValue.Ordered) :
    ∀ v ∈ s.elements, v.Ordered := by
  intro v hv
  cases s with
  | text t =>
      obtain ⟨c, -, rfl⟩ := List.mem_map.mp hv
      exact Value.ordered_str _
  | list vs => exact Value.ordered_list_iff.mp hs v hv
  | tuple vs => exact Value.ordered_tuple_iff.mp hs v hv

theorem ordered_of_get {s : Sequence} {p : Nat} {x : Value} (hs : s.toValue.Ordered)
    (h : s.get p = .ok x) : x.Ordered :=
  ordered_elements hs x (List.mem_of_getElem? (get_eq_ok_iff.mp h))

theorem forall_mem_set {vs : List Value} {p : Nat} {x : Value} (hvs : ∀ v ∈ vs, v.Ordered)
    (hx : x.Ordered) : ∀ v ∈ vs.set p x, v.Ordered := by
  intro v hv
  rcases List.mem_or_eq_of_mem_set hv with hv | rfl
  · exact hvs v hv
  · exact hx

theorem ordered_of_set {s : Sequence} {p : Nat} {x w : Value} (hs : s.toValue.Ordered)
    (hx : x.Ordered) (h : s.set p x = .ok w) : w.Ordered := by
  cases s with
  | text t =>
      simp only [set] at h
      split at h
      · split at h
        · split at h
          · cases h
            exact Value.ordered_str _
          · cases h
        · cases h
      · cases h
  | list vs =>
      simp only [set] at h
      split at h
      · cases h
        exact Value.ordered_list_iff.mpr (forall_mem_set (Value.ordered_list_iff.mp hs) hx)
      · cases h
  | tuple vs =>
      simp only [set] at h
      split at h
      · cases h
        exact Value.ordered_tuple_iff.mpr (forall_mem_set (Value.ordered_tuple_iff.mp hs) hx)
      · cases h

theorem ordered_of_push {s : Sequence} {x w : Value} (hs : s.toValue.Ordered)
    (hx : x.Ordered) (h : s.push x = .ok w) : w.Ordered := by
  cases s with
  | text t =>
      simp only [push] at h
      split at h
      · cases h
        exact Value.ordered_str _
      · cases h
  | list vs =>
      cases h
      refine Value.ordered_list_iff.mpr fun v hv => ?_
      rcases List.mem_append.mp hv with hv | hv
      · exact Value.ordered_list_iff.mp hs v hv
      · rw [List.mem_singleton.mp hv]
        exact hx
  | tuple vs => cases h

theorem ordered_of_removeAt {vs ws : List Value} {p : Nat} (hvs : (Value.list vs).Ordered)
    (h : removeAt vs p = .ok ws) : (Value.list ws).Ordered := by
  rw [removeAt] at h
  split at h
  · cases h
    refine Value.ordered_list_iff.mpr fun v hv => ?_
    exact Value.ordered_list_iff.mp hvs v ((List.eraseIdx_sublist vs p).subset hv)
  · cases h

end Sequence

/-! ## Maps -/

namespace Value

theorem ordered_map_set {es : List Entry} {key x : Value} (hes : (map es).Ordered)
    (hkey : key.Ordered) (hx : x.Ordered) : (map (Entries.set es key x)).Ordered := by
  obtain ⟨hasc, hparts⟩ := ordered_map_iff.mp hes
  refine ordered_map_iff.mpr ⟨Entries.ascending_set hasc key x, fun e he => ?_⟩
  rcases Entries.mem_set hasc he with rfl | he
  · exact ⟨hkey, hx⟩
  · exact hparts e he

theorem ordered_map_erase {es : List Entry} (hes : (map es).Ordered) (key : Value) :
    (map (Entries.erase es key).1).Ordered := by
  obtain ⟨hasc, hparts⟩ := ordered_map_iff.mp hes
  refine ordered_map_iff.mpr ⟨Entries.ascending_erase hasc key, fun e he => ?_⟩
  exact hparts e ((Entries.erase_sublist es key).subset he)

theorem ordered_of_find? {es : List Entry} {key x : Value} (hes : (map es).Ordered)
    (h : Entries.find? es key = some x) : x.Ordered := by
  obtain ⟨e, he, rfl⟩ := Entries.exists_mem_of_find? h
  exact ((ordered_map_iff.mp hes).2 e he).2

/-! ## Any value -/

/-- What succeeds for sequences only has been given one. -/
theorem exists_sequence {α : Type} {v : Value} {f : Sequence → Except Fault α} {fault : Fault}
    {a : α}
    (h : (match v.sequence? with
      | some s => f s
      | none => .error fault) = .ok a) :
    ∃ s : Sequence, s.toValue = v ∧ f s = .ok a := by
  cases hs : v.sequence? with
  | none =>
      rw [hs] at h
      cases h
  | some s =>
      rw [hs] at h
      exact ⟨s, Sequence.toValue_of_sequence? hs, h⟩

theorem ordered_of_index {v i x : Value} (hv : v.Ordered) (h : v.index i = .ok x) :
    x.Ordered := by
  unfold index at h
  split at h
  · exact ordered_of_find? hv (Entries.get_eq_ok_iff.mp h)
  · obtain ⟨s, rfl, hs⟩ := exists_sequence h
    obtain ⟨p, -, hp⟩ := bind_eq_ok_iff.mp hs
    exact Sequence.ordered_of_get hv hp

theorem ordered_of_keys {v : Value} {ks : List Value} (hv : v.Ordered) (h : v.keys = .ok ks) :
    ∀ k ∈ ks, k.Ordered := by
  unfold keys at h
  split at h
  · next es =>
    cases h
    intro k hk
    obtain ⟨e, he, rfl⟩ := List.mem_map.mp hk
    exact ((ordered_map_iff.mp hv).2 e he).1
  · cases h

theorem ordered_of_values {v : Value} {xs : List Value} (hv : v.Ordered)
    (h : v.values = .ok xs) : ∀ x ∈ xs, x.Ordered := by
  unfold values at h
  split at h
  · next es =>
    cases h
    intro x hx
    obtain ⟨e, he, rfl⟩ := List.mem_map.mp hx
    exact ((ordered_map_iff.mp hv).2 e he).2
  · obtain ⟨s, rfl, hs⟩ := exists_sequence h
    cases hs
    exact Sequence.ordered_elements hv

theorem ordered_of_indexSet {v i x w : Value} (hv : v.Ordered) (hi : i.Ordered)
    (hx : x.Ordered) (h : v.indexSet i x = .ok w) : w.Ordered := by
  unfold indexSet at h
  split at h
  · cases h
    exact ordered_map_set hv hi hx
  · obtain ⟨s, rfl, hs⟩ := exists_sequence h
    obtain ⟨p, -, hp⟩ := bind_eq_ok_iff.mp hs
    exact Sequence.ordered_of_set hv hx hp

theorem ordered_of_set {v key x w : Value} (hv : v.Ordered) (hkey : key.Ordered)
    (hx : x.Ordered) (h : v.set key x = .ok w) : w.Ordered := by
  unfold set at h
  split at h
  · cases h
    exact ordered_map_set hv hkey hx
  · exact ordered_of_indexSet hv hkey hx h

theorem ordered_of_push {v x w : Value} (hv : v.Ordered) (hx : x.Ordered)
    (h : v.push x = .ok w) : w.Ordered := by
  obtain ⟨s, rfl, hs⟩ := exists_sequence h
  exact Sequence.ordered_of_push hv hx hs

theorem ordered_of_remove {v key w : Value} {removed : Option Value} (hv : v.Ordered)
    (h : v.remove key = .ok (w, removed)) :
    w.Ordered ∧ ∀ x, removed = some x → x.Ordered := by
  unfold remove at h
  split at h
  · next es =>
    cases h
    refine ⟨ordered_map_erase hv key, fun x (hx : (Entries.erase es key).2 = some x) => ?_⟩
    rw [Entries.erase_snd] at hx
    exact ordered_of_find? hv hx
  · cases h

end Value

end TaggedValue
