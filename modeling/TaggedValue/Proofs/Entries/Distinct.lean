import Mathlib.Data.List.Sort
import TaggedValue.Proofs.Entries.Building

/-!
# Pairs with different keys

A map is built from pairs by sorting them and letting equal keys collapse. Where no two keys are equal
nothing collapses: the entries of the map are the pairs themselves, in the order of keys
(`perm_ofPairs`). So no pair is lost, and the order in which they came cannot be told from the map.
-/

namespace TaggedValue.Entries

variable {ps qs : List Entry}

/-- No two pairs have equal keys. -/
def Distinct (ps : List Entry) : Prop := ps.Pairwise fun p q => p.1.equal q.1 = false

theorem Distinct.perm (h : Distinct ps) (hperm : ps.Perm qs) : Distinct qs := by
  refine hperm.pairwise h ?_
  intro p q hpq
  rwa [Value.equal_comm]

/-- Different keys that ascend do so strictly. -/
theorem ascending_of_distinct (hweak : WeaklyAscending ps) (h : Distinct ps) : Ascending ps := by
  refine List.Pairwise.imp₂ ?_ hweak h
  intro p q hle hne
  rcases Ordering.isLE_iff_eq_lt_or_eq_eq.mp hle with hlt | heq
  · exact hlt
  · exact absurd heq (Value.equal_eq_false_iff.mp hne)

/-! ## Building moves pairs and nothing else -/

theorem ofPairs_eq_sortByKey (h : Distinct ps) : ofPairs ps = sortByKey ps := by
  have hasc : Ascending (sortByKey ps) :=
    ascending_of_distinct (weaklyAscending_sortByKey ps) (h.perm (perm_sortByKey ps).symm)
  calc ofPairs ps = ofPairs (sortByKey ps) := by
        rw [ofPairs, ofPairs, sortByKey_of_ascending hasc]
    _ = sortByKey ps := ofPairs_of_ascending hasc

/-- **Nothing is lost or merged.** The entries of the map are the pairs. -/
theorem perm_ofPairs (h : Distinct ps) : (ofPairs ps).Perm ps := by
  rw [ofPairs_eq_sortByKey h]
  exact perm_sortByKey ps

/-- The order of the pairs leaves no trace. -/
theorem ofPairs_eq_of_perm (h : Distinct ps) (hperm : ps.Perm qs) : ofPairs ps = ofPairs qs := by
  have hentries : (ofPairs ps).Perm (ofPairs qs) :=
    (perm_ofPairs h).trans (hperm.trans (perm_ofPairs (h.perm hperm)).symm)
  refine List.Perm.eq_of_pairwise ?_ (ascending_ofPairs ps) (ascending_ofPairs qs) hentries
  intro p q _ _ hpq hqp
  exact absurd (hpq.symm.trans (Std.OrientedCmp.gt_of_lt hqp)) (by decide)

theorem distinct_of_ascending (h : Ascending ps) : Distinct ps :=
  h.imp Value.equal_eq_false_of_lt

/-- The entries of a map make it in any order. -/
theorem ofPairs_of_perm (h : Ascending ps) (hperm : qs.Perm ps) : ofPairs qs = ps := by
  have hdistinct : Distinct qs := (distinct_of_ascending h).perm hperm.symm
  rw [ofPairs_eq_of_perm hdistinct hperm, ofPairs_of_ascending h]

/-! ## Reading -/

/-- A pair is read under every key that is equal to its own. -/
theorem index_ofPairs_of_mem (h : Distinct ps) {p : Entry} (hp : p ∈ ps) {key : Value}
    (hkey : key.equal p.1 = true) : (Value.ofPairs ps).index key = .ok p.2 := by
  have hentry : p ∈ ofPairs ps := (perm_ofPairs h).mem_iff.mpr hp
  have hfound : lookup (ofPairs ps) key = some p.2 := by
    rw [lookup_congr hkey]
    exact lookup_of_mem (ascending_ofPairs ps) p hentry
  show get (ofPairs ps) key = .ok p.2
  rw [get_eq_reading (ascending_ofPairs ps), hfound]
  rfl

/-- Any other key is missing. -/
theorem index_ofPairs_of_forall_ne (h : Distinct ps) {key : Value}
    (hkey : ∀ p ∈ ps, key.equal p.1 = false) :
    (Value.ofPairs ps).index key = .error (.missingKey key) := by
  have hmissing : lookup (ofPairs ps) key = none := by
    refine lookup_eq_none_iff.mpr fun e he => ?_
    rw [Value.equal_comm]
    exact hkey e ((perm_ofPairs h).mem_iff.mp he)
  show get (ofPairs ps) key = _
  rw [get_eq_reading (ascending_ofPairs ps), hmissing]
  rfl

/-! ## The same pairs -/

theorem same_reverse (h : Value.Same (.map ps) (.map qs)) :
    Value.Same (.map ps.reverse) (.map qs.reverse) := by
  obtain ⟨hkeys, hvalues⟩ := Value.same_map_iff.mp h
  apply Value.same_map_iff.mpr
  simp only [keys, values, List.map_reverse, List.forall₂_reverse_iff]
  exact ⟨hkeys, hvalues⟩

/-- Pairs that are the same one by one build the same map. -/
theorem same_ofPairs (h : Value.Same (.map ps) (.map qs)) :
    Value.Same (.map (ofPairs ps)) (.map (ofPairs qs)) := by
  refine same_of_lookup (ascending_ofPairs ps) (ascending_ofPairs qs) fun key _ => ?_
  rw [lookup_ofPairs, lookup_ofPairs]
  exact lookup_of_same (same_reverse h) key

end TaggedValue.Entries
