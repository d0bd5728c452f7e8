import TaggedValue.Proofs.Entries.Histories
import TaggedValue.Value.Access

/-!
# Building at once and one by one

A map is built from pairs by sorting them and letting equal keys collapse, or out of the empty map
by binding one key after the other. The two ways have no step in common. What they share is how the
result reads: binding a key is followed through all pairs (`exists_setEach`), and in the end a key
is read as the last value that was given for it, which is how a map built at once reads as well.
-/

namespace TaggedValue

open Entries

namespace Value

/-! ## One by one -/

/-- Binds the keys of all pairs in the order of the pairs. -/
def setEach (v : Value) (ps : List Entry) : Except Fault Value :=
  ps.foldlM (fun w p => w.set p.1 p.2) v

theorem setEach_map_cons (es : List Entry) (p : Entry) (ps : List Entry) :
    setEach (.map es) (p :: ps) = setEach (.map (Entries.set es p.1 p.2)) ps := rfl

/-- A later pair hides an earlier one, and all of them hide what was there before. -/
theorem exists_setEach {es : List Entry} (h : Ascending es) (ps : List Entry) :
    ∃ fs, setEach (.map es) ps = .ok (.map fs) ∧ Ascending fs ∧
      ∀ key, lookup fs key = (lookup ps.reverse key).or (lookup es key) := by
  induction ps generalizing es with
  | nil => exact ⟨es, rfl, h, fun key => rfl⟩
  | cons p ps ih =>
      obtain ⟨fs, hrun, hfs, hlookup⟩ := ih (ascending_set h p.1 p.2)
      refine ⟨fs, by rw [setEach_map_cons, hrun], hfs, fun key => ?_⟩
      rw [hlookup, lookup_set h, lookup_reverse_cons, Option.or_assoc, equal_comm, lookup_cons,
        lookup_nil]
      cases p.1.equal key with
      | true => rfl
      | false => rfl

/-! ## The last value given for a key -/

/-- Of the pairs with an equal key, the last one has this value. -/
def LastGiven (ps : List Entry) (key x : Value) : Prop :=
  ∃ before k after, ps = before ++ (k, x) :: after ∧ k.equal key = true ∧
    ∀ p ∈ after, p.1.equal key = false

theorem lookup_reverse_eq_some_iff {ps : List Entry} {key x : Value} :
    lookup ps.reverse key = some x ↔ LastGiven ps key x := by
  unfold lookup LastGiven
  rw [Option.map_eq_some_iff]
  constructor
  · rintro ⟨⟨k, y⟩, hfind, rfl⟩
    obtain ⟨hk, after, before, hsplit, hafter⟩ := List.find?_eq_some_iff_append.mp hfind
    refine ⟨before.reverse, k, after.reverse, ?_, hk, fun p hp => ?_⟩
    · rw [← List.reverse_inj, hsplit]
      simp
    · simpa using hafter p (List.mem_reverse.mp hp)
  · rintro ⟨before, k, after, rfl, hk, hafter⟩
    refine ⟨(k, x), List.find?_eq_some_iff_append.mpr ⟨hk, after.reverse, before.reverse, ?_, ?_⟩,
      rfl⟩
    · simp
    · intro p hp
      simpa using hafter p (List.mem_reverse.mp hp)

/-- The pairs whose keys are equal to a key, in their order. -/
def pairsAt (ps : List Entry) (key : Value) : List Entry := ps.filter (·.1.equal key)

/-- Which pair is found depends on those with the wanted key only. -/
theorem lookup_reverse_congr {ps qs : List Entry} {key : Value}
    (h : pairsAt ps key = pairsAt qs key) : lookup ps.reverse key = lookup qs.reverse key := by
  have hfind : ∀ rs : List Entry,
      lookup rs.reverse key = ((pairsAt rs key).reverse.head?).map (·.2) := by
    intro rs
    rw [lookup, ← List.head?_filter, List.filter_reverse]
    rfl
  rw [hfind, hfind, h]

/-! ## Maps built from pairs -/

theorem index_ofPairs (ps : List Entry) (key : Value) :
    (ofPairs ps).index key = reading key (lookup ps.reverse key) := by
  rw [← lookup_ofPairs]
  exact get_eq_reading (ascending_ofPairs ps) key

theorem ofPairs_equal_of_lookup {ps : List Entry} {fs : List Entry} (hfs : Ascending fs)
    (h : ∀ key, lookup ps.reverse key = lookup fs key) :
    (ofPairs ps).equal (.map fs) = true := by
  apply (equal_iff_same _ _).mpr
  refine same_of_lookup (ascending_ofPairs ps) hfs fun key _ => ?_
  rw [lookup_ofPairs, h]
  cases lookup fs key with
  | none => exact .none
  | some x => exact .some ((equal_iff_same x x).mp (equal_self x))

/-- **Building at once is building one by one.** A map built from pairs equals the one that binding
their keys in turn makes of the empty map. So a key is read as the last value given for it, and
pairs may be put in any order that leaves those of equal keys in theirs. -/
theorem building_is_binding_in_turn (ps : List Entry) :
    (∃ w, setEach (ofPairs []) ps = .ok w ∧ (ofPairs ps).equal w = true) ∧
    (∀ key x, (ofPairs ps).index key = .ok x ↔ LastGiven ps key x) ∧
    (∀ qs, (∀ key, pairsAt ps key = pairsAt qs key) →
      (ofPairs ps).equal (ofPairs qs) = true) := by
  refine ⟨?_, fun key x => ?_, fun qs hqs => ?_⟩
  · obtain ⟨fs, hrun, hfs, hlookup⟩ := exists_setEach (ascending_ofPairs []) ps
    refine ⟨.map fs, hrun, ofPairs_equal_of_lookup hfs fun key => ?_⟩
    rw [hlookup]
    exact Option.or_none.symm
  · rw [index_ofPairs, reading_eq_ok_iff, lookup_reverse_eq_some_iff]
  · refine ofPairs_equal_of_lookup (ascending_ofPairs qs) fun key => ?_
    rw [lookup_ofPairs]
    exact lookup_reverse_congr (hqs key)

end Value

end TaggedValue
