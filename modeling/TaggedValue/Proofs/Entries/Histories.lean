import TaggedValue.Proofs.Entries.Lookup

/-!
# Maps and their histories

A map is made from pairs and then changed, by binding one key or unbinding one, again and again. A
history says how, and it can be read without any map: what a key is bound to is what was last said
about it (`History.bound`). That plain program and the sorted entries go through the same histories
side by side, and every key reads alike (`History.lookup_entries`).

A map is therefore a function with finitely many keys, and it is the only one in its place: strictly
ascending entries are determined by what they read as (`same_map_iff_readAlike`). So nothing but the
last word on each key is left of a history.
-/

namespace TaggedValue

open Entries

/-! ## Histories -/

/-- How a map came about. -/
inductive History
  | made (pairs : List Entry)
  | set (before : History) (key x : Value)
  | erase (before : History) (key : Value)

namespace History

/-- The map at the end of a history. -/
def entries : History → List Entry
  | made ps => ofPairs ps
  | set h key x => Entries.set h.entries key x
  | erase h key => (Entries.erase h.entries key).1

/-- The last word on a key: what it was bound to since it was last unbound. Of pairs the last one
counts. -/
def bound : History → Value → Option Value
  | made ps, other => lookup ps.reverse other
  | set h key x, other => if other.equal key then some x else h.bound other
  | erase h key, other => if other.equal key then none else h.bound other

theorem ascending (h : History) : Ascending h.entries := by
  induction h with
  | made ps => exact ascending_ofPairs ps
  | set h key x ih => exact ascending_set ih key x
  | erase h key ih => exact ascending_erase ih key

/-- **Side by side.** A map reads as the last word that its history has on each key. -/
theorem lookup_entries (h : History) (key : Value) : lookup h.entries key = h.bound key := by
  induction h with
  | made ps => exact lookup_ofPairs ps key
  | set h k x ih =>
      rw [entries, lookup_set h.ascending, ih]
      rfl
  | erase h k ih =>
      rw [entries, lookup_erase h.ascending, ih]
      rfl

end History

/-! ## Finite functions -/

namespace Entries

/-- What it takes to be a finite function from keys to values. -/
structure FiniteFunction (es : List Entry) : Prop where
  /-- Binding changes what one key is read as. -/
  get_set : ∀ key x other,
    get (set es key x) other = if other.equal key then .ok x else get es other
  /-- Unbinding gives back what the key was read as. -/
  removed : ∀ key, (erase es key).2 = (get es key).toOption
  /-- Unbinding leaves every other key as it was. -/
  get_erase : ∀ key other,
    get (erase es key).1 other =
      if other.equal key then .error (.missingKey other) else get es other
  contains_erase : ∀ key, contains (erase es key).1 key = false
  contains_iff : ∀ key, contains es key = true ↔ ∃ x, get es key = .ok x
  /-- Reading fails for want of the key and for no other reason. -/
  fault : ∀ key fault, get es key = .error fault →
    fault = .missingKey key ∧ fault.code = .keyNotFound
  /-- A new key makes a map one longer. -/
  length_set : ∀ key x, (set es key x).length = es.length + if contains es key then 0 else 1
  /-- The loss of a key makes a map one shorter. -/
  length_erase : ∀ key,
    (erase es key).1.length + (if contains es key then 1 else 0) = es.length
  ascending_keys : (keys es).Pairwise fun k l => k.compare l = .lt
  /-- The keys are those that are there, each of them once. -/
  countP_keys : ∀ key, (keys es).countP (·.equal key) = if contains es key then 1 else 0
  /-- The values stand in the order of their keys. -/
  values_of_keys : List.Forall₂ (fun k x => get es k = .ok x) (keys es) (values es)

theorem finiteFunction_of_ascending {es : List Entry} (h : Ascending es) : FiniteFunction es where
  get_set key x other := by
    rw [get_eq_reading (ascending_set h key x), get_eq_reading h, lookup_set h]
    cases other.equal key with
    | true => rfl
    | false => rfl
  removed key := by
    rw [erase_snd, find?_eq_lookup h, get_eq_reading h]
    cases lookup es key with
    | none => rfl
    | some x => rfl
  get_erase key other := by
    rw [get_eq_reading (ascending_erase h key), get_eq_reading h, lookup_erase h]
    cases other.equal key with
    | true => rfl
    | false => rfl
  contains_erase key := by
    rw [contains_eq_isSome (ascending_erase h key), lookup_erase h, Value.equal_self]
    rfl
  contains_iff key := by
    rw [contains_eq_isSome h, Option.isSome_iff_exists]
    simp only [get_eq_reading h, reading_eq_ok_iff]
  fault key fault hfault := by
    rw [get_eq_reading h, reading_eq_error_iff] at hfault
    obtain ⟨-, rfl⟩ := hfault
    exact ⟨rfl, rfl⟩
  length_set := length_set h
  length_erase := length_erase h
  ascending_keys := List.pairwise_map.mpr h
  countP_keys := countP_keys h
  values_of_keys := by
    rw [keys, values, List.forall₂_map_left_iff, List.forall₂_map_right_iff, List.forall₂_same]
    intro e he
    rw [get_eq_reading h, reading_eq_ok_iff, lookup_of_mem h e he]

end Entries

/-- **A map is a finite function.** Whatever its history, a map reads as the last word on each key,
and all operations agree with that. -/
theorem History.map_is_finite_function (h : History) :
    (∀ key, get h.entries key = reading key (h.bound key)) ∧ FiniteFunction h.entries := by
  refine ⟨fun key => ?_, finiteFunction_of_ascending h.ascending⟩
  rw [get_eq_reading h.ascending, h.lookup_entries]

/-! ## Maps that read alike -/

namespace Entries

/-- A key gives the same value in both maps, or is missing from both. -/
def AlikeAt (es fs : List Entry) (key : Value) : Prop :=
  (∃ x y, get es key = .ok x ∧ get fs key = .ok y ∧ x.equal y = true) ∨
    get es key = .error (.missingKey key) ∧ get fs key = .error (.missingKey key)

def ReadAlike (es fs : List Entry) : Prop := ∀ key, AlikeAt es fs key

theorem alikeAt_iff {es fs : List Entry} (hes : Ascending es) (hfs : Ascending fs) {key : Value} :
    AlikeAt es fs key ↔ Option.Rel Value.Same (lookup es key) (lookup fs key) := by
  unfold AlikeAt
  rw [get_eq_reading hes, get_eq_reading hfs]
  simp only [reading_eq_ok_iff, reading_eq_error_iff]
  cases lookup es key with
  | none =>
      cases lookup fs key with
      | none => simp
      | some y => simp
  | some x =>
      cases lookup fs key with
      | none => simp
      | some y => simp [Value.equal_iff_same]

theorem lookup_of_same :
    ∀ {es fs : List Entry}, Value.Same (.map es) (.map fs) →
      ∀ key, Option.Rel Value.Same (lookup es key) (lookup fs key)
  | [], [], _, _ => .none
  | [], f :: fs, h, _ => nomatch (Value.same_map_iff.mp h).1
  | e :: es, [], h, _ => nomatch (Value.same_map_iff.mp h).1
  | (k, v) :: es, (l, w) :: fs, h, key => by
      obtain ⟨⟨hkl, hvw⟩, hrest⟩ :=
        Value.forall₂_same_entries_cons.mp (Value.same_map_iff.mp h)
      have hkey : k.equal key = l.equal key :=
        Value.equal_congr_left ((Value.equal_iff_same k l).mpr hkl) key
      rw [lookup_cons, lookup_cons, hkey]
      split
      · exact .some hvw
      · exact lookup_of_same (Value.same_map_iff.mpr hrest) key

/-- If both maps read alike at both first keys, these are equal. -/
theorem compare_eq_eq_of_lookup {e f : Entry} {es fs : List Entry} (hes : Ascending (e :: es))
    (hfs : Ascending (f :: fs))
    (he : Option.Rel Value.Same (lookup (e :: es) e.1) (lookup (f :: fs) e.1))
    (hf : Option.Rel Value.Same (lookup (e :: es) f.1) (lookup (f :: fs) f.1)) :
    e.1.compare f.1 = .eq := by
  cases hc : e.1.compare f.1 with
  | lt =>
      rw [lookup_of_mem hes e List.mem_cons_self,
        lookup_cons_eq_none hfs (Std.OrientedCmp.gt_of_lt hc)] at he
      cases he
  | eq => rfl
  | gt =>
      rw [lookup_of_mem hfs f List.mem_cons_self, lookup_cons_eq_none hes hc] at hf
      cases hf

/-- Two maps that read alike at their own keys are the same. -/
theorem same_of_lookup :
    ∀ {es fs : List Entry}, Ascending es → Ascending fs →
      (∀ key ∈ keys es ++ keys fs, Option.Rel Value.Same (lookup es key) (lookup fs key)) →
      Value.Same (.map es) (.map fs)
  | [], [], _, _, _ => .map .nil .nil
  | [], f :: fs, _, hfs, h => by
      have hf := h f.1 List.mem_cons_self
      rw [lookup_of_mem hfs f List.mem_cons_self] at hf
      cases hf
  | e :: es, [], hes, _, h => by
      have he := h e.1 List.mem_cons_self
      rw [lookup_of_mem hes e List.mem_cons_self] at he
      cases he
  | e :: es, f :: fs, hes, hfs, h => by
      have he := h e.1 List.mem_cons_self
      have hf := h f.1 (List.mem_append_right _ List.mem_cons_self)
      have hc : e.1.compare f.1 = .eq := compare_eq_eq_of_lookup hes hfs he hf
      have hvalue : Value.Same e.2 f.2 := by
        rw [lookup_of_mem hes e List.mem_cons_self,
          lookup_congr (Value.equal_iff_compare_eq_eq.mpr hc),
          lookup_of_mem hfs f List.mem_cons_self] at he
        cases he
        assumption
      obtain ⟨he', hes'⟩ := ascending_cons.mp hes
      obtain ⟨hf', hfs'⟩ := ascending_cons.mp hfs
      have hrest : Value.Same (.map es) (.map fs) := by
        refine same_of_lookup hes' hfs' fun key hkey => ?_
        -- all keys that are left are larger than the first ones
        have hlt : e.1.compare key = .lt := by
          rcases List.mem_append.mp hkey with hkey | hkey
          · obtain ⟨d, hd, rfl⟩ := List.mem_map.mp hkey
            exact he' d hd
          · obtain ⟨d, hd, rfl⟩ := List.mem_map.mp hkey
            exact Std.TransCmp.lt_of_eq_of_lt hc (hf' d hd)
        have hrel := h key (by
          rcases List.mem_append.mp hkey with hkey | hkey
          · exact List.mem_append_left _ (List.mem_cons_of_mem _ hkey)
          · exact List.mem_append_right _ (List.mem_cons_of_mem _ hkey))
        have hlt' : f.1.compare key = .lt := Std.TransCmp.congr_left hc ▸ hlt
        rwa [lookup_cons_of_ne (Value.equal_eq_false_of_lt hlt),
          lookup_cons_of_ne (Value.equal_eq_false_of_lt hlt')] at hrel
      exact Value.same_map_iff.mpr (Value.forall₂_same_entries_cons.mpr
        ⟨⟨(Value.compare_eq_eq_iff_same _ _).mp hc, hvalue⟩, Value.same_map_iff.mp hrest⟩)

theorem same_of_alikeAt {es fs : List Entry} (hes : Ascending es) (hfs : Ascending fs)
    (h : ∀ key ∈ keys es ++ keys fs, AlikeAt es fs key) : Value.Same (.map es) (.map fs) :=
  same_of_lookup hes hfs fun key hkey => (alikeAt_iff hes hfs).mp (h key hkey)

/-- **A map is what it reads as.** -/
theorem same_map_iff_readAlike {es fs : List Entry} (hes : Ascending es) (hfs : Ascending fs) :
    Value.Same (.map es) (.map fs) ↔ ReadAlike es fs := by
  constructor
  · intro h key
    exact (alikeAt_iff hes hfs).mpr (lookup_of_same h key)
  · intro h
    exact same_of_alikeAt hes hfs fun key _ => h key

end Entries

namespace Value

/-- Neither equality nor order nor hash tells these values apart. -/
def Indistinguishable (v w : Value) : Prop :=
  (∀ u, v.equal u = w.equal u ∧ u.equal v = u.equal w) ∧
  (∀ u, v.compare u = w.compare u ∧ u.compare v = u.compare w) ∧
  v.tokens = w.tokens

theorem indistinguishable_of_same {v w : Value} (h : Same v w) : Indistinguishable v w := by
  have hequal : v.equal w = true := (equal_iff_same v w).mpr h
  have hcompare : v.compare w = .eq := equal_iff_compare_eq_eq.mp hequal
  refine ⟨fun u => ⟨?_, ?_⟩, fun u => ⟨?_, ?_⟩, tokens_eq_of_same v w h⟩
  · exact equal_congr_left hequal u
  · exact equal_congr_right hequal u
  · exact Std.TransCmp.congr_left hcompare
  · exact Std.TransCmp.congr_right hcompare

end Value

/-- **Maps are canonical.** Two maps are equal if and only if they read alike, for which it is enough
that they do so at the keys they have, and if and only if the last words of their histories on each
key agree. Then nothing tells them apart: not the order in which keys were bound, nor what was
overwritten, nor what was unbound again. -/
theorem History.maps_are_canonical (g h : History) :
    ((Value.map g.entries).equal (.map h.entries) = true ↔ ReadAlike g.entries h.entries) ∧
    ((∀ key ∈ keys g.entries ++ keys h.entries, AlikeAt g.entries h.entries key) →
      ReadAlike g.entries h.entries) ∧
    (ReadAlike g.entries h.entries ↔
      ∀ key, Option.Rel Value.Same (g.bound key) (h.bound key)) ∧
    (ReadAlike g.entries h.entries →
      Value.Indistinguishable (.map g.entries) (.map h.entries)) := by
  have hsame := same_map_iff_readAlike g.ascending h.ascending
  refine ⟨?_, ?_, ?_, ?_⟩
  · rw [Value.equal_iff_same, hsame]
  · intro halike
    exact hsame.mp (same_of_alikeAt g.ascending h.ascending halike)
  · simp only [ReadAlike, alikeAt_iff g.ascending h.ascending, lookup_entries]
  · intro halike
    exact Value.indistinguishable_of_same (hsame.mpr halike)

/-- Bound in another order, bound twice, and bound for a while. -/
example :
    ((((History.made []).set (.str "b") (.int 2)).set (.int 7) (.int 0)).set (.str "a") (.int 1)
      |>.erase (.int 7)).entries =
    (History.made [(.str "a", .int 5), (.str "b", .int 2), (.str "a", .int 1)]).entries := by
  rfl

end TaggedValue
