import TaggedValue.Proofs.Entries.Changes
import TaggedValue.Proofs.Sameness

/-!
# Reading a map

The plain way to read pairs is to go through them from the front and to take the first one whose key
is equal (`lookup`). It knows of no order and needs none. Here each operation of maps is described
by what it does to this view: a search in a map is a lookup, binding and unbinding change what one
key is read as, and a map made from pairs reads as these pairs do from their end. Each of them
follows the one equation that says how the operation goes past the first entry.
-/

namespace TaggedValue.Entries

/-! ## The plain view -/

/-- The value of the first entry with an equal key. -/
def lookup (es : List Entry) (key : Value) : Option Value :=
  (es.find? fun e => e.1.equal key).map (·.2)

@[simp] theorem lookup_nil (key : Value) : lookup [] key = none := rfl

theorem lookup_cons (e : Entry) (es : List Entry) (key : Value) :
    lookup (e :: es) key = if e.1.equal key then some e.2 else lookup es key := by
  rw [lookup, List.find?_cons]
  cases e.1.equal key with
  | true => rfl
  | false => rfl

theorem lookup_cons_of_ne {e : Entry} {key : Value} (h : e.1.equal key = false)
    (es : List Entry) : lookup (e :: es) key = lookup es key := by
  rw [lookup_cons, h]
  rfl

theorem lookup_append (ds es : List Entry) (key : Value) :
    lookup (ds ++ es) key = (lookup ds key).or (lookup es key) := by
  rw [lookup, List.find?_append, Option.map_or]
  rfl

theorem lookup_eq_none_iff {es : List Entry} {key : Value} :
    lookup es key = none ↔ ∀ e ∈ es, e.1.equal key = false := by
  simp [lookup]

theorem lookup_congr {k l : Value} (h : k.equal l = true) (es : List Entry) :
    lookup es k = lookup es l := by
  simp only [lookup, Value.equal_congr_right h]

/-! ## Keys that are not there -/

/-- Behind an entry whose key is not smaller, no key is equal. -/
theorem equal_eq_false_of_ascending {e : Entry} {es : List Entry} (h : Ascending (e :: es))
    {key : Value} (hle : e.1.compare key ≠ .lt) : ∀ d ∈ es, d.1.equal key = false := by
  intro d hd
  have hlt : e.1.compare d.1 = .lt := (ascending_cons.mp h).1 d hd
  rw [Value.equal_eq_false_iff]
  intro heq
  exact hle (Std.TransCmp.congr_right heq ▸ hlt)

theorem lookup_eq_none_of_ascending {e : Entry} {es : List Entry} (h : Ascending (e :: es))
    {key : Value} (hle : e.1.compare key ≠ .lt) : lookup es key = none :=
  lookup_eq_none_iff.mpr (equal_eq_false_of_ascending h hle)

/-- Before a larger key there is nothing. -/
theorem lookup_cons_eq_none {e : Entry} {es : List Entry} (h : Ascending (e :: es))
    {key : Value} (hgt : e.1.compare key = .gt) : lookup (e :: es) key = none := by
  have hne : e.1.equal key = false := Value.equal_eq_false_iff.mpr (by simp [hgt])
  rw [lookup_cons_of_ne hne, lookup_eq_none_of_ascending h (by simp [hgt])]

/-! ## A search is a lookup -/

theorem find?_cons {e : Entry} {es : List Entry} (h : Ascending (e :: es)) (key : Value) :
    find? (e :: es) key =
      match e.1.compare key with
      | .lt => find? es key
      | .eq => some e.2
      | .gt => none := by
  rw [find?, place_cons h]
  cases e.1.compare key with
  | lt =>
      rw [find?]
      cases place es key with
      | found i => rfl
      | absent i => rfl
  | eq => rfl
  | gt => rfl

theorem contains_cons {e : Entry} {es : List Entry} (h : Ascending (e :: es)) (key : Value) :
    contains (e :: es) key =
      match e.1.compare key with
      | .lt => contains es key
      | .eq => true
      | .gt => false := by
  rw [contains, place_cons h]
  cases e.1.compare key with
  | lt =>
      rw [contains]
      cases place es key with
      | found i => rfl
      | absent i => rfl
  | eq => rfl
  | gt => rfl

/-- **A search is a lookup.** Halving finds what going through all entries finds. -/
theorem find?_eq_lookup {es : List Entry} (h : Ascending es) (key : Value) :
    find? es key = lookup es key := by
  induction es with
  | nil => rfl
  | cons e es ih =>
      rw [find?_cons h]
      cases hc : e.1.compare key with
      | lt =>
          rw [lookup_cons_of_ne (Value.equal_eq_false_of_lt hc)]
          exact ih (ascending_cons.mp h).2
      | eq => rw [lookup_cons, Value.equal_iff_compare_eq_eq.mpr hc, if_pos rfl]
      | gt => rw [lookup_cons_eq_none h hc]

theorem contains_eq_isSome {es : List Entry} (h : Ascending es) (key : Value) :
    contains es key = (lookup es key).isSome := by
  rw [← find?_eq_lookup h]
  induction es with
  | nil => rfl
  | cons e es ih =>
      rw [contains_cons h, find?_cons h]
      cases e.1.compare key with
      | lt => exact ih (ascending_cons.mp h).2
      | eq => rfl
      | gt => rfl

/-- The outcome of reading a key that is bound to this, if it is bound. -/
def reading (key : Value) : Option Value → Except Fault Value
  | some x => .ok x
  | none => .error (.missingKey key)

theorem get_eq_reading {es : List Entry} (h : Ascending es) (key : Value) :
    get es key = reading key (lookup es key) := by
  rw [get, find?_eq_lookup h]
  cases lookup es key with
  | none => rfl
  | some x => rfl

theorem reading_eq_ok_iff {key x : Value} {found : Option Value} :
    reading key found = .ok x ↔ found = some x := by
  cases found with
  | none => simp [reading]
  | some y => simp [reading]

theorem reading_eq_error_iff {key : Value} {found : Option Value} {fault : Fault} :
    reading key found = .error fault ↔ found = none ∧ fault = .missingKey key := by
  cases found with
  | none => simp [reading, eq_comm]
  | some y => simp [reading]

/-! ## Binding and unbinding -/

theorem lookup_set {es : List Entry} (h : Ascending es) (key x other : Value) :
    lookup (set es key x) other = if other.equal key then some x else lookup es other := by
  rw [Value.equal_comm other key]
  induction es with
  | nil => exact lookup_cons (key, x) [] other
  | cons e es ih =>
      rw [set_cons h]
      cases hc : e.1.compare key with
      | lt =>
          show lookup (e :: set es key x) other = _
          rw [lookup_cons, lookup_cons, ih (ascending_cons.mp h).2]
          -- the first entry and the new one have different keys
          cases he : e.1.equal other with
          | false => rfl
          | true =>
              have hne : key.equal other = false := by
                rw [Value.equal_comm, ← Value.equal_congr_left he, Value.equal_eq_false_of_lt hc]
              rw [hne]
              rfl
      | eq =>
          have he := Value.equal_congr_left (Value.equal_iff_compare_eq_eq.mpr hc) other
          show lookup ((key, x) :: es) other = _
          rw [lookup_cons, lookup_cons, he]
          cases key.equal other with
          | true => rfl
          | false => rfl
      | gt => exact lookup_cons (key, x) (e :: es) other

theorem length_set {es : List Entry} (h : Ascending es) (key x : Value) :
    (set es key x).length = es.length + if contains es key then 0 else 1 := by
  induction es with
  | nil => rfl
  | cons e es ih =>
      rw [set_cons h, contains_cons h]
      cases e.1.compare key with
      | lt =>
          show (set es key x).length + 1 = es.length + 1 + if contains es key then 0 else 1
          rw [ih (ascending_cons.mp h).2]
          omega
      | eq => rfl
      | gt => rfl

/-- Unbinding a key goes past smaller keys, drops an equal one, and ends before a larger one. -/
theorem erase_cons {e : Entry} {es : List Entry} (h : Ascending (e :: es)) (key : Value) :
    (erase (e :: es) key).1 =
      match e.1.compare key with
      | .lt => e :: (erase es key).1
      | .eq => es
      | .gt => e :: es := by
  rw [erase, place_cons h]
  cases e.1.compare key with
  | lt =>
      rw [erase]
      cases place es key with
      | found i => rfl
      | absent i => rfl
  | eq => rfl
  | gt => rfl

theorem lookup_erase {es : List Entry} (h : Ascending es) (key other : Value) :
    lookup (erase es key).1 other = if other.equal key then none else lookup es other := by
  induction es with
  | nil => exact (ite_self none).symm
  | cons e es ih =>
      rw [erase_cons h]
      cases hc : e.1.compare key with
      | lt =>
          show lookup (e :: (erase es key).1) other = _
          rw [lookup_cons, lookup_cons, ih (ascending_cons.mp h).2]
          cases ho : other.equal key with
          | false => rfl
          | true =>
              have hne : e.1.equal other = false := by
                rw [Value.equal_congr_right ho, Value.equal_eq_false_of_lt hc]
              rw [hne]
              rfl
      | eq =>
          show lookup es other = _
          cases ho : other.equal key with
          | false =>
              have hne : e.1.equal other = false := by
                rw [Value.equal_congr_left (Value.equal_iff_compare_eq_eq.mpr hc),
                  Value.equal_comm, ho]
              rw [lookup_cons_of_ne hne]
              rfl
          | true =>
              rw [lookup_congr ho, lookup_eq_none_of_ascending h (by simp [hc])]
              rfl
      | gt =>
          show lookup (e :: es) other = _
          cases ho : other.equal key with
          | false => rfl
          | true =>
              rw [lookup_congr ho, lookup_cons_eq_none h hc]
              rfl

theorem length_erase {es : List Entry} (h : Ascending es) (key : Value) :
    (erase es key).1.length + (if contains es key then 1 else 0) = es.length := by
  induction es with
  | nil => rfl
  | cons e es ih =>
      rw [erase_cons h, contains_cons h]
      cases e.1.compare key with
      | lt =>
          show (erase es key).1.length + 1 + (if contains es key then 1 else 0) = es.length + 1
          rw [← ih (ascending_cons.mp h).2]
          omega
      | eq => rfl
      | gt => rfl

/-! ## All keys and values -/

/-- An entry of a map is found under its key. -/
theorem lookup_of_mem {es : List Entry} (h : Ascending es) :
    ∀ e ∈ es, lookup es e.1 = some e.2 := by
  induction es with
  | nil => exact nofun
  | cons d es ih =>
      obtain ⟨hd, hes⟩ := ascending_cons.mp h
      refine List.forall_mem_cons.mpr ⟨?_, fun e he => ?_⟩
      · rw [lookup_cons, Value.equal_self, if_pos rfl]
      · rw [lookup_cons_of_ne (Value.equal_eq_false_of_lt (hd e he))]
        exact ih hes e he

/-- Every key that is there stands among the keys once. -/
theorem countP_keys {es : List Entry} (h : Ascending es) (key : Value) :
    (keys es).countP (·.equal key) = if contains es key then 1 else 0 := by
  induction es with
  | nil => rfl
  | cons e es ih =>
      have hrest : e.1.compare key ≠ .lt → (keys es).countP (·.equal key) = 0 := by
        intro hle
        rw [keys, List.countP_map, List.countP_eq_zero]
        simpa using equal_eq_false_of_ascending h hle
      show (e.1 :: keys es).countP (·.equal key) = _
      rw [List.countP_cons, contains_cons h]
      cases hc : e.1.compare key with
      | lt =>
          rw [Value.equal_eq_false_of_lt hc]
          exact ih (ascending_cons.mp h).2
      | eq =>
          rw [hrest (by simp [hc]), Value.equal_iff_compare_eq_eq.mpr hc]
          rfl
      | gt =>
          rw [hrest (by simp [hc]), Value.equal_eq_false_iff.mpr (by simp [hc])]
          rfl

/-! ## Maps made from pairs -/

theorem lookup_reverse_cons (e : Entry) (es : List Entry) (key : Value) :
    lookup (e :: es).reverse key = (lookup es.reverse key).or (lookup [e] key) := by
  rw [List.reverse_cons, lookup_append]

/-- Sorting is stable, so the last of several pairs with one key stays the last of them. -/
theorem lookup_reverse_insertByKey (e : Entry) (es : List Entry) (key : Value) :
    lookup (insertByKey e es).reverse key = lookup (e :: es).reverse key := by
  induction es with
  | nil => rfl
  | cons f fs ih =>
      rw [insertByKey]
      split
      case isTrue hgt =>
        -- the entry goes past one with another key, so at most one of the two is found
        have hne : e.1.equal f.1 = false :=
          Value.equal_eq_false_iff.mpr (by simp [beq_iff_eq.mp hgt])
        have hswap : (lookup [e] key).or (lookup [f] key) = (lookup [f] key).or (lookup [e] key) := by
          cases hf : f.1.equal key with
          | false => simp [lookup_cons, hf]
          | true => simp [lookup_cons, hf, ← Value.equal_congr_right hf, hne]
        rw [lookup_reverse_cons, ih, lookup_reverse_cons, lookup_reverse_cons, lookup_reverse_cons,
          Option.or_assoc, hswap, ← Option.or_assoc]
      case isFalse => rfl

theorem lookup_reverse_sortByKey (ps : List Entry) (key : Value) :
    lookup (sortByKey ps).reverse key = lookup ps.reverse key := by
  induction ps with
  | nil => rfl
  | cons p ps ih =>
      rw [sortByKey, lookup_reverse_insertByKey, lookup_reverse_cons, lookup_reverse_cons, ih]

/-- The value that is left of a run of equal keys is the last one of the run. -/
theorem lookup_collapseFrom :
    ∀ {e : Entry} {es : List Entry}, WeaklyAscending (e :: es) → ∀ key,
      lookup (collapseFrom e es) key = lookup (e :: es).reverse key
  | e, [], _, _ => rfl
  | e, f :: fs, h, key => by
      rw [collapseFrom]
      split
      case isTrue heq =>
        have hkey : e.1.equal f.1 = true := Value.equal_iff_compare_eq_eq.mpr (beq_iff_eq.mp heq)
        rw [lookup_collapseFrom (weaklyAscending_skip h f.2), lookup_reverse_cons,
          lookup_reverse_cons, lookup_reverse_cons, Option.or_assoc]
        simp only [lookup_cons, lookup_nil, Value.equal_congr_left hkey]
        cases f.1.equal key with
        | false => rfl
        | true => rfl
      case isFalse hne =>
        have hlt := lt_of_weaklyAscending h fun heq => hne (beq_iff_eq.mpr heq)
        rw [lookup_reverse_cons, lookup_cons, lookup_cons,
          lookup_collapseFrom (List.pairwise_cons.mp h).2]
        cases hkey : e.1.equal key with
        | false => exact (Option.or_none).symm
        | true =>
            have hnone : lookup (f :: fs).reverse key = none := by
              refine lookup_eq_none_iff.mpr fun d hd => ?_
              have hd' : e.1.compare d.1 = .lt := hlt d (List.mem_reverse.mp hd)
              rw [Value.equal_comm, ← Value.equal_congr_left hkey, Value.equal_eq_false_of_lt hd']
            rw [hnone]
            rfl

/-- A map made from pairs reads as the pairs do from their end. -/
theorem lookup_ofPairs (ps : List Entry) (key : Value) :
    lookup (ofPairs ps) key = lookup ps.reverse key := by
  have h := weaklyAscending_sortByKey ps
  rw [ofPairs, ← lookup_reverse_sortByKey ps]
  cases hs : sortByKey ps with
  | nil => rfl
  | cons e es => exact lookup_collapseFrom (hs ▸ h) key

end TaggedValue.Entries
