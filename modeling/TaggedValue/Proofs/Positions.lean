import TaggedValue.Proofs.Operations
import TaggedValue.Proofs.Sameness

/-!
# One law for all positions

Texts, lists and tuples are read and changed at signed indices, through one resolution of the index
and three kinds of payload, and a text is rebuilt from its code points. Here a sequence is taken as
what it is from outside: a kind and a list of elements. Two sequences of one kind with the same
elements are one and the same, and a change at a position is a change of the list of elements at
this position (`set_of_accepts`). Which position is meant is settled by the relation `Addresses`, in
plain integers, and the sum behind it is shown to fit 64 bits.
-/

namespace TaggedValue

namespace Sequence

/-! ## The position that an index stands for -/

/-- An integer addresses the position with its own number, or the one that it reaches when counted
back from the end. -/
def Addresses (length : Nat) (i : Int) (p : Nat) : Prop :=
  p < length ∧ ((p : Int) = i ∨ (p : Int) = length + i)

theorem addresses_iff {n p : Nat} {i : Int} :
    Addresses n i p ↔ (p : Int) = (if i < 0 then n + i else i) ∧ p < n := by
  unfold Addresses
  split
  · omega
  · omega

theorem resolve?_eq_some_iff {i : Int64} {n p : Nat} :
    resolve? i n = some p ↔ Addresses n i.toInt p := by
  rw [addresses_iff]
  unfold resolve?
  dsimp only
  generalize (if i.toInt < 0 then (n : Int) + i.toInt else i.toInt) = q
  by_cases hq : 0 ≤ q ∧ q < n
  · rw [if_pos (by simpa using hq), Option.some_inj]
    omega
  · rw [if_neg (by simpa using hq)]
    refine iff_of_false nofun fun hp => hq ?_
    omega

theorem Addresses.unique {n p q : Nat} {i : Int} (hp : Addresses n i p) (hq : Addresses n i q) :
    q = p := by
  have hp' := (addresses_iff.mp hp).1
  have hq' := (addresses_iff.mp hq).1
  exact Int.ofNat.inj (hq'.trans hp'.symm)

/-- The integers that address a position reach as far back as the sequence is long. -/
theorem exists_addresses_iff {n : Nat} {i : Int} :
    (∃ p, Addresses n i p) ↔ -(n : Int) ≤ i ∧ i < n := by
  constructor
  · rintro ⟨p, hp, hfront | hback⟩
    · omega
    · omega
  · rintro ⟨hlow, hhigh⟩
    by_cases hneg : i < 0
    · exact ⟨(n + i).toNat, by omega, by omega⟩
    · exact ⟨i.toNat, by omega, by omega⟩

theorem resolve?_eq_none_iff {i : Int64} {n : Nat} :
    resolve? i n = none ↔ ¬(-(n : Int) ≤ i.toInt ∧ i.toInt < n) := by
  rw [← exists_addresses_iff, Option.eq_none_iff_forall_ne_some, not_exists]
  exact forall_congr' fun p => not_congr resolve?_eq_some_iff

/-! ## The same in 64 bits -/

/-- Resolution in signed 64-bit arithmetic, where a sum could overflow. -/
def resolveWord? (index length : Int64) : Option Nat :=
  let p := if index < 0 then length + index else index
  if p < 0 || length ≤ p then none else some p.toNatClampNeg

theorem lt_zero_iff {i : Int64} : i < 0 ↔ i.toInt < 0 := by
  rw [Int64.lt_iff_toInt_lt, Int64.toInt_zero]

/-- A negative index is added to a length that is not negative, so the sum does not overflow. -/
theorem toInt_length_add {n : Nat} (hn : n < 0x8000000000000000) {i : Int64} (hi : i < 0) :
    (Int64.ofNat n + i).toInt = n + i.toInt := by
  have hlow := i.le_toInt
  have hneg := lt_zero_iff.mp hi
  rw [Int64.toInt_add, Int64.toInt_ofNat_of_lt hn]
  exact Int.bmod_eq_of_le (by omega) (by omega)

/-- The two tests against the ends, in words and in integers. -/
theorem bounded_word_eq {n : Nat} (hn : n < 0x8000000000000000) (p : Int64) :
    (if p < 0 || Int64.ofNat n ≤ p then none else some p.toNatClampNeg) =
      if 0 ≤ p.toInt && p.toInt < n then some p.toInt.toNat else none := by
  have hlength : Int64.ofNat n ≤ p ↔ n ≤ p.toInt := by
    rw [Int64.le_iff_toInt_le, Int64.toInt_ofNat_of_lt hn]
  simp only [Bool.or_eq_true, Bool.and_eq_true, decide_eq_true_eq, lt_zero_iff, hlength]
  by_cases hin : 0 ≤ p.toInt ∧ p.toInt < n
  · rw [if_pos hin, if_neg (by omega)]
    rfl
  · rw [if_neg hin, if_pos (by omega)]

theorem resolveWord?_eq_resolve? {n : Nat} (hn : n < 0x8000000000000000) (i : Int64) :
    resolveWord? i (Int64.ofNat n) = resolve? i n := by
  unfold resolveWord? resolve?
  dsimp only
  rw [bounded_word_eq hn]
  by_cases hi : i < 0
  · rw [if_pos hi, if_pos (lt_zero_iff.mp hi), toInt_length_add hn hi]
  · rw [if_neg hi, if_neg fun hneg => hi (lt_zero_iff.mpr hneg)]

/-! ## A sequence is its kind and its elements -/

theorem ofChar_inj {c d : Char} : ofChar c = ofChar d ↔ c = d := by
  constructor
  · intro h
    have hs : String.ofList [c] = String.ofList [d] := Value.str.inj h
    exact (List.cons.inj (String.ofList_injective hs)).1
  · rintro rfl
    rfl

theorem eq_of_elements {s t : Sequence} (hkind : s.kind = t.kind)
    (helements : s.elements = t.elements) : s = t := by
  cases s with
  | text a =>
      cases t with
      | text b =>
          have hmap : a.toList.map ofChar = b.toList.map ofChar := helements
          have hinj : Function.Injective ofChar := fun c d h => ofChar_inj.mp h
          rw [String.toList_inj.mp (List.map_injective_iff.mpr hinj hmap)]
      | list ws => cases hkind
      | tuple ws => cases hkind
  | list vs =>
      cases t with
      | text b => cases hkind
      | list ws => rw [show vs = ws from helements]
      | tuple ws => cases hkind
  | tuple vs =>
      cases t with
      | text b => cases hkind
      | list ws => cases hkind
      | tuple ws => rw [show vs = ws from helements]

theorem toValue_kind_congr {s t : Sequence} (h : s.kind = t.kind) :
    s.toValue.kind = t.toValue.kind := by
  cases s <;> cases t <;> first | rfl | cases h

/-- What a sequence can have as an element: a text only texts of one code point. -/
def Accepts : Sequence → Value → Prop
  | text _, x => ∃ c, x = ofChar c
  | list _, _ => True
  | tuple _, _ => True

theorem accepts_of_mem {s : Sequence} {x : Value} (hx : x ∈ s.elements) : s.Accepts x := by
  cases s with
  | text t =>
      obtain ⟨c, -, rfl⟩ := List.mem_map.mp hx
      exact ⟨c, rfl⟩
  | list vs => trivial
  | tuple vs => trivial

/-! ## A change at a position -/

theorem loneChar?_eq_some_iff {u : String} {c : Char} :
    loneChar? u = some c ↔ u = String.ofList [c] := by
  unfold loneChar?
  constructor
  · intro h
    split at h
    · next d hu =>
      cases h
      rw [← hu, String.ofList_toList]
    · cases h
  · rintro rfl
    rw [String.toList_ofList]

/-- **A change at a position** is one of the list of elements, and the kind stays. -/
theorem set_of_accepts {s : Sequence} {p : Nat} {x : Value} (hp : p < s.length)
    (hx : s.Accepts x) :
    ∃ t : Sequence, s.set p x = .ok t.toValue ∧ t.kind = s.kind ∧
      t.elements = s.elements.set p x := by
  cases s with
  | text a =>
      obtain ⟨c, rfl⟩ := hx
      refine ⟨text (String.ofList (a.toList.set p c)), ?_, rfl, ?_⟩
      · have hc : loneChar? (String.ofList [c]) = some c := loneChar?_eq_some_iff.mpr rfl
        simp only [set, ofChar, hc]
        exact if_pos hp
      · simp only [elements, String.toList_ofList, List.map_set]
  | list vs => exact ⟨list (vs.set p x), if_pos hp, rfl, rfl⟩
  | tuple vs => exact ⟨tuple (vs.set p x), if_pos hp, rfl, rfl⟩

/-- What is no element is refused for what it is, wherever it was to stand. -/
theorem set_of_not_accepts {s : Sequence} {p : Nat} {x : Value} (hx : ¬s.Accepts x) :
    ∃ fault : Fault, fault.code = .typeMismatch ∧ s.set p x = .error fault := by
  cases s with
  | text a =>
      unfold set
      dsimp only
      split
      · next u =>
        cases hc : loneChar? u with
        | none => exact ⟨.elementLength, rfl, rfl⟩
        | some c =>
            rw [loneChar?_eq_some_iff] at hc
            exact absurd ⟨c, congrArg Value.str hc⟩ hx
      · exact ⟨.elementKind, rfl, rfl⟩
  | list vs => exact absurd trivial hx
  | tuple vs => exact absurd trivial hx

theorem accepts_of_set {s : Sequence} {p : Nat} {x w : Value} (h : s.set p x = .ok w) :
    s.Accepts x := by
  by_contra hx
  obtain ⟨fault, -, hfault⟩ := set_of_not_accepts (p := p) hx
  rw [h] at hfault
  cases hfault

/-- Every position holds an element. -/
theorem exists_get {s : Sequence} {p : Nat} (hp : p < s.length) :
    ∃ x, s.elements[p]? = some x ∧ s.get p = .ok x := by
  have hx : s.elements[p]? = some _ := List.getElem?_eq_getElem (by rwa [length_elements])
  exact ⟨_, hx, get_eq_ok_iff.mpr hx⟩

/-- After the change the new element is read at its position, and the old ones elsewhere. -/
theorem get_of_elements_set {s t : Sequence} {p q : Nat} {x : Value}
    (ht : t.elements = s.elements.set p x) (hq : q < s.length) :
    t.get q = if q = p then .ok x else s.get q := by
  obtain ⟨y, hy, hget⟩ := exists_get hq
  by_cases hqp : q = p
  · subst hqp
    rw [if_pos rfl, get_eq_ok_iff, ht]
    exact List.getElem?_set_self (by rwa [length_elements])
  · rw [if_neg hqp, hget, get_eq_ok_iff, ht, List.getElem?_set_ne (Ne.symm hqp), hy]

theorem length_of_elements_set {s t : Sequence} {p : Nat} {x : Value}
    (ht : t.elements = s.elements.set p x) : t.length = s.length := by
  rw [← length_elements t, ht, List.length_set, length_elements]

/-- A position that is given its own element leaves the sequence as it was. -/
theorem set_of_get {s : Sequence} {p : Nat} {x : Value} (h : s.get p = .ok x) :
    s.set p x = .ok s.toValue := by
  rw [get_eq_ok_iff] at h
  obtain ⟨hp, hx⟩ := List.getElem?_eq_some_iff.mp h
  have haccepts : s.Accepts x := accepts_of_mem (List.mem_of_getElem? h)
  obtain ⟨t, hset, hkind, helements⟩ := set_of_accepts (by rwa [length_elements] at hp) haccepts
  rw [← hx, List.set_getElem_self] at helements
  rw [hset, eq_of_elements hkind helements]

/-! ## Values as sequences -/

theorem length_toValue (s : Sequence) : s.toValue.length = .ok s.length := by
  cases s <;> rfl

theorem values_toValue (s : Sequence) : s.toValue.values = .ok s.elements := by
  cases s <;> rfl

theorem index_toValue (s : Sequence) (k : Value) :
    s.toValue.index k = (s.toValue.resolve s k).bind s.get := by
  cases s <;> rfl

theorem indexSet_toValue (s : Sequence) (k x : Value) :
    s.toValue.indexSet k x = (s.toValue.resolve s k).bind fun p => s.set p x := by
  cases s <;> rfl

theorem resolve_of_addresses {s : Sequence} {i : Int64} {p : Nat}
    (hp : Addresses s.length i.toInt p) : s.toValue.resolve s (.int i) = .ok p := by
  unfold Value.resolve
  dsimp only
  rw [resolve?_eq_some_iff.mpr hp]

/-- Reading and changing go by the position that the index addresses. -/
theorem index_of_addresses {s : Sequence} {i : Int64} {p : Nat}
    (hp : Addresses s.length i.toInt p) : s.toValue.index (.int i) = s.get p := by
  rw [index_toValue, resolve_of_addresses hp]
  rfl

theorem indexSet_of_addresses {s : Sequence} {i : Int64} {p : Nat}
    (hp : Addresses s.length i.toInt p) (x : Value) :
    s.toValue.indexSet (.int i) x = s.set p x := by
  rw [indexSet_toValue, resolve_of_addresses hp]
  rfl

/-! ## Indices that are refused -/

/-- Reading and changing fail alike, whatever the new element. -/
def Refuses (s : Sequence) (k : Value) (fault : Fault) : Prop :=
  s.toValue.index k = .error fault ∧ ∀ x, s.toValue.indexSet k x = .error fault

theorem refuses_of_resolve {s : Sequence} {k : Value} {fault : Fault}
    (h : s.toValue.resolve s k = .error fault) : s.Refuses k fault := by
  refine ⟨?_, fun x => ?_⟩
  · rw [index_toValue, h]
    rfl
  · rw [indexSet_toValue, h]
    rfl

theorem refuses_of_kind_ne {s : Sequence} {k : Value} (hk : k.kind ≠ .int) :
    s.Refuses k (.indexKind s.toValue.kind k.kind) := by
  apply refuses_of_resolve
  cases k with
  | int i => exact absurd rfl hk
  | _ => rfl

theorem refuses_of_outside {s : Sequence} {i : Int64}
    (hi : ¬(-(s.length : Int) ≤ i.toInt ∧ i.toInt < s.length)) :
    s.Refuses (.int i) (.indexRange i s.toValue.kind s.length) := by
  apply refuses_of_resolve
  unfold Value.resolve
  dsimp only
  rw [resolve?_eq_none_iff.mpr hi]

/-! ## The law -/

/-- Reading and changing at an index that addresses a position. -/
structure ActsAt (s : Sequence) (i : Int64) (p : Nat) : Prop where
  /-- What is read is the element there. -/
  read : ∃ x, s.elements[p]? = some x ∧ s.toValue.index (.int i) = .ok x
  /-- A list and a tuple take any element, a text those of one code point. -/
  accepts : ∀ x, (∃ w, s.toValue.indexSet (.int i) x = .ok w) ↔ s.Accepts x
  refuses : ∀ x, ¬s.Accepts x →
    ∃ fault : Fault, fault.code = .typeMismatch ∧ s.toValue.indexSet (.int i) x = .error fault
  /-- After a change the kind and the length are the same, the new element is read at every index of
  its position, and what was there before at every other. -/
  change : ∀ x w, s.toValue.indexSet (.int i) x = .ok w →
    w.kind = s.toValue.kind ∧ w.length = s.toValue.length ∧
    ∀ j q, Addresses s.length j.toInt q →
      w.index (.int j) = if q = p then .ok x else s.toValue.index (.int j)
  /-- Writing back what was read changes nothing. -/
  restore : ∀ x, s.toValue.index (.int i) = .ok x →
    ∃ w, s.toValue.indexSet (.int i) x = .ok w ∧ w.equal s.toValue = true

theorem actsAt_of_addresses {s : Sequence} {i : Int64} {p : Nat}
    (hp : Addresses s.length i.toInt p) : s.ActsAt i p where
  read := by
    rw [index_of_addresses hp]
    exact exists_get hp.1
  accepts x := by
    rw [indexSet_of_addresses hp]
    constructor
    · rintro ⟨w, hw⟩
      exact accepts_of_set hw
    · intro hx
      obtain ⟨t, hset, -⟩ := set_of_accepts hp.1 hx
      exact ⟨t.toValue, hset⟩
  refuses x hx := by
    rw [indexSet_of_addresses hp]
    exact set_of_not_accepts hx
  change x w hw := by
    rw [indexSet_of_addresses hp] at hw
    obtain ⟨t, hset, hkind, helements⟩ := set_of_accepts hp.1 (accepts_of_set hw)
    rw [hset] at hw
    cases hw
    have hlength : t.length = s.length := length_of_elements_set helements
    refine ⟨toValue_kind_congr hkind, ?_, fun j q hq => ?_⟩
    · rw [length_toValue, length_toValue, hlength]
    · rw [index_of_addresses hq, index_of_addresses (hlength ▸ hq)]
      exact get_of_elements_set helements hq.1
  restore x hx := by
    rw [index_of_addresses hp] at hx
    rw [indexSet_of_addresses hp]
    exact ⟨s.toValue, set_of_get hx, Value.equal_self _⟩

/-- Reading and changing at any index. -/
structure PositionLaw (s : Sequence) : Prop where
  /-- The positions are those of the elements. -/
  length : s.toValue.length = .ok s.length ∧ s.elements.length = s.length
  values : s.toValue.values = .ok s.elements
  kind : ∀ k : Value, k.kind ≠ .int →
    ∃ fault : Fault, fault.code = .typeMismatch ∧ s.Refuses k fault
  range : ∀ i : Int64, ¬(-(s.length : Int) ≤ i.toInt ∧ i.toInt < s.length) →
    ∃ fault : Fault, fault.code = .range ∧ s.Refuses (.int i) fault
  /-- Any other index addresses one position, and both operations act there. -/
  position : ∀ i : Int64, -(s.length : Int) ≤ i.toInt ∧ i.toInt < s.length →
    ∃ p, Addresses s.length i.toInt p ∧ s.ActsAt i p ∧
      ∀ q, Addresses s.length i.toInt q → q = p
  /-- A length that fits a word can be added to any negative index without overflow, and arithmetic
  in words resolves every index to the same position. -/
  word : s.length < 0x8000000000000000 → ∀ i : Int64,
    (i < 0 → (Int64.ofNat s.length + i).toInt = s.length + i.toInt) ∧
    resolveWord? i (Int64.ofNat s.length) = resolve? i s.length

/-- **One law for all positions** of texts, lists and tuples: an index value is refused by its kind
or by its range, or else it addresses one position, and then reading and changing agree on it. -/
theorem positions_obey_one_law (s : Sequence) : s.PositionLaw where
  length := ⟨length_toValue s, length_elements s⟩
  values := values_toValue s
  kind k hk := ⟨_, rfl, refuses_of_kind_ne hk⟩
  range i hi := ⟨_, rfl, refuses_of_outside hi⟩
  position i hi := by
    obtain ⟨p, hp⟩ := exists_addresses_iff.mpr hi
    exact ⟨p, hp, actsAt_of_addresses hp, fun q hq => hp.unique hq⟩
  word hn i := ⟨fun hi => toInt_length_add hn hi, resolveWord?_eq_resolve? hn i⟩

/-- The last code point but one of a text in which code points differ in size. -/
example : (Value.str "aé∞").indexSet (.int (-2)) (.str "b") = .ok (.str "ab∞") := by
  rfl

end Sequence

end TaggedValue
