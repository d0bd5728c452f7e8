import TaggedValue.Json.Text
import TaggedValue.Proofs.Outcome
import TaggedValue.Proofs.Parts

/-!
# What trees stand for

An object has one of three forms: the tuple tag with an array, the map tag with an array, or plain
members. Each form has its own equation, lists of trees are read item by item, and `Read` says for
every tree what its value is made of. Whatever is read is ordered, since every map comes out of
`Value.ofPairs`.
-/

namespace TaggedValue

namespace Json

/-! ## The forms of objects -/

/-- The members are not one tag with an array. -/
def Untagged (ms : List (String × Json)) : Prop :=
  ∀ key js, ms = [(key, .array js)] → key ≠ tupleTag ∧ key ≠ mapTag

/-- **Three forms.** Every object is a tagged tuple, a tagged map or has plain members. -/
theorem object_forms (ms : List (String × Json)) :
    (∃ js, ms = [(tupleTag, .array js)]) ∨ (∃ js, ms = [(mapTag, .array js)]) ∨ Untagged ms := by
  by_cases ht : ∃ js, ms = [(tupleTag, .array js)]
  · exact .inl ht
  · by_cases hm : ∃ js, ms = [(mapTag, .array js)]
    · exact .inr (.inl hm)
    · refine .inr (.inr fun key js hms => ⟨?_, ?_⟩)
      · rintro rfl
        exact ht ⟨js, hms⟩
      · rintro rfl
        exact hm ⟨js, hms⟩

theorem toValue_tagged_tuple (js : List Json) :
    (object [(tupleTag, .array js)]).toValue = (toValueItems js).map .tuple := by
  rw [toValue, if_pos rfl]

theorem toValue_tagged_map (js : List Json) :
    (object [(mapTag, .array js)]).toValue = (toValuePairs js).map Value.ofPairs := by
  rw [toValue, if_neg (by decide), if_pos rfl]

theorem toValue_untagged {ms : List (String × Json)} (h : Untagged ms) :
    (object ms).toValue = (toValueMembers ms).map Value.ofPairs := by
  by_cases hms : ∃ key js, ms = [(key, .array js)]
  · obtain ⟨key, js, rfl⟩ := hms
    obtain ⟨htuple, hmap⟩ := h key js rfl
    rw [toValue, if_neg htuple, if_neg hmap, toValueMembers, toValueMembers, toValue]
    cases toValueItems js with
    | error r => rfl
    | ok vs => rfl
  · rw [toValue]
    exact fun key js hms' => hms ⟨key, js, hms'⟩

/-! ## Lists of trees -/

theorem toValueItems_eq_ok_iff {js : List Json} {vs : List Value} :
    toValueItems js = .ok vs ↔ List.Forall₂ (fun j v => j.toValue = .ok v) js vs := by
  induction js generalizing vs with
  | nil =>
      rw [toValueItems, List.forall₂_nil_left_iff, Except.ok.injEq, eq_comm]
  | cons j js ih =>
      rw [toValueItems, gather_eq_ok_iff, List.forall₂_cons_left_iff]
      simp only [ih, eq_comm]
      constructor
      · rintro ⟨v, hv, ws, hws, rfl⟩
        exact ⟨v, ws, hv, hws, rfl⟩
      · rintro ⟨v, ws, hv, hws, rfl⟩
        exact ⟨v, hv, ws, hws, rfl⟩

/-- A member is read as an entry with a text for a key. -/
def MemberReadAs (m : String × Json) (e : Entry) : Prop :=
  e.1 = .str m.1 ∧ m.2.toValue = .ok e.2

theorem toValueMembers_eq_ok_iff {ms : List (String × Json)} {es : List Entry} :
    toValueMembers ms = .ok es ↔ List.Forall₂ MemberReadAs ms es := by
  induction ms generalizing es with
  | nil =>
      rw [toValueMembers, List.forall₂_nil_left_iff, Except.ok.injEq, eq_comm]
  | cons m ms ih =>
      rw [toValueMembers, gather_eq_ok_iff, List.forall₂_cons_left_iff]
      simp only [ih]
      constructor
      · rintro ⟨v, hv, fs, hfs, rfl⟩
        exact ⟨(.str m.1, v), fs, ⟨rfl, hv⟩, hfs, rfl⟩
      · rintro ⟨⟨k, v⟩, fs, ⟨rfl, hv⟩, hfs, rfl⟩
        exact ⟨v, hv, fs, hfs, rfl⟩

/-- A pair is read as an entry. -/
def PairReadAs (j : Json) (e : Entry) : Prop :=
  ∃ k l, j = .array [k, l] ∧ k.toValue = .ok e.1 ∧ l.toValue = .ok e.2

theorem toValuePairs_eq_ok_iff {js : List Json} {es : List Entry} :
    toValuePairs js = .ok es ↔ List.Forall₂ PairReadAs js es := by
  induction js generalizing es with
  | nil =>
      rw [toValuePairs, List.forall₂_nil_left_iff, Except.ok.injEq, eq_comm]
  | cons j js ih =>
      rw [List.forall₂_cons_left_iff]
      by_cases hj : ∃ k l, j = .array [k, l]
      · obtain ⟨k, l, rfl⟩ := hj
        rw [toValuePairs, bind_eq_ok_iff]
        simp only [gather_eq_ok_iff, ih]
        constructor
        · rintro ⟨key, hkey, x, hx, fs, hfs, rfl⟩
          exact ⟨(key, x), fs, ⟨k, l, rfl, hkey, hx⟩, hfs, rfl⟩
        · rintro ⟨⟨key, x⟩, fs, ⟨k', l', hkl, hkey, hx⟩, hfs, rfl⟩
          cases hkl
          exact ⟨key, hkey, x, hx, fs, hfs, rfl⟩
      · rw [toValuePairs]
        · constructor
          · intro h
            cases h
          · rintro ⟨e, fs, ⟨k, l, rfl, -⟩, -⟩
            exact absurd ⟨k, l, rfl⟩ hj
        · exact fun k l hkl => hj ⟨k, l, hkl⟩

/-! ## Every tree -/

/-- What a tree is read as, when its parts are. -/
inductive Read : Json → Value → Prop
  | bool (b : Bool) : Read (.bool b) (.bool b)
  | int (n : Int64) : Read (.number (.int n)) (.int n)
  | float (x : Number.Binary64) (finite : x.isFinite = true) :
      Read (.number (.float x finite)) (.float x)
  | text (s : String) : Read (.text s) (.str s)
  | array {js : List Json} {vs : List Value}
      (items : List.Forall₂ (fun j v => j.toValue = .ok v) js vs) : Read (.array js) (.list vs)
  | taggedTuple {js : List Json} {vs : List Value}
      (items : List.Forall₂ (fun j v => j.toValue = .ok v) js vs) :
      Read (.object [(tupleTag, .array js)]) (.tuple vs)
  | taggedMap {js : List Json} {es : List Entry} (pairs : List.Forall₂ PairReadAs js es) :
      Read (.object [(mapTag, .array js)]) (Value.ofPairs es)
  | members {ms : List (String × Json)} {es : List Entry} (untagged : Untagged ms)
      (members : List.Forall₂ MemberReadAs ms es) : Read (.object ms) (Value.ofPairs es)

/-- **Reading by cases.** A tree is read as a value exactly in the ways that `Read` lists. -/
theorem toValue_eq_ok_iff {j : Json} {v : Value} : j.toValue = .ok v ↔ Read j v := by
  constructor
  · intro h
    cases j with
    | null => cases h
    | bool b =>
        cases h
        exact .bool b
    | number n =>
        cases n with
        | int n =>
            cases h
            exact .int n
        | large n beyond => cases h
        | float x finite =>
            cases h
            exact .float x finite
    | text s =>
        cases h
        exact .text s
    | array js =>
        rw [toValue, map_eq_ok_iff] at h
        obtain ⟨vs, hvs, rfl⟩ := h
        exact .array (toValueItems_eq_ok_iff.mp hvs)
    | object ms =>
        rcases object_forms ms with ⟨js, rfl⟩ | ⟨js, rfl⟩ | huntagged
        · rw [toValue_tagged_tuple, map_eq_ok_iff] at h
          obtain ⟨vs, hvs, rfl⟩ := h
          exact .taggedTuple (toValueItems_eq_ok_iff.mp hvs)
        · rw [toValue_tagged_map, map_eq_ok_iff] at h
          obtain ⟨es, hes, rfl⟩ := h
          exact .taggedMap (toValuePairs_eq_ok_iff.mp hes)
        · rw [toValue_untagged huntagged, map_eq_ok_iff] at h
          obtain ⟨es, hes, rfl⟩ := h
          exact .members huntagged (toValueMembers_eq_ok_iff.mp hes)
  · intro h
    cases h with
    | bool b => rfl
    | int n => rfl
    | float x finite => rfl
    | text s => rfl
    | array items =>
        rw [toValue, toValueItems_eq_ok_iff.mpr items]
        rfl
    | taggedTuple items =>
        rw [toValue_tagged_tuple, toValueItems_eq_ok_iff.mpr items]
        rfl
    | taggedMap pairs =>
        rw [toValue_tagged_map, toValuePairs_eq_ok_iff.mpr pairs]
        rfl
    | members untagged members =>
        rw [toValue_untagged untagged, toValueMembers_eq_ok_iff.mpr members]
        rfl

/-- Pairs are read as lists of two. -/
theorem items_of_pairs {js : List Json} {es : List Entry} (h : List.Forall₂ PairReadAs js es) :
    List.Forall₂ (fun j v => j.toValue = .ok v) js (es.map fun e => .list [e.1, e.2]) := by
  rw [List.forall₂_map_right_iff]
  refine h.imp ?_
  rintro j e ⟨k, l, rfl, hk, hl⟩
  exact toValue_eq_ok_iff.mpr (.array (.cons hk (.cons hl .nil)))

/-! ## What is read is ordered -/

theorem sizeOf_lt_array {j : Json} {js : List Json} (h : j ∈ js) :
    sizeOf j < sizeOf (array js) := by
  have hlt := List.sizeOf_lt_of_mem h
  rw [array.sizeOf_spec]
  omega

theorem sizeOf_lt_object {m : String × Json} {ms : List (String × Json)} (h : m ∈ ms) :
    sizeOf m.2 < sizeOf (object ms) := by
  obtain ⟨name, j⟩ := m
  have hlt := List.sizeOf_lt_of_mem h
  rw [Prod.mk.sizeOf_spec] at hlt
  show sizeOf j < sizeOf (object ms)
  rw [object.sizeOf_spec]
  omega

theorem sizeOf_lt_tagged (tag : String) (js : List Json) :
    sizeOf (array js) < sizeOf (object [(tag, .array js)]) :=
  sizeOf_lt_object (m := (tag, .array js)) List.mem_cons_self

/-- **Induction on what is read.** What holds of the leaves that trees have, and of lists, tuples and
maps made of values of which it holds, holds of every value that a tree stands for. -/
theorem toValue_induction {P : Value → Prop} (bool : ∀ b, P (.bool b)) (int : ∀ n, P (.int n))
    (float : ∀ x : Number.Binary64, x.isFinite = true → P (.float x)) (str : ∀ s, P (.str s))
    (list : ∀ vs : List Value, (∀ v ∈ vs, P v) → P (.list vs))
    (tuple : ∀ vs : List Value, (∀ v ∈ vs, P v) → P (.tuple vs))
    (map : ∀ ps : List Entry, (∀ p ∈ ps, P p.1 ∧ P p.2) → P (Value.ofPairs ps))
    {j : Json} {v : Value} (h : j.toValue = .ok v) : P v := by
  induction j using (measure (sizeOf : Json → Nat)).wf.induction generalizing v with
  | _ j ih =>
  cases toValue_eq_ok_iff.mp h with
  | bool b => exact bool b
  | int n => exact int n
  | float x finite => exact float x finite
  | text s => exact str s
  | array items =>
      refine list _ (forall_of_forall₂_right items fun k hk v hv => ?_)
      exact ih k (sizeOf_lt_array hk) hv
  | @taggedTuple js vs items =>
      refine tuple _ (forall_of_forall₂_right items fun k hk v hv => ?_)
      exact ih k (Nat.lt_trans (sizeOf_lt_array hk) (sizeOf_lt_tagged tupleTag js)) hv
  | @taggedMap js es pairs =>
      refine map _ (forall_of_forall₂_right pairs ?_)
      rintro _ hpair e ⟨k, l, rfl, hk, hl⟩
      have hlt := Nat.lt_trans (sizeOf_lt_array hpair) (sizeOf_lt_tagged mapTag js)
      exact ⟨ih k (Nat.lt_trans (sizeOf_lt_array (by simp)) hlt) hk,
        ih l (Nat.lt_trans (sizeOf_lt_array (by simp)) hlt) hl⟩
  | members untagged members =>
      refine map _ (forall_of_forall₂_right members fun m hm e he => ⟨?_, ?_⟩)
      · rw [he.1]
        exact str m.1
      · exact ih m.2 (sizeOf_lt_object hm) he.2

/-- **Reading gives order.** Every map in what a tree stands for is in order, whatever members and
pairs the tree has. -/
theorem ordered_of_toValue {j : Json} {v : Value} (h : j.toValue = .ok v) : v.Ordered := by
  refine toValue_induction ?bool ?int ?float ?str ?list ?tuple ?map h
  case bool | int => exact fun _ => Value.ordered_of_isScalar rfl
  case float => exact fun _ _ => Value.ordered_of_isScalar rfl
  case str => exact Value.ordered_str
  case list => exact fun _ => Value.ordered_list_iff.mpr
  case tuple => exact fun _ => Value.ordered_tuple_iff.mpr
  case map => exact fun _ => Value.ordered_ofPairs

end Json

end TaggedValue
