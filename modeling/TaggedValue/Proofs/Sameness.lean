import Mathlib.Data.List.Forall2
import TaggedValue.Proofs.Order
import TaggedValue.Value.Entries
import TaggedValue.Value.Equality
import TaggedValue.Value.Hash

/-!
# Equality, order and hash agree

Three recursions look at pairs of values: equality tests lengths and then goes along both sides,
the comparison stops at the first difference, and the hash flattens one value into a stream. What
they agree on is the relation `Same`, which only says what it is for two values to be the same:
payloads of one kind, position by position. Each of the three is compared with it by one induction
over values, items and entries.
-/

namespace TaggedValue.Value

open Number (Binary64)

/-! ## The same value -/

/-- Two values are the same if they are of one kind and hold the same payload: the same text,
integer or truth value, the same 64 bits, the same object, or the same parts in the same places. -/
inductive Same : Value → Value → Prop
  | str (s : String) : Same (.str s) (.str s)
  | int (n : Int64) : Same (.int n) (.int n)
  | float {x y : Binary64} (bits : x.bits = y.bits) : Same (.float x) (.float y)
  | bool (b : Bool) : Same (.bool b) (.bool b)
  | list {vs ws : List Value} (items : List.Forall₂ Same vs ws) : Same (.list vs) (.list ws)
  | tuple {vs ws : List Value} (items : List.Forall₂ Same vs ws) : Same (.tuple vs) (.tuple ws)
  | map {es fs : List Entry} (keys : List.Forall₂ Same (Entries.keys es) (Entries.keys fs))
      (values : List.Forall₂ Same (Entries.values es) (Entries.values fs)) :
      Same (.map es) (.map fs)
  | object {o p : Object} (identity : o.identity = p.identity) : Same (.object o) (.object p)

theorem Same.kind_eq {a b : Value} (h : Same a b) : a.kind = b.kind := by
  cases h <;> rfl

@[simp] theorem same_str_iff {s t : String} : Same (.str s) (.str t) ↔ s = t :=
  ⟨fun h => by cases h; rfl, fun h => h ▸ .str s⟩

@[simp] theorem same_int_iff {m n : Int64} : Same (.int m) (.int n) ↔ m = n :=
  ⟨fun h => by cases h; rfl, fun h => h ▸ .int m⟩

@[simp] theorem same_float_iff {x y : Binary64} :
    Same (.float x) (.float y) ↔ x.bits = y.bits :=
  ⟨fun h => by cases h; assumption, .float⟩

@[simp] theorem same_bool_iff {a b : Bool} : Same (.bool a) (.bool b) ↔ a = b :=
  ⟨fun h => by cases h; rfl, fun h => h ▸ .bool a⟩

@[simp] theorem same_list_iff {vs ws : List Value} :
    Same (.list vs) (.list ws) ↔ List.Forall₂ Same vs ws :=
  ⟨fun h => by cases h; assumption, .list⟩

@[simp] theorem same_tuple_iff {vs ws : List Value} :
    Same (.tuple vs) (.tuple ws) ↔ List.Forall₂ Same vs ws :=
  ⟨fun h => by cases h; assumption, .tuple⟩

@[simp] theorem same_map_iff {es fs : List Entry} :
    Same (.map es) (.map fs) ↔
      List.Forall₂ Same (Entries.keys es) (Entries.keys fs) ∧
      List.Forall₂ Same (Entries.values es) (Entries.values fs) :=
  ⟨fun h => by cases h with | map hk hv => exact ⟨hk, hv⟩, fun h => .map h.1 h.2⟩

@[simp] theorem same_object_iff {o p : Object} :
    Same (.object o) (.object p) ↔ o.identity = p.identity :=
  ⟨fun h => by cases h; assumption, .object⟩

/-! ## Floating-point numbers -/

theorem rank_eq_rank_iff {x y : Binary64} : x.rank = y.rank ↔ x.bits = y.bits := by
  constructor
  · intro h
    have hx := x.bits.toNat_lt
    have hy := y.bits.toNat_lt
    unfold Binary64.rank Binary64.isNegative Binary64.pattern Binary64.signBit at h
    apply UInt64.toNat_inj.mp
    simp only [decide_eq_true_eq] at h
    split at h <;> split at h <;> omega
  · intro h
    unfold Binary64.rank Binary64.isNegative Binary64.pattern
    rw [h]

theorem compare_float_eq_eq_iff {x y : Binary64} : x.compare y = .eq ↔ x.bits = y.bits :=
  Std.LawfulEqOrd.compare_eq_iff_eq.trans rank_eq_rank_iff

/-! ## The comparison finds the same values -/

theorem compare_eq_eq_iff_same_of_kind_ne {a b : Value} (h : a.kind ≠ b.kind) :
    a.compare b = .eq ↔ Same a b := by
  rw [compare_of_kind_ne h]
  exact iff_of_false (compare_rank_ne_eq h) fun hs => h hs.kind_eq

theorem length_eq_of_forall₂_keys {es fs : List Entry}
    (h : List.Forall₂ Same (Entries.keys es) (Entries.keys fs)) : es.length = fs.length := by
  simpa [Entries.keys] using h.length_eq

theorem forall₂_same_entries_cons {k l v w : Value} {es fs : List Entry} :
    (List.Forall₂ Same (Entries.keys ((k, v) :: es)) (Entries.keys ((l, w) :: fs)) ∧
        List.Forall₂ Same (Entries.values ((k, v) :: es)) (Entries.values ((l, w) :: fs))) ↔
      (Same k l ∧ Same v w) ∧
        List.Forall₂ Same (Entries.keys es) (Entries.keys fs) ∧
        List.Forall₂ Same (Entries.values es) (Entries.values fs) := by
  simp only [Entries.keys, Entries.values, List.map_cons, List.forall₂_cons]
  tauto

mutual

theorem compare_eq_eq_iff_same : ∀ a b : Value, a.compare b = .eq ↔ Same a b
  | .str _, b => by
      cases b with
      | str _ => simp [Value.compare]
      | _ => exact compare_eq_eq_iff_same_of_kind_ne (by simp [kind])
  | .int _, b => by
      cases b with
      | int _ => simp [Value.compare]
      | _ => exact compare_eq_eq_iff_same_of_kind_ne (by simp [kind])
  | .float _, b => by
      cases b with
      | float _ => simp [Value.compare, compare_float_eq_eq_iff]
      | _ => exact compare_eq_eq_iff_same_of_kind_ne (by simp [kind])
  | .bool _, b => by
      cases b with
      | bool _ => simp [Value.compare]
      | _ => exact compare_eq_eq_iff_same_of_kind_ne (by simp [kind])
  | .list vs, b => by
      cases b with
      | list ws => 
          rw [Value.compare, Ordering.then_eq_eq, Std.LawfulEqOrd.compare_eq_iff_eq,
            compareItems_eq_eq_iff vs ws, same_list_iff]
          exact and_iff_right_of_imp List.Forall₂.length_eq
      | _ => exact compare_eq_eq_iff_same_of_kind_ne (by simp [kind])
  | .tuple vs, b => by
      cases b with
      | tuple ws => rw [Value.compare, compareItems_eq_eq_iff vs ws, same_tuple_iff]
      | _ => exact compare_eq_eq_iff_same_of_kind_ne (by simp [kind])
  | .map es, b => by
      cases b with
      | map fs => 
          rw [Value.compare, Ordering.then_eq_eq, Std.LawfulEqOrd.compare_eq_iff_eq,
            compareEntries_eq_eq_iff es fs, same_map_iff]
          exact and_iff_right_of_imp fun h => length_eq_of_forall₂_keys h.1
      | _ => exact compare_eq_eq_iff_same_of_kind_ne (by simp [kind])
  | .object _, b => by
      cases b with
      | object _ => simp [Value.compare]
      | _ => exact compare_eq_eq_iff_same_of_kind_ne (by simp [kind])

theorem compareItems_eq_eq_iff :
    ∀ vs ws : List Value, compareItems vs ws = .eq ↔ List.Forall₂ Same vs ws
  | [], [] => by simp [compareItems]
  | [], _ :: _ => by simp [compareItems]
  | _ :: _, [] => by simp [compareItems]
  | v :: vs, w :: ws => by
      rw [compareItems, Ordering.then_eq_eq, compare_eq_eq_iff_same v w,
        compareItems_eq_eq_iff vs ws, List.forall₂_cons]

theorem compareEntries_eq_eq_iff : ∀ es fs : List (Value × Value),
    compareEntries es fs = .eq ↔
      List.Forall₂ Same (Entries.keys es) (Entries.keys fs) ∧
      List.Forall₂ Same (Entries.values es) (Entries.values fs)
  | [], [] => by simp [compareEntries, Entries.keys, Entries.values]
  | [], _ :: _ => by simp [compareEntries, Entries.keys]
  | _ :: _, [] => by simp [compareEntries, Entries.keys]
  | (k, v) :: es, (l, w) :: fs => by
      rw [compareEntries, Ordering.then_eq_eq, Ordering.then_eq_eq, compare_eq_eq_iff_same k l,
        compare_eq_eq_iff_same v w, compareEntries_eq_eq_iff es fs, forall₂_same_entries_cons]

end

/-! ## Equality finds the same values -/

theorem equal_iff_same_of_kind_ne {a b : Value} (h : a.kind ≠ b.kind) :
    a.equal b = true ↔ Same a b := by
  have hf : a.equal b = false := by
    cases a <;> cases b <;> first | rfl | exact absurd rfl h
  rw [hf]
  exact iff_of_false Bool.false_ne_true fun hs => h hs.kind_eq

mutual

theorem equal_iff_same : ∀ a b : Value, a.equal b = true ↔ Same a b
  | .str _, b => by
      cases b with
      | str _ => simp [equal]
      | _ => exact equal_iff_same_of_kind_ne (by simp [kind])
  | .int _, b => by
      cases b with
      | int _ => simp [equal]
      | _ => exact equal_iff_same_of_kind_ne (by simp [kind])
  | .float _, b => by
      cases b with
      | float _ => simp [equal, compare_float_eq_eq_iff]
      | _ => exact equal_iff_same_of_kind_ne (by simp [kind])
  | .bool _, b => by
      cases b with
      | bool _ => simp [equal]
      | _ => exact equal_iff_same_of_kind_ne (by simp [kind])
  | .list vs, b => by
      cases b with
      | list ws => rw [equal, equalPairwise_iff vs ws, same_list_iff]
      | _ => exact equal_iff_same_of_kind_ne (by simp [kind])
  | .tuple vs, b => by
      cases b with
      | tuple ws => rw [equal, equalPairwise_iff vs ws, same_tuple_iff]
      | _ => exact equal_iff_same_of_kind_ne (by simp [kind])
  | .map es, b => by
      cases b with
      | map fs => rw [equal, equalEntries_iff es fs, same_map_iff]
      | _ => exact equal_iff_same_of_kind_ne (by simp [kind])
  | .object _, b => by
      cases b with
      | object _ => simp [equal]
      | _ => exact equal_iff_same_of_kind_ne (by simp [kind])

/-- Going along both sides finds the same items, provided that there are equally many. -/
theorem equalPairwise_iff : ∀ vs ws : List Value,
    (vs.length == ws.length && equalPairwise vs ws) = true ↔ List.Forall₂ Same vs ws
  | [], [] => by simp [equalPairwise]
  | [], _ :: _ => by simp
  | _ :: _, [] => by simp
  | v :: vs, w :: ws => by
      have ih := equalPairwise_iff vs ws
      simp only [Bool.and_eq_true, beq_iff_eq] at ih
      rw [List.forall₂_cons, ← equal_iff_same v w, ← ih]
      simp only [equalPairwise, List.length_cons, Bool.and_eq_true, beq_iff_eq,
        Nat.add_right_cancel_iff]
      tauto

theorem equalEntries_iff : ∀ es fs : List (Value × Value),
    (es.length == fs.length && equalEntries es fs) = true ↔
      List.Forall₂ Same (Entries.keys es) (Entries.keys fs) ∧
      List.Forall₂ Same (Entries.values es) (Entries.values fs)
  | [], [] => by simp [equalEntries, Entries.keys, Entries.values]
  | [], _ :: _ => by simp [Entries.keys]
  | _ :: _, [] => by simp [Entries.keys]
  | (k, v) :: es, (l, w) :: fs => by
      have ih := equalEntries_iff es fs
      simp only [Bool.and_eq_true, beq_iff_eq] at ih
      rw [forall₂_same_entries_cons, ← equal_iff_same k l, ← equal_iff_same v w, ← ih]
      simp only [equalEntries, List.length_cons, Bool.and_eq_true, beq_iff_eq,
        Nat.add_right_cancel_iff]
      tauto

end

/-! ## The same values feed the same stream -/

mutual

theorem tokens_eq_of_same : ∀ a b : Value, Same a b → a.tokens = b.tokens
  | _, _, .str _ => rfl
  | _, _, .int _ => rfl
  | _, _, .float h => by rw [tokens, tokens, h]
  | _, _, .bool _ => rfl
  | .list vs, .list ws, h => by
      rw [tokens, tokens, tokensItems_eq_of_same vs ws (same_list_iff.mp h)]
  | .tuple vs, .tuple ws, h => by
      have hs := same_tuple_iff.mp h
      rw [tokens, tokens, tokensItems_eq_of_same vs ws hs, hs.length_eq]
  | .map es, .map fs, h => by
      obtain ⟨hk, hv⟩ := same_map_iff.mp h
      rw [tokens, tokens, tokensEntries_eq_of_same es fs hk hv]
  | _, _, .object h => by rw [tokens, tokens, h]

theorem tokensItems_eq_of_same :
    ∀ vs ws : List Value, List.Forall₂ Same vs ws → tokensItems vs = tokensItems ws
  | [], [], _ => rfl
  | v :: vs, w :: ws, h => by
      obtain ⟨hv, hvs⟩ := List.forall₂_cons.mp h
      rw [tokensItems, tokensItems, tokens_eq_of_same v w hv, tokensItems_eq_of_same vs ws hvs]

theorem tokensEntries_eq_of_same : ∀ es fs : List (Value × Value),
    List.Forall₂ Same (Entries.keys es) (Entries.keys fs) →
    List.Forall₂ Same (Entries.values es) (Entries.values fs) →
    tokensEntries es = tokensEntries fs
  | [], [], _, _ => rfl
  | (k, v) :: es, (l, w) :: fs, hk, hv => by
      obtain ⟨⟨hkl, hvw⟩, hks, hvs⟩ := forall₂_same_entries_cons.mp ⟨hk, hv⟩
      rw [tokensEntries, tokensEntries, tokens_eq_of_same k l hkl, tokens_eq_of_same v w hvw,
        tokensEntries_eq_of_same es fs hks hvs]

end

/-! ## What they agree on -/

instance : Std.LawfulBEqOrd Value where
  compare_eq_iff_beq {a b} := (compare_eq_eq_iff_same a b).trans (equal_iff_same a b).symm

theorem equal_iff_compare_eq_eq {a b : Value} : a.equal b = true ↔ a.compare b = .eq :=
  (equal_iff_same a b).trans (compare_eq_eq_iff_same a b).symm

theorem equal_self (a : Value) : a.equal a = true :=
  equal_iff_compare_eq_eq.mpr Std.ReflCmp.compare_self

theorem equal_comm (a b : Value) : a.equal b = b.equal a := by
  rw [Bool.eq_iff_iff, equal_iff_compare_eq_eq, equal_iff_compare_eq_eq]
  exact ⟨Std.OrientedCmp.eq_symm, Std.OrientedCmp.eq_symm⟩

/-- Equal values are equal to the same values. -/
theorem equal_congr_left {a b : Value} (h : a.equal b = true) (c : Value) :
    a.equal c = b.equal c := by
  rw [Bool.eq_iff_iff, equal_iff_compare_eq_eq, equal_iff_compare_eq_eq,
    Std.TransCmp.congr_left (equal_iff_compare_eq_eq.mp h)]

theorem equal_congr_right {a b : Value} (h : a.equal b = true) (c : Value) :
    c.equal a = c.equal b := by
  rw [equal_comm c a, equal_comm c b, equal_congr_left h]

theorem equal_eq_false_iff {a b : Value} : a.equal b = false ↔ a.compare b ≠ .eq := by
  rw [← Bool.not_eq_true, equal_iff_compare_eq_eq]

theorem equal_eq_false_of_lt {a b : Value} (h : a.compare b = .lt) : a.equal b = false :=
  equal_eq_false_iff.mpr (by simp [h])

/-- **Equality, order and hash agree** at every nesting: two values are equal exactly when they
compare as equal, exactly when they are the same value, and then they feed the same stream. -/
theorem equality_order_hash_agree (a b : Value) :
    (a.equal b = true ↔ a.compare b = .eq) ∧
    (a.compare b = .eq ↔ Same a b) ∧
    (a.equal b = true → a.tokens = b.tokens) := by
  refine ⟨equal_iff_compare_eq_eq, compare_eq_eq_iff_same a b, ?_⟩
  intro h
  exact tokens_eq_of_same a b ((equal_iff_same a b).mp h)

/-- An object is known by its identity alone, here below a key that is not a number. -/
theorem equality_order_hash_agree_shared_object :
    (map [(tuple [float ⟨0x7ff8000000000001⟩], list [object ⟨7, "Note", .record "a"⟩])]).equal
        (map [(tuple [float ⟨0x7ff8000000000001⟩], list [object ⟨7, "Note", .record "b"⟩])]) =
      true ∧
    (map [(tuple [float ⟨0x7ff8000000000001⟩], list [object ⟨7, "Note", .record "a"⟩])]).tokens =
      (map [(tuple [float ⟨0x7ff8000000000001⟩], list [object ⟨7, "Note", .record "b"⟩])]).tokens := by
  have h : (map [(tuple [float ⟨0x7ff8000000000001⟩],
        list [object ⟨7, "Note", .record "a"⟩])]).equal
      (map [(tuple [float ⟨0x7ff8000000000001⟩], list [object ⟨7, "Note", .record "b"⟩])]) =
        true := by
    decide
  exact ⟨h, (equality_order_hash_agree _ _).2.2 h⟩

/-- Neither the zeros nor numbers of different kinds are equal. -/
example : equal (float ⟨0⟩) (float ⟨0x8000000000000000⟩) = false ∧
    equal (int 0) (bool false) = false := by
  decide

end TaggedValue.Value
