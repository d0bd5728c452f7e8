import TaggedValue.Value.Order

/-!
# The order of values is total

The comparison of values is an early-exit recursion over nested lists, tuples and maps with a
different rule for each. Here it is tied to something flat: every value has a *sort key*, a row of
numbers and texts, and two values compare as their sort keys do lexicographically
(`compare_sortKey`). A sort key says where it ends, so keys can be written one behind another and
still be compared part by part; this is the generalisation that carries the induction
(`compare_sortKey_append`). Totality and transitivity at every nesting are then those of rows of
marks.
-/

namespace TaggedValue

/-! ## Marks -/

/-- One mark of a sort key. -/
inductive Mark
  | number (n : Int)
  | text (s : String)
deriving DecidableEq, Repr

namespace Mark

/-- Numbers come before texts. -/
protected def compare : Mark → Mark → Ordering
  | .number m, .number n => Ord.compare m n
  | .number _, .text _ => .lt
  | .text _, .number _ => .gt
  | .text s, .text t => Ord.compare s t

instance : Ord Mark := ⟨Mark.compare⟩

@[simp] theorem compare_number (m n : Int) :
    Ord.compare (number m) (number n) = Ord.compare m n := rfl

@[simp] theorem compare_text (s t : String) :
    Ord.compare (text s) (text t) = Ord.compare s t := rfl

@[simp] theorem compare_number_text (n : Int) (s : String) :
    Ord.compare (number n) (text s) = .lt := rfl

@[simp] theorem compare_text_number (s : String) (n : Int) :
    Ord.compare (text s) (number n) = .gt := rfl

instance : Std.TransOrd Mark where
  eq_swap {a b} := by
    cases a <;> cases b <;> simp [← Std.OrientedOrd.eq_swap]
  isLE_trans {a b c} hab hbc := by
    cases a <;> cases b <;> cases c <;> simp at hab hbc ⊢
    · exact Std.TransOrd.isLE_trans hab hbc
    · exact Std.TransOrd.isLE_trans hab hbc

instance : Std.LawfulEqOrd Mark where
  compare_self {a} := by cases a <;> simp
  eq_of_compare {a b} h := by cases a <;> cases b <;> simp_all

/-- The mark of a kind. -/
def ofKind (k : Kind) : Mark := number k.rank

end Mark

namespace Value

/-! ## Sort keys -/

mutual

/-- The sort key of a value: its kind, then its payload. Lists and maps announce their length. -/
def sortKey : Value → List Mark
  | .bool b => [.ofKind .bool, .number b.toNat]
  | .int n => [.ofKind .int, .number n.toInt]
  | .float x => [.ofKind .float, .number x.rank]
  | .str s => [.ofKind .str, .text s]
  | .list vs => .ofKind .list :: .number vs.length :: sortKeyItems vs
  | .tuple vs => .ofKind .tuple :: sortKeyItems vs
  | .map es => .ofKind .map :: .number es.length :: sortKeyEntries es
  | .object o => [.ofKind .object, .number o.identity]
termination_by structural v => v

/-- The sort keys of items, each behind a `1`, and a `0` at the end. -/
def sortKeyItems : List Value → List Mark
  | [] => [.number 0]
  | v :: vs => .number 1 :: (sortKey v ++ sortKeyItems vs)
termination_by structural vs => vs

/-- The sort keys of entries, a key before its value. -/
def sortKeyEntries : List (Value × Value) → List Mark
  | [] => [.number 0]
  | (k, v) :: es => .number 1 :: (sortKey k ++ (sortKey v ++ sortKeyEntries es))
termination_by structural es => es

end

/-! ## Numbers of other types compare as integers -/

theorem compare_natCast (m n : Nat) :
    Ord.compare (m : Int) (n : Int) = Ord.compare m n := by
  simp only [Ord.compare, compareOfLessAndEq, Int.ofNat_lt, Int.natCast_inj]

theorem compare_toInt (m n : Int64) :
    Ord.compare m.toInt n.toInt = Ord.compare m n := by
  simp only [Ord.compare, compareOfLessAndEq, Int64.lt_iff_toInt_lt, ← Int64.toInt_inj]

theorem compare_toNat (a b : Bool) :
    Ord.compare (a.toNat : Int) (b.toNat : Int) = Ord.compare a b := by
  cases a <;> cases b <;> rfl

/-! ## Texts compare as strings -/

theorem compare_str_eq_lt_iff {a b : String} :
    (Value.str a).compare (.str b) = .lt ↔ a < b := by
  rw [Value.compare]
  exact compareOfLessAndEq_eq_lt

theorem compare_str_eq_eq_iff {a b : String} :
    (Value.str a).compare (.str b) = .eq ↔ a = b := by
  rw [Value.compare]
  exact Std.LawfulEqOrd.compare_eq_iff_eq

theorem compare_str_eq_gt_iff {a b : String} :
    (Value.str a).compare (.str b) = .gt ↔ b < a := by
  rw [← compare_str_eq_lt_iff, Value.compare, Value.compare]
  exact Std.OrientedCmp.gt_iff_lt

/-! ## Values of different kinds -/

theorem compare_ofKind (j k : Kind) :
    Ord.compare (Mark.ofKind j) (Mark.ofKind k) = Ord.compare j.rank k.rank :=
  compare_natCast j.rank k.rank

theorem sortKey_eq_cons (v : Value) : ∃ r, sortKey v = .ofKind v.kind :: r := by
  cases v <;> exact ⟨_, rfl⟩

theorem compare_of_kind_ne {a b : Value} (h : a.kind ≠ b.kind) :
    a.compare b = Ord.compare a.kind.rank b.kind.rank := by
  cases a <;> cases b <;> first | rfl | exact absurd rfl h

theorem compare_rank_ne_eq {j k : Kind} (h : j ≠ k) : Ord.compare j.rank k.rank ≠ .eq :=
  fun he => h (Kind.rank_inj (Std.LawfulEqOrd.eq_of_compare he))

/-- The first mark tells values of different kinds apart. -/
theorem compare_sortKey_of_kind_ne {a b : Value} (h : a.kind ≠ b.kind) (x y : List Mark) :
    Ord.compare (a.sortKey ++ x) (b.sortKey ++ y) =
      (a.compare b).then (Ord.compare x y) := by
  obtain ⟨r, hr⟩ := sortKey_eq_cons a
  obtain ⟨s, hs⟩ := sortKey_eq_cons b
  rw [hr, hs, List.cons_append, List.cons_append, List.compare_cons_cons, compare_ofKind,
    compare_of_kind_ne h]
  cases hc : Ord.compare a.kind.rank b.kind.rank with
  | lt => rfl
  | eq => exact absurd hc (compare_rank_ne_eq h)
  | gt => rfl

/-! ## Values compare as their sort keys -/

mutual

/-- What stands behind two sort keys decides exactly when the values compare as equal. -/
theorem compare_sortKey_append : ∀ (a b : Value) (x y : List Mark),
    Ord.compare (sortKey a ++ x) (sortKey b ++ y) =
      (Value.compare a b).then (Ord.compare x y)
  | .str p, b, x, y => by
      cases b with
      | str q => simp [sortKey, Value.compare]
      | _ => exact compare_sortKey_of_kind_ne (by simp [kind]) x y
  | .int p, b, x, y => by
      cases b with
      | int q => simp [sortKey, Value.compare, compare_toInt]
      | _ => exact compare_sortKey_of_kind_ne (by simp [kind]) x y
  | .float p, b, x, y => by
      cases b with
      | float q => simp [sortKey, Value.compare, Number.Binary64.compare]
      | _ => exact compare_sortKey_of_kind_ne (by simp [kind]) x y
  | .bool p, b, x, y => by
      cases b with
      | bool q => simp [sortKey, Value.compare, compare_toNat]
      | _ => exact compare_sortKey_of_kind_ne (by simp [kind]) x y
  | .list vs, b, x, y => by
      cases b with
      | list ws =>
          simp [sortKey, Value.compare, compare_natCast, compare_sortKeyItems_append vs ws,
            Ordering.then_assoc]
      | _ => exact compare_sortKey_of_kind_ne (by simp [kind]) x y
  | .tuple vs, b, x, y => by
      cases b with
      | tuple ws => simp [sortKey, Value.compare, compare_sortKeyItems_append vs ws]
      | _ => exact compare_sortKey_of_kind_ne (by simp [kind]) x y
  | .map es, b, x, y => by
      cases b with
      | map fs =>
          simp [sortKey, Value.compare, compare_natCast, compare_sortKeyEntries_append es fs,
            Ordering.then_assoc]
      | _ => exact compare_sortKey_of_kind_ne (by simp [kind]) x y
  | .object o, b, x, y => by
      cases b with
      | object p => simp [sortKey, Value.compare, compare_natCast]
      | _ => exact compare_sortKey_of_kind_ne (by simp [kind]) x y

theorem compare_sortKeyItems_append : ∀ (vs ws : List Value) (x y : List Mark),
    Ord.compare (sortKeyItems vs ++ x) (sortKeyItems ws ++ y) =
      (compareItems vs ws).then (Ord.compare x y)
  | [], [], x, y => by simp [sortKeyItems, compareItems]
  | [], _ :: _, _, _ => rfl
  | _ :: _, [], _, _ => rfl
  | v :: vs, w :: ws, x, y => by
      simp [sortKeyItems, compareItems, compare_sortKey_append v w,
        compare_sortKeyItems_append vs ws, Ordering.then_assoc]

theorem compare_sortKeyEntries_append : ∀ (es fs : List (Value × Value)) (x y : List Mark),
    Ord.compare (sortKeyEntries es ++ x) (sortKeyEntries fs ++ y) =
      (compareEntries es fs).then (Ord.compare x y)
  | [], [], x, y => by simp [sortKeyEntries, compareEntries]
  | [], _ :: _, _, _ => rfl
  | _ :: _, [], _, _ => rfl
  | (k, v) :: es, (l, w) :: fs, x, y => by
      simp [sortKeyEntries, compareEntries, compare_sortKey_append k l,
        compare_sortKey_append v w, compare_sortKeyEntries_append es fs, Ordering.then_assoc]

end

/-- Values compare as their sort keys do lexicographically. -/
theorem compare_sortKey (a b : Value) :
    a.compare b = Ord.compare a.sortKey b.sortKey := by
  have h := compare_sortKey_append a b [] []
  simpa using h.symm

/-! ## The laws of the order -/

instance : Std.TransCmp Value.compare where
  eq_swap {a b} := by
    rw [compare_sortKey, compare_sortKey]
    exact Std.OrientedOrd.eq_swap
  isLE_trans {a b c} hab hbc := by
    rw [compare_sortKey] at hab hbc ⊢
    exact Std.TransOrd.isLE_trans hab hbc

instance : Std.TransOrd Value := inferInstanceAs (Std.TransCmp Value.compare)

/-- Between two values that compare as equal there is no room for a third. -/
theorem compare_eq_eq_of_between {a b c : Value} (hab : (a.compare b).isLE)
    (hbc : (b.compare c).isLE) (hac : a.compare c = .eq) : a.compare b = .eq := by
  have hba : (b.compare a).isLE := by
    rw [Std.TransCmp.congr_right hac]
    exact hbc
  exact Std.OrientedCmp.isLE_antisymm hab hba

/-- **The order of values is total**, at every nesting: a value compares as equal to itself,
swapping the sides swaps the outcome, and "not greater" is transitive, where the ends compare as
equal only if both steps do. -/
theorem compare_is_total_order (a b c : Value) :
    a.compare a = .eq ∧
    b.compare a = (a.compare b).swap ∧
    (a.compare b ≠ .gt → b.compare c ≠ .gt →
      a.compare c ≠ .gt ∧
      (a.compare c = .eq ↔ a.compare b = .eq ∧ b.compare c = .eq)) := by
  refine ⟨Std.ReflCmp.compare_self, Std.OrientedCmp.eq_swap, ?_⟩
  intro hab hbc
  rw [ne_eq, Ordering.ne_gt_iff_isLE] at hab hbc ⊢
  refine ⟨Std.TransCmp.isLE_trans hab hbc, ?_, ?_⟩
  · intro hac
    have heq : a.compare b = .eq := compare_eq_eq_of_between hab hbc hac
    refine ⟨heq, ?_⟩
    rw [← Std.TransCmp.congr_left heq]
    exact hac
  · rintro ⟨heq, hbc'⟩
    exact Std.TransCmp.eq_trans heq hbc'

/-- A short map, a longer one, and one whose first value is the other zero. -/
theorem compare_is_total_order_nested_maps :
    (map [(map [(bool true, int 1)], str "z")]).compare
        (map [(int (-1), float ⟨0x8000000000000000⟩), (tuple [int 2], list [])]) ≠ .gt ∧
    (map [(int (-1), float ⟨0x8000000000000000⟩), (tuple [int 2], list [])]).compare
        (map [(int (-1), float ⟨0⟩), (tuple [int 1, int 9], list [])]) ≠ .gt ∧
    (map [(map [(bool true, int 1)], str "z")]).compare
        (map [(int (-1), float ⟨0⟩), (tuple [int 1, int 9], list [])]) ≠ .gt := by
  have hab : (map [(map [(bool true, int 1)], str "z")]).compare
      (map [(int (-1), float ⟨0x8000000000000000⟩), (tuple [int 2], list [])]) ≠ .gt := by
    decide
  have hbc : (map [(int (-1), float ⟨0x8000000000000000⟩), (tuple [int 2], list [])]).compare
      (map [(int (-1), float ⟨0⟩), (tuple [int 1, int 9], list [])]) ≠ .gt := by
    decide
  exact ⟨hab, hbc, ((compare_is_total_order _ _ _).2.2 hab hbc).1⟩

/-- Kinds come first: truth values, integers, floating-point numbers, texts. -/
example : sort [str "a", float ⟨0x3fe0000000000000⟩, int 9, bool true] =
    [bool true, int 9, float ⟨0x3fe0000000000000⟩, str "a"] := by
  rfl

end Value

end TaggedValue
