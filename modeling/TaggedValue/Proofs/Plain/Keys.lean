import Mathlib.Data.List.FinRange
import TaggedValue.Plain.Composite
import TaggedValue.Proofs.Entries.Distinct
import TaggedValue.Proofs.Plain.Boxing

/-!
# Boxing what has keys

A collection of bindings hands them out one after another, a sorted one in the order of its own keys and
a hashed one in any order. Boxing turns the keys into values, and these are sorted again, by an order
of theirs: lists of values come by length first, the lists that they are made of do not. Nothing is lost
on the way because boxing tells keys apart exactly as their own equality does, at every nesting of
lists and tuples (`equal_box`). So bindings with different keys become entries with different keys, and
the map has them all.
-/

namespace TaggedValue

open Number (IntType)
open Entries (Distinct)

/-! ## Types of keys -/

/-- The types that keys can have: values, texts, truth values and held integers, and lists and tuples
of these, of any length and at any nesting. -/
inductive KeyType
  | value
  | text
  | bool
  | int (type : IntType) (held : type.isHeld = true)
  | list (item : KeyType)
  | tuple (length : Nat) (item : Fin length → KeyType)

namespace KeyType

/-- A type of keys among all types whose members can be boxed. -/
@[reducible] def composite : KeyType → CompositeType
  | value => .plain .value
  | text => .plain .text
  | bool => .plain .bool
  | int t _ => .plain (.int t)
  | list k => .list k.composite
  | tuple n k => .tuple n fun i => (k i).composite

@[reducible] def Member (k : KeyType) : Type := k.composite.Member

def box (k : KeyType) (a : k.Member) : Value := k.composite.box a

/-- The equality that keys have of their own. Lists agree in length and item by item, and tuples
component by component. -/
def equal : (k : KeyType) → k.Member → k.Member → Bool
  | value, a, b => Value.equal a b
  | text, a, b => a == b
  | bool, a, b => a == b
  | int _ _, a, b => a.val == b.val
  | list k, as, bs => as.isEqv bs (equal k)
  | tuple n k, a, b => (List.finRange n).all fun i => equal (k i) (a i) (b i)

/-- The order that keys have of their own. The first difference decides in lists and tuples, and of two
lists that agree as far as the shorter goes this one comes first. -/
def compare : (k : KeyType) → k.Member → k.Member → Ordering
  | value, a, b => Value.compare a b
  | text, a, b => Ord.compare a b
  | bool, a, b => Ord.compare a b
  | int _ _, a, b => Ord.compare a.val b.val
  | list k, as, bs => List.compareLex (compare k) as bs
  | tuple n k, a, b =>
      (List.finRange n).foldr (fun i rest => (compare (k i) (a i) (b i)).then rest) .eq

/-! ## The two agree -/

theorem compareLex_eq_eq_of_isEqv {α : Type} {cmp : α → α → Ordering} {eqv : α → α → Bool}
    (h : ∀ a b, eqv a b = true → cmp a b = .eq) :
    ∀ as bs : List α, as.isEqv bs eqv = true → List.compareLex cmp as bs = .eq
  | [], [], _ => rfl
  | a :: as, b :: bs, heqv => by
      rw [List.isEqv_cons_cons, Bool.and_eq_true] at heqv
      rw [List.compareLex_cons_cons, h a b heqv.1, compareLex_eq_eq_of_isEqv h as bs heqv.2]
      rfl

theorem foldr_then_eq_eq {α : Type} {cmp : α → Ordering} {is : List α}
    (h : ∀ i ∈ is, cmp i = .eq) : is.foldr (fun i rest => (cmp i).then rest) .eq = .eq := by
  induction is with
  | nil => rfl
  | cons i is ih =>
      obtain ⟨hi, his⟩ := List.forall_mem_cons.mp h
      rw [List.foldr_cons, hi, ih his]
      rfl

/-- Equal keys have the same place in the order. -/
theorem compare_eq_eq_of_equal :
    ∀ (k : KeyType) (a b : k.Member), k.equal a b = true → k.compare a b = .eq
  | value, _, _, h => Value.equal_iff_compare_eq_eq.mp h
  | text, _, _, h => Std.LawfulEqOrd.compare_eq_iff_eq.mpr (beq_iff_eq.mp h)
  | bool, _, _, h => Std.LawfulEqOrd.compare_eq_iff_eq.mpr (beq_iff_eq.mp h)
  | int _ _, _, _, h => Std.LawfulEqOrd.compare_eq_iff_eq.mpr (beq_iff_eq.mp h)
  | list k, as, bs, h => compareLex_eq_eq_of_isEqv (compare_eq_eq_of_equal k) as bs h
  | tuple n k, a, b, h => by
      have hcomponents := List.all_eq_true.mp h
      exact foldr_then_eq_eq fun i hi => compare_eq_eq_of_equal (k i) (a i) (b i) (hcomponents i hi)

/-! ## Boxing tells keys apart -/

theorem equalPairwise_map {α : Type} {box : α → Value} {eqv : α → α → Bool}
    (h : ∀ a b, (box a).equal (box b) = eqv a b) :
    ∀ as bs : List α,
      ((as.map box).length == (bs.map box).length &&
        Value.equalPairwise (as.map box) (bs.map box)) = as.isEqv bs eqv
  | [], [] => rfl
  | [], _ :: _ => rfl
  | _ :: _, [] => rfl
  | a :: as, b :: bs => by
      have hrest := equalPairwise_map h as bs
      have hlength : (((a :: as).map box).length == ((b :: bs).map box).length) =
          ((as.map box).length == (bs.map box).length) := by
        rw [Bool.eq_iff_iff]
        simp
      rw [List.isEqv_cons_cons, ← hrest, ← h a b, hlength, List.map_cons, List.map_cons,
        Value.equalPairwise]
      exact Bool.and_left_comm _ _ _

theorem equalPairwise_map_map {α : Type} (f g : α → Value) (is : List α) :
    Value.equalPairwise (is.map f) (is.map g) = is.all fun i => (f i).equal (g i) := by
  induction is with
  | nil => rfl
  | cons i is ih => rw [List.map_cons, List.map_cons, Value.equalPairwise, ih, List.all_cons]

theorem ofInt_inj_of_contains {m n : Int} (hm : IntType.signed64.Contains m)
    (hn : IntType.signed64.Contains n) : Int64.ofInt m = Int64.ofInt n ↔ m = n := by
  constructor
  · intro h
    rw [← toInt_ofInt_of_contains hm, h, toInt_ofInt_of_contains hn]
  · rintro rfl
    rfl

/-- **Boxing tells keys apart as their own equality does.** -/
theorem equal_box : ∀ (k : KeyType) (a b : k.Member), (k.box a).equal (k.box b) = k.equal a b
  | value, _, _ => rfl
  | text, _, _ => rfl
  | bool, _, _ => rfl
  | int t held, a, b => by
      have ha := IntType.contains_signed64 held a.property
      have hb := IntType.contains_signed64 held b.property
      show (Int64.ofInt a.val == Int64.ofInt b.val) = (a.val == b.val)
      rw [Bool.eq_iff_iff, beq_iff_eq, beq_iff_eq]
      exact ofInt_inj_of_contains ha hb
  | list k, as, bs => equalPairwise_map (equal_box k) as bs
  | tuple n k, a, b => by
      show ((List.ofFn fun i => (k i).box (a i)).length == (List.ofFn fun i => (k i).box (b i)).length &&
        Value.equalPairwise (List.ofFn fun i => (k i).box (a i)) (List.ofFn fun i => (k i).box (b i))) =
          (List.finRange n).all fun i => equal (k i) (a i) (b i)
      rw [List.length_ofFn, List.length_ofFn, beq_self_eq_true, Bool.true_and, List.ofFn_eq_map,
        List.ofFn_eq_map, equalPairwise_map_map]
      simp only [equal_box]

/-! ## Collections -/

section Collections

variable {α : Type}

/-- The bindings of a collection, in the order in which it hands them out. -/
inductive Listing (k : KeyType) : List (k.Member × α) → Prop
  /-- A sorted collection goes through its keys in ascending order. -/
  | sorted {bs : List (k.Member × α)}
      (ascending : bs.Pairwise fun a b => k.compare a.1 b.1 = .lt) : Listing k bs
  /-- A hashed one goes through them in any order; no two of them are equal. -/
  | hashed {bs : List (k.Member × α)}
      (distinct : bs.Pairwise fun a b => k.equal a.1 b.1 = false) : Listing k bs

theorem Listing.distinct {k : KeyType} {bs : List (k.Member × α)} (h : Listing k bs) :
    bs.Pairwise fun a b => k.equal a.1 b.1 = false := by
  cases h with
  | sorted ascending =>
      refine ascending.imp ?_
      intro a b hlt
      rw [← Bool.not_eq_true]
      intro heq
      exact absurd (hlt.symm.trans (compare_eq_eq_of_equal k a.1 b.1 heq)) (by decide)
  | hashed distinct => exact distinct

/-- The pairs of a key and a value that bindings are boxed into. -/
def pairs (k : KeyType) (box : α → Value) (bs : List (k.Member × α)) : List Entry :=
  bs.map fun b => (k.box b.1, box b.2)

theorem Listing.distinct_pairs {k : KeyType} {bs : List (k.Member × α)} (h : Listing k bs)
    (box : α → Value) : Distinct (k.pairs box bs) := by
  refine List.pairwise_map.mpr (h.distinct.imp ?_)
  intro a b hab
  rw [equal_box, hab]

/-- The same bindings, perhaps in another order: keys that are equal are bound to what boxes into equal
values. -/
def SameBindings (k : KeyType) (box : α → Value) (as bs : List (k.Member × α)) : Prop :=
  ∃ cs, as.Perm cs ∧
    List.Forall₂ (fun c b => k.equal c.1 b.1 = true ∧ (box c.2).equal (box b.2) = true) cs bs

theorem same_pairs {k : KeyType} {box : α → Value} {as bs : List (k.Member × α)}
    (h : List.Forall₂ (fun a b => k.equal a.1 b.1 = true ∧ (box a.2).equal (box b.2) = true) as bs) :
    Value.Same (.map (k.pairs box as)) (.map (k.pairs box bs)) := by
  apply Value.same_map_iff.mpr
  simp only [pairs, Entries.keys, Entries.values, List.map_map, List.forall₂_map_left_iff,
    List.forall₂_map_right_iff]
  constructor
  · refine h.imp fun a b hab => ?_
    rw [← Value.equal_iff_same]
    exact (equal_box k a.1 b.1).trans hab.1
  · exact h.imp fun a b hab => (Value.equal_iff_same _ _).mp hab.2

/-- Neither the order nor the choice among equal keys is seen in the map. -/
theorem ofPairs_pairs_equal {k : KeyType} {box : α → Value} {as bs : List (k.Member × α)}
    (h : Listing k as) (hsame : SameBindings k box as bs) :
    (Value.ofPairs (k.pairs box as)).equal (Value.ofPairs (k.pairs box bs)) = true := by
  obtain ⟨cs, hperm, hcs⟩ := hsame
  have hmoved : Entries.ofPairs (k.pairs box as) = Entries.ofPairs (k.pairs box cs) :=
    Entries.ofPairs_eq_of_perm (h.distinct_pairs box) (hperm.map _)
  rw [Value.equal_iff_same, Value.ofPairs, hmoved]
  exact Entries.same_ofPairs (same_pairs hcs)

end Collections

/-- **Boxing loses and merges nothing.** Take the bindings of any collection, sorted or hashed, whose
keys are of any type of keys. Boxing makes a map of as many entries, which are the boxed bindings. Under
each boxed key that is equal to one of the collection stands what that one is bound to, and every
other boxed key is missing. Whatever collection has the same bindings boxes into an equal map, in
whatever order it hands them out. -/
theorem boxing_keeps_every_binding (k : KeyType) (t : CompositeType)
    {bs : List (k.Member × t.Member)} (h : Listing k bs) :
    ∃ es, (CompositeType.map k.composite t).box bs = .map es ∧
      es.length = bs.length ∧
      es.Perm (bs.map fun b => (k.box b.1, t.box b.2)) ∧
      (∀ b ∈ bs, ∀ key, k.equal key b.1 = true →
        (Value.map es).index (k.box key) = .ok (t.box b.2)) ∧
      (∀ key, (∀ b ∈ bs, k.equal key b.1 = false) →
        (Value.map es).index (k.box key) = .error (.missingKey (k.box key))) ∧
      ∀ cs, SameBindings k t.box bs cs →
        (Value.map es).equal ((CompositeType.map k.composite t).box cs) = true := by
  have hdistinct := h.distinct_pairs t.box
  have hperm := Entries.perm_ofPairs hdistinct
  refine ⟨_, rfl, ?_, hperm, ?_, ?_, ?_⟩
  · exact hperm.length_eq.trans (List.length_map _)
  · intro b hb key hkey
    have hmem : (k.box b.1, t.box b.2) ∈ k.pairs t.box bs := List.mem_map.mpr ⟨b, hb, rfl⟩
    refine Entries.index_ofPairs_of_mem hdistinct hmem ?_
    rwa [equal_box]
  · intro key hkey
    refine Entries.index_ofPairs_of_forall_ne hdistinct fun p hp => ?_
    obtain ⟨b, hb, rfl⟩ := List.mem_map.mp hp
    rw [equal_box]
    exact hkey b hb
  · intro cs hsame
    exact ofPairs_pairs_equal h hsame

/-- Lists in ascending order of their own, where `["a", "b"]` comes before `["b"]`, are sorted the
other way round as values. -/
theorem boxing_keeps_every_binding_resorted :
    Listing (list text) [(["a", "b"], "x"), (["b"], "y")] ∧
    (CompositeType.map (list text).composite (.plain .text)).box
        [(["a", "b"], "x"), (["b"], "y")] =
      .map [(.list [.str "b"], .str "y"), (.list [.str "a", .str "b"], .str "x")] ∧
    (Value.map [(.list [.str "b"], .str "y"), (.list [.str "a", .str "b"], .str "x")]).index
        (.list [.str "a", .str "b"]) =
      .ok (.str "x") := by
  have h : Listing (list text) [(["a", "b"], "x"), (["b"], "y")] := .sorted (by decide)
  have hbox : (CompositeType.map (list text).composite (.plain .text)).box
      [(["a", "b"], "x"), (["b"], "y")] =
        .map [(.list [.str "b"], .str "y"), (.list [.str "a", .str "b"], .str "x")] := rfl
  obtain ⟨es, hes, -, -, hbound, -⟩ := boxing_keeps_every_binding (list text) (.plain .text) h
  rw [hbox, Value.map.injEq] at hes
  subst hes
  exact ⟨h, hbox, hbound (["a", "b"], "x") List.mem_cons_self ["a", "b"] rfl⟩

end KeyType

end TaggedValue
