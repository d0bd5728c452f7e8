import TaggedValue.Proofs.Entries.Lookup
import TaggedValue.Proofs.Table

/-!
# Maps with names for keys

A table and a map whose keys are all texts can hold the same bindings. Texts among keys are ordered
as names are, so the bindings of a table, taken as entries, are in order as they stand (`named`). On
such entries each operation of maps is the operation of tables on the bindings behind them: the
halving search and the walk along the bindings come to the same place.
-/

namespace TaggedValue.Entries

variable {α : Type}

/-- The entries that bind names, as texts, to the values made of what the names are bound to. -/
def named (make : α → Value) (bs : List (String × α)) : List Entry :=
  bs.map fun b => (.str b.1, make b.2)

theorem named_cons (make : α → Value) (b : String × α) (bs : List (String × α)) :
    named make (b :: bs) = (.str b.1, make b.2) :: named make bs := rfl

/-- Entries whose keys are names ascend as the names do. -/
theorem ascending_iff_of_keys {es : List Entry} {bs : List (String × α)}
    (h : List.Forall₂ (fun e b => e.1 = .str b.1) es bs) :
    Ascending es ↔ bs.Pairwise fun a b => a.1 < b.1 := by
  have hes : Ascending es ↔ (keys es).Pairwise fun k l => k.compare l = .lt := by
    rw [keys, List.pairwise_map]
    rfl
  have hkeys : keys es = bs.map fun b => .str b.1 := by
    rw [keys, ← List.forall₂_eq_eq_eq, List.forall₂_map_left_iff, List.forall₂_map_right_iff]
    exact h
  rw [hes, hkeys, List.pairwise_map]
  simp only [Value.compare_str_eq_lt_iff]

theorem ascending_named_iff (make : α → Value) {bs : List (String × α)} :
    Ascending (named make bs) ↔ bs.Pairwise fun a b => a.1 < b.1 := by
  apply ascending_iff_of_keys
  rw [named, List.forall₂_map_left_iff, List.forall₂_same]
  intro b _
  rfl

theorem ascending_named (make : α → Value) {bs : List (String × α)}
    (h : bs.Pairwise fun a b => a.1 < b.1) : Ascending (named make bs) :=
  (ascending_named_iff make).mpr h

/-- Entries bind names exactly if all their keys are texts. -/
theorem exists_named_iff {es : List Entry} :
    (∃ bs, es = named (fun v => v) bs) ↔ ∀ e ∈ es, ∃ name, e.1 = .str name := by
  constructor
  · rintro ⟨bs, rfl⟩ e he
    obtain ⟨b, -, rfl⟩ := List.mem_map.mp he
    exact ⟨b.1, rfl⟩
  · intro h
    induction es with
    | nil => exact ⟨[], rfl⟩
    | cons e es ih =>
        obtain ⟨⟨name, hname⟩, hes⟩ := List.forall_mem_cons.mp h
        obtain ⟨bs, hbs⟩ := ih hes
        refine ⟨(name, e.2) :: bs, ?_⟩
        rw [named_cons, ← hbs, ← hname]

/-- Entries in order make the map that they are. -/
theorem ofPairs_named (make : α → Value) (t : Table α) :
    ofPairs (named make t.bindings) = named make t.bindings :=
  ofPairs_of_ascending (ascending_named make t.ascending)

/-! ## Reading -/

theorem lookup_named (make : α → Value) (bs : List (String × α)) (name : String) :
    lookup (named make bs) (.str name) = (Table.lookup name bs).map make := by
  induction bs with
  | nil => rfl
  | cons b bs ih =>
      have hkey : (Value.str b.1).equal (.str name) = (b.1 == name) := by rw [Value.equal]
      rw [named_cons, lookup_cons, hkey, Table.lookup, ih]
      by_cases h : name = b.1
      · rw [if_pos h, if_pos (beq_iff_eq.mpr h.symm)]
        rfl
      · rw [if_neg h, if_neg fun hb => h (beq_iff_eq.mp hb).symm]

theorem find?_named (make : α → Value) (t : Table α) (name : String) :
    find? (named make t.bindings) (.str name) = (t.get? name).map make := by
  rw [find?_eq_lookup (ascending_named make t.ascending), lookup_named, Table.get?]

theorem contains_named (make : α → Value) (t : Table α) (name : String) :
    contains (named make t.bindings) (.str name) = t.contains name := by
  rw [contains_eq_isSome (ascending_named make t.ascending), lookup_named, Option.isSome_map]
  rfl

/-! ## Binding and unbinding -/

theorem set_named (make : α → Value) {bs : List (String × α)}
    (h : bs.Pairwise fun a b => a.1 < b.1) (name : String) (x : α) :
    set (named make bs) (.str name) (make x) = named make (Table.insertInto name x bs) := by
  induction bs with
  | nil => rfl
  | cons b bs ih =>
      have hasc := ascending_named make h
      rw [named_cons] at hasc ⊢
      rw [set_cons hasc, Table.insertInto]
      cases hc : (Value.str b.1).compare (.str name) with
      | lt =>
          have hlt : b.1 < name := Value.compare_str_eq_lt_iff.mp hc
          rw [if_neg (String.lt_asymm hlt), if_neg (String.ne_of_lt hlt).symm, named_cons,
            ← ih (List.pairwise_cons.mp h).2]
      | eq =>
          have heq : b.1 = name := Value.compare_str_eq_eq_iff.mp hc
          rw [if_neg (heq ▸ String.lt_irrefl b.1), if_pos heq.symm]
          rfl
      | gt =>
          have hgt : name < b.1 := Value.compare_str_eq_gt_iff.mp hc
          rw [if_pos hgt]
          rfl

theorem filter_ne_of_forall_lt {name : String} {bs : List (String × α)}
    (h : ∀ b ∈ bs, name < b.1) : bs.filter (fun b => b.1 != name) = bs := by
  rw [List.filter_eq_self]
  intro b hb
  exact bne_iff_ne.mpr (String.ne_of_lt (h b hb)).symm

theorem erase_named (make : α → Value) {bs : List (String × α)}
    (h : bs.Pairwise fun a b => a.1 < b.1) (name : String) :
    (erase (named make bs) (.str name)).1 = named make (bs.filter fun b => b.1 != name) := by
  induction bs with
  | nil => rfl
  | cons b bs ih =>
      obtain ⟨hb, hbs⟩ := List.pairwise_cons.mp h
      have hasc := ascending_named make h
      rw [named_cons] at hasc ⊢
      rw [erase_cons hasc]
      cases hc : (Value.str b.1).compare (.str name) with
      | lt =>
          have hne : (b.1 != name) = true :=
            bne_iff_ne.mpr (String.ne_of_lt (Value.compare_str_eq_lt_iff.mp hc))
          rw [List.filter_cons, if_pos hne, named_cons, ← ih hbs]
      | eq =>
          have heq : b.1 = name := Value.compare_str_eq_eq_iff.mp hc
          subst heq
          rw [List.filter_cons_of_neg (by simp), filter_ne_of_forall_lt hb]
      | gt =>
          have hgt : name < b.1 := Value.compare_str_eq_gt_iff.mp hc
          have hall : ∀ d ∈ b :: bs, name < d.1 :=
            List.forall_mem_cons.mpr ⟨hgt, fun d hd => String.lt_trans hgt (hb d hd)⟩
          rw [filter_ne_of_forall_lt hall]
          rfl

end TaggedValue.Entries
