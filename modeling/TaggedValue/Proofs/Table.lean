import TaggedValue.Table

/-!
# Tables made from bindings in order

Bindings put in one after another ascend, in whatever order they come. A binding whose name is
larger than all others goes to the end. So bindings that come in ascending order of their names are
kept one behind another as they come, and the bindings of a table make that table again. What a table
answers for each name determines it, since the order leaves one way to store the answers. So the laws
of merging are those of answers: the second table is asked first, and the first one where it is silent.
-/

namespace TaggedValue.Table

variable {α : Type}

theorem ascending_foldl_insertInto (bs : List (String × α)) {kept : List (String × α)}
    (h : kept.Pairwise fun a b => a.1 < b.1) :
    (bs.foldl (fun kept b => insertInto b.1 b.2 kept) kept).Pairwise fun a b => a.1 < b.1 := by
  induction bs generalizing kept with
  | nil => exact h
  | cons b bs ih => exact ih (ascending_insertInto h)

theorem insertInto_of_forall_lt {name : String} {x : α} {bs : List (String × α)}
    (h : ∀ b ∈ bs, b.1 < name) : insertInto name x bs = bs ++ [(name, x)] := by
  induction bs with
  | nil => rfl
  | cons b bs ih =>
      obtain ⟨hb, hbs⟩ := List.forall_mem_cons.mp h
      rw [insertInto, if_neg (String.lt_asymm hb), if_neg (String.ne_of_lt hb).symm, ih hbs,
        List.cons_append]

/-- What is kept stays in front, and all that follows in order goes behind it. -/
theorem foldl_insertInto_of_ascending (kept : List (String × α)) {bs : List (String × α)}
    (h : (kept ++ bs).Pairwise fun a b => a.1 < b.1) :
    bs.foldl (fun kept b => insertInto b.1 b.2 kept) kept = kept ++ bs := by
  induction bs generalizing kept with
  | nil => exact (List.append_nil kept).symm
  | cons b bs ih =>
      have hkept : ∀ a ∈ kept, a.1 < b.1 := fun a ha =>
        (List.pairwise_append.mp h).2.2 a ha b List.mem_cons_self
      have hnext : ((kept ++ [b]) ++ bs).Pairwise fun a b => a.1 < b.1 := by
        rwa [List.append_assoc, List.singleton_append]
      rw [List.foldl_cons, insertInto_of_forall_lt hkept, ih _ hnext, List.append_assoc,
        List.singleton_append]

theorem bindings_foldl_insert (bs : List (String × α)) (t : Table α) :
    (bs.foldl (fun t b => t.insert b.1 b.2) t).bindings =
      bs.foldl (fun kept b => insertInto b.1 b.2 kept) t.bindings := by
  induction bs generalizing t with
  | nil => rfl
  | cons b bs ih => exact ih (t.insert b.1 b.2)

/-- Bindings in order are kept as they are. -/
theorem bindings_ofList {bs : List (String × α)} (h : bs.Pairwise fun a b => a.1 < b.1) :
    (ofList bs).bindings = bs := by
  rw [ofList, bindings_foldl_insert]
  exact foldl_insertInto_of_ascending [] h

/-- A table is made again from its bindings. -/
theorem ofList_bindings (t : Table α) : ofList t.bindings = t :=
  Table.ext (bindings_ofList t.ascending)

/-! ## What is bound in the end -/

theorem lookup_append (name : String) (bs cs : List (String × α)) :
    lookup name (bs ++ cs) = (lookup name bs).or (lookup name cs) := by
  induction bs with
  | nil => rfl
  | cons b bs ih =>
      rw [List.cons_append, lookup, lookup, ih]
      by_cases h : name = b.1
      · rw [if_pos h, if_pos h]
        rfl
      · rw [if_neg h, if_neg h]

/-- Of several bindings for a name the last one counts, and it hides what was bound before. -/
theorem get?_foldl_insert (bs : List (String × α)) (t : Table α) (name : String) :
    (bs.foldl (fun t b => t.insert b.1 b.2) t).get? name =
      (lookup name bs.reverse).or (t.get? name) := by
  induction bs generalizing t with
  | nil => rfl
  | cons b bs ih =>
      rw [List.foldl_cons, ih, get?_insert, List.reverse_cons, lookup_append, Option.or_assoc,
        lookup, lookup]
      by_cases h : name = b.1
      · rw [if_pos h, if_pos h]
        rfl
      · rw [if_neg h, if_neg h]
        rfl

theorem get?_ofList (bs : List (String × α)) (name : String) :
    (ofList bs).get? name = lookup name bs.reverse := by
  rw [ofList, get?_foldl_insert, get?_empty, Option.or_none]

/-! ## Tables that answer alike -/

theorem lookup_eq_none_of_forall_lt {name : String} {bs : List (String × α)}
    (h : ∀ b ∈ bs, name < b.1) : lookup name bs = none := by
  induction bs with
  | nil => rfl
  | cons b bs ih =>
      obtain ⟨hb, hbs⟩ := List.forall_mem_cons.mp h
      rw [lookup, if_neg (String.ne_of_lt hb), ih hbs]

/-- A name that is bound is not below the first one. -/
theorem head_le_of_lookup {b c : String × α} {bs cs : List (String × α)}
    (hb : ∀ d ∈ bs, b.1 < d.1) (h : lookup c.1 (b :: bs) = lookup c.1 (c :: cs)) :
    b.1 ≤ c.1 := by
  refine Std.not_lt.mp fun hlt => ?_
  have hall : ∀ d ∈ b :: bs, c.1 < d.1 :=
    List.forall_mem_cons.mpr ⟨hlt, fun d hd => String.lt_trans hlt (hb d hd)⟩
  rw [lookup_eq_none_of_forall_lt hall, lookup, if_pos rfl] at h
  cases h

/-- Bindings in order that answer alike for every name are the same. -/
theorem eq_of_lookup {bs cs : List (String × α)} (hbs : bs.Pairwise fun a b => a.1 < b.1)
    (hcs : cs.Pairwise fun a b => a.1 < b.1) (h : ∀ name, lookup name bs = lookup name cs) :
    bs = cs := by
  induction bs generalizing cs with
  | nil =>
      cases cs with
      | nil => rfl
      | cons c cs =>
          have hc := h c.1
          rw [lookup, lookup, if_pos rfl] at hc
          cases hc
  | cons b bs ih =>
      cases cs with
      | nil =>
          have hb := h b.1
          rw [lookup, lookup, if_pos rfl] at hb
          cases hb
      | cons c cs =>
          obtain ⟨hb, hbs⟩ := List.pairwise_cons.mp hbs
          obtain ⟨hc, hcs⟩ := List.pairwise_cons.mp hcs
          -- the smaller of the two first names would be bound on one side only
          have hname : b.1 = c.1 :=
            String.le_antisymm (head_le_of_lookup hb (h c.1)) (head_le_of_lookup hc (h b.1).symm)
          have hvalue := h b.1
          rw [lookup, lookup, if_pos rfl, if_pos hname, Option.some_inj] at hvalue
          have hrest : bs = cs := by
            refine ih hbs hcs fun name => ?_
            by_cases hn : name = b.1
            · rw [hn, lookup_eq_none_of_forall_lt hb, hname, lookup_eq_none_of_forall_lt hc]
            · have hother := h name
              rwa [lookup, lookup, if_neg hn, if_neg (hname ▸ hn)] at hother
          rw [hrest, Prod.ext hname hvalue]

theorem eq_of_get? {t u : Table α} (h : ∀ name, t.get? name = u.get? name) : t = u :=
  Table.ext (eq_of_lookup t.ascending u.ascending h)

/-! ## Names -/

/-- The names that are bound, in ascending order. -/
def names (t : Table α) : List String := t.bindings.map (·.1)

theorem length_names (t : Table α) : t.names.length = t.size := List.length_map _

theorem nodup_names (t : Table α) : t.names.Nodup :=
  List.pairwise_map.mpr (t.ascending.imp String.ne_of_lt)

theorem lookup_eq_none_iff {name : String} {bs : List (String × α)} :
    lookup name bs = none ↔ name ∉ bs.map (·.1) := by
  induction bs with
  | nil => exact iff_of_true rfl List.not_mem_nil
  | cons b bs ih =>
      rw [lookup, List.map_cons, List.mem_cons, not_or, ← ih]
      by_cases h : name = b.1
      · rw [if_pos h]
        exact iff_of_false (Option.some_ne_none b.2) fun hne => hne.1 h
      · rw [if_neg h]
        exact (and_iff_right h).symm

theorem mem_names_iff {t : Table α} {name : String} : name ∈ t.names ↔ t.get? name ≠ none :=
  Decidable.not_not.symm.trans (not_congr lookup_eq_none_iff.symm)

/-! ## Merging -/

/-- No name is bound twice, so it makes no difference from which end a table is read. -/
theorem lookup_reverse_bindings (t : Table α) (name : String) :
    lookup name t.bindings.reverse = t.get? name := by
  rw [← get?_ofList, ofList_bindings]

/-- What is merged in hides what was there. -/
theorem get?_merge (t u : Table α) (name : String) :
    (t.merge u).get? name = (u.get? name).or (t.get? name) := by
  rw [merge, get?_foldl_insert, lookup_reverse_bindings]

theorem merge_assoc (s t u : Table α) : (s.merge t).merge u = s.merge (t.merge u) := by
  apply eq_of_get?
  intro name
  simp only [get?_merge, Option.or_assoc]

theorem merge_empty (t : Table α) : t.merge empty = t := rfl

theorem empty_merge (t : Table α) : empty.merge t = t := ofList_bindings t

theorem merge_self (t : Table α) : t.merge t = t := by
  apply eq_of_get?
  intro name
  rw [get?_merge, Option.or_self]

end TaggedValue.Table
