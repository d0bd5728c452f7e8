/-!
# Tables with names as keys

A table binds names to values and keeps its bindings in strictly ascending order of names, so two
tables with the same bindings are the same table.
-/

namespace TaggedValue

/-- Bindings of names, in ascending order. -/
structure Table (α : Type) where
  bindings : List (String × α)
  ascending : bindings.Pairwise fun a b => a.1 < b.1

namespace Table

variable {α β : Type}

/-! ## On lists of bindings -/

/-- Binds a name, at its place in the order. -/
def insertInto (name : String) (x : α) : List (String × α) → List (String × α)
  | [] => [(name, x)]
  | (n, y) :: r =>
      if name < n then (name, x) :: (n, y) :: r
      else if name = n then (name, x) :: r
      else (n, y) :: insertInto name x r

def lookup (name : String) : List (String × α) → Option α
  | [] => none
  | (n, y) :: r => if name = n then some y else lookup name r

theorem mem_insertInto {name : String} {x : α} {b : String × α} :
    ∀ {bs : List (String × α)}, b ∈ insertInto name x bs → b = (name, x) ∨ b ∈ bs
  | [], h => by simpa [insertInto] using h
  | (n, y) :: r, h => by
      simp only [insertInto] at h
      split at h
      · simpa using h
      · split at h
        · rcases List.mem_cons.mp h with h | h
          · exact .inl h
          · exact .inr (List.mem_cons_of_mem _ h)
        · rcases List.mem_cons.mp h with h | h
          · exact .inr (h ▸ List.mem_cons_self)
          · rcases mem_insertInto h with h | h
            · exact .inl h
            · exact .inr (List.mem_cons_of_mem _ h)

theorem ascending_insertInto {name : String} {x : α} :
    ∀ {bs : List (String × α)}, bs.Pairwise (fun a b => a.1 < b.1) →
      (insertInto name x bs).Pairwise fun a b => a.1 < b.1
  | [], _ => by simp [insertInto]
  | (n, y) :: r, h => by
      obtain ⟨hn, hr⟩ := List.pairwise_cons.mp h
      simp only [insertInto]
      split
      case isTrue lt =>
        refine List.pairwise_cons.mpr ⟨fun b hb => ?_, h⟩
        rcases List.mem_cons.mp hb with hb | hb
        · exact hb ▸ lt
        · exact String.lt_trans lt (hn b hb)
      case isFalse nlt =>
        split
        case isTrue eq => exact List.pairwise_cons.mpr ⟨fun b hb => eq ▸ hn b hb, hr⟩
        case isFalse ne =>
          refine List.pairwise_cons.mpr ⟨fun b hb => ?_, ascending_insertInto hr⟩
          rcases mem_insertInto hb with hb | hb
          · subst hb
            exact Std.not_le.mp fun le => ne (String.le_antisymm le (Std.not_lt.mp nlt))
          · exact hn b hb

/-! ## Operations -/

def empty : Table α := ⟨[], .nil⟩

instance : EmptyCollection (Table α) := ⟨empty⟩

instance : Inhabited (Table α) := ⟨empty⟩

def toList (t : Table α) : List (String × α) := t.bindings

def size (t : Table α) : Nat := t.bindings.length

def isEmpty (t : Table α) : Bool := t.bindings.isEmpty

def get? (t : Table α) (name : String) : Option α := lookup name t.bindings

def contains (t : Table α) (name : String) : Bool := (t.get? name).isSome

def insert (t : Table α) (name : String) (x : α) : Table α :=
  ⟨insertInto name x t.bindings, ascending_insertInto t.ascending⟩

def erase (t : Table α) (name : String) : Table α :=
  ⟨t.bindings.filter fun b => b.1 != name, t.ascending.filter _⟩

/-- The table made from any bindings. The last one given for a name stays. -/
def ofList (bs : List (String × α)) : Table α :=
  bs.foldl (fun t b => t.insert b.1 b.2) empty

/-- All bindings of both tables; the second one wins where both bind a name. -/
def merge (t u : Table α) : Table α :=
  u.bindings.foldl (fun t b => t.insert b.1 b.2) t

/-! ## What is bound after each operation -/

theorem lookup_insertInto (name k : String) (x : α) (bs : List (String × α)) :
    lookup k (insertInto name x bs) = if k = name then some x else lookup k bs := by
  induction bs with
  | nil => rfl
  | cons b r ih => by_cases hk : k = name <;> grind [insertInto, lookup]

theorem lookup_filter_ne (name k : String) (bs : List (String × α)) :
    lookup k (bs.filter fun b => b.1 != name) = if k = name then none else lookup k bs := by
  induction bs with
  | nil => by_cases hk : k = name <;> simp [lookup]
  | cons b r ih => by_cases hk : k = name <;> by_cases hb : b.1 = name <;> grind [lookup]

@[simp] theorem get?_empty (k : String) : (empty : Table α).get? k = none := rfl

@[simp] theorem get?_insert (t : Table α) (name k : String) (x : α) :
    (t.insert name x).get? k = if k = name then some x else t.get? k :=
  lookup_insertInto name k x t.bindings

@[simp] theorem get?_erase (t : Table α) (name k : String) :
    (t.erase name).get? k = if k = name then none else t.get? k :=
  lookup_filter_ne name k t.bindings

@[ext] theorem ext {t u : Table α} (h : t.bindings = u.bindings) : t = u := by
  cases t; cases u; cases h; rfl

end Table

end TaggedValue
