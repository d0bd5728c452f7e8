import TaggedValue.Plain.Basic

/-!
# Composite types

Boxing reaches further than extraction: fixed tuples of composite types become tuples, and
collections of pairs, whatever the type of their keys, become maps.
-/

namespace TaggedValue

/-- A type whose members can be boxed. -/
inductive CompositeType
  | plain (type : PlainType)
  | list (item : CompositeType)
  /-- A tuple of some length, with a type for each component. -/
  | tuple (length : Nat) (item : Fin length → CompositeType)
  /-- Pairs of a key and an item. -/
  | map (key item : CompositeType)

namespace CompositeType

@[reducible] def Member : CompositeType → Type
  | plain t => t.Member
  | list t => List t.Member
  | tuple n t => (i : Fin n) → (t i).Member
  | map k t => List (k.Member × t.Member)

/-- The value that boxes a member. Of several pairs with one key the last stays. -/
def box : (t : CompositeType) → t.Member → Value
  | plain t, x => t.box x
  | list t, xs => .list (xs.map (box t))
  | tuple n t, xs => .tuple (List.ofFn fun i : Fin n => box (t i) (xs i))
  | map k t, xs => Value.ofPairs (xs.map fun e => (box k e.1, box t e.2))

end CompositeType

end TaggedValue
