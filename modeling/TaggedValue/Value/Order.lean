import TaggedValue.Value.Basic

/-!
# The order of values

Values of different kinds are ordered by the rank of their kinds. Within a kind: numbers by their
own total order, texts by code points, lists and maps by length and then item by item, tuples item
by item with the shorter first among those that agree, and objects by identity. Entries of maps
compare their keys before their values.
-/

namespace TaggedValue.Value

mutual

protected def compare : Value → Value → Ordering
  | .bool a, .bool b => Ord.compare a b
  | .int a, .int b => Ord.compare a b
  | .float a, .float b => a.compare b
  | .str a, .str b => Ord.compare a b
  | .list a, .list b => (Ord.compare a.length b.length).then (compareItems a b)
  | .tuple a, .tuple b => compareItems a b
  | .map a, .map b => (Ord.compare a.length b.length).then (compareEntries a b)
  | .object a, .object b => Ord.compare a.identity b.identity
  | a, b => Ord.compare a.kind.rank b.kind.rank
termination_by structural v => v

/-- The first difference decides; where one side ends first, it is the smaller. -/
def compareItems : List Value → List Value → Ordering
  | [], [] => .eq
  | [], _ :: _ => .lt
  | _ :: _, [] => .gt
  | a :: as, b :: bs => (Value.compare a b).then (compareItems as bs)
termination_by structural vs => vs

/-- The first difference decides, a key before its value. -/
def compareEntries : List (Value × Value) → List (Value × Value) → Ordering
  | [], [] => .eq
  | [], _ :: _ => .lt
  | _ :: _, [] => .gt
  | (k, v) :: as, (l, w) :: bs =>
      ((Value.compare k l).then (Value.compare v w)).then (compareEntries as bs)
termination_by structural es => es

end

instance : Ord Value := ⟨Value.compare⟩

/-- Stable sorting: a value goes before the first that is not smaller. -/
def insertSorted (v : Value) : List Value → List Value
  | [] => [v]
  | w :: ws => if Value.compare v w == .gt then w :: insertSorted v ws else v :: w :: ws

/-- The values in ascending order. Equal ones keep their places among each other. -/
def sort : List Value → List Value
  | [] => []
  | v :: vs => insertSorted v (sort vs)

end TaggedValue.Value
