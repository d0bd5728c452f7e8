import TaggedValue.Value.Basic

/-!
# Equality of values

Two values are equal if they are of one kind and their payloads are: the same text, integer or
truth value, floating-point numbers with the same place in the total order, the same number of
items pairwise equal, or one and the same object.
-/

namespace TaggedValue.Value

mutual

def equal : Value → Value → Bool
  | .str a, .str b => a == b
  | .int a, .int b => a == b
  | .float a, .float b => a.compare b == .eq
  | .bool a, .bool b => a == b
  | .list a, .list b => a.length == b.length && equalPairwise a b
  | .tuple a, .tuple b => a.length == b.length && equalPairwise a b
  | .map a, .map b => a.length == b.length && equalEntries a b
  | .object a, .object b => a.identity == b.identity
  | _, _ => false
termination_by structural v => v

/-- Whether items at the same position are equal, as far as both sides have any. -/
def equalPairwise : List Value → List Value → Bool
  | a :: as, b :: bs => equal a b && equalPairwise as bs
  | _, _ => true
termination_by structural vs => vs

/-- Whether entries at the same position agree in key and value, as far as both sides have any. -/
def equalEntries : List (Value × Value) → List (Value × Value) → Bool
  | (k, v) :: as, (l, w) :: bs => equal k l && equal v w && equalEntries as bs
  | _, _ => true
termination_by structural es => es

end

instance : BEq Value := ⟨equal⟩

end TaggedValue.Value
