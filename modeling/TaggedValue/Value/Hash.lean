import TaggedValue.Value.Basic

/-!
# What a value feeds to a hash

A hash sees a value as a stream of tokens: its kind, and then its payload. A tuple announces its
length, while lists and maps only pass on their parts, so `[[1], 2]` and `[[1, 2]]` feed the same
stream.
-/

namespace TaggedValue

/-- One piece of a hashed stream. -/
inductive Token
  | kind (k : Kind)
  | text (s : String)
  | int (n : Int64)
  | bits (b : UInt64)
  | bool (b : Bool)
  | length (n : Nat)
  | identity (n : Nat)
deriving DecidableEq, Repr

namespace Value

mutual

def tokens : Value → List Token
  | .str s => [.kind .str, .text s]
  | .int n => [.kind .int, .int n]
  | .float x => [.kind .float, .bits x.bits]
  | .bool b => [.kind .bool, .bool b]
  | .list vs => .kind .list :: tokensItems vs
  | .tuple vs => .kind .tuple :: .length vs.length :: tokensItems vs
  | .map es => .kind .map :: tokensEntries es
  | .object o => [.kind .object, .identity o.identity]
termination_by structural v => v

def tokensItems : List Value → List Token
  | [] => []
  | v :: vs => tokens v ++ tokensItems vs
termination_by structural vs => vs

/-- The streams of keys and values in turn. -/
def tokensEntries : List (Value × Value) → List Token
  | [] => []
  | (k, v) :: es => tokens k ++ (tokens v ++ tokensEntries es)
termination_by structural es => es

end

end Value

end TaggedValue
