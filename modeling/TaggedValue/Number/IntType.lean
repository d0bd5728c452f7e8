/-!
# Integer types of fixed width

A type is a range of integers, and its members are the integers in that range.
-/

namespace TaggedValue.Number

/-- The integer types that values are exchanged with. -/
inductive IntType
  | signed64
  | signed32
  | unsigned32
  | unsigned64
  /-- Wide enough for every size in memory. -/
  | unsignedSize
deriving DecidableEq, Repr

namespace IntType

/-- The name of a type, as it stands in messages. -/
def name : IntType → String
  | signed64 => "i64"
  | signed32 => "i32"
  | unsigned32 => "u32"
  | unsigned64 => "u64"
  | unsignedSize => "usize"

def low : IntType → Int
  | signed64 => -0x8000000000000000
  | signed32 => -0x80000000
  | unsigned32 | unsigned64 | unsignedSize => 0

def high : IntType → Int
  | signed64 => 0x7fffffffffffffff
  | signed32 => 0x7fffffff
  | unsigned32 => 0xffffffff
  | unsigned64 | unsignedSize => 0xffffffffffffffff

def Contains (t : IntType) (n : Int) : Prop := t.low ≤ n ∧ n ≤ t.high

instance (t : IntType) (n : Int) : Decidable (t.Contains n) :=
  inferInstanceAs (Decidable (_ ∧ _))

abbrev Member (t : IntType) : Type := { n : Int // t.Contains n }

/-- An integer as a member, if it is one. -/
def member? (t : IntType) (n : Int) : Option t.Member :=
  if h : t.Contains n then some ⟨n, h⟩ else none

end IntType

end TaggedValue.Number
