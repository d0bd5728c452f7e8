import TaggedValue.Number.Binary32
import TaggedValue.Number.IntType
import TaggedValue.Properties.Basic

/-!
# Plain types

The types whose members are boxed into values and extracted from them: texts, truth values, numbers
of several widths, values themselves and properties, and lists and tables of any of these.
-/

namespace TaggedValue

open Number (Binary32 Binary64 IntType)

inductive PlainType
  | value
  | text
  | bool
  | int (type : IntType)
  /-- Double precision. -/
  | float
  /-- Single precision. -/
  | single
  | properties
  | list (item : PlainType)
  /-- Names bound to members of a type. -/
  | table (item : PlainType)
deriving DecidableEq, Repr

namespace PlainType

@[reducible] def Member : PlainType → Type
  | value => Value
  | text => String
  | bool => Bool
  | int t => t.Member
  | float => Binary64
  | single => Binary32
  | properties => Properties
  | list t => List t.Member
  | table t => Table t.Member

/-- The value that boxes a member. Single precision widens, lists stay lists, and tables become
maps with texts for keys. -/
def box : (t : PlainType) → t.Member → Value
  | value, v => v
  | text, s => .str s
  | bool, b => .bool b
  | int _, n => .int (Int64.ofInt n.val)
  | float, x => .float x
  | single, x => .float x.widen
  | properties, p => p.toValue
  | list t, xs => .list (xs.map (box t))
  | table t, xs => Value.ofPairs (xs.toList.map fun b => (.str b.1, box t b.2))

end PlainType

end TaggedValue
