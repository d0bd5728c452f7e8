import TaggedValue.Text.Capitals

/-!
# The kinds of value

Every value has exactly one of eight kinds. A kind has a number, a name in capitals, and a place
in the order of values of different kinds.
-/

namespace TaggedValue

/-- What a value is. -/
inductive Kind
  | str
  | int
  | float
  | bool
  | list
  | tuple
  | map
  | object
deriving DecidableEq, Repr

namespace Kind

def code : Kind → Nat
  | str => 0
  | int => 1
  | float => 2
  | bool => 3
  | list => 4
  | tuple => 5
  | map => 6
  | object => 7

def ofCode? : Nat → Option Kind
  | 0 => some str
  | 1 => some int
  | 2 => some float
  | 3 => some bool
  | 4 => some list
  | 5 => some tuple
  | 6 => some map
  | 7 => some object
  | _ => none

/-- The name of a kind, as it stands in messages. -/
def name : Kind → String
  | str => "STR"
  | int => "INT"
  | float => "FLOAT"
  | bool => "BOOL"
  | list => "LIST"
  | tuple => "TUPLE"
  | map => "MAP"
  | object => "OBJECT"

/-- The kind with this name. Case does not matter, and four kinds have a second name. -/
def ofName? (text : String) : Option Kind :=
  match Text.capitals text with
  | "STR" | "STRING" => some str
  | "INT" | "INTEGER" => some int
  | "FLOAT" => some float
  | "BOOL" => some bool
  | "LIST" => some list
  | "TUPLE" => some tuple
  | "MAP" | "DICT" => some map
  | "OBJECT" | "OBJ" => some object
  | _ => none

/-- The place of a kind in the order of values: of two values of different kinds the one of the
lower rank comes first. -/
def rank : Kind → Nat
  | bool => 0
  | int => 1
  | float => 2
  | str => 3
  | list => 4
  | tuple => 5
  | map => 6
  | object => 7

/-- Every kind is found by its code, so no two kinds share one. -/
theorem ofCode?_code (k : Kind) : ofCode? k.code = some k := by cases k <;> rfl

theorem rank_inj {j k : Kind} (h : j.rank = k.rank) : j = k := by
  cases j <;> cases k <;> simp_all [rank]

end Kind

end TaggedValue
