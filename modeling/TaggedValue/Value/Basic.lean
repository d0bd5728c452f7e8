import TaggedValue.Kind
import TaggedValue.Number.Binary64

/-!
# Values

A value holds exactly one payload, and its constructor is its kind. Lists and tuples hold values,
maps hold pairs of values, and an object holds something foreign that can be told from others only
by its identity.
-/

namespace TaggedValue

open Number (Binary64)

/-! ## Objects -/

/-- What an object can hold. -/
inductive Content
  /-- A record with one text field. -/
  | record (text : String)
  | text (text : String)
  | byte (n : UInt8)
  | integer (n : Int64)
  | integers (ns : List Int64)
  | unit
deriving DecidableEq, Repr

namespace Content

def record? : Content → Option String
  | record t => some t
  | _ => none

def text? : Content → Option String
  | text t => some t
  | _ => none

def byte? : Content → Option UInt8
  | byte n => some n
  | _ => none

def integer? : Content → Option Int64
  | integer n => some n
  | _ => none

def integers? : Content → Option (List Int64)
  | integers ns => some ns
  | _ => none

def isUnit : Content → Bool
  | unit => true
  | _ => false

end Content

/-- An opaque payload. Its identity is a number given when it is made; its type's name is kept for
display. -/
structure Object where
  identity : Nat
  typeName : String
  content : Content
deriving DecidableEq, Repr

namespace Object

/-- How the inspection form of an object begins. -/
def heading (o : Object) : String := "Object(" ++ o.typeName

/-- Whether two objects are one and the same. -/
def isSame (o p : Object) : Bool := o.identity == p.identity

/-- The object made around the record that another object holds. It shares the record, and so its
identity. -/
def rewrap? (o : Object) : Option Object :=
  o.content.record?.map fun _ => o

end Object

/-! ## Values -/

/-- A dynamically typed value. A map stores its entries in ascending order of their keys. -/
inductive Value
  | str (text : String)
  | int (n : Int64)
  | float (x : Binary64)
  | bool (b : Bool)
  | list (items : List Value)
  | tuple (items : List Value)
  | map (entries : List (Value × Value))
  | object (o : Object)
deriving Repr

instance : Inhabited Value := ⟨.bool false⟩

/-- A key of a map and the value bound to it. -/
abbrev Entry := Value × Value

namespace Value

def kind : Value → Kind
  | str _ => .str
  | int _ => .int
  | float _ => .float
  | bool _ => .bool
  | list _ => .list
  | tuple _ => .tuple
  | map _ => .map
  | object _ => .object

/-! ## The three classes of values -/

/-- Texts, lists and tuples have positions. -/
def isSequence (v : Value) : Bool :=
  match v.kind with
  | .str | .list | .tuple => true
  | _ => false

/-- Maps have keys. -/
def isAssociative (v : Value) : Bool := v.kind == .map

/-- All other values have no parts. -/
def isScalar (v : Value) : Bool := !v.isSequence && !v.isAssociative

/-! ## The payload, if the value is of that kind -/

def str? : Value → Option String
  | str s => some s
  | _ => none

def int? : Value → Option Int64
  | int n => some n
  | _ => none

def float? : Value → Option Binary64
  | float x => some x
  | _ => none

def bool? : Value → Option Bool
  | bool b => some b
  | _ => none

def list? : Value → Option (List Value)
  | list vs => some vs
  | _ => none

def tuple? : Value → Option (List Value)
  | tuple vs => some vs
  | _ => none

def map? : Value → Option (List Entry)
  | map es => some es
  | _ => none

def object? : Value → Option Object
  | object o => some o
  | _ => none

end Value

end TaggedValue
