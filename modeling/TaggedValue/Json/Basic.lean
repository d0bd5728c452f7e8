import TaggedValue.Number.Binary64
import TaggedValue.Table

/-!
# Interchange trees

The trees behind JSON text. A number is a signed 64-bit integer, a larger integer that fits 64 bits
without sign, or a finite double precision number. The members of an object stand in ascending
order of their keys, each key once, in all trees but those that show a text as it is written;
`Json.ordered` brings a tree into that form.
-/

namespace TaggedValue

open Number (Binary64)

/-- A number of an interchange tree. -/
inductive JsonNumber
  | int (n : Int64)
  /-- An integer beyond the signed range. -/
  | large (n : UInt64) (beyond : 0x8000000000000000 ≤ n.toNat)
  | float (x : Binary64) (finite : x.isFinite = true)
deriving DecidableEq, Repr

namespace JsonNumber

/-- A natural number that fits 64 bits without sign. -/
def ofNat? (n : Nat) : Option JsonNumber :=
  if h : n < 0x10000000000000000 then
    if large : 0x8000000000000000 ≤ n then
      some (.large (UInt64.ofNat n) (by simp only [UInt64.toNat_ofNat']; omega))
    else some (.int (Int64.ofNat n))
  else none

def ofBinary64? (x : Binary64) : Option JsonNumber :=
  if h : x.isFinite = true then some (.float x h) else none

end JsonNumber

inductive Json
  | null
  | bool (b : Bool)
  | number (n : JsonNumber)
  | text (s : String)
  | array (items : List Json)
  | object (members : List (String × Json))
deriving Repr

namespace Json

/-- The object made from any members. The last one given for a key stays. -/
def ofMembers (ms : List (String × Json)) : Json :=
  .object (ms.foldl (fun kept m => Table.insertInto m.1 m.2 kept) [])

mutual

/-- A tree with the members of all its objects in order. -/
def ordered : Json → Json
  | .null => .null
  | .bool b => .bool b
  | .number n => .number n
  | .text s => .text s
  | .array js => .array (orderedItems js)
  | .object ms => ofMembers (orderedMembers ms)
termination_by structural j => j

/-- Items with the members of all objects in them in order. -/
def orderedItems : List Json → List Json
  | [] => []
  | j :: js => ordered j :: orderedItems js
termination_by structural js => js

/-- Members with the members of all objects in them in order, but not yet themselves. -/
def orderedMembers : List (String × Json) → List (String × Json)
  | [] => []
  | (k, j) :: ms => (k, ordered j) :: orderedMembers ms
termination_by structural ms => ms

end

mutual

/-- How many arrays and objects lie around the innermost part. -/
def depth : Json → Nat
  | .array items => depthItems items + 1
  | .object members => depthMembers members + 1
  | _ => 0
termination_by structural j => j

def depthItems : List Json → Nat
  | [] => 0
  | j :: js => max (depth j) (depthItems js)
termination_by structural js => js

def depthMembers : List (String × Json) → Nat
  | [] => 0
  | (_, j) :: ms => max (depth j) (depthMembers ms)
termination_by structural ms => ms

end

end Json

end TaggedValue
