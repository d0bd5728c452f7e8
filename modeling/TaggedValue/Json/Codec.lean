import TaggedValue.Json.Parser
import TaggedValue.Json.Printer
import TaggedValue.Value.Access

/-!
# Values as interchange trees

Scalars, texts and lists have direct counterparts. A tuple becomes an object whose only member is
the tuple tag with the items. A map whose keys are all texts becomes an object with these keys, and
any other map an object whose only member is the map tag with pairs of key and value. Reading goes
by the same rules: an object with one tagged array is a tuple or a map, every other object a map
with texts for keys. Both ways refuse at the first part without a counterpart, in the order of the
items and with each key before its value.
-/

namespace TaggedValue

/-- The key that marks a tuple. -/
def tupleTag : String := "__type_tuple"

/-- The key that marks a map whose keys are not all texts. -/
def mapTag : String := "__type_map"

namespace Value

def allTextKeys (es : List Entry) : Bool := es.all fun e => e.1.str?.isSome

mutual

def toJson : Value → Except Refusal Json
  | .str s => .ok (.text s)
  | .int n => .ok (.number (.int n))
  | .float x =>
      match JsonNumber.ofBinary64? x with
      | some n => .ok (.number n)
      | none => .error (.float x)
  | .bool b => .ok (.bool b)
  | .list vs => (toJsonItems vs).map .array
  | .tuple vs => (toJsonItems vs).map fun js => .object [(tupleTag, .array js)]
  | .map es =>
      if allTextKeys es then (toJsonMembers es).map .object
      else (toJsonPairs es).map fun js => .object [(mapTag, .array js)]
  | .object o => .error (.object o.typeName)
termination_by structural v => v

def toJsonItems : List Value → Except Refusal (List Json)
  | [] => .ok []
  | v :: vs => (toJson v).bind fun j => (toJsonItems vs).map (j :: ·)
termination_by structural vs => vs

/-- The members for entries with texts for keys, in the order of the entries. The keys of a map that a
program can build ascend, and putting such members into an object one after another keeps all of them
in this order (`OneMemberEach.kept`). So they are taken for the object as they are. -/
def toJsonMembers : List (Value × Value) → Except Refusal (List (String × Json))
  | [] => .ok []
  | (k, v) :: es =>
      (toJson v).bind fun j => (toJsonMembers es).map ((k.str?.getD "", j) :: ·)
termination_by structural es => es

def toJsonPairs : List (Value × Value) → Except Refusal (List Json)
  | [] => .ok []
  | (k, v) :: es =>
      (toJson k).bind fun j =>
        (toJson v).bind fun l => (toJsonPairs es).map (.array [j, l] :: ·)
termination_by structural es => es

end

end Value

namespace JsonNumber

def toValue : JsonNumber → Except Refusal Value
  | .int n => .ok (.int n)
  | .large n _ => .error (.integer n.toNat)
  | .float x _ => .ok (.float x)

end JsonNumber

namespace Json

mutual

def toValue : Json → Except Refusal Value
  | .null => .error .null
  | .bool b => .ok (.bool b)
  | .number n => n.toValue
  | .text s => .ok (.str s)
  | .array js => (toValueItems js).map .list
  | .object [(key, .array js)] =>
      if key = tupleTag then (toValueItems js).map .tuple
      else if key = mapTag then (toValuePairs js).map Value.ofPairs
      else (toValueItems js).map fun vs => Value.ofPairs [(.str key, .list vs)]
  | .object ms => (toValueMembers ms).map Value.ofPairs
termination_by structural j => j

def toValueItems : List Json → Except Refusal (List Value)
  | [] => .ok []
  | j :: js => (toValue j).bind fun v => (toValueItems js).map (v :: ·)
termination_by structural js => js

/-- The entries in pairs. The form of a pair is checked before its parts are read. -/
def toValuePairs : List Json → Except Refusal (List Entry)
  | [] => .ok []
  | .array [k, v] :: js =>
      (toValue k).bind fun key =>
        (toValue v).bind fun x => (toValuePairs js).map ((key, x) :: ·)
  | _ :: _ => .error .entry
termination_by structural js => js

def toValueMembers : List (String × Json) → Except Refusal (List Entry)
  | [] => .ok []
  | (k, j) :: ms => (toValue j).bind fun v => (toValueMembers ms).map ((.str k, v) :: ·)
termination_by structural ms => ms

end

end Json

end TaggedValue
