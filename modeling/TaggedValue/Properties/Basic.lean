import TaggedValue.Fault
import TaggedValue.Table
import TaggedValue.Value.Access
import TaggedValue.Value.Outline

/-!
# Properties

A table of named values. It has the same contents as a map with texts for keys, and the two convert
into each other.
-/

namespace TaggedValue

abbrev Properties := Table Value

namespace Properties

/-- Binds a name, and gives the value that it had before. -/
def set (p : Properties) (name : String) (v : Value) : Properties × Option Value :=
  (p.insert name v, p.get? name)

/-- Unbinds a name, and gives the value that it had. -/
def remove (p : Properties) (name : String) : Properties × Option Value :=
  (p.erase name, p.get? name)

/-- The value of a name that has to be set. -/
def get (p : Properties) (name : String) : Except Fault Value :=
  match p.get? name with
  | some v => .ok v
  | none => .error (.unsetProperty name)

/-- The map with the same bindings. -/
def toValue (p : Properties) : Value :=
  Value.ofPairs (p.toList.map fun b => (.str b.1, b.2))

/-- Adds the entries of a map, as long as their keys are texts. -/
def addEntries (p : Properties) : List Entry → Except Fault Properties
  | [] => .ok p
  | (.str name, v) :: es => addEntries (p.insert name v) es
  | (k, _) :: _ => .error (.propertyName k.kind)

/-- The properties in a map with texts for keys. -/
def ofValue (v : Value) : Except Fault Properties :=
  match v with
  | .map es => addEntries {} es
  | _ => .error (.wrongKind .map v.kind)

/-- Whether the same names are bound to equal values. -/
def equal (p q : Properties) : Bool :=
  p.size == q.size
    && (p.toList.zip q.toList).all fun b => b.1.1 == b.2.1 && b.1.2.equal b.2.2

def outlineBinding (b : String × Value) : String :=
  Text.quote b.1 ++ ": " ++ b.2.outline

def outline (p : Properties) : String :=
  "PropertyMap(\x7b" ++ String.intercalate ", " (p.toList.map outlineBinding) ++ "\x7d)"

end Properties

end TaggedValue
