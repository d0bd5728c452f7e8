import TaggedValue.Json.Text
import TaggedValue.Properties.Basic

/-!
# Properties as interchange text

Properties are written as one object, a member for each name, whatever the names are: no name is
taken for a tag. Reading text converts each value as soon as it is read, so the first flaw in the
order of the text is reported, be it in the grammar or in a value.
-/

namespace TaggedValue.Properties

/-! ## Through trees -/

def toMembers : List (String × Value) → Except Refusal (List (String × Json))
  | [] => .ok []
  | (name, v) :: bs => v.toJson.bind fun j => (toMembers bs).map ((name, j) :: ·)

/-- The object of properties. -/
def toJson (p : Properties) : Except Refusal Json := (toMembers p.toList).map .object

/-- The interchange text of properties. -/
def toJsonText (p : Properties) : Except Refusal String := p.toJson.map Json.render

/-- The bindings in members. -/
def ofMembers : List (String × Json) → Except Refusal (List (String × Value))
  | [] => .ok []
  | (name, j) :: ms => j.toValue.bind fun v => (ofMembers ms).map ((name, v) :: ·)

/-- The properties in a tree. -/
def ofJson : Json → Except ReadFault Properties
  | .object ms => ((ofMembers ms).map Table.ofList).mapError .refused
  | _ => .error .notMapping

/-! ## From text -/

/-- Reads one member or more into properties, up to the brace behind them. -/
def readMembers : Nat → Properties → List Char → Except ReadFault (Properties × List Char)
  | 0, _, _ => .error .syntaxFault
  | fuel + 1, p, cs =>
      match Json.readKey cs with
      | none => .error .syntaxFault
      | some (name, r) =>
          match Json.readFront (Json.maxDepth - 1) r with
          | none => .error .syntaxFault
          | some (j, r) =>
              match j.toValue with
              | .error x => .error (.refused x)
              | .ok v =>
                  match Json.skipBlanks r with
                  | '}' :: r => .ok (p.insert name v, r)
                  | ',' :: r => readMembers fuel (p.insert name v) r
                  | _ => .error .syntaxFault

/-- Reads the properties in an object behind its brace. -/
def readBody (cs : List Char) : Except ReadFault (Properties × List Char) :=
  match Json.skipBlanks cs with
  | '}' :: r => .ok ({}, r)
  | _ => readMembers (cs.length + 1) {} cs

/-- The properties that a whole text stands for. Anything but an object is no mapping, provided that
it is a scalar or text of the grammar or begins an array. -/
def ofJsonText (text : String) : Except ReadFault Properties :=
  match Json.skipBlanks text.toList with
  | '{' :: r =>
      (readBody r).bind fun (p, rest) =>
        if Json.isFinished rest then .ok p else .error .syntaxFault
  | '[' :: _ => .error .notMapping
  | r =>
      match Json.readFront Json.maxDepth r with
      | some _ => .error .notMapping
      | none => .error .syntaxFault

end TaggedValue.Properties
