import TaggedValue.Json.Codec

/-!
# Values as interchange text

A value is written through its tree. Reading either takes the whole text for a tree first and then
finds its value, or finds the value of the tree at the front of the text before it looks at what
follows; the two differ only in which of two faults they report.
-/

namespace TaggedValue

/-- Why a text does not give what was to be read from it. -/
inductive ReadFault
  /-- The text is not of the grammar. -/
  | syntaxFault
  /-- The text holds something other than a mapping. -/
  | notMapping
  /-- A part of the text stands for no value. -/
  | refused (r : Refusal)
deriving DecidableEq, Repr

namespace Value

def toJsonText (v : Value) : Except Refusal String := v.toJson.map Json.render

/-- The value at the front of a text. What follows is looked at last. -/
def ofJsonText (text : String) : Except ReadFault Value :=
  match Json.readFront Json.maxDepth text.toList with
  | none => .error .syntaxFault
  | some (j, rest) =>
      match j.toValue with
      | .error r => .error (.refused r)
      | .ok v => if Json.isFinished rest then .ok v else .error .syntaxFault

end Value

end TaggedValue
