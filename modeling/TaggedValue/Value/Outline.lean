import TaggedValue.Value.Basic
import TaggedValue.Number.IntegerText
import TaggedValue.Number.Layout
import TaggedValue.Text.Quoted

/-!
# Outlines of values

The form for inspection: every payload is wrapped in the name of its kind, containers give their
size, and numbers have all their digits.
-/

namespace TaggedValue.Value

open Number (writeInt Layout)

/-- A container of some size around its items. -/
def outlineContainer (name : String) (size : Nat) (items : List Char) : List Char :=
  name.toList ++ "([size = ".toList ++ Nat.toDigits 10 size ++ ", items = [".toList ++ items
    ++ "]])".toList

/-- A payload in parentheses behind a name. -/
def outlineScalar (name : String) (payload : List Char) : List Char :=
  name.toList ++ '(' :: (payload ++ [')'])

mutual

def outlineChars : Value → List Char
  | .str s => outlineScalar "String" (Text.quoteChars s.toList)
  | .int n => outlineScalar "Integer" (writeInt n.toInt)
  | .float x => outlineScalar "Float" (Layout.plain.write x)
  | .bool b => outlineScalar "Bool" (if b then "true".toList else "false".toList)
  | .list vs => outlineContainer "List" vs.length (outlineItems vs)
  | .tuple vs => outlineContainer "Tuple" vs.length (outlineItems vs)
  | .map es => outlineContainer "Map" es.length (outlineEntries es)
  | .object o => outlineScalar "Object" o.typeName.toList
termination_by structural v => v

/-- Items with a comma and a blank between them. -/
def outlineItems : List Value → List Char
  | [] => []
  | v :: vs => outlineChars v ++ outlineMoreItems vs
termination_by structural vs => vs

def outlineMoreItems : List Value → List Char
  | [] => []
  | v :: vs => ',' :: ' ' :: (outlineChars v ++ outlineMoreItems vs)
termination_by structural vs => vs

/-- Entries as pairs in parentheses. -/
def outlineEntries : List (Value × Value) → List Char
  | [] => []
  | (k, v) :: es =>
      '(' :: (outlineChars k ++ ',' :: ' ' :: (outlineChars v ++ ')' :: outlineMoreEntries es))
termination_by structural es => es

def outlineMoreEntries : List (Value × Value) → List Char
  | [] => []
  | (k, v) :: es =>
      ',' :: ' ' :: '(' ::
        (outlineChars k ++ ',' :: ' ' :: (outlineChars v ++ ')' :: outlineMoreEntries es))
termination_by structural es => es

end

def outline (v : Value) : String := String.ofList v.outlineChars

/-- The outlines of the items of a list or tuple, in brackets. -/
def outlineAll (vs : List Value) : String :=
  String.ofList ('[' :: (outlineItems vs ++ [']']))

end TaggedValue.Value
