import TaggedValue.Value.Basic
import TaggedValue.Number.IntegerText
import TaggedValue.Number.Layout
import TaggedValue.Text.Quoted

/-!
# Values as literals

The form in which a value is shown and in which it stands in messages: texts quoted, floating-point
numbers never without point or exponent, lists in brackets, tuples in parentheses with a comma
behind a lone item, maps in braces.
-/

namespace TaggedValue.Value

open Number (writeInt Layout)

mutual

def literalChars : Value → List Char
  | .str s => Text.quoteChars s.toList
  | .int n => writeInt n.toInt
  | .float x => Layout.literal.write x
  | .bool true => ['t', 'r', 'u', 'e']
  | .bool false => ['f', 'a', 'l', 's', 'e']
  | .list vs => '[' :: (literalItems vs ++ [']'])
  | .tuple vs => '(' :: (literalItems vs ++ (if vs.length = 1 then [',', ')'] else [')']))
  | .map es => '{' :: (literalEntries es ++ ['}'])
  | .object o => "<object ".toList ++ o.typeName.toList ++ ['>']
termination_by structural v => v

/-- Items with a comma and a blank between them. -/
def literalItems : List Value → List Char
  | [] => []
  | v :: vs => literalChars v ++ literalMoreItems vs
termination_by structural vs => vs

def literalMoreItems : List Value → List Char
  | [] => []
  | v :: vs => ',' :: ' ' :: (literalChars v ++ literalMoreItems vs)
termination_by structural vs => vs

/-- Entries with a colon inside and a comma between them. -/
def literalEntries : List (Value × Value) → List Char
  | [] => []
  | (k, v) :: es => literalChars k ++ ':' :: ' ' :: (literalChars v ++ literalMoreEntries es)
termination_by structural es => es

def literalMoreEntries : List (Value × Value) → List Char
  | [] => []
  | (k, v) :: es =>
      ',' :: ' ' :: (literalChars k ++ ':' :: ' ' :: (literalChars v ++ literalMoreEntries es))
termination_by structural es => es

end

def literal (v : Value) : String := String.ofList v.literalChars

instance : ToString Value := ⟨literal⟩

end TaggedValue.Value
