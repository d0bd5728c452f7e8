import TaggedValue.Json.Basic
import TaggedValue.Number.IntegerText
import TaggedValue.Number.Layout

/-!
# Interchange text

Trees are written without any blanks. In texts only the quote, the backslash and the controls below
the space are escaped.
-/

namespace TaggedValue

open Number (Layout)

def JsonNumber.write : JsonNumber → List Char
  | .int n => Number.writeInt n.toInt
  | .large n _ => Nat.toDigits 10 n.toNat
  | .float x _ => Layout.interchange.write x

namespace Json

/-- The written form of one character of a text. -/
def escape (c : Char) : List Char :=
  match c with
  | '"' => ['\\', '"']
  | '\\' => ['\\', '\\']
  | '\x08' => ['\\', 'b']
  | '\t' => ['\\', 't']
  | '\n' => ['\\', 'n']
  | '\x0c' => ['\\', 'f']
  | '\r' => ['\\', 'r']
  | c =>
      if c.toNat < 0x20 then
        ['\\', 'u', '0', '0', Nat.digitChar (c.toNat / 16), Nat.digitChar (c.toNat % 16)]
      else [c]

def writeText (s : String) : List Char := '"' :: (s.toList.flatMap escape ++ ['"'])

mutual

def write : Json → List Char
  | .null => ['n', 'u', 'l', 'l']
  | .bool true => ['t', 'r', 'u', 'e']
  | .bool false => ['f', 'a', 'l', 's', 'e']
  | .number n => n.write
  | .text s => writeText s
  | .array items => '[' :: (writeItems items ++ [']'])
  | .object members => '{' :: (writeMembers members ++ ['}'])
termination_by structural j => j

def writeItems : List Json → List Char
  | [] => []
  | j :: js => write j ++ writeMoreItems js
termination_by structural js => js

def writeMoreItems : List Json → List Char
  | [] => []
  | j :: js => ',' :: (write j ++ writeMoreItems js)
termination_by structural js => js

def writeMembers : List (String × Json) → List Char
  | [] => []
  | (k, j) :: ms => writeText k ++ ':' :: (write j ++ writeMoreMembers ms)
termination_by structural ms => ms

def writeMoreMembers : List (String × Json) → List Char
  | [] => []
  | (k, j) :: ms => ',' :: (writeText k ++ ':' :: (write j ++ writeMoreMembers ms))
termination_by structural ms => ms

end

def render (j : Json) : String := String.ofList j.write

end Json

end TaggedValue
