import TaggedValue.Text.Printable

/-!
# Quoted text

A text between double quotes, in which every character can be seen: the quote and the backslash
are escaped, four controls have letters of their own, and whatever is not shown as itself is
written by number, as in `\u{200b}`.
-/

namespace TaggedValue.Text

/-- The written form of one character inside quotes. -/
def escape (c : Char) : List Char :=
  match c with
  | '"' => ['\\', '"']
  | '\\' => ['\\', '\\']
  | '\n' => ['\\', 'n']
  | '\r' => ['\\', 'r']
  | '\t' => ['\\', 't']
  | '\x00' => ['\\', '0']
  | c => if isShown c then [c] else '\\' :: 'u' :: '{' :: (Nat.toDigits 16 c.toNat ++ ['}'])

/-- The text between quotes, one written form after another. -/
def quoteChars (cs : List Char) : List Char :=
  '"' :: (cs.flatMap escape ++ ['"'])

def quote (s : String) : String := String.ofList (quoteChars s.toList)

end TaggedValue.Text
