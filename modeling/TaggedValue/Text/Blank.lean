/-!
# Blank characters

The characters with the white-space property, and the text left when blanks are taken from both
its ends.
-/

namespace TaggedValue.Text

/-- The characters that count as white space, in any script. -/
def isBlank (c : Char) : Bool :=
  let n := c.toNat
  (0x9 ≤ n && n ≤ 0xD) || n == 0x20 || n == 0x85 || n == 0xA0 || n == 0x1680
    || (0x2000 ≤ n && n ≤ 0x200A) || n == 0x2028 || n == 0x2029 || n == 0x202F
    || n == 0x205F || n == 0x3000

def dropBlankEnd (cs : List Char) : List Char :=
  (cs.reverse.dropWhile isBlank).reverse

def trim (cs : List Char) : List Char :=
  dropBlankEnd (cs.dropWhile isBlank)

end TaggedValue.Text
