/-!
# Hexadecimal digits
-/

namespace TaggedValue.Text

/-- The value of a hexadecimal digit, in either case. -/
def hexValue? (c : Char) : Option Nat :=
  if c.isDigit then some (c.toNat - '0'.toNat)
  else if 'a' ≤ c && c ≤ 'f' then some (c.toNat - 'a'.toNat + 10)
  else if 'A' ≤ c && c ≤ 'F' then some (c.toNat - 'A'.toNat + 10)
  else none

/-- The number written by a row of hexadecimal digits. -/
def readHex (cs : List Char) : Option Nat :=
  cs.foldl (fun n c => n.bind fun n => (hexValue? c).map (16 * n + ·)) (some 0)

/-- Whether a number is that of a character: surrogates are none. -/
def isCharacter (n : Nat) : Bool := n < 0xD800 || (0xE000 ≤ n && n < 0x110000)

end TaggedValue.Text
