/-!
# Integers as text

A signed 64-bit integer is written in decimal, with a minus sign if it is negative. It is read from
an optional sign and one or more ASCII digits. Digits are taken from the left, and the first flaw
met is the one reported.
-/

namespace TaggedValue.Number

/-- Why a text is not a signed 64-bit integer. -/
inductive IntegerFlaw
  | empty
  | notDigit
  | tooLarge
  | tooSmall
deriving DecidableEq, Repr

def IntegerFlaw.message : IntegerFlaw → String
  | empty => "cannot parse integer from empty string"
  | notDigit => "invalid digit found in string"
  | tooLarge => "number too large to fit in target type"
  | tooSmall => "number too small to fit in target type"

def digitValue (c : Char) : Nat := c.toNat - 48

def writeInt (i : Int) : List Char :=
  if i < 0 then '-' :: Nat.toDigits 10 i.natAbs else Nat.toDigits 10 i.natAbs

/-- Continues a number with further digits as long as it stays within a limit. -/
def readDigits (limit : Nat) (beyond : IntegerFlaw) (value : Nat) :
    List Char → Except IntegerFlaw Nat
  | [] => .ok value
  | c :: cs =>
      if c.isDigit then
        let next := 10 * value + digitValue c
        if limit < next then .error beyond else readDigits limit beyond next cs
      else .error .notDigit

def readInt64 : List Char → Except IntegerFlaw Int64
  | [] => .error .empty
  | ['+'] => .error .notDigit
  | ['-'] => .error .notDigit
  | '-' :: cs =>
      (readDigits 0x8000000000000000 .tooSmall 0 cs).map fun n => Int64.ofInt (-(n : Int))
  | '+' :: cs => (readDigits 0x7fffffffffffffff .tooLarge 0 cs).map fun n => Int64.ofInt n
  | cs => (readDigits 0x7fffffffffffffff .tooLarge 0 cs).map fun n => Int64.ofInt n

end TaggedValue.Number
