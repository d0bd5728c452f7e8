import TaggedValue.Number.Decimal
import TaggedValue.Number.IntegerText

/-!
# Double precision numbers as text

A number is an optional sign and then either digits with at most one point among or around them and
an optional exponent, or one of the words `inf`, `infinity` and `nan` in any case. It reads as the
nearest double precision number.
-/

namespace TaggedValue.Number

/-- Why a text is not a floating-point number. -/
inductive FloatFlaw
  | empty
  | malformed
deriving DecidableEq, Repr

def FloatFlaw.message : FloatFlaw → String
  | empty => "cannot parse float from empty string"
  | malformed => "invalid float literal"

/-- Splits off a leading sign; true stands for minus. -/
def splitSign : List Char → Bool × List Char
  | '-' :: cs => (true, cs)
  | '+' :: cs => (false, cs)
  | cs => (false, cs)

/-- A written exponent: a sign and at least one digit, up to the end of the text. -/
def readExponent (cs : List Char) : Option Int :=
  let (negative, ds) := splitSign cs
  if ds.isEmpty || !ds.all Char.isDigit then none
  else
    let n : Int := Nat.ofDigitChars 10 ds 0
    some (if negative then -n else n)

/-- An unsigned decimal: digits, a point, an exponent. There is a digit on one side of the point. -/
def readDecimal (cs : List Char) : Option Decimal :=
  let whole := cs.takeWhile Char.isDigit
  let afterWhole := cs.dropWhile Char.isDigit
  let (places, rest) :=
    match afterWhole with
    | '.' :: r => (r.takeWhile Char.isDigit, r.dropWhile Char.isDigit)
    | r => ([], r)
  if whole.isEmpty && places.isEmpty then none
  else
    let digits := Nat.ofDigitChars 10 (whole ++ places) 0
    match rest with
    | [] => some ⟨digits, -(places.length : Int)⟩
    | e :: r =>
        if e == 'e' || e == 'E' then
          (readExponent r).map fun n => ⟨digits, n - places.length⟩
        else none

/-- The pattern of one of the three words, in any case. -/
def readWord (cs : List Char) : Option Nat :=
  match String.ofList (cs.map Char.toLower) with
  | "inf" | "infinity" => some (Binary64.infinity false).pattern
  | "nan" => some (Binary64.nan false).pattern
  | _ => none

def readBinary64 (cs : List Char) : Except FloatFlaw Binary64 :=
  if cs.isEmpty then .error .empty
  else
    let (negative, rest) := splitSign cs
    match readDecimal rest with
    | some d => .ok (Binary64.ofPattern negative d.toPattern)
    | none =>
        match readWord rest with
        | some p => .ok (Binary64.ofPattern negative p)
        | none => .error .malformed

end TaggedValue.Number
