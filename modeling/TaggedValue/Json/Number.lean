import TaggedValue.Json.Basic
import TaggedValue.Number.FloatText

/-!
# Numbers in interchange text

An integer that fits 64 bits is read exactly, with or without sign. Every other number becomes a
double precision number in two roundings: the leading digits, as far as they fit 64 bits, are
rounded to a double precision number, and that is multiplied or divided by the nearest one to the
power of ten. A result beyond the finite numbers is refused.
-/

namespace TaggedValue.JsonNumber

open Number (Binary64)

/-- The greatest value of the leading digits. -/
def maxLeading : Nat := 0xffffffffffffffff

/-- Takes digits as long as the value fits, and counts the others. -/
def takeLeading (value : Nat) : List Char → Nat × Nat
  | [] => (value, 0)
  | c :: cs =>
      let next := 10 * value + Number.digitValue c
      if maxLeading < next then (value, cs.length + 1) else takeLeading next cs

/-- The greatest power of ten that is applied in one step. -/
def maxPower : Nat := 308

/-- The double precision number nearest to a power of ten. -/
def powerOfTen (n : Nat) : Binary64 := .ofNat (Nat.pow 10 n)

/-- Divides by a power of ten, in steps of the greatest one until the rest is within it or nothing
is left of the number. -/
def divPower : Nat → Binary64 → Nat → Binary64
  | 0, x, _ => x
  | fuel + 1, x, n =>
      if n ≤ maxPower then x.div (powerOfTen n)
      else if x.pattern = 0 then x
      else divPower fuel (x.div (powerOfTen maxPower)) (n - maxPower)

/-- The double precision number for leading digits and a power of ten, if it is finite. -/
def scale (leading : Nat) (exponent : Int) : Option Binary64 :=
  let x := Binary64.ofNat leading
  if exponent < 0 then some (divPower (exponent.natAbs + 1) x exponent.natAbs)
  else if exponent ≤ maxPower then
    let y := x.mul (powerOfTen exponent.toNat)
    if y.isFinite then some y else none
  else if x.pattern = 0 then some x else none

/-- A number with this sign, unless it is out of range. -/
def ofScaled (negative : Bool) (leading : Nat) (exponent : Int) : Option JsonNumber :=
  (scale leading exponent).bind fun x => ofBinary64? (Binary64.ofPattern negative x.pattern)

/-- Beyond this a written exponent stands for an unbounded one. -/
def maxExponent : Nat := 0x7fffffff

/-- The rest of a number from an exponent mark on, if there is one, and the text behind it. -/
def readScaled (negative : Bool) (leading : Nat) (exponent : Int) (cs : List Char) :
    Option (JsonNumber × List Char) :=
  match cs with
  | [] => (ofScaled negative leading exponent).map (·, [])
  | c :: r =>
      if c == 'e' || c == 'E' then
        let (down, r) := Number.splitSign r
        let ds := r.takeWhile Char.isDigit
        let rest := r.dropWhile Char.isDigit
        if ds.isEmpty then none
        else
          let n := Nat.ofDigitChars 10 ds 0
          if maxExponent < n then
            if leading != 0 && !down then none
            else (ofBinary64? (Binary64.zero negative)).map (·, rest)
          else
            (ofScaled negative leading (if down then exponent - n else exponent + n)).map (·, rest)
      else (ofScaled negative leading exponent).map (·, cs)

/-- A whole number that fits 64 bits. Minus zero is no integer. -/
def ofWhole (negative : Bool) (n : Nat) : Option JsonNumber :=
  if negative then
    if n = 0 || 0x8000000000000000 < n then
      ofBinary64? (Binary64.ofPattern true (Binary64.ofNat n).pattern)
    else some (.int (Int64.ofInt (-(n : Int))))
  else ofNat? n

/-- Reads a number without sign. Its whole part has no needless zeros in front, and a point has
digits on both sides. -/
def readUnsigned (negative : Bool) (cs : List Char) : Option (JsonNumber × List Char) :=
  let whole := cs.takeWhile Char.isDigit
  let afterWhole := cs.dropWhile Char.isDigit
  if whole.isEmpty || (whole.head? == some '0' && whole.length != 1) then none
  else
    let (leading, left) := takeLeading 0 whole
    match afterWhole with
    | '.' :: r =>
        let places := r.takeWhile Char.isDigit
        let rest := r.dropWhile Char.isDigit
        if places.isEmpty then none
        else
          let (leading, ignored) := takeLeading leading places
          readScaled negative leading ((left : Int) - (places.length - ignored)) rest
    | c :: _ =>
        if left == 0 && c != 'e' && c != 'E' then (ofWhole negative leading).map (·, afterWhole)
        else readScaled negative leading left afterWhole
    | [] =>
        if left == 0 then (ofWhole negative leading).map (·, [])
        else readScaled negative leading left []

/-- Reads a number, and gives the text behind it. -/
def read (cs : List Char) : Option (JsonNumber × List Char) :=
  match cs with
  | '-' :: r => readUnsigned true r
  | r => readUnsigned false r

end TaggedValue.JsonNumber
