import TaggedValue.Number.Decimal

/-!
# How a double precision number is written

The digits are always the shortest that read back. A layout says which numbers are written in full
and which with an exponent, and how the two forms look. Three layouts are in use.
-/

namespace TaggedValue.Number

/-- The choices in which written numbers differ. -/
structure Layout where
  /-- Whether a number whose leading digit has this exponent is written in full. -/
  inFull : Int → Bool
  /-- Whether a whole number written in full ends in `.0`. -/
  wholePoint : Bool
  /-- Whether an exponent that is not negative has a sign. -/
  plusSign : Bool
  /-- Which of two equally near texts is taken. -/
  tie : Decimal.Tie

namespace Layout

/-- Literals: in full from `1e-4` up to below `1e16`, and never taken for an integer. -/
def literal : Layout := ⟨fun e => -4 ≤ e && e < 16, true, false, .upward⟩

/-- Plain digits throughout. -/
def plain : Layout := ⟨fun _ => true, false, false, .upward⟩

/-- Interchange text: in full from `1e-5` up to below `1e16`, with a sign on every exponent. Of two
equally near texts it takes the one with the even last digit. -/
def interchange : Layout := ⟨fun e => -5 ≤ e && e < 16, true, true, .toEven⟩

/-- A decimal written in full. -/
def full (l : Layout) (d : Decimal) : List Char :=
  let ds := Nat.toDigits 10 d.digits
  if 0 ≤ d.exponent then
    ds ++ List.replicate d.exponent.toNat '0' ++ (if l.wholePoint then ['.', '0'] else [])
  else
    let places := (-d.exponent).toNat
    if places < ds.length then
      ds.take (ds.length - places) ++ '.' :: ds.drop (ds.length - places)
    else '0' :: '.' :: (List.replicate (places - ds.length) '0' ++ ds)

/-- A decimal written with one digit before the point and an exponent. -/
def scientific (l : Layout) (d : Decimal) : List Char :=
  let ds := Nat.toDigits 10 d.digits
  let e : Int := d.exponent + ds.length - 1
  let mantissa := if ds.length = 1 then ds else ds.take 1 ++ '.' :: ds.drop 1
  let sign := if e < 0 then ['-'] else if l.plusSign then ['+'] else []
  mantissa ++ 'e' :: (sign ++ Nat.toDigits 10 e.natAbs)

/-- A decimal without its sign. -/
def decimal (l : Layout) (d : Decimal) : List Char :=
  let leading : Int := d.exponent + (Nat.toDigits 10 d.digits).length - 1
  if l.inFull leading then l.full d else l.scientific d

/-- A double precision number. A not-a-number has no sign. -/
def write (l : Layout) (x : Binary64) : List Char :=
  if x.isNaN then ['N', 'a', 'N']
  else
    let size :=
      if x.isInfinite then ['i', 'n', 'f'] else l.decimal (Decimal.shortest l.tie x.pattern)
    if x.isNegative then '-' :: size else size

end Layout

end TaggedValue.Number
