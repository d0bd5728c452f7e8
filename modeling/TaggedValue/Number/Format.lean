/-!
# Binary floating-point formats

A format fixes how many bits the fraction and the exponent of a number have. Read as a natural
number, the bits below the sign are its *pattern*. Patterns grow with the numbers they stand for,
and the finite ones are followed by the pattern of infinity. Every finite number is a whole number
of *steps*, a step being the least positive number of the format; `Format.nearest` rounds a
quotient of natural numbers to the pattern nearest to it.
-/

namespace TaggedValue.Number

/-- The widths of the two fields below the sign. -/
structure Format where
  fractionBits : Nat
  exponentBits : Nat
deriving DecidableEq, Repr

/-- The nearest whole number to a quotient. A half goes to the even neighbour. -/
def divHalfEven (num den : Nat) : Nat :=
  let q := num / den
  let r := num % den
  if 2 * r < den then q else if den < 2 * r then q + 1 else q + q % 2

namespace Format

def binary64 : Format := ⟨52, 11⟩

def binary32 : Format := ⟨23, 8⟩

/-- The first pattern with a nonzero exponent field. -/
def hidden (f : Format) : Nat := Nat.pow 2 f.fractionBits

/-- A step is two to the power of minus this. -/
def depth (f : Format) : Nat := Nat.pow 2 (f.exponentBits - 1) - 2 + f.fractionBits

/-- The pattern of infinity. Larger ones are not numbers. -/
def infinity (f : Format) : Nat := (Nat.pow 2 f.exponentBits - 1) * f.hidden

/-- How many steps a pattern stands for. -/
def steps (f : Format) (pattern : Nat) : Nat :=
  if pattern < f.hidden then pattern
  else (f.hidden + pattern % f.hidden) * Nat.pow 2 (pattern / f.hidden - 1)

/-- The pattern nearest to a quotient, a half going to the even pattern. A quotient at or beyond
the middle between the largest finite number and the next power of two gives infinity. -/
def nearest (f : Format) (num den : Nat) : Nat :=
  let scaled := num * Nat.pow 2 f.depth
  let shift := (scaled / den).log2 - f.fractionBits
  min f.infinity (shift * f.hidden + divHalfEven scaled (den * Nat.pow 2 shift))

end Format

end TaggedValue.Number
