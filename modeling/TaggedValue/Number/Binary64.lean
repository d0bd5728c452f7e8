import TaggedValue.Number.Format

/-!
# Double precision numbers

A number is its 64 bits, so every payload of a not-a-number and both zeros are kept apart. The
order is total: negative before positive, `-0.0` before `0.0`, and beyond the infinities those that
are not numbers. Beside it stands the numeric equality, for which a not-a-number differs from
itself and the two zeros are the same.
-/

namespace TaggedValue.Number

/-- A double precision number, given by its bits. -/
structure Binary64 where
  bits : UInt64
deriving DecidableEq, Repr

namespace Binary64

/-! ## The fields -/

/-- The weight of the sign. -/
def signBit : Nat := 0x8000000000000000

/-- The number with this sign and pattern. -/
def ofPattern (negative : Bool) (pattern : Nat) : Binary64 :=
  ⟨UInt64.ofNat (if negative then signBit + pattern else pattern)⟩

def isNegative (x : Binary64) : Bool := signBit ≤ x.bits.toNat

/-- The bits below the sign. -/
def pattern (x : Binary64) : Nat := x.bits.toNat % signBit

def isNaN (x : Binary64) : Bool := Format.binary64.infinity < x.pattern

def isInfinite (x : Binary64) : Bool := x.pattern == Format.binary64.infinity

def isFinite (x : Binary64) : Bool := x.pattern < Format.binary64.infinity

/-- The size of a finite number, in steps. -/
def steps (x : Binary64) : Nat := Format.binary64.steps x.pattern

/-! ## Constants -/

def zero (negative : Bool) : Binary64 := ofPattern negative 0

def infinity (negative : Bool) : Binary64 := ofPattern negative Format.binary64.infinity

/-- The not-a-number with an empty payload. -/
def nan (negative : Bool) : Binary64 :=
  ofPattern negative (Format.binary64.infinity + Format.binary64.hidden / 2)

/-! ## Order and equality -/

/-- The place of a number in the total order. -/
def rank (x : Binary64) : Int :=
  if x.isNegative then -(x.pattern : Int) - 1 else x.pattern

/-- The total order of all bit patterns. -/
protected def compare (x y : Binary64) : Ordering := compare x.rank y.rank

/-- Numeric equality. -/
def sameNumber (x y : Binary64) : Bool :=
  !x.isNaN && !y.isNaN && (x.bits == y.bits || (x.pattern == 0 && y.pattern == 0))

/-! ## Arithmetic

Of finite numbers that are not negative. Each result is the number nearest to the exact one. -/

/-- The number nearest to a natural number. -/
def ofNat (n : Nat) : Binary64 := ofPattern false (Format.binary64.nearest n 1)

/-- The product. It is infinite if it overflows. -/
def mul (x y : Binary64) : Binary64 :=
  ofPattern false
    (Format.binary64.nearest (x.steps * y.steps) (Nat.pow 2 (2 * Format.binary64.depth)))

/-- The quotient by a number that is not zero. -/
def div (x y : Binary64) : Binary64 :=
  ofPattern false (Format.binary64.nearest x.steps y.steps)

end Binary64

end TaggedValue.Number
