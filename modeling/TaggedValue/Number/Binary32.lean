import TaggedValue.Number.Binary64

/-!
# Single precision numbers

They widen to double precision without loss, and a double precision number narrows to the nearest
one. A not-a-number keeps its sign and the leading bits of its payload, and is made quiet.
-/

namespace TaggedValue.Number

/-- A single precision number, given by its bits. -/
structure Binary32 where
  bits : UInt32
deriving DecidableEq, Repr

namespace Binary32

/-- The weight of the sign. -/
def signBit : Nat := 0x80000000

/-- The number with this sign and pattern. -/
def ofPattern (negative : Bool) (pattern : Nat) : Binary32 :=
  ⟨UInt32.ofNat (if negative then signBit + pattern else pattern)⟩

def isNegative (x : Binary32) : Bool := signBit ≤ x.bits.toNat

/-- The bits below the sign. -/
def pattern (x : Binary32) : Nat := x.bits.toNat % signBit

/-- The first bit of a payload marks a quiet not-a-number. -/
def quiet (f : Format) (payload : Nat) : Nat :=
  if payload < f.hidden / 2 then payload + f.hidden / 2 else payload

/-- The double precision number of the same value. -/
def widen (x : Binary32) : Binary64 :=
  let wide := Format.binary64
  let narrow := Format.binary32
  Binary64.ofPattern x.isNegative <|
    if narrow.infinity < x.pattern then
      let payload := (x.pattern - narrow.infinity) * (wide.hidden / narrow.hidden)
      wide.infinity + quiet wide payload
    else if x.pattern = narrow.infinity then wide.infinity
    else wide.nearest (narrow.steps x.pattern) (Nat.pow 2 narrow.depth)

/-- The single precision number nearest to a double precision one. -/
def ofBinary64 (x : Binary64) : Binary32 :=
  let wide := Format.binary64
  let narrow := Format.binary32
  ofPattern x.isNegative <|
    if wide.infinity < x.pattern then
      let payload := (x.pattern - wide.infinity) / (wide.hidden / narrow.hidden)
      narrow.infinity + quiet narrow payload
    else if x.pattern = wide.infinity then narrow.infinity
    else narrow.nearest x.steps (Nat.pow 2 wide.depth)

end Binary32

end TaggedValue.Number
