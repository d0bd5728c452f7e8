import TaggedValue.Number.Binary64

/-!
# Decimal numbers, and the shortest one that reads back

A decimal is a natural number times a power of ten. `Decimal.toPattern` rounds it to double
precision. `Decimal.shortest` goes the other way: of the decimals that round to the given number it
takes one on the coarsest power of ten, and of two neighbours there the nearer. Which of two equally
near ones it takes is a choice.
-/

namespace TaggedValue.Number

/-- The number `digits * 10 ^ exponent`. -/
structure Decimal where
  digits : Nat
  exponent : Int
deriving DecidableEq, Repr

namespace Decimal

/-! ## Rounding to double precision -/

/-- Beyond this power of ten every number but zero overflows, and below its inverse every number
rounds to zero. -/
def outOfReach : Nat := 400

/-- The pattern nearest to a decimal. Decimals far out of reach are settled without computing their
power of ten. -/
def toPattern (d : Decimal) : Nat :=
  if d.digits = 0 then 0
  else if 0 ≤ d.exponent then
    if outOfReach < d.exponent then Format.binary64.infinity
    else Format.binary64.nearest (d.digits * Nat.pow 10 d.exponent.toNat) 1
  else if d.digits.log2 + outOfReach < (-d.exponent).toNat then 0
  else Format.binary64.nearest d.digits (Nat.pow 10 (-d.exponent).toNat)

/-! ## The shortest decimal -/

/-- Which of two equally near decimals is taken. -/
inductive Tie
  | upward
  | toEven
deriving DecidableEq, Repr

/-- Whether a number between `q` and `q + 1` goes down, given how twice its part beyond `q` compares
with one. -/
def Tie.goesDown (t : Tie) (q : Nat) : Ordering → Bool
  | .lt => true
  | .eq => t == .toEven && q % 2 == 0
  | .gt => false

/-- The two multiples of `10 ^ e` on either side of a number of steps, the nearer first. -/
def neighbours (tie : Tie) (steps : Nat) (e : Int) : List Decimal :=
  let num := steps * Nat.pow 10 (-e).toNat
  let den := Nat.pow 2 Format.binary64.depth * Nat.pow 10 e.toNat
  let below : Decimal := ⟨num / den, e⟩
  let above : Decimal := ⟨num / den + 1, e⟩
  if tie.goesDown below.digits (compare (2 * (num % den)) den) then [below, above]
  else [above, below]

/-- Walks from a power of ten to the finer ones, up to the first with a neighbour that reads
back. -/
def search (tie : Tie) (pattern : Nat) : Nat → Int → Option Decimal
  | 0, _ => none
  | fuel + 1, e =>
      match (neighbours tie (Format.binary64.steps pattern) e).find? (·.toPattern == pattern) with
      | some d => some d
      | none => search tie pattern fuel (e - 1)

/-- An exponent of ten at which no multiple reads back, for a number below `2 ^ b`: this power of
ten is at least twice the number. -/
def coarsest (b : Int) : Int := if 0 ≤ b then b / 3 + 1 else -((-b - 1) / 4)

/-- All digits of a number of steps. -/
def exact (steps : Nat) : Decimal :=
  ⟨steps * Nat.pow 5 Format.binary64.depth, -(Format.binary64.depth : Int)⟩

/-- The decimal with the fewest digits that reads back as this pattern. -/
def shortest (tie : Tie) (pattern : Nat) : Decimal :=
  if pattern = 0 then ⟨0, 0⟩
  else
    let steps := Format.binary64.steps pattern
    let start := coarsest ((steps.log2 : Int) + 1 - Format.binary64.depth)
    (search tie pattern (start + Format.binary64.depth).toNat start).getD (exact steps)

end Decimal

end TaggedValue.Number
