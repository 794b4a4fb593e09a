/-!
# Scalars

`Scalar` is the arithmetic that the library computes with: four operations,
negation, zero and one, an equality test and four elementary functions. Graphs
only ever ask a number whether it equals zero or one, so the class fits machine
numbers and exact fields alike. `OrderedScalar` adds what iterative solvers
need: comparisons, absolute values and a maximum that passes over undefined
operands.
-/

namespace DiffGraph

/-- Numbers with the elementary functions. -/
class Scalar (α : Type) extends Add α, Sub α, Mul α, Div α, Neg α, Zero α, One α, BEq α where
  sin : α → α
  cos : α → α
  exp : α → α
  log : α → α

/-- Numbers that can be compared, measured and read from decimal literals. -/
class OrderedScalar (α : Type) extends Scalar α where
  abs : α → α
  /-- The larger operand; an undefined operand loses against the other one. -/
  max : α → α → α
  less : α → α → Bool
  atMost : α → α → Bool
  ofNat : Nat → α
  /-- The number nearest to `m * 10 ^ e`. -/
  ofDecimal : (m : Nat) → (e : Int) → α
  /-- The least whole number that is not below the operand. -/
  ceil : α → α
  /-- The part after the point. -/
  fract : α → α
  /-- Whole numbers become themselves; everything else is cut to the range of 64-bit words. -/
  toNat : α → Nat

namespace Scalar

variable {α : Type} [Scalar α]

/-- The sum of a list taken from the left, started at the negated zero. -/
def sum (xs : List α) : α :=
  xs.foldl (· + ·) (-(0 : α))

end Scalar

instance : Scalar Float where
  zero := 0.0
  one := 1.0
  sin := Float.sin
  cos := Float.cos
  exp := Float.exp
  log := Float.log

/-- The float nearest to `m * 10 ^ e`. Exponents that lie beyond the range of floats are settled by
the place of the leading digit. -/
def floatOfDecimal (m : Nat) (e : Int) : Float :=
  let leading := e + (Nat.toDigits 10 m).length
  if m = 0 ∨ leading < -400 then 0.0
  else if 400 < leading then 1.0 / 0.0
  else Float.ofScientific m (e < 0) e.natAbs

instance : OrderedScalar Float where
  abs := Float.abs
  max x y := if x.isNaN then y else if y.isNaN then x else if x < y then y else x
  less x y := x < y
  atMost x y := x ≤ y
  ofNat n := Float.ofNat n
  ofDecimal := floatOfDecimal
  ceil := Float.ceil
  fract x := x - (if x < 0 then Float.ceil x else Float.floor x)
  toNat x := x.toUInt64.toNat

end DiffGraph
