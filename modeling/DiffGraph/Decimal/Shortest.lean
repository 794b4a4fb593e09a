/-!
# Shortest decimals

A positive binary number `m * 2 ^ q` is read back from every decimal inside its
rounding interval: half a unit to both sides, a quarter below a power of two,
ends included when `m` is even. `shortest` gives the decimal with the fewest
digits inside the interval; of two with equally many digits the nearer one, and
the larger one of two that are equally near. It looks only at the neighbours of
the value on each decimal grid.
-/

namespace DiffGraph

attribute [local instance (high)] instPowNat

/-- The number `digits * 10 ^ exponent`. -/
structure Decimal where
  digits : Nat
  exponent : Int
  deriving DecidableEq

namespace Decimal

/-- A binary number with the interval of the reals that round to it. Bounds and value are
multiples of `2 ^ unit`. -/
structure Interval where
  low : Nat
  value : Nat
  high : Nat
  unit : Int
  closed : Bool

namespace Interval

/-- The interval of `m * 2 ^ q`; `narrow` says that the spacing below is half the one above. -/
def ofBinary (m : Nat) (q : Int) (narrow : Bool) : Interval where
  low := if narrow then 4 * m - 1 else 4 * m - 2
  value := 4 * m
  high := 4 * m + 2
  unit := q - 2
  closed := m % 2 == 0

/-- The scale of `10 ^ k` when both it and the units become whole numbers. -/
def decimalScale (i : Interval) (k : Int) : Nat :=
  10 ^ k.toNat * 2 ^ (-i.unit).toNat

/-- The scale of the units when both they and `10 ^ k` become whole numbers. -/
def unitScale (i : Interval) (k : Int) : Nat :=
  2 ^ i.unit.toNat * 10 ^ (-k).toNat

/-- `c * 10 ^ k` lies in the interval. -/
def contains (i : Interval) (k : Int) (c : Nat) : Bool :=
  let x := c * i.decimalScale k
  let s := i.unitScale k
  if i.closed then i.low * s ≤ x && x ≤ i.high * s else i.low * s < x && x < i.high * s

/-- The distance of `c * 10 ^ k` from the value, in the common scale. -/
def distance (i : Interval) (k : Int) (c : Nat) : Nat :=
  let x := c * i.decimalScale k
  let v := i.value * i.unitScale k
  (x - v) + (v - x)

/-- The best multiple of `10 ^ k` in the interval. -/
def onGrid? (i : Interval) (k : Int) : Option Decimal :=
  let below := i.value * i.unitScale k / i.decimalScale k
  match i.contains k below, i.contains k (below + 1) with
  | true, true =>
    some ⟨if i.distance k below < i.distance k (below + 1) then below else below + 1, k⟩
  | true, false => some ⟨below, k⟩
  | false, true => some ⟨below + 1, k⟩
  | false, false => none

def digitCount (n : Nat) : Nat :=
  (Nat.toDigits 10 n).length

/-- The exponent `e` with `10 ^ e ≤ value < 10 ^ (e + 1)`. -/
def magnitude (i : Interval) : Int :=
  let num := i.value * i.unitScale 0
  let den := i.decimalScale 0
  if den ≤ num then (digitCount (num / den) : Int) - 1
  else -(digitCount ((den + num - 1) / num - 1) : Int)

/-- The decimal with the fewest digits; seventeen always suffice. -/
def shortest (i : Interval) : Decimal :=
  let e := i.magnitude
  ((List.range 17).findSome? fun n : Nat => i.onGrid? (e - (n : Int))).getD ⟨0, 0⟩

end Interval

/-- Moves trailing zeros of the digits into the exponent. -/
def trimmed (d : Decimal) : (fuel : Nat) → Decimal
  | 0 => d
  | fuel + 1 =>
    if d.digits ≠ 0 ∧ d.digits % 10 = 0 then trimmed ⟨d.digits / 10, d.exponent + 1⟩ fuel else d

/-- The interval of the absolute value of a finite float. -/
def Interval.ofFloat (x : Float) : Interval :=
  let bits := x.toBits.toNat
  let fraction : Nat := bits % 2 ^ (52 : Nat)
  let exponent : Nat := bits / 2 ^ (52 : Nat) % 2 ^ (11 : Nat)
  if exponent = 0 then ofBinary fraction (-1074) false
  else
    ofBinary (fraction + 2 ^ (52 : Nat)) ((exponent : Int) - 1075)
      (fraction == 0 && exponent != 1)

/-- The shortest decimal of the absolute value of a finite nonzero float. -/
def ofFloat (x : Float) : Decimal :=
  (Interval.ofFloat x).shortest.trimmed 20

end Decimal

end DiffGraph
