import Mathlib
import DiffGraph.Op

/-!
# Exact numbers

`Exact` lists the laws of arithmetic that the simplifications of the constructors
rely on. They hold in a field with the elementary functions (`ExactField`), where
`x / 0 = 0`; the rational numbers with polynomials in place of the functions are
one. `ExactNumerals` are exact fields in which decimals can be written.
-/

namespace DiffGraph

/-- The laws of arithmetic behind the simplifications. -/
class Exact (α : Type) [Scalar α] : Prop where
  eq_of_beq (x y : α) : (x == y) = true → x = y
  zero_add (x : α) : 0 + x = x
  add_zero (x : α) : x + 0 = x
  sub_zero (x : α) : x - 0 = x
  zero_sub (x : α) : 0 - x = -x
  zero_mul (x : α) : 0 * x = 0
  mul_zero (x : α) : x * 0 = 0
  one_mul (x : α) : 1 * x = x
  mul_one (x : α) : x * 1 = x
  zero_div (x : α) : 0 / x = 0
  div_one (x : α) : x / 1 = x
  neg_neg (x : α) : - -x = x
  neg_zero : -(0 : α) = 0
  sin_zero : Scalar.sin (0 : α) = 0

/-- A field whose elements can be compared, with elementary functions. -/
class ExactField (α : Type) extends Field α, Scalar α where
  eq_of_beq (x y : α) : (x == y) = true → x = y
  sin_zero : sin 0 = 0

instance {α : Type} [ExactField α] : Exact α where
  eq_of_beq := ExactField.eq_of_beq
  zero_add := zero_add
  add_zero := add_zero
  sub_zero := sub_zero
  zero_sub := zero_sub
  zero_mul := zero_mul
  mul_zero := mul_zero
  one_mul := one_mul
  mul_one := mul_one
  zero_div := zero_div
  div_one := div_one
  neg_neg := neg_neg
  neg_zero := neg_zero
  sin_zero := ExactField.sin_zero

/-- The rational numbers, with the first terms of the series of the elementary functions. -/
instance : Scalar Rat where
  sin x := x
  cos x := 1 - x * x / 2
  exp x := 1 + x
  log x := x - 1

instance : ExactField Rat where
  eq_of_beq _ _ := eq_of_beq
  sin_zero := rfl

/-- An exact field with the decimals, where different whole numbers are different. -/
class ExactNumerals (α : Type) extends ExactField α, OrderedScalar α where
  ofNat_eq (n : Nat) : ofNat n = (n : α)
  ofDecimal_eq (m : Nat) (e : Int) : ofDecimal m e = (m : α) * 10 ^ e
  natCast_injective : Function.Injective (Nat.cast : Nat → α)

instance ExactNumerals.toCharZero {α : Type} [ExactNumerals α] : CharZero α :=
  ⟨ExactNumerals.natCast_injective⟩

namespace OrderedScalar

variable {α : Type} [ExactNumerals α]

theorem ofNat_eq_cast (n : Nat) : (ofNat n : α) = n :=
  ExactNumerals.ofNat_eq n

theorem ofDecimal_eq_mul (m : Nat) (e : Int) : (ofDecimal m e : α) = m * 10 ^ e :=
  ExactNumerals.ofDecimal_eq m e

end OrderedScalar

instance : OrderedScalar Rat where
  abs x := |x|
  max x y := if x < y then y else x
  less x y := x < y
  atMost x y := x ≤ y
  ofNat n := n
  ofDecimal m e := m * 10 ^ e
  ceil x := x.ceil
  fract x := x - (if x < 0 then x.ceil else x.floor)
  toNat x := min x.floor.toNat (2 ^ 64 - 1)

instance : ExactNumerals Rat where
  ofNat_eq _ := rfl
  ofDecimal_eq _ _ := rfl
  natCast_injective := Nat.cast_injective

end DiffGraph
