import DiffGraph.Element

/-!
# Dual numbers

`Dual α` pairs a value with a derivative along one direction; the operations
follow the rules of differentiation. `seeded` joins a buffer of values with one
of derivatives. The value of an operation never depends on derivatives
(`value_apply_unary`, `value_apply_binary`).
-/

namespace DiffGraph

structure Dual (α : Type) where
  value : α
  deriv : α
  deriving Repr

namespace Dual

variable {α : Type}

/-- Pairs values with derivatives; the shorter buffer decides the length. -/
def seeded (values derivs : List α) : List (Dual α) :=
  List.zipWith Dual.mk values derivs

def values (xs : List (Dual α)) : List α :=
  xs.map value

def derivs (xs : List (Dual α)) : List α :=
  xs.map deriv

variable [Scalar α]

/-- A number that does not vary. -/
def constant (x : α) : Dual α :=
  ⟨x, 0⟩

instance : Zero (Dual α) := ⟨constant 0⟩
instance : One (Dual α) := ⟨constant 1⟩
instance : Add (Dual α) := ⟨fun x y => ⟨x.value + y.value, x.deriv + y.deriv⟩⟩
instance : Sub (Dual α) := ⟨fun x y => ⟨x.value - y.value, x.deriv - y.deriv⟩⟩
instance : Neg (Dual α) := ⟨fun x => ⟨-x.value, -x.deriv⟩⟩

instance : Mul (Dual α) :=
  ⟨fun x y => ⟨x.value * y.value, x.value * y.deriv + x.deriv * y.value⟩⟩

instance : Div (Dual α) :=
  ⟨fun x y =>
    ⟨x.value / y.value, (x.deriv * y.value - x.value * y.deriv) / (y.value * y.value)⟩⟩

instance : BEq (Dual α) := ⟨fun x y => x.value == y.value && x.deriv == y.deriv⟩

instance : Scalar (Dual α) where
  sin x := ⟨Scalar.sin x.value, x.deriv * Scalar.cos x.value⟩
  cos x := ⟨Scalar.cos x.value, -x.deriv * Scalar.sin x.value⟩
  exp x := ⟨Scalar.exp x.value, Scalar.exp x.value * x.deriv⟩
  log x := ⟨Scalar.log x.value, x.deriv / x.value⟩

section Projections

variable (x y : Dual α)

@[simp] theorem value_zero : (0 : Dual α).value = 0 := rfl
@[simp] theorem deriv_zero : (0 : Dual α).deriv = 0 := rfl
@[simp] theorem value_one : (1 : Dual α).value = 1 := rfl
@[simp] theorem deriv_one : (1 : Dual α).deriv = 0 := rfl
@[simp] theorem value_add : (x + y).value = x.value + y.value := rfl
@[simp] theorem deriv_add : (x + y).deriv = x.deriv + y.deriv := rfl
@[simp] theorem value_sub : (x - y).value = x.value - y.value := rfl
@[simp] theorem deriv_sub : (x - y).deriv = x.deriv - y.deriv := rfl
@[simp] theorem value_neg : (-x).value = -x.value := rfl
@[simp] theorem deriv_neg : (-x).deriv = -x.deriv := rfl
@[simp] theorem value_mul : (x * y).value = x.value * y.value := rfl
@[simp] theorem deriv_mul : (x * y).deriv = x.value * y.deriv + x.deriv * y.value := rfl
@[simp] theorem value_div : (x / y).value = x.value / y.value := rfl
@[simp] theorem deriv_div :
    (x / y).deriv = (x.deriv * y.value - x.value * y.deriv) / (y.value * y.value) := rfl

@[simp] theorem value_apply_unary (op : UnaryOp) : (op.apply x).value = op.apply x.value := by
  cases op <;> rfl

@[simp] theorem value_apply_binary (op : BinaryOp) :
    (op.apply x y).value = op.apply x.value y.value := by
  cases op <;> rfl

end Projections

instance : Element Id α (Dual α) where
  ofScalar := constant
  unary := UnaryOp.apply
  binary := BinaryOp.apply

/-- Order by value, then by derivative; anything undefined is not below. -/
def below {β : Type} [OrderedScalar β] (x y : Dual β) : Bool :=
  if x.value == y.value then OrderedScalar.less x.deriv y.deriv
  else OrderedScalar.less x.value y.value

end Dual

end DiffGraph
