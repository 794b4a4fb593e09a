import DiffGraph.Expr.Permute

/-!
# Elementwise operations and inner products

`unary` and `binary` apply an operation to every entry, `dot` sums the products
of the entries. Operands of one shape are projected onto the union of their
patterns; a 1x1 operand is applied to every entry of the other one, which is
made dense unless the operation keeps its structural zeros. Constants are
computed at once, and neutral and absorbing constants, double negations and
products with zero are simplified away.
-/

namespace DiffGraph.Expr

variable {α : Type} [Scalar α]

def isZero (x : Expr α) : Bool :=
  x.constant?.any fun nz => nz.all (· == 0)

/-- A constant with nonzeros, all of them one. -/
def isOne (x : Expr α) : Bool :=
  x.constant?.any fun nz => !nz.isEmpty && nz.all (· == 1)

def negated? (x : Expr α) : Option (Expr α) :=
  match x.op, x.deps with
  | .unary .neg, [y] => some y
  | _, _ => none

/-- A unary operation on an operand that has the result's pattern. -/
def unaryNode (op : UnaryOp) (x : Expr α) : Fresh (Expr α) :=
  match x.constant?, op, x.negated? with
  | some nz, _, _ => constant (nz.map op.apply) x.pattern
  | none, .neg, some y => pure y
  | none, _, _ => fresh (.unary op) [x] x.pattern

/-- An operation on every entry; if it moves zero, the operand is made dense first. -/
def unary (op : UnaryOp) (x : Expr α) : Build (Expr α) := do
  unaryNode op (← if op.preservesZero then pure x else x.densify)

def neg (x : Expr α) : Fresh (Expr α) :=
  unaryNode .neg x

/-- The operands of a binary operation brought into line, and how they are combined. -/
structure Aligned (α : Type) where
  left : Expr α
  right : Expr α
  broadcast : Broadcast

namespace Aligned

def pattern (a : Aligned α) : Pattern :=
  match a.broadcast with
  | .left => a.right.pattern
  | .none | .right => a.left.pattern

end Aligned

/-- Brings operands into line, or tells that their shapes are incompatible. -/
def align (op : BinaryOp) (x y : Expr α) : Build (Aligned α) := do
  if x.shape = y.shape then
    let union ← x.pattern.union y.pattern
    return ⟨← x.onto union, ← y.onto union, .none⟩
  else if x.pattern.isScalar then
    let right ← if op = .mul then pure y else y.densify
    return ⟨← x.densify, right, .left⟩
  else if y.pattern.isScalar then
    let left ← if op = .mul ∨ op = .div then pure x else x.densify
    return ⟨left, ← y.densify, .right⟩
  else throw (.shapeMismatch op.name (.shapes x.shape y.shape))

def combine (op : BinaryOp) (broadcast : Broadcast) (xs ys : List α) (k : Nat) : α :=
  let (i, j) := broadcast.operands k
  op.apply (xs[i]?.getD 0) (ys[j]?.getD 0)

/-- A simplification of a binary operation on operands that are not both constant. -/
inductive Simplified (α : Type) where
  | operand (x : Expr α)
  | negation (x : Expr α)
  | zero
  | none

/-- Neutral and absorbing constants; an operand replaces the result only if it has its pattern. -/
def simplify (op : BinaryOp) (a : Aligned α) : Simplified α :=
  let fits (x : Expr α) : Bool := x.pattern = a.pattern
  match op with
  | .add =>
    if a.left.isZero && fits a.right then .operand a.right
    else if a.right.isZero && fits a.left then .operand a.left
    else .none
  | .sub =>
    if a.right.isZero && fits a.left then .operand a.left
    else if a.left.isZero && fits a.right then .negation a.right
    else .none
  | .mul =>
    if a.left.isZero || a.right.isZero then .zero
    else if a.left.isOne && fits a.right then .operand a.right
    else if a.right.isOne && fits a.left then .operand a.left
    else .none
  | .div => if a.right.isOne && fits a.left then .operand a.left else .none

def binaryNode (op : BinaryOp) (a : Aligned α) : Fresh (Expr α) :=
  match a.left.constant?, a.right.constant? with
  | some xs, some ys =>
    constant ((List.range a.pattern.nnz).map (combine op a.broadcast xs ys)) a.pattern
  | _, _ =>
    match simplify op a with
    | .operand x => pure x
    | .negation x => neg x
    | .zero => constant (List.replicate a.pattern.nnz 0) a.pattern
    | .none => fresh (.binary op a.broadcast) [a.left, a.right] a.pattern

def binary (op : BinaryOp) (x y : Expr α) : Build (Expr α) := do
  binaryNode op (← align op x y)

/-- The sum of the products of the entries of two operands of one shape. -/
def dot (x y : Expr α) : Build (Expr α) := do
  if x.shape ≠ y.shape then
    throw (.shapeMismatch "inner_prod" (.shapes x.shape y.shape))
  let union ← x.pattern.union y.pattern
  let a ← x.onto union
  let b ← y.onto union
  if a.isZero || b.isZero then scalar 0
  else match a.constant?, b.constant? with
    | some xs, some ys => scalar (Scalar.sum (List.zipWith (· * ·) xs ys))
    | _, _ => fresh .innerProduct [a, b] .scalar

def sum (x : Expr α) : Build (Expr α) := do
  dot x (← ones x.pattern)

/-- Adds a contribution to a partial sum on the pattern `target`. -/
def accumulate (total : Option (Expr α)) (contribution : Expr α) (target : Pattern) :
    Build (Expr α) := do
  let c ← contribution.project target
  match total with
  | none => return c
  | some t => (← binary .add t c).project target

end DiffGraph.Expr
