import DiffGraph.Element
import DiffGraph.Expr.Basic

/-!
# Scalar expressions

A `Term` is a scalar expression: a constant, a symbol, or an operation on terms.
Terms carry an identity like matrix expressions do, so shared subterms can be
told from equal ones. Operations on constants are carried out, and neutral and
absorbing constants and double negations are dropped.
-/

namespace DiffGraph

inductive Term (α : Type) where
  | constant (id : Nat) (x : α)
  | symbol (id : Nat) (name : String)
  | unary (id : Nat) (op : UnaryOp) (x : Term α)
  | binary (id : Nat) (op : BinaryOp) (x y : Term α)

namespace Term

variable {α : Type}

def id : Term α → Nat
  | constant id _ | symbol id _ | unary id _ _ | binary id _ _ _ => id

def same (x y : Term α) : Bool :=
  x.id == y.id

def value? : Term α → Option α
  | constant _ x => some x
  | _ => none

def isSymbol : Term α → Bool
  | symbol .. => true
  | _ => false

def negated? : Term α → Option (Term α)
  | unary _ .neg x => some x
  | _ => none

def newSymbol (name : String) : Fresh (Term α) :=
  return symbol (← Fresh.identity) name

def newConstant (x : α) : Fresh (Term α) :=
  return constant (← Fresh.identity) x

variable [Scalar α]

def isValue (x : Term α) (v : α) : Bool :=
  x.value?.any (· == v)

def applyUnary (op : UnaryOp) (x : Term α) : Fresh (Term α) :=
  match x.value?, op, x.negated? with
  | some v, _, _ => newConstant (op.apply v)
  | none, .neg, some y => pure y
  | none, _, _ => return unary (← Fresh.identity) op x

def applyBinary (op : BinaryOp) (x y : Term α) : Fresh (Term α) :=
  let node : Fresh (Term α) := do return binary (← Fresh.identity) op x y
  match x.value?, y.value? with
  | some a, some b => newConstant (op.apply a b)
  | _, _ =>
    match op with
    | .add => if x.isValue 0 then pure y else if y.isValue 0 then pure x else node
    | .sub => if y.isValue 0 then pure x else if x.isValue 0 then applyUnary .neg y else node
    | .mul =>
      if x.isValue 0 || y.isValue 0 then newConstant 0
      else if x.isValue 1 then pure y
      else if y.isValue 1 then pure x
      else node
    | .div => if y.isValue 1 then pure x else node

instance : Element Fresh α (Term α) where
  ofScalar := newConstant
  unary := applyUnary
  binary := applyBinary

def text [Numeral α] : Term α → String
  | constant _ x => Numeral.plain x
  | symbol _ name => name
  | unary _ op x => op.text x.text
  | binary _ op x y => op.text x.text y.text

end Term

end DiffGraph
