import DiffGraph.Scalar

/-!
# Elementary operations

The unary and binary operations that graphs are made of, with their names and
their action on scalars. A `Broadcast` says which operand of a binary operation,
if any, is a single number applied to every nonzero of the other one.
-/

namespace DiffGraph

inductive UnaryOp where
  | neg | sin | cos | exp | log
  deriving DecidableEq, Repr

inductive BinaryOp where
  | add | sub | mul | div
  deriving DecidableEq, Repr

inductive Broadcast where
  | none | left | right
  deriving DecidableEq, Repr

namespace UnaryOp

def all : List UnaryOp :=
  [neg, sin, cos, exp, log]

def name : UnaryOp → String
  | neg => "neg"
  | sin => "sin"
  | cos => "cos"
  | exp => "exp"
  | log => "log"

/-- Zero is mapped to zero, so structural zeros stay structural. -/
def preservesZero : UnaryOp → Bool
  | neg | sin => true
  | cos | exp | log => false

def apply {α : Type} [Scalar α] : UnaryOp → α → α
  | neg, x => -x
  | sin, x => Scalar.sin x
  | cos, x => Scalar.cos x
  | exp, x => Scalar.exp x
  | log, x => Scalar.log x

def text : UnaryOp → String → String
  | neg, x => "(-" ++ x ++ ")"
  | op, x => op.name ++ "(" ++ x ++ ")"

end UnaryOp

namespace BinaryOp

def all : List BinaryOp :=
  [add, sub, mul, div]

def name : BinaryOp → String
  | add => "add"
  | sub => "sub"
  | mul => "mul"
  | div => "div"

def sign : BinaryOp → String
  | add => "+"
  | sub => "-"
  | mul => "*"
  | div => "/"

def apply {α : Type} [Scalar α] : BinaryOp → α → α → α
  | add, x, y => x + y
  | sub, x, y => x - y
  | mul, x, y => x * y
  | div, x, y => x / y

def text (op : BinaryOp) (x y : String) : String :=
  "(" ++ x ++ op.sign ++ y ++ ")"

end BinaryOp

namespace Broadcast

def name : Broadcast → String
  | none => "None"
  | left => "Lhs"
  | right => "Rhs"

/-- The nonzeros of the operands that feed nonzero `k` of the result. -/
def operands : Broadcast → Nat → Nat × Nat
  | none, k => (k, k)
  | left, k => (0, k)
  | right, k => (k, 0)

end Broadcast

end DiffGraph
