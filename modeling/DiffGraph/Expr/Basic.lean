import DiffGraph.Numeral
import DiffGraph.Op
import DiffGraph.Pattern.Build

/-!
# Matrix expressions

An `Expr` is a node of a graph: an operation, the expressions that it is applied
to, and one sparsity pattern for each of its results. A node is built from nodes
that exist already, so graphs have no cycles, and a node that is used twice is
shared. Each node carries an identity that is drawn when it is built (`Fresh`):
two nodes are the same exactly if their identities are equal, whatever they
compute.
-/

namespace DiffGraph

/-- Steps that draw identities. -/
abbrev Fresh := StateM Nat

/-- Steps that draw identities and may fail. -/
abbrev Build := StateT Nat (Except GraphError)

instance : MonadLift Fresh Build where
  monadLift step := fun n => .ok (step n)

def Fresh.identity : Fresh Nat := fun n => (n, n + 1)

/-- The direction in which matrices are split or joined. -/
inductive Axis where
  | horizontal | vertical | diagonal
  deriving DecidableEq, Repr

/-- What a node does. -/
inductive Op (α : Type) where
  | symbol (name : String)
  | constant (nz : List α)
  | unary (op : UnaryOp)
  | binary (op : BinaryOp) (broadcast : Broadcast)
  /-- The sum of the products of the nonzeros. -/
  | innerProduct
  /-- Nonzero `k` is the operand's nonzero `mapping[k]`. -/
  | transpose (mapping : List Nat)
  /-- Like `transpose`; entries that the operand lacks are zero. -/
  | project (mapping : List (Option Nat))
  | join (axis : Axis)
  /-- Result `i` is the operand's nonzeros from `offsets[i]` below `offsets[i + 1]`. -/
  | split (axis : Axis) (offsets : List Nat)
  /-- One result of a node that has several. -/
  | output (index : Nat)

/-- A node: its identity, operation and operands, the pattern of its first result and those of
the further ones. -/
inductive Expr (α : Type) where
  | node (id : Nat) (op : Op α) (deps : List (Expr α)) (pattern : Pattern) (others : List Pattern)

namespace Axis

def joinName : Axis → String
  | horizontal => "horzcat"
  | vertical => "vertcat"
  | diagonal => "diagcat"

def splitName : Axis → String
  | horizontal => "horzsplit"
  | vertical => "vertsplit"
  | diagonal => "diagsplit"

end Axis

namespace Op

variable {α : Type}

def isSplit : Op α → Bool
  | split .. => true
  | _ => false

/-- A symbol or a reference to a result: nothing is computed. -/
def isReference : Op α → Bool
  | symbol _ | output _ => true
  | _ => false

end Op

namespace Expr

variable {α : Type}

def id : Expr α → Nat
  | node id .. => id

def op : Expr α → Op α
  | node _ op .. => op

def deps : Expr α → List (Expr α)
  | node _ _ deps .. => deps

/-- The pattern of the first result. -/
def pattern : Expr α → Pattern
  | node _ _ _ pattern _ => pattern

def patterns : Expr α → List Pattern
  | node _ _ _ pattern others => pattern :: others

def resultCount (e : Expr α) : Nat :=
  e.patterns.length

def shape (e : Expr α) : Nat × Nat :=
  e.pattern.shape

def nnz (e : Expr α) : Nat :=
  e.pattern.nnz

def same (a b : Expr α) : Bool :=
  a.id == b.id

def name? (e : Expr α) : Option String :=
  match e.op with
  | .symbol name => some name
  | _ => none

def isSymbol (e : Expr α) : Bool :=
  e.name?.isSome

def constant? (e : Expr α) : Option (List α) :=
  match e.op with
  | .constant nz => some nz
  | _ => none

/-- A node with a new identity and a single result. -/
def fresh (op : Op α) (deps : List (Expr α)) (pattern : Pattern) : Fresh (Expr α) := do
  return node (← Fresh.identity) op deps pattern []

def symbol (name : String) (pattern : Pattern) : Fresh (Expr α) :=
  fresh (.symbol name) [] pattern

/-- A constant; `nz` has one number for each nonzero of the pattern. -/
def constant (nz : List α) (pattern : Pattern) : Fresh (Expr α) :=
  fresh (.constant nz) [] pattern

/-- A constant, refused if the number of nonzeros is not that of the pattern. -/
def constantChecked (nz : List α) (pattern : Pattern) : Build (Expr α) := do
  if nz.length ≠ pattern.nnz then throw (.nonzeroCount 0 pattern.nnz nz.length)
  constant nz pattern

def scalar (x : α) : Fresh (Expr α) :=
  constant [x] .scalar

def vector (xs : List α) : Fresh (Expr α) :=
  constant xs (.column xs.length)

/-- The matrix without nonzeros. -/
def zeros (nrows ncols : Nat) : Fresh (Expr α) :=
  constant [] (.empty nrows ncols)

/-- `zeros`, refused if there are more columns than a list can hold. -/
def zerosChecked (nrows ncols : Nat) : Build (Expr α) := do
  constant [] (← Pattern.emptyChecked nrows ncols)

def zerosLike (p : Pattern) : Fresh (Expr α) :=
  zeros p.nrows p.ncols

/-- One on every nonzero of a pattern. -/
def ones [Scalar α] (p : Pattern) : Fresh (Expr α) :=
  constant (List.replicate p.nnz 1) p

def output (producer : Expr α) (index : Nat) : Build (Expr α) := do
  match producer.patterns[index]? with
  | some p => fresh (.output index) [producer] p
  | none => throw .misuse

/-- All results of a node: itself if it has just one. -/
def results (e : Expr α) : Fresh (List (Expr α)) :=
  match e.patterns with
  | [_] => pure [e]
  | ps => ps.zipIdx.mapM fun (p, i) => fresh (.output i) [e] p

section Text

variable [Scalar α] [Numeral α]

def constantText (nz : List α) (p : Pattern) : String :=
  match p.isScalar, nz with
  | true, [x] => Numeral.plain x
  | _, _ =>
    if nz.all (· == 0) then s!"zeros({p.nrows}x{p.ncols})"
    else "const(" ++ Numeral.markedList nz ++ ")"

/-- The text of a node whose operands have the given texts. -/
def textWith (op : Op α) (pattern : Pattern) (args : List String) : Option String :=
  match op, args with
  | .symbol name, _ => some name
  | .constant nz, _ => some (constantText nz pattern)
  | .unary op, x :: _ => some (op.text x)
  | .binary op _, x :: y :: _ => some (op.text x y)
  | .innerProduct, x :: y :: _ => some ("inner_prod(" ++ x ++ ", " ++ y ++ ")")
  | .transpose _, x :: _ => some (x ++ "'")
  | .project _, x :: _ => some ("project(" ++ x ++ ")")
  | .join axis, xs => some (axis.joinName ++ "(" ++ ", ".intercalate xs ++ ")")
  | .split axis _, x :: _ => some (axis.splitName ++ "(" ++ x ++ ")")
  | .output i, x :: _ => some (x ++ "\x7b" ++ toString i ++ "\x7d")
  | _, _ => none

def text : Expr α → String
  | node _ op deps pattern _ => (textWith op pattern (deps.map text)).getD ""

end Text

end Expr

end DiffGraph
