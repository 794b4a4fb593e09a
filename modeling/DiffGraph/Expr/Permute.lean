import DiffGraph.Expr.Basic
import DiffGraph.Pattern.Algebra

/-!
# Transposition and projection

Both move nonzeros without computing. Projecting onto a pattern drops the
entries that the pattern lacks and makes zeros explicit. Constants are moved at
once, projecting onto the own pattern changes nothing, and the transpose of a
transpose is the operand.
-/

namespace DiffGraph.Expr

variable {α : Type} [Scalar α]

/-- The nonzeros of a buffer on another pattern. -/
def projectList (mapping : List (Option Nat)) (nz : List α) : List α :=
  mapping.map fun k => (k.bind fun k => nz[k]?).getD 0

def permuteList (mapping : List Nat) (nz : List α) : List α :=
  mapping.map fun k => nz[k]?.getD 0

/-- The value of `x` on a pattern of the same shape. -/
def onto (x : Expr α) (target : Pattern) : Fresh (Expr α) :=
  if x.pattern = target then pure x
  else
    let mapping := x.pattern.projection target
    match x.constant? with
    | some nz => constant (projectList mapping nz) target
    | none => fresh (.project mapping) [x] target

/-- `onto`, refused for a pattern of another shape. -/
def project (x : Expr α) (target : Pattern) : Build (Expr α) := do
  if x.shape ≠ target.shape then
    throw (.shapeMismatch "project" (.onto x.shape target.shape))
  x.onto target

def densify (x : Expr α) : Build (Expr α) := do
  x.onto (← Pattern.denseChecked x.pattern.nrows x.pattern.ncols)

def transposed? (x : Expr α) : Option (Expr α) :=
  match x.op, x.deps with
  | .transpose _, [y] => some y
  | _, _ => none

def transpose (x : Expr α) : Build (Expr α) :=
  match x.transposed? with
  | some y => pure y
  | none => do
    let transposed ← x.pattern.transposeChecked
    let mapping := x.pattern.transposition
    match x.constant? with
    | some nz => constant (permuteList mapping nz) transposed
    | none => fresh (.transpose mapping) [x] transposed

end DiffGraph.Expr
