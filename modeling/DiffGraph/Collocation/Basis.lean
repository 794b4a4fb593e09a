import DiffGraph.Expr.Elementwise
import DiffGraph.Failure
import DiffGraph.Function.Derivative
import DiffGraph.Function.Evaluate

/-!
# Lagrange bases

The basis polynomial `j` of a list of points is one at point `j` and zero at the
others. `Basis.ofPoints` builds each as an expression and keeps its derivatives
at the points and its value at the end of the unit interval. `combine` is a
linear combination of expressions without the terms whose coefficient is zero.
-/

namespace DiffGraph

/-- Steps that draw identities and may fail while a problem is discretised. -/
abbrev Assemble (α : Type) := StateT Nat (Except (Failure α))

def Assemble.onGraph {α β : Type} (step : Build β) : Assemble α β := fun n =>
  (step n).mapError Failure.graph

/-- The basis polynomials of a list of points. -/
structure Basis (α : Type) where
  /-- `slopes[j][i]` is the derivative of polynomial `j` at point `i`. -/
  slopes : List (List α)
  /-- The value of every polynomial at one. -/
  ends : List α

namespace Basis

variable {α : Type} [Scalar α]

/-- The factor of polynomial `j` that vanishes at the point `root`. -/
def factor (tau : Expr α) (root own : α) : Build (Expr α) := do
  let difference ← Expr.binary .sub tau (← Expr.scalar root)
  Expr.binary .div difference (← Expr.scalar (own - root))

/-- Polynomial `j` in the symbol `tau`. -/
def polynomial (tau : Expr α) (points : List α) (j : Nat) : Build (Expr α) := do
  let own := points[j]?.getD 0
  let others := points.zipIdx.filter fun (_, i) => i ≠ j
  others.foldlM (fun l (root, _) => do Expr.binary .mul l (← factor tau root own))
    (← (Expr.scalar 1 : Build (Expr α)))

/-- The first nonzero of the first output. -/
def firstValue (f : Function α) (args : List (List α)) : Except GraphError α := do
  match (← f.evaluate args).head?.bind List.head? with
  | some x => return x
  | none => throw .misuse

/-- The derivatives of polynomial `j` at the points, and its value at one. -/
def ofPoint (tau : Expr α) (points : List α) (j : Nat) : Build (List α × α) := do
  let l ← Function.compile s!"lagrange{j}" [tau] [← polynomial tau points j]
  let last ← firstValue l [[1]]
  let dl ← l.forward 1
  let slopes ← points.mapM fun x => firstValue dl [[x], [1]]
  return (slopes, last)

def ofPoints (points : List α) : Build (Basis α) := do
  let tau ← (Expr.symbol "tau" .scalar : Build (Expr α))
  let polynomials ← (List.range points.length).mapM (ofPoint tau points)
  return ⟨polynomials.map Prod.fst, polynomials.map Prod.snd⟩

/-- The derivatives of all polynomials at point `i`. -/
def slopesAt (b : Basis α) (i : Nat) : List α :=
  b.slopes.map fun s => s[i]?.getD 0

/-- The terms with their coefficients, added up from the left; `n` zeros if there is none. -/
def combine (coefficients : List α) (terms : List (Expr α)) (n : Nat) : Build (Expr α) := do
  let used := (coefficients.zip terms).filter fun (c, _) => !(c == 0)
  let scaled ← used.mapM fun (c, x) => do Expr.binary .mul x (← Expr.scalar c)
  match scaled with
  | [] => Expr.zeros n 1
  | first :: rest => rest.foldlM (fun total x => Expr.binary .add total x) first

end Basis

end DiffGraph
