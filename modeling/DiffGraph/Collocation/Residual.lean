import DiffGraph.Collocation.Basis
import DiffGraph.Collocation.BlockTable
import DiffGraph.Collocation.Options
import DiffGraph.Collocation.Problem
import DiffGraph.Function.Call
import DiffGraph.Function.Expand
import DiffGraph.System.Basic

/-!
# The collocation equations

The unknown vector `V` is cut into the states at the points of all elements, as the
`BlockTable` has them. At every collocation point the equations say that the slope
of the interpolating polynomial is the rate of change, and between elements that
the polynomials meet. Quadratures are added up with the weights of the element.
-/

namespace DiffGraph

/-- Everything that the equations are made from. -/
structure Discretization (α : Type) where
  f : Function α
  g : Option (Function α)
  fwd : ForwardSizes
  bwd : BackwardSizes
  /-- The number of finite elements. -/
  elements : Nat
  degree : Nat
  /-- The start of the horizon and the length of an element. -/
  t0 : α
  h : α
  points : List α
  basis : Basis α

/-- The symbols of the equations and the states that they name. -/
structure Trajectory (α : Type) where
  v : Expr α
  x0 : Expr α
  p : Expr α
  rx0 : Expr α
  rp : Expr α
  /-- Which block of `V` is which state. -/
  table : BlockTable
  blocks : List (Expr α)

/-- The equations so far, the two quadratures, and the times of the points. -/
structure Equations (α : Type) where
  residuals : Array (Expr α)
  qf : Expr α
  rqf : Expr α
  times : Array α

namespace Discretization

variable {α : Type} [OrderedScalar α]

/-- The number of points in all elements, and of blocks in the unknown vector. -/
def pointCount (d : Discretization α) : Nat :=
  d.elements * (d.degree + 1)

/-- The number of unknowns. -/
def unknowns (d : Discretization α) : Nat :=
  d.pointCount * (d.fwd.nx + d.bwd.nrx)

/-- The states in the unknown vector. -/
def blockTable (d : Discretization α) : BlockTable :=
  .ofElements d.fwd.nx d.bwd.nrx d.elements d.degree

def blockOffsets (d : Discretization α) : List Nat :=
  d.blockTable.offsets.toList

/-- The time of point `j` of element `k`. -/
def timeAt (d : Discretization α) (k : Nat) (tau : α) : α :=
  d.t0 + d.h * (OrderedScalar.ofNat k + tau)

def endTime (d : Discretization α) (k : Nat) : α :=
  d.t0 + d.h * OrderedScalar.ofNat (k + 1)

/-- The symbols, and the unknown vector cut into its states. -/
def trajectory (d : Discretization α) : Assemble α (Trajectory α) := do
  let column (name : String) (n : Nat) : Assemble α (Expr α) :=
    .onGraph (do Expr.symbol name (← Pattern.columnChecked n))
  let x0 ← column "X0" d.fwd.nx
  let p ← column "P" d.fwd.np
  let rx0 ← column "RX0" d.bwd.nrx
  let rp ← column "RP" d.bwd.nrp
  let v ← column "V" d.unknowns
  let table := d.blockTable
  if table.covered ≠ d.unknowns then throw (.layout table.covered d.unknowns)
  let blocks ← .onGraph (v.vertsplit d.blockOffsets)
  return { v, x0, p, rx0, rp, table, blocks }

/-- A state that is known to exist. -/
def block (t : Trajectory α) (i : Nat) : Assemble α (Expr α) :=
  match t.blocks[i]? with
  | some x => pure x
  | none => throw .misuse

/-- The state at point `m`, counted over all elements; the one without a block is given. -/
def stateAt (t : Trajectory α) (states : Array (Option Nat)) (given : Expr α) (m : Nat) :
    Assemble α (Expr α) :=
  match states[m]? with
  | some (some i) => block t i
  | some none => pure given
  | none => throw .misuse

def forwardState (t : Trajectory α) : Nat → Assemble α (Expr α) :=
  stateAt t t.table.forward t.x0

def backwardState (t : Trajectory α) : Nat → Assemble α (Expr α) :=
  stateAt t t.table.backward t.rx0

/-- The forward or backward states of element `k`. -/
def statesOf (d : Discretization α) (state : Nat → Assemble α (Expr α)) (k : Nat) :
    Assemble α (List (Expr α)) :=
  (List.range (d.degree + 1)).mapM fun j => state (k * (d.degree + 1) + j)

def result (outputs : List (Expr α)) (i : Nat) : Assemble α (Expr α) :=
  match outputs[i]? with
  | some x => pure x
  | none => throw .misuse

/-- The equation at a collocation point: `h * ode - slope` for an explicit problem, else `ode`. -/
def pointEquation (d : Discretization α) (ode slope h : Expr α) : Build (Expr α) := do
  if d.fwd.explicit then Expr.binary .sub (← Expr.binary .mul h ode) slope
  else return ode

/-- Adds the quadrature at a collocation point with its weight. -/
def addQuadrature (total quad : Expr α) (weight : α) : Build (Expr α) := do
  Expr.binary .add total (← Expr.binary .mul quad (← Expr.scalar weight))

/-- A problem at one collocation point: the function with the arguments before and behind the
rates of change, the slope of its own state, and the number of quadratures. -/
structure PointProblem (α : Type) where
  function : Function α
  args : List (Expr α)
  rates : List (Expr α)
  slope : Expr α
  quadratures : Nat

/-- The equation of a problem at a collocation point, and its quadrature. -/
def pointResult (d : Discretization α) (problem : PointProblem α) (h total : Expr α) (weight : α) :
    Assemble α (Expr α × Expr α) := do
  let rates := if d.fwd.explicit then [] else problem.rates
  let outputs ← .onGraph (problem.function.call (problem.args ++ rates))
  let equation ← .onGraph (d.pointEquation (← result outputs 0) problem.slope h)
  if problem.quadratures = 0 then return (equation, total)
  else return (equation, ← .onGraph (addQuadrature total (← result outputs 1) weight))

/-- Adds the equations at point `j` of element `k`. `xs` and `rxs` are the states of the element. -/
def addPoint (d : Discretization α) (t : Trajectory α) (h : Expr α) (xs rxs : List (Expr α))
    (k j : Nat) (eqs : Equations α) : Assemble α (Equations α) := do
  let time := d.timeAt k (d.points[j]?.getD 0)
  let timeExpr ← .onGraph (Expr.scalar time)
  let slopes := d.basis.slopesAt j
  let weight := d.basis.ends[j]?.getD 0 * d.h
  let slope ← .onGraph (Basis.combine slopes xs d.fwd.nx)
  let rate ← .onGraph (Expr.binary .div slope h)
  let x ← result xs j
  let (equation, qf) ← d.pointResult ⟨d.f, [x, t.p, timeExpr], [rate], slope, d.fwd.nq⟩ h eqs.qf
    weight
  let eqs := { eqs with residuals := eqs.residuals.push equation, qf, times := eqs.times.push time }
  match d.g with
  | none => return eqs
  | some g =>
    let rslope ← .onGraph (Basis.combine slopes rxs d.bwd.nrx)
    let rrate ← .onGraph (Expr.binary .div rslope h)
    let args := [← result rxs j, t.rp, x, t.p, timeExpr]
    let (equation, rqf) ← d.pointResult ⟨g, args, [rate, rrate], rslope, d.bwd.nrq⟩ h eqs.rqf weight
    return { eqs with residuals := eqs.residuals.push equation, rqf }

/-- The equation that joins the polynomial through `states` to the state behind the element. -/
def continuity (d : Discretization α) (next : Expr α) (states : List (Expr α)) (n : Nat) :
    Build (Expr α) := do
  Expr.binary .sub next (← Basis.combine d.basis.ends states n)

def addElement (d : Discretization α) (t : Trajectory α) (h : Expr α) (eqs : Equations α)
    (k : Nat) : Assemble α (Equations α) := do
  let next := (k + 1) * (d.degree + 1)
  let xs ← d.statesOf (forwardState t) k
  let rxs ← d.statesOf (backwardState t) k
  let eqs ← (List.range' 1 d.degree).foldlM (fun eqs j => d.addPoint t h xs rxs k j eqs) eqs
  let eqs := { eqs with times := eqs.times.push (d.endTime k) }
  let equation ← .onGraph (d.continuity (← forwardState t next) xs d.fwd.nx)
  let eqs := { eqs with residuals := eqs.residuals.push equation }
  match d.g with
  | none => return eqs
  | some _ =>
    let equation ← .onGraph (d.continuity (← backwardState t next) rxs d.bwd.nrx)
    return { eqs with residuals := eqs.residuals.push equation }

def equations (d : Discretization α) (t : Trajectory α) : Assemble α (Equations α) := do
  let h ← .onGraph (Expr.scalar d.h)
  let qf ← .onGraph (Expr.zeros d.fwd.nq 1)
  let rqf ← .onGraph (Expr.zeros d.bwd.nrq 1)
  (List.range d.elements).foldlM (d.addElement t h) ⟨#[], qf, rqf, #[]⟩

/-- The function `(V, X0, P, RX0, RP) -> (residual, QF, RQF)`, and the times of the points. -/
def residual (d : Discretization α) : Assemble α (Function α × List α) := do
  let t ← d.trajectory
  let eqs ← d.equations t
  let stacked ← .onGraph (do (← Expr.vertcat eqs.residuals.toList).densify)
  if stacked.nnz ≠ t.v.nnz then throw (.equationCount stacked.nnz t.v.nnz)
  let qf ← .onGraph eqs.qf.densify
  let rqf ← .onGraph eqs.rqf.densify
  let r ← .onGraph (Function.compile "collocation_residual" [t.v, t.x0, t.p, t.rx0, t.rp]
    [stacked, qf, rqf])
  return (r, eqs.times.toList)

end Discretization

end DiffGraph
