import DiffGraph.Collocation.Points
import DiffGraph.Integrate.Startup
import DiffGraph.Solve.Newton

/-!
# Options of the collocation integrator

The horizon, its discretisation, and the solver and startup integrator with
their own options.
-/

namespace DiffGraph

structure CollocationOptions (α : Type) where
  t0 : α
  tf : α
  /-- The number of finite elements. -/
  elements : Nat
  /-- The degree of the interpolating polynomials. -/
  degree : Nat
  scheme : Scheme
  solver : String
  solverOptions : NewtonOptions α
  /-- Expand the residual to scalar expressions. -/
  expand : Bool
  /-- Start from the previous solution. -/
  hotstart : Bool
  /-- The integrator that gives the first guess; without one the initial states are repeated. -/
  startup : Option String
  startupOptions : StartupOptions α

namespace CollocationOptions

/-- Twenty elements of degree three with Radau points on the unit horizon. -/
def default {α : Type} [OrderedScalar α] : CollocationOptions α where
  t0 := 0
  tf := 1
  elements := 20
  degree := 3
  scheme := .radau
  solver := "newton"
  solverOptions := .default
  expand := false
  hotstart := true
  startup := none
  startupOptions := .default

end CollocationOptions

end DiffGraph
