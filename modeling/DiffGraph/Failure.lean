import DiffGraph.FunctionError
import DiffGraph.Numeral

/-!
# Failures of solvers and integrators

One constructor for each cause; `within` says what was being done when a cause
arose. `message` is the wording, the outermost context first.
-/

namespace DiffGraph

/-- What is wrong with the functions of a differential-algebraic system. -/
inductive DaeFlaw where
  | forwardPorts (inputs outputs : Nat)
  | backwardPorts (expected inputs outputs : Nat)
  | notColumn (label : String) (pattern : Pattern)
  | emptyState
  | timeNotScalar
  | rateShape
  | forwardShape
  | backwardShape
  | unmatched
  deriving DecidableEq

/-- What was being done. -/
inductive Context (α : Type) where
  | evaluating (name : String)
  | lagrangeBasis
  | expanding
  | solving
  | stepping (name : String) (t : α)

inductive Failure (α : Type) where
  | function (e : FunctionError)
  -- iterative solvers
  | missingUnknown (name : String)
  | unequalSizes (name : String) (equations unknowns : Nat)
  | noIterations
  | badDamping
  | noTolerance
  | inputLength (name : String) (slot got expected : Nat)
  | notConverged (steps : Nat) (residual : α)
  | singularAt (iteration : Nat)
  | singularAtSolution
  -- startup integrators
  | notExplicit (integrator name : String) (inputs : Nat)
  | odeLength (name : String) (got states : Nat)
  | badStepSize
  | slotCount (expected : Nat) (what : String) (got : Nat)
  | stateLength (got expected : Nat)
  | backwards (now t : α)
  -- collocation
  | unknownScheme (name : String)
  | degreeOutOfRange (degree : Nat)
  | noElements
  | invalidHorizon (t0 tf : α)
  | equationCount (equations unknowns : Nat)
  | invalidDae (name : String) (flaw : DaeFlaw)
  | unknownPlugin (kind name : String)
  | layout (covered total : Nat)
  | slotLength (what : String) (slot got expected : Nat)
  | notReset
  | notSolved
  | outsideHorizon (t t0 tf : α)
  | within (context : Context α) (cause : Failure α)

namespace DaeFlaw

def message : DaeFlaw → String
  | forwardPorts inputs outputs =>
    "expected inputs (X, P, T[, XDOT]) and outputs (ODE[, QUAD]), " ++
      s!"got {inputs} inputs and {outputs} outputs"
  | backwardPorts expected inputs outputs =>
    s!"expected {expected} inputs and outputs (ODE[, QUAD]), " ++
      s!"got {inputs} inputs and {outputs} outputs"
  | notColumn label pattern => s!"{label} must be a dense column vector, got " ++ pattern.text
  | emptyState => "the state X is empty"
  | timeNotScalar => "T must be a scalar"
  | rateShape => "XDOT must have the shape of X"
  | forwardShape => "ODE must have the shape of X"
  | backwardShape => "ODE must have the shape of RX"
  | unmatched => "X and P must match the forward problem"

end DaeFlaw

namespace Context

def message {α : Type} [Numeral α] : Context α → String
  | evaluating name => s!"Failed to evaluate {name}"
  | lagrangeBasis => "Failed to build Lagrange basis"
  | expanding => "Failed to expand the collocation residual"
  | solving => "Failed to solve the collocation equations"
  | stepping name t => s!"{name} step failed at t = " ++ Numeral.plain t

end Context

namespace Failure

variable {α : Type}

def graph (e : GraphError) : Failure α :=
  function (.graph e)

def misuse : Failure α :=
  graph .misuse

/-- The failure is a misuse, in whatever context. -/
def isMisuse : Failure α → Bool
  | within _ c => c.isMisuse
  | function (.graph .misuse) => true
  | _ => false

def cause : Failure α → Failure α
  | within _ c => c.cause
  | c => c

def message [Numeral α] : Failure α → String
  | function e => e.message
  | missingUnknown name =>
    s!"{name}: an implicit function needs the unknown as input 0 and the residual as output 0"
  | unequalSizes name equations unknowns =>
    s!"{name}: residual has {equations} nonzeros but the unknown has {unknowns}"
  | noIterations => "max_iter must be greater than zero."
  | badDamping => "damping must be positive."
  | noTolerance => "At least one of abstol and abstol_step must be positive."
  | inputLength name slot got expected =>
    s!"{name}: input slot {slot} has {got} nonzeros, expected {expected}"
  | notConverged steps residual =>
    s!"Newton solver failed to converge in {steps} steps (max|F| = " ++
      Numeral.plain residual ++ ")."
  | singularAt iteration => s!"Jacobian is singular at iteration {iteration}."
  | singularAtSolution => "Jacobian is singular at the solution."
  | notExplicit integrator name inputs =>
    s!"Startup integrator \"{integrator}\" handles explicit ODEs f(X, P, T) only, " ++
      s!"{name} has {inputs} inputs"
  | odeLength name got states => s!"{name}: ODE output has {got} nonzeros for {states} states"
  | badStepSize => "max_step_size must be positive."
  | slotCount expected what got => s!"Expected {expected} {what}, got {got}"
  | stateLength got expected => s!"Initial state has {got} entries, expected {expected}"
  | backwards now t =>
    "Cannot integrate backwards from t = " ++ Numeral.plain now ++ " to t = " ++ Numeral.plain t
  | unknownScheme name =>
    s!"Unknown collocation scheme \"{name}\", expected \"radau\" or \"legendre\""
  | degreeOutOfRange degree =>
    s!"Interpolation order {degree} is out of range: " ++
      "collocation tables are defined for orders 1 to 5"
  | noElements => "Number of finite elements must be at least 1"
  | invalidHorizon t0 tf =>
    "Integration horizon must satisfy tf > t0 (t0 = " ++ Numeral.plain t0 ++ ", tf = " ++
      Numeral.plain tf ++ ")"
  | equationCount equations unknowns =>
    "Implicit function unknowns and equations do not match " ++
      s!"({equations} equations, {unknowns} unknowns)"
  | invalidDae name flaw => s!"Invalid DAE function \"{name}\": " ++ flaw.message
  | unknownPlugin kind name => s!"No {kind} plugin registered under \"{name}\""
  | layout covered total => s!"Collocation layout covers {covered} of {total} unknowns"
  | slotLength what slot got expected => s!"{what} {slot} has {got} entries, expected {expected}"
  | notReset => "reset must be called before integrate"
  | notSolved =>
    "The last reset failed to solve the collocation equations; " ++
      "there is no solution to integrate"
  | outsideHorizon t t0 tf =>
    "Output time " ++ Numeral.plain t ++ " lies outside the horizon [" ++ Numeral.plain t0 ++
      ", " ++ Numeral.plain tf ++ "]"
  | within context cause => context.message ++ ": " ++ cause.message

end Failure

end DiffGraph
