import DiffGraph.Failure
import DiffGraph.Function.Evaluate
import DiffGraph.Integrate.Step

/-!
# Fixed-step integrators

A `Startup` integrator follows an explicit system `f(X, P, T) -> (ODE, ...)` from
one output time to the next with the least number of equal steps that are not
longer than the step limit.
-/

namespace DiffGraph

structure StartupOptions (α : Type) where
  maxStep : α

namespace StartupOptions

/-- Steps of at most a hundredth. -/
def default {α : Type} [OrderedScalar α] : StartupOptions α :=
  ⟨OrderedScalar.ofDecimal 1 (-2)⟩

end StartupOptions

structure Startup (α : Type) where
  name : String
  method : Method
  f : Function α
  options : StartupOptions α
  t : α
  x : List α
  p : List α
  /-- The number of steps taken so far. -/
  steps : Nat

namespace Startup

variable {α : Type} [OrderedScalar α]

/-- The right hand side given by output 0 of `f` at the parameters `p`. -/
def rate (f : Function α) (p : List α) : Method.Rate α (Failure α) := fun t x =>
  match f.evaluate [x, p, [t]] with
  | .error e => .error (.graph e)
  | .ok out =>
    match out[0]? with
    | some k => if k.length = x.length then .ok k else .error .misuse
    | none => .error .misuse

/-- The number of states, which input 0 tells. -/
def dimension (f : Function α) : Except (Failure α) Nat :=
  match f.inputPattern? 0 with
  | some x => .ok x.nnz
  | none => .error .misuse

/-- The times and states after each of `n` steps of the size `dt` from the state `x`. -/
def trajectory (method : Method) (f : Function α) (p : List α) (dt : α) (n : Nat) (t : α)
    (x : List α) : Except (Failure α) (List (α × List α)) := do
  let _ ← dimension f
  method.trajectory (rate f p) dt n t x

/-- A new integrator, unless the function is no explicit system or the step limit makes no sense. -/
def create (name : String) (method : Method) (f : Function α) (options : StartupOptions α) :
    Except (Failure α) (Startup α) := do
  let states ← dimension f
  if f.inputs.length ≠ 3 then throw (.notExplicit name f.name f.inputs.length)
  match f.outputPattern? 0 with
  | some ode =>
    if ode.nnz ≠ states then throw (.odeLength f.name ode.nnz states)
    if OrderedScalar.atMost options.maxStep 0 then throw .badStepSize
    return {
      name, method, f, options
      t := 0
      x := List.replicate states 0
      p := []
      steps := 0 }
  | none => throw .misuse

/-- Restarts at `t0` from the integrator inputs `X0, P, RX0, RP`. -/
def reset (s : Startup α) (t0 : α) (inputs : List (List α)) : Except (Failure α) (Startup α) :=
  match inputs with
  | [x0, p, _, _] =>
    if x0.length ≠ s.x.length then .error (.stateLength x0.length s.x.length)
    else .ok { s with t := t0, x := x0, p }
  | _ => .error (.slotCount 4 "integrator inputs" inputs.length)

/-- The least number of steps of at most `maxStep` that cover the span, but at least one. -/
def stepCount (span maxStep : α) : Nat :=
  OrderedScalar.toNat (OrderedScalar.max (OrderedScalar.ceil (span / maxStep)) 1)

def advance (s : Startup α) (dt : α) : Nat → Startup α × Except (Failure α) Unit
  | 0 => (s, .ok ())
  | n + 1 =>
    match s.method.step (rate s.f s.p) s.t s.x dt with
    | .error e => (s, .error (.within (.stepping s.name s.t) e))
    | .ok x => advance { s with t := s.t + dt, x } dt n

/-- Advances to the time `t`, which must not lie before the current one. -/
def integrate (s : Startup α) (t : α) : Startup α × Except (Failure α) Unit :=
  let span := t - s.t
  if OrderedScalar.less span 0 then (s, .error (.backwards s.t t))
  else if span == 0 then (s, .ok ())
  else
    let n := stepCount span s.options.maxStep
    match s.advance (span / OrderedScalar.ofNat n) n with
    | (s, .error e) => (s, .error e)
    | (s, .ok ()) => ({ s with t, steps := s.steps + n }, .ok ())

end Startup

def startupNames : List String :=
  Method.all.map Method.name

def createStartup {α : Type} [OrderedScalar α] (name : String) (f : Function α)
    (options : StartupOptions α) : Except (Failure α) (Startup α) :=
  match Method.all.find? fun m => m.name == name with
  | some m => Startup.create name m f options
  | none => .error (.unknownPlugin "startup integrator" name)

end DiffGraph
