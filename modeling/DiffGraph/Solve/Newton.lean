import DiffGraph.Failure
import DiffGraph.Solve.Linear

/-!
# Newton's method

The first input of the system is the unknown and its first output the residual;
the other inputs are fixed and the other outputs are evaluated at the solution.
`solve` iterates from the guess in output slot 0 until the residual or the step
is small. `evaluate` stores the solution and, for each requested direction, the
sensitivities that the implicit function theorem gives. The statistics describe
the last solve, also a failed one.
-/

namespace DiffGraph

structure NewtonOptions (α : Type) where
  maxIter : Nat
  /-- Stops when no residual entry is larger. -/
  absTol : α
  /-- Stops when no entry of a step is larger. -/
  stepTol : α
  damping : α

/-- How a solve ended. -/
inductive SolveStatus where
  | unfinished | success | iterationLimit | singularJacobian
  deriving DecidableEq

structure SolveStats where
  iterations : Nat
  status : SolveStatus
  deriving DecidableEq

/-- A solver with its inputs, its outputs and, for each direction, seeds and sensitivities. -/
structure Newton (α : Type) where
  system : System α
  options : NewtonOptions α
  inputs : List (List α)
  outputs : List (List α)
  seeds : List (List (List α))
  sens : List (List (List α))
  stats : SolveStats

namespace SolveStatus

def text : SolveStatus → String
  | unfinished => ""
  | success => "success"
  | iterationLimit => "max_iteration_reached"
  | singularJacobian => "singular_jacobian"

end SolveStatus

namespace NewtonOptions

variable {α : Type} [OrderedScalar α]

/-- A thousand full steps, and both tolerances `10 ^ -12`. -/
def default : NewtonOptions α where
  maxIter := 1000
  absTol := OrderedScalar.ofDecimal 1 (-12)
  stepTol := OrderedScalar.ofDecimal 1 (-12)
  damping := 1

end NewtonOptions

namespace Newton

variable {α : Type} [OrderedScalar α]

/-- The largest absolute value; undefined entries are passed over. -/
def maxAbs (xs : List α) : α :=
  xs.foldl (fun m x => OrderedScalar.max m (OrderedScalar.abs x)) 0

/-- The largest absolute value in a step; a step that is undefined throughout has no size. -/
def stepSize : List α → α
  | [] => 0
  | s :: rest =>
    rest.foldl (fun m x => OrderedScalar.max m (OrderedScalar.abs x)) (OrderedScalar.abs s)

/-- Zeros for the unknown and for every further output of the system. -/
def zeroOutputs (s : System α) : List (List α) :=
  (s.inputs.take 1 ++ s.outputs.drop 1).map fun p => List.replicate p.nnz 0

/-- A new solver, unless the system or the options make no sense. -/
def create (s : System α) (options : NewtonOptions α) : Except (Failure α) (Newton α) := do
  match s.inputs, s.outputs with
  | x :: rest, r :: _ =>
    if x.nnz ≠ r.nnz then throw (.unequalSizes s.name r.nnz x.nnz)
    if options.maxIter = 0 then throw .noIterations
    if OrderedScalar.atMost options.damping 0 then throw .badDamping
    if OrderedScalar.atMost options.absTol 0 && OrderedScalar.atMost options.stepTol 0 then
      throw .noTolerance
    return {
      system := s, options
      inputs := rest.map fun p => List.replicate p.nnz 0
      outputs := zeroOutputs s
      seeds := []
      sens := []
      stats := ⟨0, .unfinished⟩ }
  | _, _ => throw (.missingUnknown s.name)

/-- An error of the system while it is solved. -/
def ofSystem {β : Type} (x : Except FunctionError β) : Except (Failure α) β :=
  x.mapError .function

/-- The factorised Jacobian of the residual. -/
def factorize (s : System α) (args : List (List α)) : Except (Failure α) (LU α) :=
  (ofSystem (s.jacobian 0 0 args)).map fun j => LU.factor j.rows

def residual (s : System α) (args : List (List α)) : Except (Failure α) (List α) :=
  match s.eval args with
  | .ok (r :: _) => .ok r
  | .ok [] => .error .misuse
  | .error e => .error (.within (.evaluating s.name) (.function e))

def advance (options : NewtonOptions α) (x step : List α) : List α :=
  List.zipWith (fun x s => x - options.damping * s) x step

/-- Newton's iteration from `x`, with `left` steps left after `done` ones. -/
def iterate (s : System α) (options : NewtonOptions α) (inputs : List (List α)) (left : Nat)
    (done : Nat) (x : List α) : SolveStats × Except (Failure α) (List α) :=
  let args := x :: inputs
  match residual s args with
  | .error e => (⟨done, .unfinished⟩, .error e)
  | .ok r =>
    let size := maxAbs r
    if OrderedScalar.atMost size options.absTol then (⟨done, .success⟩, .ok x)
    else match left with
      | 0 => (⟨done, .iterationLimit⟩, .error (.notConverged options.maxIter size))
      | left + 1 =>
        match factorize s args with
        | .error e => (⟨done, .unfinished⟩, .error e)
        | .ok lu =>
          match lu.solve r with
          | .error .noUnknowns => (⟨done, .unfinished⟩, .error .misuse)
          | .error .singular => (⟨done, .singularJacobian⟩, .error (.singularAt done))
          | .ok step =>
            let x := advance options x step
            if OrderedScalar.atMost (stepSize step) options.stepTol then
              (⟨done + 1, .success⟩, .ok x)
            else iterate s options inputs left (done + 1) x

/-- The root reached from the guess, and how the iteration went. -/
def solve (n : Newton α) : SolveStats × Except (Failure α) (List α) :=
  match n.outputs with
  | guess :: _ => iterate n.system n.options n.inputs n.options.maxIter 0 guess
  | [] => (⟨0, .unfinished⟩, .error .misuse)

/-- The first input whose length is not that of the system's input. -/
def inputError? (n : Newton α) : Option (Failure α) :=
  ((n.inputs.zip (n.system.inputs.drop 1)).zipIdx.find? fun ((v, p), _) => v.length ≠ p.nnz).map
    fun ((v, p), slot) => .inputLength n.system.name slot v.length p.nnz

/-- Adds zero seeds and sensitivities until there are `count` directions. -/
def withDirections (n : Newton α) (count : Nat) : Newton α :=
  let missing := count - n.seeds.length
  let zeroSeeds := n.inputs.map fun v => List.replicate v.length (0 : α)
  { n with
    seeds := n.seeds ++ List.replicate missing zeroSeeds
    sens := n.sens ++ List.replicate missing (zeroOutputs n.system) }

/-- The arguments at `x` with the derivative `dx` of the unknown and the seeds of a direction. -/
def dualArgs (n : Newton α) (x dx : List α) (seeds : List (List α)) : List (List (Dual α)) :=
  Dual.seeded x dx :: List.zipWith Dual.seeded n.inputs seeds

/-- The sensitivities of the outputs at the solution `x` in one direction. -/
def sensitivity (n : Newton α) (lu : LU α) (x : List α) (seeds : List (List α)) :
    Except (Failure α) (List (List α)) := do
  let zeros := x.map fun _ => (0 : α)
  let part ← ofSystem (n.system.evalDual (n.dualArgs x zeros seeds))
  match lu.solve (Dual.derivs (part.headD [])) with
  | .error .noUnknowns => throw .misuse
  | .error .singular => throw .singularAtSolution
  | .ok s =>
    let dx := s.map fun v => -v
    let total ← ofSystem (n.system.evalDual (n.dualArgs x dx seeds))
    return dx :: (total.drop 1).map Dual.derivs

/-- Computes the sensitivities of the given directions, up to the first failure. -/
def sensitivities (n : Newton α) (lu : LU α) (x : List α) :
    List Nat → Newton α × Except (Failure α) Unit
  | [] => (n, .ok ())
  | dir :: dirs =>
    match n.sensitivity lu x (n.seeds[dir]?.getD []) with
    | .error e => (n, .error e)
    | .ok sens => sensitivities { n with sens := n.sens.set dir sens } lu x dirs

def finish (n : Newton α) (directions : Nat) (x : List α) : Newton α × Except (Failure α) Unit :=
  let args := x :: n.inputs
  match ofSystem (n.system.eval args) with
  | .error e => (n, .error e)
  | .ok out =>
    let n := { n with outputs := x :: out.drop 1 }
    if directions = 0 then (n, .ok ())
    else
      let n := n.withDirections directions
      match factorize n.system args with
      | .error e => (n, .error e)
      | .ok lu => n.sensitivities lu x (List.range directions)

/-- Solves for the unknown and differentiates the solution in the given number of directions. -/
def evaluate (n : Newton α) (directions : Nat) : Newton α × Except (Failure α) Unit :=
  match n.inputError? with
  | some e => (n, .error e)
  | none =>
    let (stats, root) := n.solve
    let n := { n with stats }
    match root with
    | .error e => (n, .error e)
    | .ok x => n.finish directions x

def setInput (n : Newton α) (slot : Nat) (value : List α) : Except (Failure α) (Newton α) :=
  if slot < n.inputs.length then .ok { n with inputs := n.inputs.set slot value }
  else .error .misuse

def setGuess (n : Newton α) (value : List α) : Newton α :=
  { n with outputs := n.outputs.set 0 value }

/-- Replaces the seed of a fixed input in one direction. The direction is there afterwards, also if
there is no such input. -/
def setSeed (n : Newton α) (slot direction : Nat) (value : List α) :
    Newton α × Except (Failure α) Unit :=
  let n := n.withDirections (direction + 1)
  if slot < n.inputs.length then
    ({ n with seeds := n.seeds.modify direction (·.set slot value) }, .ok ())
  else (n, .error .misuse)

end Newton

def solverNames : List String :=
  ["newton"]

def createSolver {α : Type} [OrderedScalar α] (name : String) (s : System α)
    (options : NewtonOptions α) : Except (Failure α) (Newton α) :=
  if solverNames.contains name then Newton.create s options
  else .error (.unknownPlugin "implicit solver" name)

end DiffGraph
