import DiffGraph.Collocation.Residual

/-!
# The collocation integrator

The integrator discretises the whole horizon and solves all equations at once.
`reset` takes initial states and parameters, makes a guess unless it may start
from the last solution, and solves; `integrate` reads the final forward state
and the initial backward state out of the solution. A failed `reset` leaves the
results of the last good one in place but closes `integrate` until the next good
one.
-/

namespace DiffGraph

/-- The residual in the form that was asked for. -/
inductive Residual (α : Type) where
  | matrix (f : Function α)
  | scalar (f : TermFunction α)

namespace Residual

def system {α : Type} [Scalar α] : Residual α → System α
  | matrix f => f.system
  | scalar f => f.system

end Residual

/-- Forward state, forward quadrature, backward state, backward quadrature. -/
structure Quantities (α : Type) where
  xf : List α
  qf : List α
  rxf : List α
  rqf : List α

namespace Quantities

def toList {α : Type} (q : Quantities α) : List (List α) :=
  [q.xf, q.qf, q.rxf, q.rqf]

end Quantities

structure Collocation (α : Type) where
  f : Function α
  g : Option (Function α)
  options : CollocationOptions α
  fwd : ForwardSizes
  bwd : BackwardSizes
  /-- The times of the points, element by element. -/
  times : List α
  residual : Residual α
  solver : Newton α
  startup : Option (Startup α)
  /-- A reset has succeeded. -/
  integratedOnce : Bool
  /-- The last reset has succeeded. -/
  solved : Bool
  inputs : List (List α)
  outputs : Quantities α
  /-- The sensitivities of the outputs in every direction. -/
  sens : List (Quantities α)

namespace Collocation

variable {α : Type} [OrderedScalar α]

def checkHorizon (t0 tf : α) : Except (Failure α) Unit :=
  if OrderedScalar.atMost tf t0 || !(t0 == t0) || !(tf == tf) then .error (.invalidHorizon t0 tf)
  else .ok ()

/-- The problem with its basis, checked in the order in which the options come. -/
def discretize (f : Function α) (g : Option (Function α)) (options : CollocationOptions α) :
    Assemble α (Discretization α) := do
  if options.elements = 0 then throw .noElements
  checkHorizon options.t0 options.tf
  let points ← (options.scheme.points options.degree : Except (Failure α) _)
  let fwd ← (Problem.forwardSizes f : Except (Failure α) _)
  let f ← .onGraph (Problem.withDenseOutputs f)
  let bwd ← match g with
    | some g => (Problem.backwardSizes g fwd : Except (Failure α) _)
    | none => pure ⟨0, 0, 0⟩
  let g ← g.mapM fun g => (.onGraph (Problem.withDenseOutputs g) : Assemble α _)
  let h := (options.tf - options.t0) / OrderedScalar.ofNat options.elements
  let basis ← fun n => (Basis.ofPoints points n).mapError fun e =>
    Failure.within .lagrangeBasis (.graph e)
  return { f, g, fwd, bwd, elements := options.elements, degree := options.degree,
           t0 := options.t0, h, points, basis }

def residualForm (r : Function α) (expand : Bool) : Assemble α (Residual α) :=
  if expand then fun n =>
    match r.expand n with
    | .ok (f, n) => .ok (.scalar f, n)
    | .error e => .error (.within .expanding (.function e))
  else pure (.matrix r)

private def zeroColumn (n : Nat) : List α :=
  List.replicate n 0

def create (f : Function α) (g : Option (Function α)) (options : CollocationOptions α) :
    Assemble α (Collocation α) := do
  let d ← discretize f g options
  let (r, times) ← d.residual
  let residual ← residualForm r options.expand
  let solver ← (createSolver options.solver residual.system options.solverOptions :
    Except (Failure α) _)
  let startup ← options.startup.mapM fun name =>
    (createStartup name d.f options.startupOptions : Except (Failure α) _)
  return {
    f := d.f
    g := d.g
    options
    fwd := d.fwd
    bwd := d.bwd
    times
    residual
    solver
    startup
    integratedOnce := false
    solved := false
    inputs := [d.fwd.nx, d.fwd.np, d.bwd.nrx, d.bwd.nrp].map zeroColumn
    outputs := ⟨zeroColumn d.fwd.nx, zeroColumn d.fwd.nq, zeroColumn d.bwd.nrx,
      zeroColumn d.bwd.nrq⟩
    sens := [] }

/-- The unknown vector: the solution, or the guess. -/
def unknowns (c : Collocation α) : List α :=
  c.solver.outputs.headD []

/-- The lengths of the inputs `X0, P, RX0, RP`. -/
def inputSizes (c : Collocation α) : List Nat :=
  [c.fwd.nx, c.fwd.np, c.bwd.nrx, c.bwd.nrp]

/-- Refuses inputs or seeds of the wrong number or lengths. -/
def checkInputs (c : Collocation α) (what : String) (inputs : List (List α)) :
    Except (Failure α) Unit := do
  if inputs.length ≠ 4 then throw (.slotCount 4 what inputs.length)
  match ((inputs.zip c.inputSizes).zipIdx).find? fun ((v, n), _) => v.length ≠ n with
  | some ((v, n), slot) => throw (.slotLength what slot v.length n)
  | none => return

/-- Copies a state over the entries from `start` to `stop`, which it has to fill. -/
def copyOver (v : List α) (start stop : Nat) (x : List α) : Except (Failure α) (List α) :=
  if start + x.length = stop ∧ stop ≤ v.length then .ok (v.take start ++ x ++ v.drop stop)
  else .error .misuse

/-- Chunks of the given size; the last one has what is left. -/
def chunksOf {β : Type} (size : Nat) (items : List β) : List (List β) :=
  (List.range ((items.length + size - 1) / size)).map fun m => (items.drop (m * size)).take size

/-- The guess `v` with the initial states copied over every chunk. -/
def constantGuess (c : Collocation α) (x0 rx0 v : List α) : Except (Failure α) (List α) := do
  let chunks ← (chunksOf (c.fwd.nx + c.bwd.nrx) v).mapM fun chunk => do
    copyOver (← copyOver chunk 0 c.bwd.nrx rx0) c.bwd.nrx chunk.length x0
  return chunks.flatten

/-- Copies the startup states at the given times over the forward states of the guess `v`, from
the offset on and up to the first failure. -/
def startupGuess (c : Collocation α) :
    List α → Startup α → (offset : Nat) → List α → Startup α × List α × Except (Failure α) Unit
  | [], s, _, v => (s, v, .ok ())
  | t :: ts, s, offset, v =>
    match s.integrate t with
    | (s, .error e) => (s, v, .error e)
    | (s, .ok ()) =>
      match copyOver v offset (offset + c.fwd.nx) s.x with
      | .error e => (s, v, .error e)
      | .ok v => startupGuess c ts s (offset + c.fwd.nx + c.bwd.nrx) v

/-- Puts a first guess into the solver. -/
def initializeGuess (c : Collocation α) : Collocation α × Except (Failure α) Unit :=
  match c.startup with
  | none =>
    match c.constantGuess (c.inputs[0]?.getD []) (c.inputs[2]?.getD []) c.unknowns with
    | .error e => (c, .error e)
    | .ok v => ({ c with solver := c.solver.setGuess v }, .ok ())
  | some s =>
    match s.reset c.options.t0 c.inputs with
    | .error e => (c, .error e)
    | .ok s =>
      let (s, v, result) := c.startupGuess c.times s c.bwd.nrx c.unknowns
      ({ c with startup := some s, solver := c.solver.setGuess v }, result)

def load (solver : Newton α) (inputs : List (List α)) (seeds : List (List (List α))) : Newton α :=
  let solver := { solver with inputs }
  let solver := solver.withDirections seeds.length
  { solver with seeds := seeds ++ solver.seeds.drop seeds.length }

/-- The quadratures of the solution, and of its sensitivities; states come with `integrate`. -/
def collect (c : Collocation α) (directions : Nat) : Collocation α :=
  let slot (outputs : List (List α)) (i : Nat) := outputs[i]?.getD []
  let outputs := c.solver.outputs
  { c with
    integratedOnce := true
    solved := true
    outputs := { c.outputs with qf := slot outputs 1, rqf := slot outputs 2 }
    sens := (c.solver.sens.take directions).map fun s =>
      ⟨zeroColumn c.fwd.nx, slot s 1, zeroColumn c.bwd.nrx, slot s 2⟩ }

/-- Solves the equations for checked inputs and seeds. -/
def solve (c : Collocation α) (inputs : List (List α)) (seeds : List (List (List α))) :
    Collocation α × Except (Failure α) Unit :=
  let c := { c with solved := false, inputs, solver := load c.solver inputs seeds }
  let (c, guessed) := if c.options.hotstart && c.integratedOnce then (c, .ok ())
    else c.initializeGuess
  match guessed with
  | .error e => (c, .error e)
  | .ok () =>
    let (solver, result) := c.solver.evaluate seeds.length
    let c := { c with solver }
    match result with
    | .error e => (c, .error (.within .solving e))
    | .ok () => (c.collect seeds.length, .ok ())

/-- Solves the equations for the inputs `X0, P, RX0, RP`, with seeds for each direction. -/
def reset (c : Collocation α) (inputs : List (List α)) (seeds : List (List (List α))) :
    Collocation α × Except (Failure α) Unit :=
  match c.checkInputs "integrator inputs" inputs with
  | .error e => (c, .error e)
  | .ok () =>
    match seeds.firstM fun s =>
        match c.checkInputs "forward seeds" s with
        | .error e => some e
        | .ok () => none with
    | some e => (c, .error e)
    | none => c.solve inputs seeds

/-- Adds the states in a solution vector to the quantities. -/
def withStates (c : Collocation α) (q : Quantities α) (v : List α) : Quantities α :=
  { q with xf := v.drop (v.length - c.fwd.nx), rxf := v.take c.bwd.nrx }

/-- Reads the states at the ends of the horizon out of the solution. -/
def integrate (c : Collocation α) (t : α) : Except (Failure α) (Collocation α) :=
  if !c.integratedOnce then .error .notReset
  else if !c.solved then .error .notSolved
  else if OrderedScalar.less t c.options.t0 || OrderedScalar.less c.options.tf t then
    .error (.outsideHorizon t c.options.t0 c.options.tf)
  else .ok { c with
    outputs := c.withStates c.outputs c.unknowns
    sens := (c.sens.zip c.solver.sens).map fun (q, s) => c.withStates q (s.headD []) }

end Collocation

end DiffGraph
