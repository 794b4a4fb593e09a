import DiffGraph.Expr.Derivative
import DiffGraph.Function.Basic

/-!
# Derivative functions

`forward` builds the function that also takes one seed for every input and
direction and returns the sensitivities of the outputs; `reverse` takes one
adjoint for every output and direction and returns the adjoints of the inputs.
Seeds and sensitivities come direction by direction. An instruction without any
seed is skipped in both.
-/

namespace DiffGraph.Function

variable {α : Type} [Scalar α]

/-- The derivatives of every slot in one direction; `none` stands for zero. -/
abbrev SlotDerivatives (α : Type) := Array (Option (Expr α))

def noDerivatives (f : Function α) : SlotDerivatives α :=
  Array.replicate f.slots.size none

def derivativeAt (ds : SlotDerivatives α) (slot : Nat) : Option (Expr α) :=
  ds[slot]?.join

/-- A derivative written out: zero in the shape of `p` where there is none. -/
def orZeros (d : Option (Expr α)) (p : Pattern) : Fresh (Expr α) :=
  match d with
  | some d => pure d
  | none => Expr.zerosLike p

/-- The seeds of one forward direction: a symbol for every input. -/
def forwardSeeds (f : Function α) (direction : Nat) : Build (List (Expr α)) :=
  f.inputs.zipIdx.mapM fun (x, i) =>
    (Expr.symbol s!"fwd{direction}_{f.inputName i}" x.pattern : Build (Expr α))

/-- The seeds of one reverse direction: a symbol for every output. -/
def reverseSeeds (f : Function α) (direction : Nat) : Build (List (Expr α)) :=
  f.outputs.zipIdx.mapM fun (o, k) =>
    (Expr.symbol s!"adj{direction}_o{k}" o.pattern : Build (Expr α))

/-- Propagates the derivatives of one direction through an instruction. -/
def forwardStep (ins : Instruction α) (outputs : List (Expr α)) (ds : SlotDerivatives α) :
    Build (SlotDerivatives α) := do
  let seeds ← (ins.args.zip ins.node.deps).mapM fun (s, dep) =>
    (orZeros (derivativeAt ds s) dep.pattern : Build (Expr α))
  let sens ← ins.node.tangent outputs seeds
  return (ins.results.zip sens).foldl (fun ds (slot, d) =>
    slot.elim ds fun s => ds.setIfInBounds s (some d)) ds

def forwardAll (ins : Instruction α) (directions : List (SlotDerivatives α)) :
    Build (List (SlotDerivatives α)) := do
  if directions.any fun ds => ins.args.any fun s => (derivativeAt ds s).isSome then
    let outputs ← ins.node.results
    directions.mapM (forwardStep ins outputs)
  else return directions

/-- The function of the inputs and `n` directions of seeds that returns the sensitivities. -/
def forward (f : Function α) (n : Nat) : Build (Function α) := do
  Size.checkLength n
  let seeds ← (List.range n).mapM f.forwardSeeds
  let start := seeds.map fun direction =>
    (f.inputSlots.zip direction).foldl (fun ds (s, x) => ds.setIfInBounds s (some x))
      f.noDerivatives
  let directions ← f.instructions.foldlM (fun ds ins => forwardAll ins ds) start
  let outputs ← directions.mapM fun ds =>
    (f.outputSlots.zip f.outputs).mapM fun (s, o) => do
      (← (orZeros (derivativeAt ds s) o.pattern : Build (Expr α))).project o.pattern
  compile s!"fwd{n}_{f.name}" (f.inputs ++ seeds.flatten) outputs.flatten

def accumulateAt (f : Function α) (ds : SlotDerivatives α) (slot : Nat) (d : Expr α) :
    Build (SlotDerivatives α) := do
  let total ← Expr.accumulate (derivativeAt ds slot) d (f.slots[slot]?.getD default)
  return ds.setIfInBounds slot (some total)

def resultAdjoints (ins : Instruction α) (ds : SlotDerivatives α) : Expr.Adjoints α :=
  ins.results.map fun r => r.bind (derivativeAt ds)

/-- Hands the adjoints of an instruction's results to its operands, in one direction. -/
def reverseStep (f : Function α) (ins : Instruction α) (outputs : List (Expr α))
    (ds : SlotDerivatives α) : Build (SlotDerivatives α) := do
  let seeds := resultAdjoints ins ds
  let taken := ins.results.foldl (fun ds r => r.elim ds fun s => ds.setIfInBounds s none) ds
  let (_, sens) ← ins.node.adjoint outputs seeds (ins.args.map fun _ => none)
  (ins.args.zip sens).foldlM (fun ds (s, c) =>
    match c with
    | some c => f.accumulateAt ds s c
    | none => return ds) taken

def reverseAll (f : Function α) (ins : Instruction α) (directions : List (SlotDerivatives α)) :
    Build (List (SlotDerivatives α)) := do
  if directions.any fun ds => (resultAdjoints ins ds).any Option.isSome then
    let outputs ← ins.node.results
    directions.mapM (f.reverseStep ins outputs)
  else return directions

def inputAdjoints (f : Function α) (ds : SlotDerivatives α) : Build (List (Expr α)) :=
  (f.inputSlots.zip f.inputs).mapM fun (s, x) => do
    (← (orZeros (derivativeAt ds s) x.pattern : Build (Expr α))).project x.pattern

/-- The function of the inputs and `n` directions of output adjoints that returns the adjoints of
the inputs. -/
def reverse (f : Function α) (n : Nat) : Build (Function α) := do
  Size.checkLength n
  let seeds ← (List.range n).mapM f.reverseSeeds
  let start ← seeds.mapM fun direction =>
    (f.outputSlots.zip direction).foldlM (fun ds (s, x) => f.accumulateAt ds s x) f.noDerivatives
  let directions ← f.instructions.reverse.foldlM (fun ds ins => f.reverseAll ins ds) start
  let outputs ← directions.mapM f.inputAdjoints
  compile s!"adj{n}_{f.name}" (f.inputs ++ seeds.flatten) outputs.flatten

end DiffGraph.Function
