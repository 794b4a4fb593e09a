import DiffGraph.Dual
import DiffGraph.Expr.Evaluate
import DiffGraph.Expr.Taint
import DiffGraph.Function.Basic

/-!
# Evaluating functions

`run` executes the instructions on slots of buffers, for elements of any type.
`evaluate`, `evaluateDual` and `evaluateForward` are its uses on numbers and on
derivatives along one or several directions. `taintForward` and `taintReverse`
run the dependency sweeps of the nodes in the order of the instructions and
against it.
-/

namespace DiffGraph.Function

variable {α : Type}

def buffers {T : Type} (work : Array (List T)) (slots : List Nat) : List (List T) :=
  slots.map fun s => work[s]?.getD []

/-- Stores the results that have a slot. -/
def store {T : Type} (work : Array (List T)) (slots : List (Option Nat))
    (results : List (Option (List T))) : Array (List T) :=
  (slots.zip results).foldl (fun work (slot, result) =>
    match slot, result with
    | some s, some r => work.setIfInBounds s r
    | _, _ => work) work

def storeArgs {T : Type} (work : Array (List T)) (slots : List Nat) (args : List (List T)) :
    Array (List T) :=
  (slots.zip args).foldl (fun work (s, a) => work.setIfInBounds s a) work

section Run

variable {m : Type → Type} [Monad m] {T : Type} [Scalar α] [Element m α T]

def execute (ins : Instruction α) (work : Array (List T)) :
    ExceptT GraphError m (Array (List T)) := do
  let want i := (ins.results[i]?.getD none).isSome
  let results ← ins.node.evaluate (buffers work ins.args) want
  return store work ins.results results

/-- The outputs for argument buffers of any element type. -/
def run (f : Function α) (args : List (List T)) : ExceptT GraphError m (List (List T)) := do
  match checkLengths f.inputs (args.map List.length) with
  | .error e => throw e
  | .ok () =>
    let zero ← ExceptT.lift (Expr.zeroElement : m T)
    let start := f.slots.map fun p => List.replicate p.nnz zero
    let work ← f.instructions.foldlM (fun work ins => execute ins work)
      (storeArgs start f.inputSlots args)
    return buffers work f.outputSlots

end Run

variable [Scalar α]

def evaluate (f : Function α) (args : List (List α)) : Except GraphError (List (List α)) :=
  (f.run args : ExceptT GraphError Id _)

/-- The outputs with their derivatives along the direction given by the arguments. -/
def evaluateDual (f : Function α) (args : List (List (Dual α))) :
    Except GraphError (List (List (Dual α))) :=
  (f.run args : ExceptT GraphError Id _)

/-- The sensitivities of the outputs in one direction, and the outputs. -/
def evaluateDirection (f : Function α) (args : List (List α)) (seeds : List (List α)) :
    Except GraphError (List (List α) × List (List α)) := do
  checkLengths f.inputs (seeds.map List.length)
  let out ← f.evaluateDual (List.zipWith Dual.seeded args seeds)
  return (out.map Dual.values, out.map Dual.derivs)

/-- The outputs and their sensitivities in every direction; the last direction's run gives the
outputs. -/
def evaluateForward (f : Function α) (args : List (List α)) (seeds : List (List (List α))) :
    Except GraphError (List (List α) × List (List (List α))) := do
  match seeds with
  | [] => return (← f.evaluate args, [])
  | _ =>
    let runs ← seeds.mapM (f.evaluateDirection args)
    return ((runs.getLast?.map Prod.fst).getD [], runs.map Prod.snd)

def unmarked (f : Function α) : Array (List Taint) :=
  f.slots.map fun p => List.replicate p.nnz 0

/-- The marks of two buffers together; the first one's length is kept. -/
def joinTaint : List Taint → List Taint → List Taint
  | x :: xs, y :: ys => (x ||| y) :: joinTaint xs ys
  | xs, _ => xs

def taintForwardStep (f : Function α) (work : Array (List Taint)) (ins : Instruction α) :
    Except GraphError (Array (List Taint)) := do
  let blank := ins.results.map (·.map fun s =>
    List.replicate ((f.slots[s]?.map Pattern.nnz).getD 0) (0 : Taint))
  let (_, results) ← ins.node.sweepTaint .forward (buffers work ins.args) blank
  return store work ins.results results

/-- The marks that reach the outputs from marked inputs. -/
def taintForward (f : Function α) (seeds : List (List Taint)) :
    Except GraphError (List (List Taint)) := do
  checkLengths f.inputs (seeds.map List.length)
  let work ← f.instructions.foldlM f.taintForwardStep (storeArgs f.unmarked f.inputSlots seeds)
  return buffers work f.outputSlots

def addTaint (work : Array (List Taint)) (slots : List Nat) (marks : List (List Taint)) :
    Array (List Taint) :=
  (slots.zip marks).foldl (fun work (s, ms) => work.modify s (joinTaint · ms)) work

/-- The reverse sweep over one instruction: the marks of its results move to its operands. -/
def taintReverseStep (f : Function α) (work : Array (List Taint)) (ins : Instruction α) :
    Except GraphError (Array (List Taint)) := do
  let blank (s : Nat) := List.replicate ((f.slots[s]?.map Pattern.nnz).getD 0) (0 : Taint)
  let results := ins.results.map (·.map fun s => work[s]?.getD [])
  let taken := ins.results.foldl (fun work r =>
    r.elim work fun s => work.setIfInBounds s (blank s)) work
  let (marks, _) ← ins.node.sweepTaint .reverse (ins.args.map blank) results
  return addTaint taken ins.args marks

/-- The marks that reach the inputs from marked outputs. -/
def taintReverse (f : Function α) (seeds : List (List Taint)) :
    Except GraphError (List (List Taint)) := do
  if seeds.length ≠ f.outputs.length then
    throw (.argumentCount f.outputs.length seeds.length)
  match ((seeds.zip f.outputs).zipIdx).find? fun ((s, o), _) => s.length ≠ o.nnz with
  | some ((s, o), i) => throw (.nonzeroCount i o.nnz s.length)
  | none => pure ()
  let work ← f.instructions.reverse.foldlM f.taintReverseStep
    (addTaint f.unmarked f.outputSlots seeds)
  return buffers work f.inputSlots

end DiffGraph.Function
