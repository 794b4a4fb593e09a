import DiffGraph.Expr.Rebuild
import DiffGraph.Function.Basic

/-!
# Calling functions on expressions

A call replaces the inputs of a function by expressions: every instruction is
rebuilt on the new operands, so the result is an ordinary expression over the
arguments. Arguments must have the shapes of the inputs and are brought onto
their patterns.
-/

namespace DiffGraph.Function

variable {α : Type} [Scalar α]

/-- The first argument whose shape is not that of its input. -/
def shapeError? (f : Function α) (args : List (Expr α)) : Option GraphError :=
  ((args.zip f.inputs).zipIdx.find? fun ((a, x), _) => a.shape ≠ x.shape).map fun ((a, x), i) =>
    .argumentShape i x.shape a.shape

/-- Rebuilds one instruction; nodes without operands are kept. -/
def callStep (ins : Instruction α) (work : Array (Expr α)) : Build (Array (Expr α)) := do
  let results ←
    if ins.node.deps.isEmpty then pure [ins.node]
    else do
      let args ← ins.args.mapM fun s =>
        match work[s]? with
        | some x => pure x
        | none => throw .misuse
      ins.node.rebuild args
  return (ins.results.zip results).foldl (fun work (slot, x) =>
    slot.elim work fun s => work.setIfInBounds s x) work

/-- The outputs as expressions over the arguments. -/
def call (f : Function α) (args : List (Expr α)) : Build (List (Expr α)) := do
  if args.length ≠ f.inputs.length then
    throw (.argumentCount f.inputs.length args.length)
  if let some e := f.shapeError? args then throw e
  let blank ← Expr.zeros 0 0
  let aligned ← (args.zip f.inputs).mapM fun (a, x) => a.project x.pattern
  let start := (f.inputSlots.zip aligned).foldl (fun work (s, a) => work.setIfInBounds s a)
    (Array.replicate f.slots.size blank)
  let work ← f.instructions.foldlM (fun work ins => callStep ins work) start
  return f.outputSlots.map fun s => work[s]?.getD blank

end DiffGraph.Function
