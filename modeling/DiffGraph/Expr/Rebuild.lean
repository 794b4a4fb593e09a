import DiffGraph.Expr.Elementwise
import DiffGraph.Expr.Split

/-!
# Rebuilding a node on other operands

`rebuild` applies the operation of a node to new operands through the
simplifying constructors. New operands are first brought onto the patterns of
the old ones and the results onto the patterns of the old results, so whoever
uses the results finds the buffers that it expects.
-/

namespace DiffGraph.Expr

variable {α : Type} [Scalar α]

def alignArgs (e : Expr α) (args : List (Expr α)) : Build (List (Expr α)) := do
  if args.length ≠ e.deps.length ∧ e.deps ≠ [] then
    throw (.argumentCount e.deps.length args.length)
  args.zipIdx.mapM fun (x, i) => x.project ((e.deps[i]?.map pattern).getD e.pattern)

def alignResults (e : Expr α) (results : List (Expr α)) : Build (List (Expr α)) :=
  (results.zip e.patterns).mapM fun (x, p) => x.project p

/-- The one operand of an operation that has been given its operands. -/
def operand (args : List (Expr α)) (i : Nat) : Build (Expr α) :=
  match args[i]? with
  | some x => pure x
  | none => throw .misuse

def splitLike (e : Expr α) (axis : Axis) (x : Expr α) : Build (List (Expr α)) := do
  let (rows, cols) ← blockOffsets e.patterns
  splitAlong axis x rows cols

/-- The results of the node's operation on other operands, one expression per result. -/
def rebuild (e : Expr α) (args : List (Expr α)) : Build (List (Expr α)) := do
  match e.op with
  | .output i =>
    match args with
    | producer :: _ => return [← producer.output i]
    | [] => throw (.argumentCount 1 0)
  | op =>
    let args ← e.alignArgs args
    let results ← match op with
      | .symbol _ | .output _ =>
        match args with
        | x :: _ => pure [x]
        | [] => throw (.argumentCount 1 0)
      | .constant nz => do pure [← constant nz e.pattern]
      | .unary op => do pure [← unary op (← operand args 0)]
      | .binary op _ => do pure [← binary op (← operand args 0) (← operand args 1)]
      | .innerProduct => do pure [← dot (← operand args 0) (← operand args 1)]
      | .transpose _ => do pure [← (← operand args 0).transpose]
      | .project _ => do pure [← (← operand args 0).project e.pattern]
      | .join axis => do pure [← joinAlong axis args]
      | .split axis _ => e.splitLike axis (← operand args 0)
    e.alignResults results

end DiffGraph.Expr
