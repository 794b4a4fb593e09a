import DiffGraph.Function.Evaluate
import DiffGraph.Term.Function

/-!
# Expanding functions to scalar expressions

Running a function on symbols, one for each input nonzero, gives a term for each
output nonzero. `expand` compiles them to a function over scalar expressions.
-/

namespace DiffGraph.Function

variable {α : Type} [Scalar α]

abbrev BuildTerms := StateT Nat (Except FunctionError)

/-- A symbol for every nonzero of every input. -/
def termInputs (f : Function α) : Fresh (List (List (Term α))) :=
  f.inputs.zipIdx.mapM fun (x, i) =>
    (List.range x.nnz).mapM fun k => Term.newSymbol s!"{f.inputName i}_{k}"

/-- The outputs as terms over the arguments. -/
def evaluateTerms (f : Function α) (args : List (List (Term α))) :
    Build (List (List (Term α))) := fun n =>
  match (f.run args : ExceptT GraphError Fresh _).run n with
  | (.ok out, n) => .ok (out, n)
  | (.error e, _) => .error e

/-- The function over scalar expressions with the same inputs and outputs. -/
def expand (f : Function α) : BuildTerms (TermFunction α) := fun n => do
  let (args, n) := (f.termInputs.run n : _ × _)
  let (outs, n) ← (f.evaluateTerms args n : Except GraphError _)
  let g ← TermFunction.compile f.name args (f.inputs.map Expr.pattern) outs
    (f.outputs.map Expr.pattern)
  return (g, n)

end DiffGraph.Function
