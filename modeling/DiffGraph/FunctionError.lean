import DiffGraph.Error

/-!
# Errors of compiled functions

What can be wrong when a function is compiled to a program, run, or asked for a
Jacobian: a structural error, or one of the causes listed here.
-/

namespace DiffGraph

inductive FunctionError where
  | graph (e : GraphError)
  | stackUnderflow
  | unknownSymbol (name : String)
  | patternCounts (name : String)
  | outputLength (name : String) (index got : Nat) (pattern : Pattern)
  | missingOutput (name : String) (index : Nat)
  deriving DecidableEq

namespace FunctionError

def misuse : FunctionError :=
  graph .misuse

def message : FunctionError → String
  | graph e => e.message
  | stackUnderflow => "Bytecode stack underflow"
  | unknownSymbol name => s!"Unknown symbol: {name}"
  | patternCounts name => s!"{name}: one sparsity pattern is required per input and output"
  | outputLength name index got pattern =>
    s!"{name}: output {index} has {got} nonzeros, pattern {pattern.text} expects {pattern.nnz}"
  | missingOutput name index => s!"{name}: missing output {index}"

end FunctionError

instance : MonadLift (Except GraphError) (Except FunctionError) where
  monadLift x := x.mapError .graph

end DiffGraph
