import DiffGraph.Function.Evaluate
import DiffGraph.Term.Function

/-!
# Systems of equations

A `System` is what a solver sees of a function: the patterns of its inputs and
outputs, evaluation on numbers and on dual numbers, and the dependency sweep.
Functions over matrix and over scalar expressions both are systems.
-/

namespace DiffGraph

structure System (α : Type) where
  name : String
  inputs : List Pattern
  outputs : List Pattern
  eval : List (List α) → Except FunctionError (List (List α))
  evalDual : List (List (Dual α)) → Except FunctionError (List (List (Dual α)))
  /-- The marks that reach the outputs from marked inputs. -/
  taint : List (List Taint) → Except FunctionError (List (List Taint))

variable {α : Type} [Scalar α]

def Function.system (f : Function α) : System α where
  name := f.name
  inputs := f.inputs.map Expr.pattern
  outputs := f.outputs.map Expr.pattern
  eval args := (f.evaluate args).mapError .graph
  evalDual args := (f.evaluateDual args).mapError .graph
  taint seeds := (f.taintForward seeds).mapError .graph

def TermFunction.system (f : TermFunction α) : System α where
  name := f.name
  inputs := f.inputPatterns
  outputs := f.outputPatterns
  eval := f.evaluate
  evalDual := f.evaluateDual
  taint := f.taintForward

end DiffGraph
