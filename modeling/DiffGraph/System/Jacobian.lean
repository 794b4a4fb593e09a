import DiffGraph.Pattern.Build
import DiffGraph.Pattern.Coloring
import DiffGraph.System.Basic

/-!
# Jacobians

Rows of a Jacobian are the nonzeros of an output, columns the nonzeros of an
input. `jacobianPattern` finds its nonzeros by dependency sweeps over 64 columns
at a time. `jacobian` colours the columns and differentiates once for each
colour: columns of one colour never meet in a row, so their entries can be told
apart.
-/

namespace DiffGraph

/-- Numbers on a pattern. -/
structure SparseMatrix (α : Type) where
  pattern : Pattern
  values : List α

namespace System

variable {α : Type}

def markCount : Nat := 64

def mark (bit : Nat) : Taint :=
  1 <<< bit.toUInt64

/-- The bits of a taint below `count`. -/
def marksOf (t : Taint) (count : Nat) : List Nat :=
  (List.range count).filter fun bit => t &&& mark bit != 0

/-- Seeds that mark the columns from `start`, one mark each. -/
def columnSeeds (inputs : List Pattern) (iind start count : Nat) : List (List Taint) :=
  inputs.zipIdx.map fun (p, i) =>
    (List.range p.nnz).map fun k =>
      if i = iind ∧ start ≤ k ∧ k < start + count then mark (k - start) else 0

/-- The entries of the Jacobian in the columns from `start`. -/
def entriesFrom (s : System α) (iind oind start count : Nat) :
    Except FunctionError (List (Nat × Nat)) := do
  let out ← s.taint (columnSeeds s.inputs iind start count)
  match out[oind]? with
  | none => throw .misuse
  | some rows =>
    return rows.zipIdx.flatMap fun (t, r) => (marksOf t count).map fun bit => (r, start + bit)

/-- The structural nonzeros of the Jacobian of an output by an input. -/
def jacobianPattern (s : System α) (iind oind : Nat) : Except FunctionError Pattern := do
  match s.inputs[iind]?, s.outputs[oind]? with
  | some x, some y =>
    let starts := (List.range ((x.nnz + markCount - 1) / markCount)).map (· * markCount)
    let entries ← starts.mapM fun start =>
      s.entriesFrom iind oind start (min markCount (x.nnz - start))
    (Pattern.ofTriplets y.nnz x.nnz entries.flatten : Except GraphError Pattern)
  | _, _ => throw .misuse

variable [Scalar α]

/-- The arguments with derivative one in the columns of a colour and zero elsewhere. -/
def colorSeeds (args : List (List α)) (iind : Nat) (colors : Array Nat) (color : Nat) :
    List (List (Dual α)) :=
  args.zipIdx.map fun (a, i) =>
    a.zipIdx.map fun (x, k) => ⟨x, if i = iind ∧ colors[k]? = some color then 1 else 0⟩

/-- The derivatives of output `oind` along the columns of one colour. -/
def derivativesAlong (s : System α) (iind oind : Nat) (args : List (List α))
    (colors : Array Nat) (color : Nat) : Except FunctionError (Array α) := do
  if colors.size < (args[iind]?.map List.length).getD 0 then throw .misuse
  let out ← s.evalDual (colorSeeds args iind colors color)
  match out[oind]? with
  | some o => return (Dual.derivs o).toArray
  | none => throw (.missingOutput s.name oind)

/-- The Jacobian of output `oind` by input `iind` at the arguments. -/
def jacobian (s : System α) (iind oind : Nat) (args : List (List α)) :
    Except FunctionError (SparseMatrix α) := do
  let pattern ← s.jacobianPattern iind oind
  let colors := pattern.coloring
  let colorTable := colors.toArray
  let sweeps ← (List.range (Pattern.colorCount colors)).mapM
    (s.derivativesAlong iind oind args colorTable)
  let sweeps := sweeps.toArray
  let values := (pattern.columns.zip colors).flatMap fun (rows, color) =>
    let column := sweeps[color]?.getD #[]
    rows.map fun r => column[r]?.getD 0
  return ⟨pattern, values⟩

end System

end DiffGraph
