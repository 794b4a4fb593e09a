import DiffGraph.Pattern.Basic
import DiffGraph.Text.Quoted

/-!
# Structural errors

`GraphError` lists what can be wrong with a pattern, a node or a function while
it is built or called, one constructor for each cause, and `message` is its
wording. `misuse` is an operation whose caller broke its promise, such as an
index out of range; it has no wording of its own.
-/

namespace DiffGraph

/-- Why data is no compressed pattern. -/
inductive PatternFlaw where
  | offsetCount
  | offsetEnds
  | decreasingOffsets
  | rowOutOfRange
  | decreasingRows
  | repeatedRow
  | outside (row col nrows ncols : Nat)
  deriving DecidableEq

/-- In which way operands do not fit together. -/
inductive Clash where
  | shapes (a b : Nat × Nat)
  | onto (a b : Nat × Nat)
  | rowCounts (a b : Nat)
  | columnCounts (a b : Nat)
  deriving DecidableEq

inductive GraphError where
  | invalidPattern (flaw : PatternFlaw)
  | invalidOffsets (flaw : OffsetFlaw)
  | shapeMismatch (op : String) (clash : Clash)
  | diagonalCoverage (covered total : Nat)
  | nonSymbolicInput (index : Nat)
  | freeVariables (names : List String)
  | argumentCount (expected got : Nat)
  | nonzeroCount (index expected got : Nat)
  | argumentShape (index : Nat) (expected got : Nat × Nat)
  | misuse
  deriving DecidableEq

namespace PatternFlaw

def message : PatternFlaw → String
  | offsetCount => "InvalidOffsetArrayLength"
  | offsetEnds => "InvalidOffsetFirstLast"
  | decreasingOffsets => "NonmonotonicOffsets"
  | rowOutOfRange => "MinorIndexOutOfBounds"
  | decreasingRows => "NonmonotonicMinorIndices"
  | repeatedRow => "DuplicateEntry"
  | outside row col nrows ncols =>
    s!"entry ({row}, {col}) outside of a {nrows}x{ncols} pattern"

end PatternFlaw

def listText (ns : List Nat) : String :=
  "[" ++ ", ".intercalate (ns.map toString) ++ "]"

def shapeText (shape : Nat × Nat) : String :=
  s!"({shape.1}, {shape.2})"

namespace OffsetFlaw

def message : OffsetFlaw → String
  | missing what => s!"{what} offsets must contain at least one entry"
  | ends what total offsets =>
    s!"{what} offsets must start at 0 and end at {total}, got " ++ listText offsets
  | decreasing what offsets => s!"{what} offsets must be non-decreasing, got " ++ listText offsets
  | blockCounts rows cols =>
    s!"diagonal split needs as many row blocks as column blocks ({rows} vs {cols})"

end OffsetFlaw

namespace Clash

def message : Clash → String
  | shapes a b => shapeText a ++ " vs " ++ shapeText b
  | onto a b => shapeText a ++ " onto " ++ shapeText b
  | rowCounts a b => s!"row counts differ ({a} vs {b})"
  | columnCounts a b => s!"column counts differ ({a} vs {b})"

end Clash

namespace GraphError

def message : GraphError → String
  | invalidPattern flaw => "Invalid sparsity pattern: " ++ flaw.message
  | invalidOffsets flaw => "Invalid offset table: " ++ flaw.message
  | shapeMismatch op clash => s!"Shape mismatch in {op}: " ++ clash.message
  | diagonalCoverage covered total =>
    "Diagsplit: the presence of nonzeros outside the diagonal blocks is unsupported " ++
      s!"({covered} of {total} nonzeros lie inside a block)"
  | nonSymbolicInput index => s!"Function input {index} is not a purely symbolic expression"
  | freeVariables names => "Function has free variables: " ++ Text.quotedList names
  | argumentCount expected got => s!"Expected {expected} arguments, got {got}"
  | nonzeroCount index expected got =>
    s!"Argument {index} has {got} nonzeros, expected {expected}"
  | argumentShape index expected got =>
    s!"Argument {index} has shape " ++ shapeText got ++ ", expected " ++ shapeText expected
  | misuse => "Operand out of range"

end GraphError

end DiffGraph
