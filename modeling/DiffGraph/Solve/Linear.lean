import DiffGraph.Scalar
import DiffGraph.System.Jacobian

/-!
# Dense linear systems

`LU.factor` eliminates below the diagonal, column after column, after swapping
the row with the largest entry of the column up; a column without a nonzero
pivot is left alone. `LU.solve` applies the swaps to the right-hand side and
substitutes forwards and backwards; it has no result if a diagonal entry is
zero. The substitution starts at an end of the unknowns, so there must be one.
-/

namespace DiffGraph

/-- Why a linear system is not solved. -/
inductive LinearError where
  /-- There is nothing to solve for. -/
  | noUnknowns
  /-- A diagonal entry of the factorisation is zero. -/
  | singular
  deriving DecidableEq

/-- A factorisation: the rows, with the multipliers below the diagonal, and the row swaps. -/
structure LU (α : Type) where
  rows : Array (Array α)
  swaps : List (Nat × Nat)

namespace LU

variable {α : Type} [OrderedScalar α]

def entry (rows : Array (Array α)) (r c : Nat) : α :=
  (rows[r]?.bind (·[c]?)).getD 0

/-- The first row from `i` on with the largest entry in column `i`. -/
def pivotRow (rows : Array (Array α)) (i : Nat) : Nat :=
  (List.range' (i + 1) (rows.size - (i + 1))).foldl (fun best r =>
    if OrderedScalar.less (OrderedScalar.abs (entry rows best i))
        (OrderedScalar.abs (entry rows r i)) then r else best) i

/-- Subtracts a multiple of row `i` from a row below it and keeps the multiplier. -/
def eliminate (pivot : Array α) (i : Nat) (factor : α) (row : Array α) : Array α :=
  let multiplier := (row[i]?.getD 0) * factor
  row.mapIdx fun k x =>
    if k < i then x
    else if k = i then multiplier
    else -(pivot[k]?.getD 0) * multiplier + x

def eliminateColumn (lu : LU α) (i : Nat) : LU α :=
  let p := pivotRow lu.rows i
  if entry lu.rows p i == 0 then lu
  else
    let rows := lu.rows.swapIfInBounds i p
    let pivot := rows[i]?.getD #[]
    let factor := 1 / (pivot[i]?.getD 0)
    { rows := rows.mapIdx fun r row => if i < r then eliminate pivot i factor row else row
      swaps := lu.swaps ++ [(i, p)] }

def factor (rows : Array (Array α)) : LU α :=
  (List.range rows.size).foldl eliminateColumn ⟨rows, []⟩

def substitute (rows : Array (Array α)) (i : Nat) (affected : Nat → Bool) (b : Array α) :
    Array α :=
  let c := -(b[i]?.getD 0)
  b.mapIdx fun r x => if affected r then c * entry rows r i + x else x

/-- Divides entry `i` by the diagonal and removes it from the entries above. -/
def backStep (rows : Array (Array α)) (b : Array α) (i : Nat) : Except LinearError (Array α) :=
  let diagonal := entry rows i i
  if diagonal == 0 then .error .singular
  else .ok (substitute rows i (fun r => decide (r < i)) (b.modify i (· / diagonal)))

/-- The solution for a right-hand side, unless the matrix is empty or singular. -/
def solve (lu : LU α) (b : List α) : Except LinearError (List α) := do
  if lu.rows.isEmpty then throw .noUnknowns
  let swapped := lu.swaps.foldl (fun (b : Array α) (i, p) => b.swapIfInBounds i p) b.toArray
  let indices := List.range lu.rows.size
  let forward := indices.foldl (fun b i => substitute lu.rows i (fun r => decide (i < r)) b) swapped
  return (← indices.reverse.foldlM (backStep lu.rows) forward).toList

end LU

namespace SparseMatrix

variable {α : Type} [Scalar α]

/-- The rows of the matrix: its nonzeros are added to a matrix of zeros. -/
def rows (m : SparseMatrix α) : Array (Array α) :=
  let zero := Array.replicate m.pattern.nrows (Array.replicate m.pattern.ncols (0 : α))
  (m.pattern.triplets.zip m.values).foldl (fun rows ((r, c), x) =>
    rows.modify r fun row => row.modify c (· + x)) zero

end SparseMatrix

end DiffGraph
