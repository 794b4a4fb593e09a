import DiffGraph.Expr.Permute
import DiffGraph.Pattern.Blocks

/-!
# Splitting and joining expressions

The nonzeros of a block of columns, of a piece of a column and of the blocks on
a diagonal are consecutive, so a split copies ranges of its operand's buffer and
a join strings buffers together. Rows of a matrix with several columns are split
and joined through transposes. Joining all parts of one split in their order
gives back what was split.
-/

namespace DiffGraph.Expr

variable {α : Type} [Scalar α]

/-- The parts of `x` on the given patterns; a single part is `x` itself. -/
def splitInto (axis : Axis) (x : Expr α) (parts : List Pattern) : Fresh (List (Expr α)) :=
  match parts with
  | [] => pure []
  | [_] => pure [x]
  | p :: ps => do
    let offsets := Offsets.ofSizes (parts.map Pattern.nnz)
    results (node (← Fresh.identity) (.split axis offsets) [x] p ps)

/-- Cuts the columns at the offsets. -/
def horzsplit (x : Expr α) (offsets : List Nat) : Build (List (Expr α)) := do
  splitInto .horizontal x (← x.pattern.horzsplit offsets)

/-- Cuts the rows at the offsets. -/
def vertsplit (x : Expr α) (offsets : List Nat) : Build (List (Expr α)) := do
  if x.pattern.isSingleColumn then
    splitInto .vertical x (← x.pattern.vertsplit offsets)
  else
    let parts ← (← x.transpose).horzsplit offsets
    parts.mapM transpose

attribute [local instance (high)] Zero.ofOfNat0

/-- The blocks on the diagonal; a nonzero outside of them is an error. -/
def diagsplit (x : Expr α) (rows cols : List Nat) : Build (List (Expr α)) := do
  let parts ← x.pattern.diagsplit rows cols
  let covered := (parts.map Pattern.nnz).sum
  if covered ≠ x.nnz then throw (.diagonalCoverage covered x.nnz)
  splitInto .diagonal x parts

/-- Cuts along an axis, at the row or the column offsets or both. -/
def splitAlong (axis : Axis) (x : Expr α) (rows cols : List Nat) : Build (List (Expr α)) :=
  match axis with
  | .horizontal => x.horzsplit cols
  | .vertical => x.vertsplit rows
  | .diagonal => x.diagsplit rows cols

/-- The split node behind a part, with the part's index. -/
def part? (axis : Axis) (x : Expr α) : Option (Expr α × Nat) :=
  match x.op, x.deps with
  | .output i, [producer] =>
    match producer.op with
    | .split a _ => if a = axis then some (producer, i) else none
    | _ => none
  | _, _ => none

/-- What was split, if the parts are all parts of one split in their order. -/
def whole? (axis : Axis) (parts : List (Expr α)) : Option (Expr α) := do
  let (producer, _) ← parts.head?.bind (part? axis)
  let complete := producer.resultCount == parts.length &&
    parts.zipIdx.all fun (p, i) =>
      (part? axis p).any fun (q, j) => j == i && q.same producer
  if complete then producer.deps.head? else none

/-- Joins parts whose joined pattern is known; a single part stays as it is. -/
def joinNode (axis : Axis) (parts : List (Expr α)) (pattern : Pattern) : Fresh (Expr α) :=
  match parts with
  | [] => zerosLike pattern
  | [x] => pure x
  | _ =>
    match parts.mapM constant? with
    | some nzs => constant nzs.flatten pattern
    | none => fresh (.join axis) parts pattern

def horzcat (parts : List (Expr α)) : Build (Expr α) :=
  match whole? .horizontal parts with
  | some x => pure x
  | none => do joinNode .horizontal parts (← Pattern.horzcat (parts.map pattern))

def vertcat (parts : List (Expr α)) : Build (Expr α) :=
  match whole? .vertical parts with
  | some x => pure x
  | none => do
    if parts.all (·.pattern.isSingleColumn) then
      joinNode .vertical parts (← Pattern.vertcat (parts.map pattern))
    else
      let rows ← parts.mapM transpose
      (← horzcat rows).transpose

def diagcat (parts : List (Expr α)) : Build (Expr α) :=
  match whole? .diagonal parts with
  | some x => pure x
  | none => do joinNode .diagonal parts (← Pattern.diagcatChecked (parts.map pattern))

def joinAlong (axis : Axis) (parts : List (Expr α)) : Build (Expr α) :=
  match axis with
  | .horizontal => horzcat parts
  | .vertical => vertcat parts
  | .diagonal => diagcat parts

/-- The row offsets and column offsets of blocks laid out along the diagonal. -/
def blockOffsets (blocks : List Pattern) : Except GraphError (List Nat × List Nat) := do
  Pattern.checkRows blocks
  return (Offsets.ofSizes (blocks.map Pattern.nrows), Offsets.ofSizes (blocks.map Pattern.ncols))

end DiffGraph.Expr
