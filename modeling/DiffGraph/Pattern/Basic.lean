import DiffGraph.Offsets
import DiffGraph.Pattern.Column

/-!
# Sparsity patterns

A `Pattern` says which entries of a matrix may be nonzero: for every column the
increasing list of its nonzero rows. The nonzeros are numbered column after
column, and every buffer of values follows that numbering. `colind` and `row`
are the compressed form, `nzIndex` finds an entry's number and `triplets` lists
the entries in the order of their numbers.
-/

namespace DiffGraph

attribute [local instance (high)] Zero.ofOfNat0

/-- The structurally nonzero entries of a matrix, column by column. -/
structure Pattern where
  nrows : Nat
  columns : List (List Nat)
  isColumn : ∀ rows ∈ columns, IsColumn nrows rows
  deriving DecidableEq

namespace Pattern

def ncols (p : Pattern) : Nat :=
  p.columns.length

def shape (p : Pattern) : Nat × Nat :=
  (p.nrows, p.ncols)

/-- The number of entries, structurally zero ones included. -/
def numel (p : Pattern) : Nat :=
  p.nrows * p.ncols

/-- The number of structural nonzeros. -/
def nnz (p : Pattern) : Nat :=
  (p.columns.map List.length).sum

/-- The number of nonzeros in the columns before column `c`. -/
def offset (p : Pattern) (c : Nat) : Nat :=
  ((p.columns.take c).map List.length).sum

/-- The offsets of all columns, closed by the number of nonzeros. -/
def colind (p : Pattern) : List Nat :=
  Offsets.ofSizes (p.columns.map List.length)

/-- The rows of all nonzeros in order. -/
def row (p : Pattern) : List Nat :=
  p.columns.flatten

/-- The entries `(row, column)` in the order of their numbers. -/
def triplets (p : Pattern) : List (Nat × Nat) :=
  p.columns.zipIdx.flatMap fun (rows, c) => rows.map (·, c)

/-- The columns with the number of their first nonzero. -/
def numbered (p : Pattern) : List (Nat × List Nat) :=
  p.colind.zip p.columns

/-- The number of an entry, if it is a nonzero. -/
def nzIndex (p : Pattern) (row col : Nat) : Option Nat :=
  (p.columns[col]?).bind fun rows => (rows.idxOf? row).map (p.offset col + ·)

/-- One entry; it may still be structurally zero. -/
def isScalar (p : Pattern) : Bool :=
  p.shape == (1, 1)

def isSingleColumn (p : Pattern) : Bool :=
  p.ncols == 1

def isDense (p : Pattern) : Bool :=
  p.nnz == p.numel

def isStructurallyZero (p : Pattern) : Bool :=
  p.nnz == 0

def empty (nrows ncols : Nat) : Pattern where
  nrows := nrows
  columns := List.replicate ncols []
  isColumn _ h := (List.eq_of_mem_replicate h) ▸ IsColumn.nil nrows

def dense (nrows ncols : Nat) : Pattern where
  nrows := nrows
  columns := (List.range ncols).map fun _ => List.range nrows
  isColumn := by
    intro rows h
    obtain ⟨_, _, rfl⟩ := List.mem_map.1 h
    exact IsColumn.range nrows

def column (n : Nat) : Pattern :=
  dense n 1

def scalar : Pattern :=
  dense 1 1

def diagonal (n : Nat) : Pattern where
  nrows := n
  columns := (List.range n).map fun i => [i]
  isColumn := by
    intro rows h
    obtain ⟨i, hi, rfl⟩ := List.mem_map.1 h
    exact ⟨List.pairwise_singleton _ _, by simpa using List.mem_range.1 hi⟩

instance : Inhabited Pattern := ⟨empty 0 0⟩

@[simp] theorem length_row (p : Pattern) : p.row.length = p.nnz := by
  simp [row, nnz, List.length_flatten]

@[simp] theorem length_triplets (p : Pattern) : p.triplets.length = p.nnz := by
  simp only [triplets, nnz, List.length_flatMap, List.length_map]
  congr 1
  apply List.ext_getElem <;> simp

theorem mem_triplets {p : Pattern} {r c : Nat} :
    (r, c) ∈ p.triplets ↔ ∃ rows, p.columns[c]? = some rows ∧ r ∈ rows := by
  simp only [triplets, List.mem_flatMap, List.mem_map, Prod.mk.injEq, Prod.exists,
    List.mem_zipIdx_iff_getElem?]
  grind

/-- Shape and number of nonzeros, as shown to users. -/
def text (p : Pattern) : String :=
  s!"{p.nrows}x{p.ncols},{p.nnz}nz"

end Pattern

end DiffGraph
