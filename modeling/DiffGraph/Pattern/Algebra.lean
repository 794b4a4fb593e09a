import DiffGraph.Size

/-!
# Union, projection and transposition of patterns

`union` joins the nonzeros of two patterns of one shape. `projection p t` gives
for every nonzero of `t` the number of the same entry in `p`, and `transposition`
the transposed pattern with the number of every nonzero before transposing.
-/

namespace DiffGraph

namespace Pattern

def union (p q : Pattern) : Except GraphError Pattern :=
  if p = q then .ok p
  else if h : p.shape = q.shape then .ok {
      nrows := p.nrows
      columns := List.zipWith mergeRows p.columns q.columns
      isColumn := by
        intro rows hrows
        obtain ⟨k, hk, rfl⟩ := List.mem_iff_getElem.1 hrows
        rw [List.getElem_zipWith]
        have hn : q.nrows = p.nrows := (congrArg Prod.fst h).symm
        exact (p.isColumn _ (List.getElem_mem _)).merge (hn ▸ q.isColumn _ (List.getElem_mem _)) }
  else .error (.shapeMismatch "union" (.shapes p.shape q.shape))

@[simp] theorem union_self (p : Pattern) : p.union p = .ok p := by
  simp [union]

/-- For every nonzero of `target`, its number in `p`. -/
def projection (p target : Pattern) : List (Option Nat) :=
  target.triplets.map fun (r, c) => p.nzIndex r c

@[simp] theorem length_projection (p target : Pattern) :
    (p.projection target).length = target.nnz := by
  simp [projection]

def has (p : Pattern) (row col : Nat) : Bool :=
  (p.columns[col]?).any (·.contains row)

theorem has_iff {p : Pattern} {r c : Nat} : p.has r c = true ↔ (r, c) ∈ p.triplets := by
  simp [has, mem_triplets, Option.any_eq_true]

/-- The columns with a nonzero in row `r`, in increasing order. -/
def columnsOf (p : Pattern) (r : Nat) : List Nat :=
  (p.columns.zipIdx.filter fun (rows, _) => rows.contains r).map Prod.snd

theorem mem_columnsOf {p : Pattern} {r c : Nat} : c ∈ p.columnsOf r ↔ p.has r c = true := by
  simp [columnsOf, has, Option.any_eq_true, List.mem_zipIdx_iff_getElem?, and_comm]

theorem isColumn_columnsOf (p : Pattern) (r : Nat) : IsColumn p.ncols (p.columnsOf r) := by
  have part : (p.columnsOf r).Sublist (List.range p.ncols) := by
    have whole : p.columns.zipIdx.map Prod.snd = List.range p.ncols := by
      simp [ncols, List.range_eq_range']
    exact whole ▸ List.filter_sublist.map Prod.snd
  have range := IsColumn.range p.ncols
  exact ⟨range.1.sublist part, fun c hc => range.2 c (part.mem hc)⟩

def transpose (p : Pattern) : Pattern where
  nrows := p.ncols
  columns := (List.range p.nrows).map p.columnsOf
  isColumn := by
    intro rows hrows
    obtain ⟨r, _, rfl⟩ := List.mem_map.1 hrows
    exact p.isColumn_columnsOf r

@[simp] theorem shape_transpose (p : Pattern) : p.transpose.shape = (p.ncols, p.nrows) := by
  simp [shape, transpose, ncols]

/-- `transpose`, refused if there are more rows than a list can hold. -/
def transposeChecked (p : Pattern) : Except GraphError Pattern := do
  Size.checkLength p.nrows
  return p.transpose

/-- The number before transposing of every nonzero of the transposed pattern. -/
def transposition (p : Pattern) : List Nat :=
  p.transpose.triplets.filterMap fun (c, r) => p.nzIndex r c

end Pattern

end DiffGraph
