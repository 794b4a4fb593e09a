import DiffGraph.Size

/-!
# Splitting and joining patterns

`horzsplit`, `vertsplit` and `diagsplit` cut a pattern at offset tables;
`horzcat`, `vertcat` and `diagcat` join patterns side by side, on top of each
other and along the diagonal. A diagonal split drops the nonzeros outside of
its blocks: callers that mind compare the numbers of nonzeros.
-/

namespace DiffGraph

namespace Pattern

/-- The columns from `a` below `b`. -/
def columnBlock (p : Pattern) (a b : Nat) : Pattern where
  nrows := p.nrows
  columns := slice p.columns a b
  isColumn rows h := p.isColumn rows (List.mem_of_mem_drop (List.mem_of_mem_take h))

def rowBlock (p : Pattern) (a b : Nat) : Pattern where
  nrows := b - a
  columns := p.columns.map fun rows => (rows.filter fun r => a ≤ r && r < b).map (· - a)
  isColumn := by
    intro rows h
    obtain ⟨c, hc, rfl⟩ := List.mem_map.1 h
    exact (p.isColumn c hc).cut a b

def checkOffsets (offsets : List Nat) (total : Nat) (what : String) : Except GraphError Unit :=
  match Offsets.flaw? offsets total what with
  | some flaw => .error (.invalidOffsets flaw)
  | none => .ok ()

def horzsplit (p : Pattern) (offsets : List Nat) : Except GraphError (List Pattern) := do
  checkOffsets offsets p.ncols "column"
  return (Offsets.blocks offsets).map fun (a, b) => p.columnBlock a b

def vertsplit (p : Pattern) (offsets : List Nat) : Except GraphError (List Pattern) := do
  checkOffsets offsets p.nrows "row"
  return (Offsets.blocks offsets).map fun (a, b) => p.rowBlock a b

/-- The blocks on the diagonal of the grid given by two offset tables. -/
def diagsplit (p : Pattern) (rows cols : List Nat) : Except GraphError (List Pattern) := do
  checkOffsets rows p.nrows "row"
  checkOffsets cols p.ncols "column"
  if rows.length ≠ cols.length then
    throw (.invalidOffsets (.blockCounts (rows.length - 1) (cols.length - 1)))
  return ((Offsets.blocks rows).zip (Offsets.blocks cols)).map fun ((r0, r1), (c0, c1)) =>
    (p.columnBlock c0 c1).rowBlock r0 r1

def beside (nrows : Nat) (parts : List Pattern) (h : ∀ p ∈ parts, p.nrows = nrows) : Pattern where
  nrows
  columns := parts.flatMap columns
  isColumn := by
    intro rows hrows
    obtain ⟨p, hp, hrows⟩ := List.mem_flatMap.1 hrows
    exact h p hp ▸ p.isColumn rows hrows

/-- Two patterns on top of each other; columns without a partner are dropped. -/
def above (p q : Pattern) : Pattern where
  nrows := p.nrows + q.nrows
  columns := List.zipWith (fun a b => a ++ b.map (p.nrows + ·)) p.columns q.columns
  isColumn := by
    intro rows hrows
    obtain ⟨k, hk, rfl⟩ := List.mem_iff_getElem.1 hrows
    rw [List.getElem_zipWith]
    exact (p.isColumn _ (List.getElem_mem _)).stack (q.isColumn _ (List.getElem_mem _))

def diagonally (p q : Pattern) : Pattern where
  nrows := p.nrows + q.nrows
  columns := p.columns ++ q.columns.map (·.map (p.nrows + ·))
  isColumn := by
    intro rows hrows
    rcases List.mem_append.1 hrows with h | h
    · exact (p.isColumn rows h).mono (Nat.le_add_right _ _)
    · obtain ⟨c, hc, rfl⟩ := List.mem_map.1 h
      exact (q.isColumn c hc).shift p.nrows

def horzcat : List Pattern → Except GraphError Pattern
  | [] => .ok (empty 0 0)
  | first :: rest =>
    if h : ∀ p ∈ first :: rest, p.nrows = first.nrows then
      .ok (beside first.nrows (first :: rest) h)
    else
      let bad := (rest.find? fun p => p.nrows ≠ first.nrows).getD first
      .error (.shapeMismatch "horzcat" (.rowCounts first.nrows bad.nrows))

attribute [local instance (high)] Zero.ofOfNat0

/-- Refuses parts whose rows are too many for one pattern. -/
def checkRows (parts : List Pattern) : Except GraphError Unit :=
  Size.checkWord (parts.map nrows).sum

def vertcat : List Pattern → Except GraphError Pattern
  | [] => .ok (empty 0 0)
  | first :: rest =>
    match rest.find? fun p => p.ncols ≠ first.ncols with
    | some bad => .error (.shapeMismatch "vertcat" (.columnCounts first.ncols bad.ncols))
    | none => do
      checkRows (first :: rest)
      return (first :: rest).foldr above (empty 0 first.ncols)

def diagcat (parts : List Pattern) : Pattern :=
  parts.foldr diagonally (empty 0 0)

def diagcatChecked (parts : List Pattern) : Except GraphError Pattern := do
  checkRows parts
  return diagcat parts

end Pattern

end DiffGraph
