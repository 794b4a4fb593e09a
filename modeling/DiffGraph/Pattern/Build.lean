import DiffGraph.Size

/-!
# Patterns from data

`ofCompressed` reads the compressed form and reports the first flaw: the length
of the offsets, their two ends, then column by column the order of the offsets
and the rows. `ofTriplets` takes entries in any order and merges repeated ones.
The checked forms of the regular patterns refuse what no memory holds.
-/

namespace DiffGraph.Pattern

/-- `empty`, refused if there are more columns than a list can hold. -/
def emptyChecked (nrows ncols : Nat) : Except GraphError Pattern := do
  Size.checkLength ncols
  return empty nrows ncols

def denseChecked (nrows ncols : Nat) : Except GraphError Pattern := do
  Size.checkLength ncols
  Size.checkLength (nrows * ncols)
  return dense nrows ncols

def columnChecked (n : Nat) : Except GraphError Pattern :=
  denseChecked n 1

def diagonalChecked (n : Nat) : Except GraphError Pattern := do
  Size.checkLength n
  return diagonal n

/-- The first flaw of a column whose last accepted row is `previous`. -/
def rowFlaw? (nrows : Nat) : (previous : Option Nat) → List Nat → Option PatternFlaw
  | _, [] => none
  | previous, r :: rest =>
    if nrows ≤ r then some .rowOutOfRange
    else match previous with
      | none => rowFlaw? nrows (some r) rest
      | some p =>
        if r < p then some .decreasingRows
        else if r = p then some .repeatedRow
        else rowFlaw? nrows (some r) rest

theorem isColumn_of_rowFlaw? {nrows : Nat} {previous : Option Nat} {rows : List Nat}
    (h : rowFlaw? nrows previous rows = none) :
    IsColumn nrows rows ∧ ∀ p ∈ previous, ∀ r ∈ rows, p < r := by
  induction rows generalizing previous with
  | nil => simp [IsColumn.nil]
  | cons r rest ih =>
    unfold rowFlaw? at h
    have hr : r < nrows := by
      by_cases hn : nrows ≤ r
      · simp [hn] at h
      · omega
    have tail : rowFlaw? nrows (some r) rest = none := by
      cases previous with
      | none => simpa [Nat.not_le.2 hr] using h
      | some p =>
        simp only [Nat.not_le.2 hr, if_false] at h
        split at h
        · simp at h
        · split at h
          · simp at h
          · exact h
    obtain ⟨⟨sorted, bounded⟩, above⟩ := ih tail
    refine ⟨⟨List.pairwise_cons.2 ⟨above r rfl, sorted⟩, ?_⟩, ?_⟩
    · intro s hs
      rcases List.mem_cons.1 hs with rfl | hs
      · exact hr
      · exact bounded s hs
    · intro p hp s hs
      cases hp
      have hpr : p < r := by
        simp only [Nat.not_le.2 hr, if_false] at h
        split at h
        · simp at h
        · split at h
          · simp at h
          · omega
      rcases List.mem_cons.1 hs with rfl | hs
      · exact hpr
      · exact Nat.lt_trans hpr (above r rfl s hs)

/-- The rows of consecutive columns, each checked. -/
def checkedColumns (nrows : Nat) (row : List Nat) :
    List (Nat × Nat) → Except GraphError { cs : List (List Nat) // ∀ c ∈ cs, IsColumn nrows c }
  | [] => .ok ⟨[], by simp⟩
  | (start, stop) :: ranges =>
    if stop < start then .error (.invalidPattern .decreasingOffsets)
    else match slice? row start stop with
      | none => .error .misuse
      | some rows =>
        match h : rowFlaw? nrows none rows with
        | some flaw => .error (.invalidPattern flaw)
        | none =>
          match checkedColumns nrows row ranges with
          | .error e => .error e
          | .ok rest => .ok ⟨rows :: rest.1, by
              intro c hc
              rcases List.mem_cons.1 hc with rfl | hc
              · exact (isColumn_of_rowFlaw? h).1
              · exact rest.2 c hc⟩

/-- The pattern with the given column offsets and rows. -/
def ofCompressed (nrows ncols : Nat) (colind row : List Nat) : Except GraphError Pattern := do
  Size.checkWord (ncols + 1)
  if colind.length ≠ ncols + 1 then throw (.invalidPattern .offsetCount)
  if colind.head? ≠ some 0 ∨ colind.getLast? ≠ some row.length then
    throw (.invalidPattern .offsetEnds)
  let cs ← checkedColumns nrows row (Offsets.blocks colind)
  return ⟨nrows, cs.1, cs.2⟩

def rowsOf (entries : List (Nat × Nat)) (c : Nat) : List Nat :=
  entries.foldr (fun e rows => if e.2 = c then insertRow e.1 rows else rows) []

theorem isColumn_rowsOf {nrows : Nat} {entries : List (Nat × Nat)}
    (h : ∀ e ∈ entries, e.1 < nrows) (c : Nat) : IsColumn nrows (rowsOf entries c) := by
  induction entries with
  | nil => exact IsColumn.nil nrows
  | cons e rest ih =>
    have ih := ih fun f hf => h f (by simp [hf])
    simp only [rowsOf, List.foldr_cons]
    split
    · exact ih.insertRow (h e (by simp))
    · exact ih

/-- The pattern of the given entries; the first entry outside of the shape is an error. -/
def ofTriplets (nrows ncols : Nat) (entries : List (Nat × Nat)) : Except GraphError Pattern := do
  Size.checkLength ncols
  match h : entries.find? fun e => decide (nrows ≤ e.1 ∨ ncols ≤ e.2) with
  | some e => .error (.invalidPattern (.outside e.1 e.2 nrows ncols))
  | none => .ok {
      nrows
      columns := (List.range ncols).map (rowsOf entries)
      isColumn := by
        intro rows hrows
        obtain ⟨c, _, rfl⟩ := List.mem_map.1 hrows
        refine isColumn_rowsOf (fun e he => ?_) c
        have := List.find?_eq_none.1 h e he
        simp only [decide_eq_true_eq, not_or] at this
        omega }

end DiffGraph.Pattern
