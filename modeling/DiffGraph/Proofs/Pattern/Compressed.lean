import Mathlib
import DiffGraph.Pattern.Build
import DiffGraph.Proofs.Pattern.Splits

/-!
# Compressed arrays

A pattern in compressed form is its column offsets and its rows. Every split and
every join writes both arrays anew, with the offsets and the rows counted from
other places, and one check has to accept what was written. `Compressed` are such
arrays with the operations on them. On the arrays of patterns every operation
writes the arrays of its result (`compressed_columnBlock`, `compressed_rowBlock`,
`compressed_beside`, `compressed_above`, `compressed_diagonally`), and the arrays of
every pattern pass the check (`check_compressed`).
-/

namespace DiffGraph

/-- The arrays of a pattern before they are checked. -/
structure Compressed where
  nrows : Nat
  ncols : Nat
  colind : List Nat
  row : List Nat

namespace Compressed

/-- The pattern of the arrays, unless they are refused. -/
def check (a : Compressed) : Except GraphError Pattern :=
  Pattern.ofCompressed a.nrows a.ncols a.colind a.row

def lane (a : Compressed) (c : Nat) : List Nat :=
  slice a.row (a.colind[c]?.getD 0) (a.colind[c + 1]?.getD 0)

/-- One more column: its rows are appended, and then the number of rows is the next offset. -/
def push (written : List Nat × List Nat) (lane : List Nat) : List Nat × List Nat :=
  (written.1 ++ [(written.2 ++ lane).length], written.2 ++ lane)

def ofLanes (nrows ncols : Nat) (lanes : List (List Nat)) : Compressed :=
  let written := lanes.foldl push ([0], [])
  ⟨nrows, ncols, written.1, written.2⟩

/-- The columns from `c0` below `c1`: a piece of both arrays, the offsets counted from its start. -/
def columnBlock (a : Compressed) (c0 c1 : Nat) : Compressed where
  nrows := a.nrows
  ncols := c1 - c0
  colind := (slice a.colind c0 (c1 + 1)).map (· - a.colind[c0]?.getD 0)
  row := slice a.row (a.colind[c0]?.getD 0) (a.colind[c1]?.getD 0)

/-- The rows from `r0` below `r1` of the columns from `c0` below `c1`. -/
def subBlock (a : Compressed) (r0 r1 c0 c1 : Nat) : Compressed :=
  ofLanes (r1 - r0) (c1 - c0) ((List.range' c0 (c1 - c0)).map fun c =>
    ((a.lane c).filter fun r => r0 ≤ r && r < r1).map (· - r0))

/-- The offsets of arrays side by side, behind `base` nonzeros. -/
def offsetsFrom (base : Nat) : List Compressed → List Nat
  | [] => []
  | a :: rest => a.colind.tail.map (base + ·) ++ offsetsFrom (base + a.row.length) rest

def beside (nrows : Nat) (parts : List Compressed) : Compressed where
  nrows
  ncols := (parts.map ncols).sum
  colind := 0 :: offsetsFrom 0 parts
  row := parts.flatMap row

/-- Column `c` of arrays on top of each other, from row `offset` on. -/
def stackedLane (c offset : Nat) : List Compressed → List Nat
  | [] => []
  | a :: rest => (a.lane c).map (offset + ·) ++ stackedLane c (offset + a.nrows) rest

def above (ncols : Nat) (parts : List Compressed) : Compressed :=
  ofLanes (parts.map nrows).sum ncols ((List.range ncols).map fun c => stackedLane c 0 parts)

/-- The columns of arrays along the diagonal, from row `offset` on. -/
def diagonalLanes (offset : Nat) : List Compressed → List (List Nat)
  | [] => []
  | a :: rest => (List.range a.ncols).map (fun c => (a.lane c).map (offset + ·)) ++
      diagonalLanes (offset + a.nrows) rest

def diagonally (parts : List Compressed) : Compressed :=
  ofLanes (parts.map nrows).sum (parts.map ncols).sum (diagonalLanes 0 parts)

/-! ## Writing column by column -/

theorem foldl_push (lanes : List (List Nat)) (colind row : List Nat) :
    lanes.foldl push (colind ++ [row.length], row) =
      (colind ++ Offsets.sizesFrom row.length (lanes.map List.length), row ++ lanes.flatten) := by
  induction lanes generalizing colind row with
  | nil => simp [Offsets.sizesFrom]
  | cons lane lanes ih =>
    rw [List.foldl_cons, push, ih]
    simp [Offsets.sizesFrom]

theorem ofLanes_eq (nrows ncols : Nat) (lanes : List (List Nat)) :
    ofLanes nrows ncols lanes =
      ⟨nrows, ncols, Offsets.ofSizes (lanes.map List.length), lanes.flatten⟩ := by
  have h := foldl_push lanes [] []
  rw [List.length_nil, List.nil_append, List.nil_append, List.nil_append] at h
  rw [ofLanes, h]
  rfl

end Compressed

/-! ## Arrays of patterns -/

namespace Offsets

theorem getElem?_sizesFrom {sizes : List Nat} {s i : Nat} (h : i ≤ sizes.length) :
    (sizesFrom s sizes)[i]? = some (s + (sizes.take i).sum) := by
  induction sizes generalizing s i with
  | nil =>
    obtain rfl : i = 0 := by simpa using h
    rfl
  | cons n ns ih =>
    cases i with
    | zero => rfl
    | succ i =>
      rw [sizesFrom, List.getElem?_cons_succ, ih (by simpa using h), List.take_succ_cons,
        List.sum_cons, Nat.add_assoc]

theorem slice_sizesFrom (sizes : List Nat) (s : Nat) {a b : Nat} (hab : a ≤ b)
    (hb : b ≤ sizes.length) :
    slice (sizesFrom s sizes) a (b + 1) = sizesFrom (s + (sizes.take a).sum) (slice sizes a b) := by
  induction sizes generalizing s a b with
  | nil =>
    obtain rfl : b = 0 := by simpa using hb
    obtain rfl : a = 0 := by omega
    simp [sizesFrom, slice]
  | cons n ns ih =>
    cases a with
    | zero =>
      cases b with
      | zero => simp [sizesFrom, slice]
      | succ b =>
        have h := ih (s + n) (Nat.zero_le b) (by simpa using hb)
        simpa [sizesFrom, slice] using h
    | succ a =>
      obtain ⟨b, rfl⟩ : ∃ b', b = b' + 1 := ⟨b - 1, by omega⟩
      have h := ih (s + n) (Nat.le_of_succ_le_succ hab) (by simpa using hb)
      simpa [sizesFrom, slice, Nat.add_assoc, Nat.add_sub_add_right] using h

theorem map_sizesFrom (f : Nat → Nat) {s t : Nat} (sizes : List Nat)
    (h : ∀ k, f (s + k) = t + k) : (sizesFrom s sizes).map f = sizesFrom t sizes := by
  induction sizes generalizing s t with
  | nil => simpa [sizesFrom] using h 0
  | cons n ns ih =>
    have hnext (k : Nat) : f (s + n + k) = t + n + k := by
      rw [Nat.add_assoc, h, Nat.add_assoc]
    have hfirst : f s = t := h 0
    rw [sizesFrom, List.map_cons, sizesFrom, ih hnext, hfirst]

theorem sizesFrom_ne_nil (s : Nat) (sizes : List Nat) : sizesFrom s sizes ≠ [] := by
  cases sizes <;> simp [sizesFrom]

theorem sizesFrom_append (s : Nat) (sizes sizes' : List Nat) :
    sizesFrom s (sizes ++ sizes') =
      sizesFrom s sizes ++ (sizesFrom (s + sizes.sum) sizes').tail := by
  induction sizes generalizing s with
  | nil => cases sizes' <;> simp [sizesFrom]
  | cons n ns ih =>
    rw [List.cons_append, sizesFrom, ih, sizesFrom, List.sum_cons, Nat.add_assoc]
    rfl

end Offsets

theorem slice_flatten {β : Type} {xs : List (List β)} {a b : Nat} (hab : a ≤ b) :
    slice xs.flatten ((xs.take a).map List.length).sum ((xs.take b).map List.length).sum =
      (slice xs a b).flatten := by
  have hsplit : xs.take b = xs.take a ++ slice xs a b := by
    rw [slice, ← List.take_add, Nat.add_sub_cancel' hab]
  have hwhole : xs.flatten = (xs.take a).flatten ++ (slice xs a b).flatten ++
      (xs.drop b).flatten := by
    rw [← List.flatten_append, ← hsplit, ← List.flatten_append, List.take_append_drop]
  rw [hsplit, List.map_append, List.sum_append, slice, hwhole, Nat.add_sub_cancel_left,
    ← List.length_flatten, ← List.length_flatten, List.append_assoc, List.drop_left,
    List.take_left]

namespace Pattern

variable {p q : Pattern} {parts : List Pattern} {c c0 c1 : Nat} {rows : List Nat}

def compressed (p : Pattern) : Compressed :=
  ⟨p.nrows, p.ncols, p.colind, p.row⟩

theorem compressed_eq_ofLanes (p : Pattern) :
    p.compressed = Compressed.ofLanes p.nrows p.ncols p.columns := by
  rw [Compressed.ofLanes_eq]
  rfl

theorem getElem?_colind (h : c ≤ p.ncols) :
    p.colind[c]? = some ((p.columns.take c).map List.length).sum := by
  have hlen : c ≤ (p.columns.map List.length).length := by rwa [List.length_map]
  rw [colind, Offsets.ofSizes, Offsets.getElem?_sizesFrom hlen, Nat.zero_add, ← List.map_take]

theorem lane_compressed (h : p.columns[c]? = some rows) : p.compressed.lane c = rows := by
  obtain ⟨hlt, hrows⟩ := List.getElem?_eq_some_iff.1 h
  rw [Compressed.lane]
  simp only [compressed]
  rw [getElem?_colind (Nat.le_of_lt hlt), getElem?_colind (c := c + 1) hlt, Option.getD_some,
    Option.getD_some, row, slice_flatten (Nat.le_succ c)]
  have hslice : slice p.columns c (c + 1) = [rows] := by
    rw [slice, Nat.add_sub_cancel_left, List.drop_eq_getElem_cons hlt, hrows]
    rfl
  rw [hslice]
  simp

theorem map_lane_compressed {f : List Nat → List Nat} (hc : c0 ≤ c1) (h : c1 ≤ p.ncols) :
    ((List.range' c0 (c1 - c0)).map fun c => f (p.compressed.lane c)) =
      (slice p.columns c0 c1).map f := by
  refine List.ext_getElem (by rw [List.length_map, List.length_range', List.length_map,
    length_slice h]) fun i h₁ h₂ => ?_
  have hi : i < c1 - c0 := by simpa using h₁
  have hlt : c0 + i < p.columns.length := by
    have : c1 ≤ p.columns.length := h
    omega
  rw [List.getElem_map, List.getElem_map, List.getElem_range', Nat.one_mul,
    lane_compressed (List.getElem?_eq_getElem hlt)]
  simp [slice]

/-! ## The check -/

theorem rowFlaw?_eq_none {nrows : Nat} {previous : Option Nat} (h : IsColumn nrows rows)
    (hprevious : ∀ r ∈ previous, ∀ s ∈ rows, r < s) : rowFlaw? nrows previous rows = none := by
  induction rows generalizing previous with
  | nil => rfl
  | cons r rest ih =>
    obtain ⟨habove, hsorted⟩ := List.pairwise_cons.1 h.1
    have hr : ¬ nrows ≤ r := Nat.not_le.2 (h.2 r List.mem_cons_self)
    have hrest : rowFlaw? nrows (some r) rest = none :=
      ih ⟨hsorted, fun s hs => h.2 s (List.mem_cons_of_mem r hs)⟩ fun s hs => by
        obtain rfl := Option.some.inj hs
        exact habove
    unfold rowFlaw?
    rw [if_neg hr]
    cases previous with
    | none => exact hrest
    | some s =>
      have hs : s < r := hprevious s rfl r List.mem_cons_self
      simp only [if_neg (Nat.not_lt.2 (Nat.le_of_lt hs)), if_neg (Nat.ne_of_gt hs), hrest]

/-- The columns that stand behind `front` in the rows are read back. -/
theorem checkedColumns_eq {nrows : Nat} (front : List Nat) {cols : List (List Nat)}
    (h : ∀ c ∈ cols, IsColumn nrows c) :
    checkedColumns nrows (front ++ cols.flatten)
      (Offsets.blocks (Offsets.sizesFrom front.length (cols.map List.length))) = .ok ⟨cols, h⟩ := by
  induction cols generalizing front with
  | nil => rfl
  | cons c rest ih =>
    have hslice : slice? (front ++ (c :: rest).flatten) front.length (front.length + c.length) =
        some c := by
      rw [slice?, if_pos ⟨Nat.le_add_right _ _, by simp⟩, slice]
      simp
    have hflaw : rowFlaw? nrows none c = none :=
      rowFlaw?_eq_none (h c List.mem_cons_self) (by simp)
    have hrest := ih (front ++ c) fun d hd => h d (List.mem_cons_of_mem c hd)
    rw [List.length_append, List.append_assoc, ← List.flatten_cons] at hrest
    rw [List.map_cons, Offsets.blocks_sizesFrom_cons, checkedColumns,
      if_neg (Nat.not_lt.2 (Nat.le_add_right _ _))]
    simp only [hslice]
    split
    · rename_i flaw hsome
      rw [hflaw] at hsome
      cases hsome
    · rw [hrest]

/-- The arrays of a pattern pass the check, and give the pattern back. -/
theorem check_compressed (h : p.ncols + 1 < Size.wordLimit) : p.compressed.check = .ok p := by
  have hlen : p.colind.length = p.ncols + 1 := by simp [colind, ncols]
  have hends : ¬ (p.colind.head? ≠ some 0 ∨ p.colind.getLast? ≠ some p.row.length) := by
    simp [colind, nnz]
  have hcols : checkedColumns p.nrows p.row (Offsets.blocks p.colind) =
      .ok ⟨p.columns, p.isColumn⟩ := checkedColumns_eq [] p.isColumn
  have hword : Size.checkWord (p.ncols + 1) = .ok () := Size.checkWord_eq_ok_iff.2 h
  rw [Compressed.check, compressed, ofCompressed, hword, if_neg (not_not.2 hlen), if_neg hends,
    hcols]
  rfl

/-! ## Splits -/

theorem compressed_columnBlock (hc : c0 ≤ c1) (h : c1 ≤ p.ncols) :
    p.compressed.columnBlock c0 c1 = (p.columnBlock c0 c1).compressed := by
  have hlen : c1 ≤ (p.columns.map List.length).length := by rwa [List.length_map]
  have hbase : p.colind[c0]?.getD 0 = ((p.columns.take c0).map List.length).sum := by
    rw [getElem?_colind (hc.trans h), Option.getD_some]
  have hcolind : (slice p.colind c0 (c1 + 1)).map (· - p.colind[c0]?.getD 0) =
      (p.columnBlock c0 c1).colind := by
    rw [hbase, colind, Offsets.ofSizes, Offsets.slice_sizesFrom _ _ hc hlen, Nat.zero_add,
      Offsets.map_sizesFrom (t := 0) _ _ fun k => by rw [← List.map_take]; omega]
    simp [colind, columnBlock, slice, Offsets.ofSizes]
  have hrow : slice p.row (p.colind[c0]?.getD 0) (p.colind[c1]?.getD 0) =
      (p.columnBlock c0 c1).row := by
    rw [hbase, getElem?_colind h, Option.getD_some, row, slice_flatten hc]
    rfl
  have hncols : (p.columnBlock c0 c1).ncols = c1 - c0 := ncols_columnBlock h
  rw [Compressed.columnBlock, compressed, compressed, hncols]
  exact congrArg₂ (Compressed.mk p.nrows (c1 - c0)) hcolind hrow

theorem compressed_rowBlock (r0 r1 : Nat) (hc : c0 ≤ c1) (h : c1 ≤ p.ncols) :
    p.compressed.subBlock r0 r1 c0 c1 = ((p.columnBlock c0 c1).rowBlock r0 r1).compressed := by
  rw [compressed_eq_ofLanes (rowBlock _ _ _), ncols_rowBlock, ncols_columnBlock h,
    Compressed.subBlock,
    map_lane_compressed (f := fun rows => (rows.filter fun r => r0 ≤ r && r < r1).map (· - r0)) hc h]
  rfl

/-! ## Joins -/

theorem offsetsFrom_compressed (s : Nat) (parts : List Pattern) :
    Compressed.offsetsFrom s (parts.map compressed) =
      (Offsets.sizesFrom s ((parts.flatMap columns).map List.length)).tail := by
  induction parts generalizing s with
  | nil => rfl
  | cons p ps ih =>
    have hfront : p.colind.tail.map (s + ·) =
        (Offsets.sizesFrom s (p.columns.map List.length)).tail := by
      rw [← Offsets.map_sizesFrom (s := 0) (t := s) (s + ·) _ fun k => by omega, List.map_tail]
      rfl
    have hnnz : s + p.row.length = s + (p.columns.map List.length).sum := by
      rw [length_row, nnz]
    rw [List.map_cons, Compressed.offsetsFrom, ih, List.flatMap_cons, List.map_append,
      Offsets.sizesFrom_append, List.tail_append_of_ne_nil (Offsets.sizesFrom_ne_nil _ _)]
    exact congrArg₂ (· ++ ·) hfront (congrArg (fun t => (Offsets.sizesFrom t _).tail) hnnz)

theorem compressed_beside {nrows : Nat} (h : ∀ p ∈ parts, p.nrows = nrows) :
    Compressed.beside nrows (parts.map compressed) = (beside nrows parts h).compressed := by
  have hncols : ((parts.map compressed).map Compressed.ncols).sum =
      (beside nrows parts h).ncols := by
    have hjoins : Joins .horizontal parts (beside nrows parts h) := ⟨h, rfl⟩
    rw [List.map_map, hjoins.ncols_horizontal]
    rfl
  have hcolind : 0 :: Compressed.offsetsFrom 0 (parts.map compressed) =
      (beside nrows parts h).colind := by
    rw [offsetsFrom_compressed]
    exact List.cons_head?_tail (Offsets.head?_ofSizes _)
  have hrow : (parts.map compressed).flatMap Compressed.row = (beside nrows parts h).row := by
    show _ = (parts.flatMap columns).flatten
    rw [List.flatMap_map, List.flatMap_def, List.flatMap_def, List.flatten_flatten, List.map_map]
    rfl
  rw [Compressed.beside, compressed, hncols, hcolind, hrow]
  rfl

theorem stackedLane_add (c m s : Nat) (as : List Compressed) :
    Compressed.stackedLane c (m + s) as = (Compressed.stackedLane c s as).map (m + ·) := by
  induction as generalizing s with
  | nil => rfl
  | cons a rest ih =>
    rw [Compressed.stackedLane, Compressed.stackedLane, Nat.add_assoc, ih, List.map_append,
      List.map_map]
    simp only [Function.comp_def, Nat.add_assoc]

theorem columns_foldr_above {n : Nat} (h : ∀ p ∈ parts, p.ncols = n) :
    (parts.foldr above (empty 0 n)).columns =
      (List.range n).map fun c => Compressed.stackedLane c 0 (parts.map compressed) := by
  induction parts with
  | nil => simp [empty, Compressed.stackedLane]
  | cons p ps ih =>
    have hlen : p.columns.length = n := h p List.mem_cons_self
    rw [List.foldr_cons, above]
    dsimp only
    rw [ih fun q hq => h q (List.mem_cons_of_mem p hq)]
    refine List.ext_getElem (by simp [hlen]) fun i h₁ h₂ => ?_
    have hi : i < p.columns.length := by simpa [hlen] using h₂
    rw [List.getElem_zipWith, List.getElem_map, List.getElem_map, List.getElem_range,
      List.map_cons, Compressed.stackedLane, lane_compressed (List.getElem?_eq_getElem hi),
      Nat.zero_add, ← Nat.add_zero p.compressed.nrows, stackedLane_add]
    simp [compressed]

theorem nrows_foldr_above (n : Nat) (parts : List Pattern) :
    (parts.foldr above (empty 0 n)).nrows = (parts.map nrows).sum := by
  induction parts with
  | nil => rfl
  | cons p ps ih => exact congrArg (p.nrows + ·) ih

theorem compressed_above {n : Nat} (h : ∀ p ∈ parts, p.ncols = n) :
    Compressed.above n (parts.map compressed) =
      (parts.foldr above (empty 0 n)).compressed := by
  have hcols := columns_foldr_above h
  have hncols : (parts.foldr above (empty 0 n)).ncols = n := by
    rw [ncols, hcols, List.length_map, List.length_range]
  rw [compressed_eq_ofLanes, Compressed.above, hncols, hcols, nrows_foldr_above, List.map_map]
  rfl

theorem diagonalLanes_add (m s : Nat) (as : List Compressed) :
    Compressed.diagonalLanes (m + s) as =
      (Compressed.diagonalLanes s as).map (·.map (m + ·)) := by
  induction as generalizing s with
  | nil => rfl
  | cons a rest ih =>
    rw [Compressed.diagonalLanes, Compressed.diagonalLanes, Nat.add_assoc, ih, List.map_append,
      List.map_map]
    simp only [Function.comp_def, List.map_map, Nat.add_assoc]

theorem columns_foldr_diagonally (parts : List Pattern) :
    (parts.foldr diagonally (empty 0 0)).columns =
      Compressed.diagonalLanes 0 (parts.map compressed) := by
  induction parts with
  | nil => rfl
  | cons p ps ih =>
    have hlanes : ((List.range p.ncols).map fun c => (p.compressed.lane c).map (0 + ·)) =
        p.columns := by
      have h := map_lane_compressed (p := p) (f := (·.map (0 + ·))) (Nat.zero_le p.ncols) le_rfl
      rw [Nat.sub_zero, ← List.range_eq_range', slice, List.drop_zero, Nat.sub_zero] at h
      rw [h]
      simp [ncols]
    rw [List.foldr_cons, diagonally, List.map_cons, Compressed.diagonalLanes, Nat.zero_add,
      ← Nat.add_zero p.compressed.nrows, diagonalLanes_add, ← ih]
    exact congrArg (· ++ _) hlanes.symm

theorem compressed_diagonally (parts : List Pattern) :
    Compressed.diagonally (parts.map compressed) = (diagcat parts).compressed := by
  have hjoin : Joins .diagonal parts (diagcat parts) := rfl
  rw [compressed_eq_ofLanes, Compressed.diagonally, hjoin.nrows_diagonal, hjoin.ncols_diagonal,
    diagcat, columns_foldr_diagonally, List.map_map, List.map_map]
  rfl

end Pattern

end DiffGraph
