import Mathlib
import DiffGraph.Proofs.Pattern.Compressed

/-!
# Splits and joins are inverse

Along the columns and along the diagonal the parts make up the pattern
(`joins_of_horzsplit`, `joins_of_diagsplit`) and a whole is cut into its parts
(`Joins.horzsplit_eq`, `Joins.diagsplit_eq`). The vertical operations are the
horizontal ones on transposed patterns (`vertsplit_iff_transpose`,
`joins_transpose`). So joining the parts of any pattern at any offset tables gives
the pattern (`SplitsBack`), splitting what was joined at the sizes of the parts
gives the parts (`JoinsBack`), and the arrays that the operations write always pass
the check of the constructor (`splits_and_joins_inverse`).
-/

namespace DiffGraph

namespace Compressed

def columnBlocks (a : Compressed) (cols : List Nat) : List Compressed :=
  (Offsets.blocks cols).map fun (c0, c1) => a.columnBlock c0 c1

def rowBlocks (a : Compressed) (rows : List Nat) : List Compressed :=
  (Offsets.blocks rows).map fun (r0, r1) => a.subBlock r0 r1 0 a.ncols

def diagonalBlocks (a : Compressed) (rows cols : List Nat) : List Compressed :=
  ((Offsets.blocks rows).zip (Offsets.blocks cols)).map fun ((r0, r1), (c0, c1)) =>
    a.subBlock r0 r1 c0 c1

end Compressed

namespace Offsets

theorem flaw?_congr {offsets : List Nat} {total : Nat} {what : String}
    (h : flaw? offsets total what = none) (what' : String) : flaw? offsets total what' = none := by
  obtain ⟨sizes, rfl, rfl⟩ := exists_sizes_of_flaw? h
  exact flaw?_ofSizes sizes what'

theorem range_of_mem_blocks {offsets : List Nat} {total : Nat} {what : String} {block : Nat × Nat}
    (h : flaw? offsets total what = none) (hblock : block ∈ blocks offsets) :
    block.1 ≤ block.2 ∧ block.2 ≤ total := by
  obtain ⟨sizes, rfl, rfl⟩ := exists_sizes_of_flaw? h
  obtain ⟨i, hi⟩ := List.mem_iff_getElem?.1 hblock
  have hlt : i < sizes.length := by
    simpa [ofSizes] using (List.getElem?_eq_some_iff.1 hi).1
  have hn := List.getElem?_eq_getElem hlt
  obtain rfl := Option.some.inj ((getElem?_blocks_ofSizes hn).symm.trans hi)
  exact ⟨Nat.le_add_right _ _, sum_take_add_le hn⟩

end Offsets

namespace Pattern

variable {p q whole : Pattern} {parts : List Pattern} {offsets rows cols : List Nat} {n r c : Nat}

/-! ## Vertical operations on transposed patterns -/

theorem transpose_involutive : Function.Involutive transpose :=
  transpose_transpose

theorem transpose_injective : Function.Injective transpose :=
  transpose_involutive.injective

theorem nnz_transpose (p : Pattern) : p.transpose.nnz = p.nnz := by
  have hnodup : (p.triplets.map Prod.swap).Nodup := (nodup_triplets p).map Prod.swap_injective
  have hperm : p.transpose.triplets.Perm (p.triplets.map Prod.swap) := by
    refine (List.perm_ext_iff_of_nodup (nodup_triplets _) hnodup).2 fun (c, r) => ?_
    rw [mem_triplets_transpose, List.mem_map]
    constructor
    · exact fun h => ⟨(r, c), h, rfl⟩
    · rintro ⟨e, he, heq⟩
      obtain rfl : e = (r, c) := Prod.swap_injective heq
      exact he
  rw [← length_triplets, hperm.length_eq, List.length_map, length_triplets]

@[simp] theorem ncols_transpose (p : Pattern) : p.transpose.ncols = p.nrows :=
  congrArg Prod.snd p.shape_transpose

@[simp] theorem nrows_transpose (p : Pattern) : p.transpose.nrows = p.ncols := rfl

theorem transpose_rowBlock {a b : Nat} (h : b ≤ p.nrows) :
    (p.rowBlock a b).transpose = p.transpose.columnBlock a b := by
  have hcols : (p.transpose.columnBlock a b).ncols = b - a := ncols_columnBlock (by simpa using h)
  refine ext_triplets ?_ fun c r => ?_
  · rw [shape_transpose, shape, hcols, ncols_rowBlock]
    rfl
  · rw [mem_triplets_transpose, mem_triplets_rowBlock, mem_triplets_columnBlock,
      mem_triplets_transpose]

/-- A split of the rows is a split of the columns of the transpose. -/
theorem vertsplit_iff_transpose :
    p.vertsplit offsets = .ok parts ↔
      p.transpose.horzsplit offsets = .ok (parts.map transpose) := by
  rw [vertsplit_eq_ok_iff, horzsplit_eq_ok_iff, ncols_transpose]
  have hblocks (h : Offsets.flaw? offsets p.nrows "row" = none) :
      ((Offsets.blocks offsets).map fun (a, b) => p.rowBlock a b).map transpose =
        (Offsets.blocks offsets).map fun (a, b) => p.transpose.columnBlock a b := by
    rw [List.map_map]
    exact List.map_congr_left fun block hblock =>
      transpose_rowBlock (Offsets.range_of_mem_blocks h hblock).2
  constructor
  · rintro ⟨hflaw, rfl⟩
    exact ⟨Offsets.flaw?_congr hflaw _, hblocks hflaw⟩
  · rintro ⟨hflaw, heq⟩
    have hflaw := Offsets.flaw?_congr hflaw "row"
    exact ⟨hflaw, transpose_injective.list_map (heq.trans (hblocks hflaw).symm)⟩

theorem mem_triplets_above (h : q.ncols = p.ncols) :
    (r, c) ∈ (above p q).triplets ↔
      (r, c) ∈ p.triplets ∨ p.nrows ≤ r ∧ (r - p.nrows, c) ∈ q.triplets := by
  simp only [mem_triplets, above, List.getElem?_zipWith]
  rcases Nat.lt_or_ge c p.ncols with hc | hc
  · have hp := List.getElem?_eq_getElem (l := p.columns) hc
    have hq := List.getElem?_eq_getElem (l := q.columns) (h ▸ hc)
    simp only [hp, hq, Option.some.injEq, exists_eq_left', List.mem_append, List.mem_map]
    refine or_congr_right ⟨?_, ?_⟩
    · rintro ⟨s, hs, rfl⟩
      exact ⟨Nat.le_add_right _ _, by rwa [Nat.add_sub_cancel_left]⟩
    · rintro ⟨hle, hmem⟩
      exact ⟨_, hmem, Nat.add_sub_cancel' hle⟩
  · have hp : p.columns[c]? = none := List.getElem?_eq_none hc
    have hq : q.columns[c]? = none := List.getElem?_eq_none (hc.trans' (Nat.le_of_eq h))
    simp [hp, hq]

/-- Transposing puts patterns that stand on top of each other side by side. -/
theorem columns_transpose_above (h : q.ncols = p.ncols) :
    (above p q).transpose.columns = p.transpose.columns ++ q.transpose.columns := by
  have hrows : ∀ s ∈ [p.transpose, q.transpose], s.nrows = p.ncols := by simp [h]
  set side := beside p.ncols [p.transpose, q.transpose] hrows
  have hside : side.columns = p.transpose.columns ++ q.transpose.columns := by simp [side, beside]
  have hncols : (above p q).ncols = p.ncols := by
    show (List.zipWith _ p.columns q.columns).length = _
    rw [List.length_zipWith]
    exact min_eq_left (Nat.le_of_eq h.symm)
  have htriplets : side.triplets =
      p.transpose.triplets ++ q.transpose.triplets.map (shift (0, p.nrows)) := by
    rw [triplets_of_columns_append hside, ncols_transpose]
    rfl
  rw [← hside]
  refine congrArg columns (ext_triplets ?_ fun c r => ?_)
  · have hsidecols : side.ncols = p.nrows + q.nrows := by
      rw [ncols, hside, List.length_append]
      exact congrArg₂ (· + ·) p.ncols_transpose q.ncols_transpose
    rw [shape_transpose, hncols, shape, hsidecols]
    rfl
  · rw [mem_triplets_transpose, mem_triplets_above h, htriplets, List.mem_append,
      mem_triplets_transpose, List.mem_map]
    refine or_congr_right ⟨?_, ?_⟩
    · rintro ⟨hle, hmem⟩
      refine ⟨(c, r - p.nrows), mem_triplets_transpose.2 hmem, ?_⟩
      rw [shift, Nat.zero_add, Nat.add_sub_cancel' hle]
    · rintro ⟨⟨c', r'⟩, hmem, heq⟩
      obtain ⟨rfl, rfl⟩ := Prod.mk.inj heq
      dsimp only
      rw [Nat.zero_add, Nat.add_sub_cancel_left]
      exact ⟨Nat.le_add_right _ _, mem_triplets_transpose.1 hmem⟩

theorem ncols_foldr_above (h : ∀ p ∈ parts, p.ncols = n) :
    (parts.foldr above (empty 0 n)).ncols = n := by
  rw [ncols, columns_foldr_above h, List.length_map, List.length_range]

theorem joins_transpose (h : ∀ p ∈ parts, p.ncols = n) :
    Joins .horizontal (parts.map transpose) (parts.foldr above (empty 0 n)).transpose := by
  refine ⟨fun q hq => ?_, ?_⟩
  · obtain ⟨p, hp, rfl⟩ := List.mem_map.1 hq
    rw [nrows_transpose, nrows_transpose, h p hp, ncols_foldr_above h]
  · induction parts with
    | nil => rfl
    | cons p ps ih =>
      have hrest : ∀ q ∈ ps, q.ncols = n := fun q hq => h q (List.mem_cons_of_mem p hq)
      have hcols : (ps.foldr above (empty 0 n)).ncols = p.ncols := by
        rw [ncols_foldr_above hrest, h p List.mem_cons_self]
      rw [List.foldr_cons, columns_transpose_above hcols, ih hrest, List.map_cons,
        List.flatMap_cons]

theorem foldr_above_of_vertsplit (h : p.vertsplit rows = .ok parts) (hne : parts ≠ []) :
    (∀ q ∈ parts, q.ncols = p.ncols) ∧ parts.foldr above (empty 0 p.ncols) = p := by
  have hcols : ∀ q ∈ parts, q.ncols = p.ncols := by
    obtain ⟨-, rfl⟩ := vertsplit_eq_ok_iff.1 h
    intro q hq
    obtain ⟨block, -, rfl⟩ := List.mem_map.1 hq
    exact ncols_rowBlock
  have hsplit := (joins_of_horzsplit (vertsplit_iff_transpose.1 h)).1
  exact ⟨hcols, transpose_injective ((joins_transpose hcols).unique hsplit (by simpa using hne))⟩

/-- What stands on top of each other is split into its parts. -/
theorem vertsplit_foldr_above (h : ∀ p ∈ parts, p.ncols = n) :
    (parts.foldr above (empty 0 n)).vertsplit (Offsets.ofSizes (parts.map nrows)) = .ok parts := by
  have hsizes : (parts.map transpose).map ncols = parts.map nrows := by
    rw [List.map_map]
    exact List.map_congr_left fun p _ => ncols_transpose p
  have hsplit := (joins_transpose h).horzsplit_eq
  rw [hsizes] at hsplit
  exact vertsplit_iff_transpose.2 hsplit

theorem nnz_foldr_above (h : ∀ p ∈ parts, p.ncols = n) :
    (parts.foldr above (empty 0 n)).nnz = (parts.map nnz).sum := by
  rw [← nnz_transpose, (joins_transpose h).nnz_eq, List.map_map]
  exact congrArg List.sum (List.map_congr_left fun p _ => nnz_transpose p)

/-! ## The joining operations -/

theorem Joins.horzcat_eq (h : Joins .horizontal parts whole) (hne : parts ≠ []) :
    horzcat parts = .ok whole := by
  obtain ⟨p, ps, rfl⟩ := List.exists_cons_of_ne_nil hne
  have hp : p.nrows = whole.nrows := h.1 p List.mem_cons_self
  rw [horzcat, dif_pos fun q hq => (h.1 q hq).trans hp.symm]
  exact congrArg Except.ok (eq_of_columns_eq hp h.2.symm)

theorem checkRows_eq (parts : List Pattern) :
    checkRows parts =
      if (parts.map nrows).sum < Size.wordLimit then .ok () else .error .misuse :=
  rfl

theorem vertcat_eq (hne : parts ≠ []) (h : ∀ p ∈ parts, p.ncols = n) :
    vertcat parts = if (parts.map nrows).sum < Size.wordLimit
      then .ok (parts.foldr above (empty 0 n)) else .error .misuse := by
  obtain ⟨p, ps, rfl⟩ := List.exists_cons_of_ne_nil hne
  obtain rfl := h p List.mem_cons_self
  have hfind : ps.find? (fun q => q.ncols ≠ p.ncols) = none :=
    List.find?_eq_none.2 fun q hq => by simp [h q (List.mem_cons_of_mem p hq)]
  rw [vertcat, hfind]
  dsimp only
  rw [checkRows_eq]
  split <;> rfl

theorem diagcatChecked_eq (parts : List Pattern) :
    diagcatChecked parts = if (parts.map nrows).sum < Size.wordLimit
      then .ok (diagcat parts) else .error .misuse := by
  rw [diagcatChecked, checkRows_eq]
  split <;> rfl

/-! ## What the operations write -/

/-- The written arrays pass the check and are these patterns. -/
def Accepted (written : List Compressed) (parts : List Pattern) : Prop :=
  written.map Compressed.check = parts.map .ok

theorem accepted_of_map {β : Type} {ranges : List β} {write : β → Compressed} {cut : β → Pattern}
    (h : ∀ range ∈ ranges, write range = (cut range).compressed)
    (hword : ∀ range ∈ ranges, (cut range).ncols + 1 < Size.wordLimit) :
    Accepted (ranges.map write) (ranges.map cut) := by
  unfold Accepted
  rw [List.map_map, List.map_map]
  refine List.map_congr_left fun range hrange => ?_
  show (write range).check = .ok (cut range)
  rw [h range hrange, check_compressed (hword range hrange)]

theorem accepted_columnBlocks (hword : p.ncols + 1 < Size.wordLimit)
    (h : p.horzsplit cols = .ok parts) : Accepted (p.compressed.columnBlocks cols) parts := by
  obtain ⟨hflaw, rfl⟩ := horzsplit_eq_ok_iff.1 h
  refine accepted_of_map (fun block hblock => ?_) fun block hblock => ?_
  · obtain ⟨hle, hlast⟩ := Offsets.range_of_mem_blocks hflaw hblock
    exact compressed_columnBlock hle hlast
  · obtain ⟨hle, hlast⟩ := Offsets.range_of_mem_blocks hflaw hblock
    rw [ncols_columnBlock hlast]
    omega

theorem columnBlock_all (p : Pattern) : p.columnBlock 0 p.ncols = p :=
  eq_of_columns_eq rfl (by simp [columnBlock, slice, ncols])

theorem accepted_rowBlocks (hword : p.ncols + 1 < Size.wordLimit)
    (h : p.vertsplit rows = .ok parts) : Accepted (p.compressed.rowBlocks rows) parts := by
  obtain ⟨-, rfl⟩ := vertsplit_eq_ok_iff.1 h
  refine accepted_of_map (fun block _ => ?_) fun block _ => ?_
  · refine (compressed_rowBlock block.1 block.2 (Nat.zero_le p.ncols) le_rfl).trans ?_
    rw [columnBlock_all]
  · rwa [ncols_rowBlock]

theorem accepted_diagonalBlocks (hword : p.ncols + 1 < Size.wordLimit)
    (h : p.diagsplit rows cols = .ok parts) :
    Accepted (p.compressed.diagonalBlocks rows cols) parts := by
  obtain ⟨-, hflaw, -, rfl⟩ := diagsplit_eq_ok_iff.1 h
  have hrange {block : (Nat × Nat) × (Nat × Nat)}
      (hblock : block ∈ (Offsets.blocks rows).zip (Offsets.blocks cols)) :=
    Offsets.range_of_mem_blocks hflaw (List.of_mem_zip hblock).2
  refine accepted_of_map (fun block hblock => ?_) fun block hblock => ?_
  · exact compressed_rowBlock _ _ (hrange hblock).1 (hrange hblock).2
  · obtain ⟨hle, hlast⟩ := hrange hblock
    rw [ncols_rowBlock, ncols_columnBlock hlast]
    omega

/-! ## Inverse operations -/

/-- Joining what a split of the pattern gives is the pattern again, at all tables with a block; and
the arrays that are written on the way pass the check. -/
structure SplitsBack (p : Pattern) : Prop where
  horizontal {cols : List Nat} (h : Offsets.IsTable cols p.ncols) : ∃ parts,
    p.horzsplit cols = .ok parts ∧ horzcat parts = .ok p ∧ (parts.map nnz).sum = p.nnz ∧
      Accepted (p.compressed.columnBlocks cols) parts ∧
      (Compressed.beside p.nrows (parts.map compressed)).check = .ok p
  vertical {rows : List Nat} (h : Offsets.IsTable rows p.nrows) : ∃ parts,
    p.vertsplit rows = .ok parts ∧ vertcat parts = .ok p ∧ (parts.map nnz).sum = p.nnz ∧
      Accepted (p.compressed.rowBlocks rows) parts ∧
      (Compressed.above p.ncols (parts.map compressed)).check = .ok p
  diagonal {rows cols : List Nat} (hrows : Offsets.IsTable rows p.nrows)
    (hcols : Offsets.IsTable cols p.ncols) (hlen : rows.length = cols.length) : ∃ parts,
    p.diagsplit rows cols = .ok parts ∧
      ((parts.map nnz).sum = p.nnz ↔ ∀ e ∈ p.triplets, inDiagonal rows cols e = true) ∧
      ((∀ e ∈ p.triplets, inDiagonal rows cols e = true) → diagcatChecked parts = .ok p) ∧
      Accepted (p.compressed.diagonalBlocks rows cols) parts ∧
      (Compressed.diagonally (parts.map compressed)).check = .ok (diagcat parts)

/-- Splitting what the patterns are joined to, at their sizes, gives the patterns, wherever their
shapes go together; a join is refused only if machine words do not count its rows. What is written on
the way passes the check if they also count its column offsets. -/
structure JoinsBack (parts : List Pattern) : Prop where
  horizontal {m : Nat} (h : ∀ p ∈ parts, p.nrows = m) : ∃ whole,
    horzcat parts = .ok whole ∧
      whole.horzsplit (Offsets.ofSizes (parts.map ncols)) = .ok parts ∧
      (whole.ncols + 1 < Size.wordLimit →
        (Compressed.beside m (parts.map compressed)).check = .ok whole ∧
        Accepted (whole.compressed.columnBlocks (Offsets.ofSizes (parts.map ncols))) parts)
  vertical {n : Nat} (h : ∀ p ∈ parts, p.ncols = n) :
    if (parts.map nrows).sum < Size.wordLimit then ∃ whole,
      vertcat parts = .ok whole ∧
        whole.vertsplit (Offsets.ofSizes (parts.map nrows)) = .ok parts ∧
        (whole.ncols + 1 < Size.wordLimit →
          (Compressed.above n (parts.map compressed)).check = .ok whole ∧
          Accepted (whole.compressed.rowBlocks (Offsets.ofSizes (parts.map nrows))) parts)
    else vertcat parts = .error .misuse
  diagonal :
    if (parts.map nrows).sum < Size.wordLimit then ∃ whole,
      diagcatChecked parts = .ok whole ∧
        whole.diagsplit (Offsets.ofSizes (parts.map nrows)) (Offsets.ofSizes (parts.map ncols)) =
          .ok parts ∧
        (whole.ncols + 1 < Size.wordLimit →
          (Compressed.diagonally (parts.map compressed)).check = .ok whole ∧
          Accepted (whole.compressed.diagonalBlocks (Offsets.ofSizes (parts.map nrows))
            (Offsets.ofSizes (parts.map ncols))) parts)
    else diagcatChecked parts = .error .misuse

theorem exists_horzsplit (h : Offsets.IsTable cols p.ncols) :
    ∃ parts, p.horzsplit cols = .ok parts ∧ parts ≠ [] :=
  ⟨_, horzsplit_eq_ok_iff.2 ⟨h.flaw?_eq_none "column", rfl⟩, by simpa using h.blocks_ne_nil⟩

theorem exists_vertsplit (h : Offsets.IsTable rows p.nrows) :
    ∃ parts, p.vertsplit rows = .ok parts ∧ parts ≠ [] :=
  ⟨_, vertsplit_eq_ok_iff.2 ⟨h.flaw?_eq_none "row", rfl⟩, by simpa using h.blocks_ne_nil⟩

theorem exists_diagsplit (hrows : Offsets.IsTable rows p.nrows)
    (hcols : Offsets.IsTable cols p.ncols) (hlen : rows.length = cols.length) :
    ∃ parts, p.diagsplit rows cols = .ok parts :=
  ⟨_, diagsplit_eq_ok_iff.2
    ⟨hrows.flaw?_eq_none "row", hcols.flaw?_eq_none "column", hlen, rfl⟩⟩

theorem check_beside (h : Joins .horizontal parts whole) (hword : whole.ncols + 1 < Size.wordLimit) :
    (Compressed.beside whole.nrows (parts.map compressed)).check = .ok whole := by
  have hwhole : beside whole.nrows parts h.1 = whole := eq_of_columns_eq rfl h.2.symm
  rw [compressed_beside h.1, hwhole, check_compressed hword]

theorem splitsBack (hrows : p.nrows < Size.wordLimit) (hcols : p.ncols + 1 < Size.wordLimit) :
    p.SplitsBack where
  horizontal h := by
    obtain ⟨parts, hsplit, hne⟩ := exists_horzsplit h
    have hjoin := (joins_of_horzsplit hsplit).1
    exact ⟨parts, hsplit, hjoin.horzcat_eq hne, hjoin.nnz_eq.symm,
      accepted_columnBlocks hcols hsplit, check_beside hjoin hcols⟩
  vertical h := by
    obtain ⟨parts, hsplit, hne⟩ := exists_vertsplit h
    obtain ⟨hncols, hstack⟩ := foldr_above_of_vertsplit hsplit hne
    have hsum : (parts.map nrows).sum = p.nrows := by rw [← nrows_foldr_above p.ncols, hstack]
    refine ⟨parts, hsplit, ?_, ?_, accepted_rowBlocks hcols hsplit, ?_⟩
    · rw [vertcat_eq hne hncols, if_pos (hsum ▸ hrows), hstack]
    · rw [← nnz_foldr_above hncols, hstack]
    · rw [compressed_above hncols, hstack, check_compressed hcols]
  diagonal {rows cols} hr hc hlen := by
    obtain ⟨parts, hsplit⟩ := exists_diagsplit hr hc hlen
    obtain ⟨-, -, hshape, -⟩ := diagsplit_spec hsplit
    have hrow : (parts.map nrows).sum = p.nrows := (congrArg Prod.fst hshape).symm
    have hjoins : Joins .diagonal parts (diagcat parts) := rfl
    have hcol : (diagcat parts).ncols = p.ncols :=
      hjoins.ncols_diagonal.trans (congrArg Prod.snd hshape).symm
    have hcover :
        (parts.map nnz).sum = p.nnz ↔ ∀ e ∈ p.triplets, inDiagonal rows cols e = true := by
      rw [sum_nnz_of_diagsplit hsplit, ← length_triplets]
      exact List.countP_eq_length
    refine ⟨parts, hsplit, hcover, fun h => ?_, accepted_diagonalBlocks hcols hsplit, ?_⟩
    · have hjoin : p = diagcat parts := (joins_of_diagsplit hsplit (hcover.2 h)).1
      rw [diagcatChecked_eq, if_pos (hrow ▸ hrows), ← hjoin]
    · rw [compressed_diagonally, check_compressed (hcol.symm ▸ hcols)]

theorem joinsBack (hne : parts ≠ []) : JoinsBack parts where
  horizontal {m} h := by
    set whole := beside m parts h
    have hjoin : Joins .horizontal parts whole := ⟨h, rfl⟩
    exact ⟨whole, hjoin.horzcat_eq hne, hjoin.horzsplit_eq, fun hword =>
      ⟨check_beside hjoin hword, accepted_columnBlocks hword hjoin.horzsplit_eq⟩⟩
  vertical {n} h := by
    rw [vertcat_eq hne h]
    split
    · refine ⟨_, rfl, vertsplit_foldr_above h, fun hword => ⟨?_, ?_⟩⟩
      · rw [compressed_above h, check_compressed hword]
      · exact accepted_rowBlocks hword (vertsplit_foldr_above h)
    · rfl
  diagonal := by
    have hjoin : Joins .diagonal parts (diagcat parts) := rfl
    rw [diagcatChecked_eq]
    split
    · refine ⟨_, rfl, hjoin.diagsplit_eq, fun hword => ⟨?_, ?_⟩⟩
      · rw [compressed_diagonally, check_compressed hword]
      · exact accepted_diagonalBlocks hword hjoin.diagsplit_eq
    · rfl

/-- Splits and joins of patterns whose sizes are machine words are inverse, and whatever they write
is accepted. -/
theorem splits_and_joins_inverse :
    (∀ p : Pattern, p.nrows < Size.wordLimit → p.ncols + 1 < Size.wordLimit → p.SplitsBack) ∧
      ∀ parts : List Pattern, parts ≠ [] → JoinsBack parts :=
  ⟨fun _ => splitsBack, fun _ => joinsBack⟩

/-- A pattern of two blocks on the diagonal, split with empty blocks. -/
theorem splits_and_joins_inverse_blocks :
    let p : Pattern := ⟨4, [[0, 1], [1], [2], [2, 3]], by decide⟩
    (∃ parts, p.horzsplit [0, 1, 1, 4] = .ok parts ∧ horzcat parts = .ok p) ∧
      (∃ parts, p.vertsplit [0, 2, 2, 4] = .ok parts ∧ vertcat parts = .ok p) ∧
      (∃ parts, p.diagsplit [0, 2, 2, 4] [0, 2, 2, 4] = .ok parts ∧
        diagcatChecked parts = .ok p) ∧
      JoinsBack [p, empty 4 0, p] := by
  intro p
  have htable : ∀ cut ≤ 4, Offsets.IsTable [0, cut, cut, 4] 4 := fun cut hcut =>
    ⟨rfl, rfl, by simp [hcut], by simp⟩
  have hback := splits_and_joins_inverse.1 p (by decide) (by decide)
  obtain ⟨parts₁, h₁, hjoin₁, -⟩ := hback.horizontal (htable 1 (by decide))
  obtain ⟨parts₂, h₂, hjoin₂, -⟩ := hback.vertical (htable 2 (by decide))
  obtain ⟨parts₃, h₃, -, hjoin₃, -⟩ :=
    hback.diagonal (htable 2 (by decide)) (htable 2 (by decide)) rfl
  exact ⟨⟨parts₁, h₁, hjoin₁⟩, ⟨parts₂, h₂, hjoin₂⟩, ⟨parts₃, h₃, hjoin₃ (by decide)⟩,
    splits_and_joins_inverse.2 _ (by simp)⟩

end Pattern

end DiffGraph
