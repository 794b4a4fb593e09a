import Mathlib
import DiffGraph.Proofs.Graph.Dense
import DiffGraph.Proofs.Pattern.Layout

/-!
# Splitting and joining dense values

`Composes axis parts x` says that the expression `x` is the parts laid out along
the axis: its shape, its nonzeros and its dense value. Splits and joins of any
shape establish it (`grows_cut`, `grows_compose`), rows of matrices by way of
transposes (`Composes.flip`). Parts are blocks of what they compose
(`Composes.isBlock`), and the same parts compose one dense value only
(`Composes.unique`); the parts of one split give back the node itself.
-/

namespace DiffGraph

open DiffGraph.Expr

variable {α : Type} [Scalar α] {refused : GraphError → Prop} {n : Nat} {S : Set (Expr α)}
  {x y : Expr α} {xs ys parts : List (Expr α)} {axis : Axis}

/-! ## Dense values made of parts -/

/-- The dense value of an expression, as a part. -/
def Expr.matrix (env : Nat → Nat → α) (x : Expr α) : Block α where
  shape := x.shape
  place := entry env x

/-- The expression is made of the parts along the axis. -/
structure Composes (axis : Axis) (parts : List (Expr α)) (x : Expr α) : Prop where
  spans : axis.Spans (parts.map shape) x.shape
  nonzero : ∀ r c, (r, c) ∈ x.pattern.triplets ↔
    axis.layout False (parts.map fun part => part.pattern.support) r c
  entry : ∀ (env : Nat → Nat → α) r c,
    entry env x r c = axis.layout 0 (parts.map (matrix env)) r c

/-- The part is the block of `x` in the given ranges of rows and columns. -/
structure IsBlock (x : Expr α) (rows cols : Nat × Nat) (part : Expr α) : Prop where
  shape : part.shape = (rows.2 - rows.1, cols.2 - cols.1)
  nonzero : ∀ r < rows.2 - rows.1, ∀ c < cols.2 - cols.1,
    ((r, c) ∈ part.pattern.triplets ↔ (rows.1 + r, cols.1 + c) ∈ x.pattern.triplets)
  entry : ∀ (env : Nat → Nat → α), ∀ r < rows.2 - rows.1, ∀ c < cols.2 - cols.1,
    entry env part r c = entry env x (rows.1 + r) (cols.1 + c)

namespace Composes

theorem of_joins (hS : IsGraph n S) (hparts : ∀ part ∈ parts, part ∈ S)
    (h : Pattern.Joins axis (parts.map Expr.pattern) x.pattern)
    (hval : ∀ env : Nat → Nat → α, nonzeros env x = (parts.map (nonzeros env)).flatten) :
    Composes axis parts x where
  spans := by
    have hspans := h.spans
    rwa [List.map_map] at hspans
  nonzero r c := by
    rw [h.mem_triplets_iff_layout, List.map_map]
    rfl
  entry env r c := by
    have hlen : (parts.map (nonzeros env)).map List.length =
        (parts.map Expr.pattern).map Pattern.nnz := by
      rw [List.map_map, List.map_map]
      exact List.map_congr_left fun part hpart => hS.length_nonzeros (hparts part hpart)
    have hblocks : List.zipWith Pattern.matrix (parts.map Expr.pattern) (parts.map (nonzeros env)) =
        parts.map (matrix env) := by
      rw [List.zipWith_map, List.zipWith_self]
      rfl
    rw [Expr.entry, hval, h.entry_eq_layout hlen, hblocks]

theorem flip (h : Composes axis xs x) (hxy : Flips x y) (hparts : List.Forall₂ Flips xs ys) :
    Composes axis.flip ys y where
  spans := by
    have hshapes : ys.map shape = (xs.map shape).map Prod.swap := by
      rw [List.map_map]
      exact (map_eq_of_forall₂ hparts fun _ _ hflips => hflips.shape.symm).symm
    rw [hshapes, hxy.shape]
    exact Axis.spans_flip h.spans
  nonzero r c := by
    have hsupports : (ys.map fun part => part.pattern.support) =
        (xs.map fun part => part.pattern.support).map Block.flip := by
      rw [List.map_map]
      refine (map_eq_of_forall₂ hparts fun a b hflips => ?_).symm
      simp only [Function.comp_apply, Block.flip, Pattern.support, Block.mk.injEq]
      exact ⟨hflips.shape.symm, funext₂ fun r c => propext (hflips.nonzero r c).symm⟩
    rw [hxy.nonzero, h.nonzero, hsupports, Axis.layout_flip]
  entry env r c := by
    have hmatrices : ys.map (matrix env) = (xs.map (matrix env)).map Block.flip := by
      rw [List.map_map]
      refine (map_eq_of_forall₂ hparts fun a b hflips => ?_).symm
      simp only [Function.comp_apply, Block.flip, matrix, Block.mk.injEq]
      exact ⟨hflips.shape.symm, funext₂ fun r c => (hflips.entry env r c).symm⟩
    rw [hxy.entry, h.entry, hmatrices, Axis.layout_flip]

theorem isBlock (h : Composes axis parts x) {i : Nat} {part : Expr α} (hi : parts[i]? = some part)
    {a b : Nat} (horigin : axis.origin ((parts.map shape).take i) = (a, b)) :
    IsBlock x (a, a + part.shape.1) (b, b + part.shape.2) part where
  shape := by simp only [Nat.add_sub_cancel_left]
  nonzero r hr c hc := by
    simp only [Nat.add_sub_cancel_left] at hr hc
    have hb : (parts.map fun part => part.pattern.support)[i]? = some part.pattern.support := by
      rw [List.getElem?_map, hi]
      rfl
    have hshapes : (parts.map fun part => part.pattern.support).map Block.shape =
        parts.map Expr.shape := by
      rw [List.map_map]
      rfl
    have hplace := axis.layout_origin_add False hb hr hc
    rw [hshapes, horigin] at hplace
    rw [h.nonzero, hplace]
    rfl
  entry env r hr c hc := by
    simp only [Nat.add_sub_cancel_left] at hr hc
    have hb : (parts.map (matrix env))[i]? = some (matrix env part) := by
      rw [List.getElem?_map, hi]
      rfl
    have hshapes : (parts.map (matrix env)).map Block.shape = parts.map Expr.shape := by
      rw [List.map_map]
      rfl
    have hplace := axis.layout_origin_add 0 hb hr hc
    rw [hshapes, horigin] at hplace
    rw [h.entry, hplace]
    rfl

theorem unique (h : Composes axis parts x) (h' : Composes axis parts y) (hne : parts ≠ []) :
    x.pattern = y.pattern ∧ ∀ env : Nat → Nat → α, Expr.entry env x = Expr.entry env y := by
  refine ⟨Pattern.ext_triplets (h.spans.unique h'.spans (by simpa using hne)) fun r c => ?_,
    fun env => funext₂ fun r c => ?_⟩
  · rw [h.nonzero, h'.nonzero]
  · rw [h.entry, h'.entry]

end Composes

theorem Composes.of_flips (h : Composes .horizontal xs x) (hxy : Flips x y)
    (hparts : List.Forall₂ Flips xs ys) : Composes .vertical ys y :=
  h.flip hxy hparts

/-! ## The blocks of a table -/

section Tables

variable {i : Nat} {part : Expr α}

omit [Scalar α] in
theorem take_map_sizes (f : Nat × Nat → Nat) (i : Nat) :
    ((parts.map shape).take i).map f = (parts.map fun part => f part.shape).take i := by
  rw [List.map_take, List.map_map]
  rfl

omit [Scalar α] in
theorem getElem?_part_sizes (f : Nat × Nat → Nat) (hi : parts[i]? = some part) :
    (parts.map fun part => f part.shape)[i]? = some (f part.shape) := by
  rw [List.getElem?_map, hi]
  rfl

theorem Composes.columnBlocks (h : Composes .horizontal parts x) :
    List.Forall₂ (fun range part => IsBlock x (0, x.shape.1) range part)
      (Offsets.blocks (Offsets.ofSizes (parts.map fun part => part.shape.2))) parts := by
  refine forall₂_of_getElem? (by simp [Offsets.ofSizes]) fun i range part hrange hi => ?_
  have hsize := getElem?_part_sizes Prod.snd hi
  obtain rfl := Option.some.inj ((Offsets.getElem?_blocks_ofSizes hsize).symm.trans hrange)
  have hrows : part.shape.1 = x.shape.1 :=
    h.spans.1 _ (List.mem_map_of_mem (List.mem_of_getElem? hi))
  have hblock := h.isBlock hi (by rw [Axis.origin_horizontal, take_map_sizes])
  rwa [hrows, Nat.zero_add] at hblock

theorem Composes.rowBlocks (h : Composes .vertical parts x) :
    List.Forall₂ (fun range part => IsBlock x range (0, x.shape.2) part)
      (Offsets.blocks (Offsets.ofSizes (parts.map fun part => part.shape.1))) parts := by
  refine forall₂_of_getElem? (by simp [Offsets.ofSizes]) fun i range part hrange hi => ?_
  have hsize := getElem?_part_sizes Prod.fst hi
  obtain rfl := Option.some.inj ((Offsets.getElem?_blocks_ofSizes hsize).symm.trans hrange)
  have hcols : part.shape.2 = x.shape.2 :=
    h.spans.1 _ (List.mem_map_of_mem (List.mem_of_getElem? hi))
  have hblock := h.isBlock hi (by rw [Axis.origin_vertical, take_map_sizes])
  rwa [hcols, Nat.zero_add] at hblock

theorem Composes.diagonalBlocks (h : Composes .diagonal parts x) :
    List.Forall₂ (fun block part => IsBlock x block.1 block.2 part)
      ((Offsets.blocks (Offsets.ofSizes (parts.map fun part => part.shape.1))).zip
        (Offsets.blocks (Offsets.ofSizes (parts.map fun part => part.shape.2)))) parts := by
  refine forall₂_of_getElem? (by simp [Offsets.ofSizes]) fun i block part hblock hi => ?_
  have hrange := Offsets.getElem?_zip_blocks (getElem?_part_sizes Prod.fst hi)
    (getElem?_part_sizes Prod.snd hi)
  obtain rfl := Option.some.inj (hrange.symm.trans hblock)
  exact h.isBlock hi (by rw [Axis.origin_diagonal, take_map_sizes, take_map_sizes])

end Tables

/-! ## Giving back what was split -/

theorem forall₂_mapM {β γ : Type} (f : β → Fresh γ) (bs : List β) (n : Nat) :
    List.Forall₂ (fun b c => ∃ m, c = (f b m).1) bs (bs.mapM f n).1 := by
  induction bs generalizing n with
  | nil => exact .nil
  | cons b bs ih =>
    rw [List.mapM_cons]
    exact .cons ⟨n, rfl⟩ (ih _)

omit [Scalar α] in
theorem part?_output {q : Expr α} {offsets : List Nat} (hsplit : q.op = .split axis offsets)
    (id i : Nat) (p : Pattern) : part? axis (node id (.output i) [q] p []) = some (q, i) := by
  obtain ⟨id', op, deps, p', ps⟩ := q
  obtain rfl : op = .split axis offsets := hsplit
  simp [part?, Expr.op, Expr.deps]

omit [Scalar α] in
theorem whole?_results {q : Expr α} {offsets : List Nat} (hsplit : q.op = .split axis offsets)
    (hdeps : q.deps = [x]) (hcount : q.resultCount ≠ 1) (n : Nat) :
    whole? axis (q.results n).1 = some x := by
  have hall := forall₂_mapM (fun pi => fresh (.output pi.2) [q] pi.1) q.patterns.zipIdx n
  rw [← results_eq hcount] at hall
  have hlen : (q.results n).1.length = q.resultCount := by
    rw [← hall.length_eq, List.length_zipIdx, resultCount]
  have hpart {i : Nat} {r : Expr α} (hr : (q.results n).1[i]? = some r) :
      part? axis r = some (q, i) := by
    obtain ⟨pi, hpi, m, rfl⟩ := exists_of_forall₂ hall hr
    rw [List.getElem?_zipIdx, Option.map_eq_some_iff] at hpi
    obtain ⟨p, -, rfl⟩ := hpi
    rw [Nat.zero_add]
    exact part?_output hsplit m i p
  obtain ⟨r, hr⟩ : ∃ r, (q.results n).1[0]? = some r :=
    ⟨_, List.getElem?_eq_getElem (hlen ▸ q.resultCount_pos)⟩
  have hcomplete : (q.resultCount == (q.results n).1.length &&
      (q.results n).1.zipIdx.all fun pi =>
        (part? axis pi.1).any fun qj => qj.2 == pi.2 && qj.1.same q) = true := by
    rw [hlen, beq_self_eq_true, Bool.true_and, List.all_eq_true]
    intro pi hpi
    rw [hpart (List.mem_zipIdx_iff_getElem?.1 hpi)]
    simp [same]
  unfold whole?
  rw [List.head?_eq_getElem?, hr, Option.bind_some, hpart hr]
  show (if _ = true then q.deps.head? else none) = some x
  rw [hdeps]
  exact if_pos hcomplete

omit [Scalar α] in
/-- Parts split off give back what was split, unless there is just one, itself. -/
theorem whole?_splitInto {ps : List Pattern} (hne : ps ≠ []) (n : Nat) :
    (splitInto axis x ps n).1 = [x] ∨ whole? axis (splitInto axis x ps n).1 = some x := by
  unfold splitInto
  split
  · exact absurd rfl hne
  · exact .inl rfl
  · rename_i p ps hlarge
    have hps : ps ≠ [] := fun h => hlarge h
    exact .inr (whole?_results rfl rfl (by simpa [resultCount, patterns] using hps) (n + 1))

omit [Scalar α] in
theorem whole?_singleton (hS : IsGraph n S) (hx : x ∈ S) : whole? axis [x] = none := by
  unfold whole?
  cases hpart : part? axis x with
  | none => simp [hpart]
  | some qi =>
    obtain ⟨hop, hdeps, offsets, hsplit⟩ := eq_of_part? hpart
    have hq : qi.1 ∈ S := hS.closed x hx _ (by simp [hdeps])
    have hcount : qi.1.resultCount ≠ 1 := by
      intro hone
      have hsingle := (hS.wellFormed _ hq).resultCount_eq.1 hone
      rw [hsplit] at hsingle
      cases hsingle
    simp [hpart, hcount]

omit [Scalar α] in
theorem isSingleColumn_iff : x.pattern.isSingleColumn = true ↔ x.shape.2 = 1 :=
  beq_iff_eq

/-- Parts cut from the expression, of which joining gives it back. -/
structure IsCut (S : Set (Expr α)) (axis : Axis) (x : Expr α) (parts : List (Expr α)) : Prop where
  usable : ∀ part ∈ parts, Usable S part
  composes : Composes axis parts x
  whole : parts = [x] ∨ whole? axis parts = some x

/-- The parts cut from an expression of the graph give back the expression itself. -/
theorem IsCut.joinAlong_eq {T : Set (Expr α)} (h : IsCut T axis x parts) (hS : IsGraph n S)
    (hx : x ∈ S) (hword : axis = .horizontal ∨ x.shape.1 < Size.wordLimit)
    (hcol : axis = .vertical → x.shape.2 = 1) (m : Nat) :
    joinAlong axis parts m = .ok (x, m) := by
  rcases h.whole with rfl | hwhole
  · have hnone : whole? axis [x] = none := whole?_singleton hS hx
    have hrows (h : axis ≠ .horizontal) : Pattern.checkRows [x.pattern] = .ok () := by
      rw [Pattern.checkRows, Size.checkWord_eq_ok_iff]
      simpa [shape, Pattern.shape] using hword.resolve_left h
    cases axis with
    | horizontal =>
      have hcat : ∃ p, Pattern.horzcat ([x].map Expr.pattern) = .ok p := by
        exact ⟨_, dif_pos (by simp)⟩
      obtain ⟨p, hcat⟩ := hcat
      simp only [joinAlong, horzcat, hnone, hcat]
      rfl
    | vertical =>
      have hcat : ∃ p, Pattern.vertcat ([x].map Expr.pattern) = .ok p := by
        simp [Pattern.vertcat, hrows (by simp), bind, Except.bind, pure, Except.pure]
      obtain ⟨p, hcat⟩ := hcat
      have hall : ([x].all fun y => y.pattern.isSingleColumn) = true := by
        simpa using isSingleColumn_iff.2 (hcol rfl)
      simp only [joinAlong, vertcat, hnone, hall, hcat]
      rfl
    | diagonal =>
      have hcat : ∃ p, Pattern.diagcatChecked ([x].map Expr.pattern) = .ok p := by
        simp [Pattern.diagcatChecked, hrows (by simp), bind, Except.bind, pure, Except.pure]
      obtain ⟨p, hcat⟩ := hcat
      simp only [joinAlong, diagcat, hnone, hcat]
      rfl
  · cases axis <;> simp only [joinAlong, horzcat, vertcat, diagcat, hwhole] <;> rfl

/-! ## Splits -/

theorem grows_cut (hS : IsGraph n S) (hx : Usable S x) {ps : List Pattern} (hne : ps ≠ [])
    (hjoins : Pattern.Joins axis ps x.pattern) :
    Grows refused n S (liftM (splitInto axis x ps)) fun S' parts =>
      IsCut S' axis x parts ∧ parts.map Expr.pattern = ps := by
  refine ((grows_splitInto hS hx hjoins).of_run
    (P := fun parts => parts = [x] ∨ whole? axis parts = some x) ?_).mono ?_
  · intro parts n' hrun
    obtain rfl : (splitInto axis x ps n).1 = parts := congrArg Prod.fst (Except.ok.inj hrun)
    exact whole?_splitInto hne n
  · rintro n' S' parts hext ⟨⟨hus, hpatterns, hval⟩, hwhole⟩
    have hflatten (env : Nat → Nat → α) : nonzeros env x = (parts.map (nonzeros env)).flatten := by
      have hlen : (nonzeros env x).length = (ps.map Pattern.nnz).sum :=
        (hS.length_nonzeros hx.1).trans hjoins.nnz_eq
      rw [hval, flatten_chunks, List.take_of_length_le hlen.le]
    exact ⟨⟨hus, .of_joins hext.graph (fun part hpart => (hus part hpart).1) (hpatterns ▸ hjoins)
      hflatten, hwhole⟩, hpatterns⟩

omit [Scalar α] in
theorem map_sizes_eq {ps : List Pattern} (h : parts.map Expr.pattern = ps) (f : Nat × Nat → Nat) :
    ps.map (fun p => f p.shape) = parts.map fun part => f part.shape := by
  rw [← h, List.map_map]
  rfl

theorem grows_horzsplit (hS : IsGraph n S) (hx : Usable S x) {cols : List Nat}
    (h : Offsets.IsTable cols x.shape.2) :
    Grows refused n S (x.horzsplit cols) fun S' parts => IsCut S' .horizontal x parts ∧
      cols = Offsets.ofSizes (parts.map fun part => part.shape.2) := by
  have hsplit := Pattern.horzsplit_eq_ok_iff.2 ⟨h.flaw?_eq_none "column", rfl⟩
  obtain ⟨hjoins, htable⟩ := Pattern.joins_of_horzsplit hsplit
  unfold horzsplit
  rw [hsplit]
  refine (grows_cut hS hx (by simpa using h.blocks_ne_nil) hjoins).mono ?_
  rintro n' S' parts - ⟨hcut, hpatterns⟩
  exact ⟨hcut, htable.trans (congrArg Offsets.ofSizes (map_sizes_eq hpatterns Prod.snd))⟩

theorem grows_vertsplit_column (hS : IsGraph n S) (hx : Usable S x) {rows : List Nat}
    (h : Offsets.IsTable rows x.shape.1) (hcol : x.shape.2 = 1) :
    Grows refused n S (x.vertsplit rows) fun S' parts => IsCut S' .vertical x parts ∧
      rows = Offsets.ofSizes (parts.map fun part => part.shape.1) := by
  have hsplit := Pattern.vertsplit_eq_ok_iff.2 ⟨h.flaw?_eq_none "row", rfl⟩
  obtain ⟨hjoins, htable⟩ := Pattern.joins_of_vertsplit hcol hsplit
  unfold vertsplit
  rw [if_pos (isSingleColumn_iff.2 hcol), hsplit]
  refine (grows_cut hS hx (by simpa using h.blocks_ne_nil) hjoins).mono ?_
  rintro n' S' parts - ⟨hcut, hpatterns⟩
  exact ⟨hcut, htable.trans (congrArg Offsets.ofSizes (map_sizes_eq hpatterns Prod.fst))⟩

theorem grows_transposes (hS : IsGraph n S) (hxs : ∀ x ∈ xs, Usable S x)
    (hfits : ∀ x ∈ xs, ¬ x.shape.1 < Size.listLimit → refused .misuse) :
    Grows refused n S (xs.mapM transpose) fun S' ys =>
      (∀ y ∈ ys, Usable S' y) ∧ List.Forall₂ Flips xs ys := by
  refine (Grows.mapM (P := fun S' x r => Usable S' r ∧ Flips x r) hS ?_ ?_).mono ?_
  · exact fun x hx n' S' hext => grows_flips hext.graph ((hxs x hx).mono hext.subset) (hfits x hx)
  · exact fun S' S'' x r hsub h => ⟨h.1.mono hsub, h.2⟩
  · intro n' S' ys _ hall
    refine ⟨fun y hy => ?_, hall.imp fun x y h => h.2⟩
    obtain ⟨i, hi⟩ := List.mem_iff_getElem?.1 hy
    obtain ⟨_, -, h⟩ := exists_of_forall₂ hall hi
    exact h.1

theorem grows_vertsplit_matrix (hS : IsGraph n S) (hx : Usable S x) {rows : List Nat}
    (h : Offsets.IsTable rows x.shape.1) (hcol : x.shape.2 ≠ 1)
    (hfits : ¬ (x.shape.1 < Size.listLimit ∧ x.shape.2 < Size.listLimit) → refused .misuse) :
    Grows refused n S (x.vertsplit rows) fun S' parts => (∀ part ∈ parts, Usable S' part) ∧
      Composes .vertical parts x ∧ rows = Offsets.ofSizes (parts.map fun part => part.shape.1) := by
  unfold vertsplit
  rw [if_neg fun hsingle => hcol (isSingleColumn_iff.1 hsingle)]
  refine .bind (grows_flips hS hx fun hlarge => hfits fun hboth => hlarge hboth.1) ?_
  rintro n₁ S₁ t h₁ ⟨ht, hflips⟩
  have htable : Offsets.IsTable rows t.shape.2 := by
    rw [hflips.shape]
    exact h
  refine .bind (grows_horzsplit h₁.graph ht htable) ?_
  rintro n₂ S₂ qs h₂ ⟨hcut, hrows⟩
  have hheight (q : Expr α) (hq : q ∈ qs) : q.shape.1 = x.shape.2 := by
    rw [hcut.composes.spans.1 _ (List.mem_map_of_mem hq), hflips.shape]
    rfl
  refine (grows_transposes h₂.graph hcut.usable fun q hq hlarge =>
    hfits fun hboth => hlarge (hheight q hq ▸ hboth.2)).mono ?_
  rintro n₃ S₃ parts - ⟨hus, hall⟩
  refine ⟨hus, hcut.composes.of_flips hflips.symm hall, hrows.trans (congrArg Offsets.ofSizes ?_)⟩
  exact map_eq_of_forall₂ hall fun q part hqp => by rw [hqp.shape]; rfl

theorem grows_diagsplit (hS : IsGraph n S) (hx : Usable S x) {rows cols : List Nat}
    (hrows : Offsets.IsTable rows x.shape.1) (hcols : Offsets.IsTable cols x.shape.2)
    (hlen : rows.length = cols.length)
    (hcover : ∀ e ∈ x.pattern.triplets, Pattern.inDiagonal rows cols e = true) :
    Grows refused n S (x.diagsplit rows cols) fun S' parts => IsCut S' .diagonal x parts ∧
      rows = Offsets.ofSizes (parts.map fun part => part.shape.1) ∧
        cols = Offsets.ofSizes (parts.map fun part => part.shape.2) := by
  obtain ⟨ps, hsplit⟩ : ∃ ps, x.pattern.diagsplit rows cols = .ok ps :=
    ⟨_, Pattern.diagsplit_eq_ok_iff.2
      ⟨hrows.flaw?_eq_none "row", hcols.flaw?_eq_none "column", hlen, rfl⟩⟩
  have hcovered : (ps.map Pattern.nnz).sum = x.nnz := (Pattern.sum_nnz_of_diagsplit hsplit).trans
    ((List.countP_eq_length.2 hcover).trans x.pattern.length_triplets)
  obtain ⟨hjoins, hrows', hcols'⟩ := Pattern.joins_of_diagsplit hsplit hcovered
  have hne : ps ≠ [] := by
    rintro rfl
    have hblock := hrows.block
    simp [hrows'] at hblock
  have hrun : x.diagsplit rows cols = liftM (splitInto .diagonal x ps) := by
    unfold diagsplit
    rw [hsplit]
    exact if_neg (not_not.2 hcovered)
  rw [hrun]
  refine (grows_cut hS hx hne hjoins).mono ?_
  rintro n' S' parts - ⟨hcut, hpatterns⟩
  exact ⟨hcut, hrows'.trans (congrArg Offsets.ofSizes (map_sizes_eq hpatterns Prod.fst)),
    hcols'.trans (congrArg Offsets.ofSizes (map_sizes_eq hpatterns Prod.snd))⟩

omit [Scalar α] in
theorem diagsplit_of_uncovered {rows cols : List Nat} (hrows : Offsets.IsTable rows x.shape.1)
    (hcols : Offsets.IsTable cols x.shape.2) (hlen : rows.length = cols.length)
    (hcover : ¬ ∀ e ∈ x.pattern.triplets, Pattern.inDiagonal rows cols e = true) (n : Nat) :
    x.diagsplit rows cols n = .error (.diagonalCoverage
      (x.pattern.triplets.countP (Pattern.inDiagonal rows cols)) x.nnz) := by
  have hsplit := Pattern.diagsplit_eq_ok_iff.2
    ⟨hrows.flaw?_eq_none "row", hcols.flaw?_eq_none "column", hlen, rfl⟩
  have hne : x.pattern.triplets.countP (Pattern.inDiagonal rows cols) ≠ x.nnz := fun heq =>
    hcover (List.countP_eq_length.1 (heq.trans x.pattern.length_triplets.symm))
  have hsum := Pattern.sum_nnz_of_diagsplit hsplit
  rw [← hsum] at hne ⊢
  unfold diagsplit
  rw [hsplit]
  exact congrFun (if_pos hne) n

/-! ## Joins -/

/-- The memory and the words suffice for joining parts of these shapes. -/
def JoinFits : Axis → List (Nat × Nat) → Prop
  | .horizontal, _ => True
  | .vertical, shapes => (shapes.map Prod.fst).sum < Size.wordLimit ∧
      ((∃ s ∈ shapes, s.2 ≠ 1) → ∀ s ∈ shapes, s.1 < Size.listLimit ∧ s.2 < Size.listLimit)
  | .diagonal, shapes => (shapes.map Prod.fst).sum < Size.wordLimit

omit [Scalar α] in
theorem checkRows_error {e : GraphError} (hfits : ¬ (parts.map fun part => part.shape.1).sum <
      Size.wordLimit → refused .misuse)
    (he : Pattern.checkRows (parts.map Expr.pattern) = .error e) : refused e := by
  unfold Pattern.checkRows Size.checkWord at he
  rw [List.map_map] at he
  split at he
  · cases he
  · rename_i hlarge
    cases he
    exact hfits hlarge

theorem grows_compose_horizontal (hS : IsGraph n S) (hparts : ∀ part ∈ parts, Usable S part)
    (hne : parts ≠ []) (hfit : ∃ m, ∀ part ∈ parts, part.shape.1 = m) :
    Grows refused n S (horzcat parts) fun S' r => Usable S' r ∧ Composes .horizontal parts r := by
  obtain ⟨m, hm⟩ := hfit
  refine (grows_horzcat hS hparts hne fun e he =>
    absurd he (Pattern.horzcat_ne_error (List.forall_mem_map.2 hm) e)).mono ?_
  rintro n' S' r hext ⟨hr, hjoins, hval⟩
  exact ⟨hr, .of_joins hext.graph (fun part hpart => hext.subset (hparts part hpart).1) hjoins hval⟩

theorem grows_compose_columns (hS : IsGraph n S) (hparts : ∀ part ∈ parts, Usable S part)
    (hne : parts ≠ []) (hcols : ∀ part ∈ parts, part.shape.2 = 1)
    (hfits : ¬ (parts.map fun part => part.shape.1).sum < Size.wordLimit → refused .misuse) :
    Grows refused n S (vertcat parts) fun S' r => Usable S' r ∧ Composes .vertical parts r := by
  refine (grows_vertcat hS hparts hne hcols fun e he => checkRows_error hfits
    (Pattern.checkRows_of_vertcat (List.forall_mem_map.2 hcols) he)).mono ?_
  rintro n' S' r hext ⟨hr, hjoins, hval⟩
  exact ⟨hr, .of_joins hext.graph (fun part hpart => hext.subset (hparts part hpart).1) hjoins hval⟩

theorem grows_compose_rows (hS : IsGraph n S) (hparts : ∀ part ∈ parts, Usable S part)
    (hne : parts ≠ []) (hfit : ∃ k, ∀ part ∈ parts, part.shape.2 = k)
    (hcols : ∃ part ∈ parts, part.shape.2 ≠ 1)
    (hfits : ¬ (∀ part ∈ parts, part.shape.1 < Size.listLimit ∧ part.shape.2 < Size.listLimit) →
      refused .misuse) :
    Grows refused n S (vertcat parts) fun S' r => Usable S' r ∧ Composes .vertical parts r := by
  unfold vertcat
  split
  · rename_i x hx
    obtain ⟨hr, hjoins, hval⟩ := whole?_spec hS (fun part hpart => (hparts part hpart).1) hx
    exact .pure hS ⟨hr, .of_joins hS (fun part hpart => (hparts part hpart).1) hjoins hval⟩
  · have hall : ¬ (parts.all fun part => part.pattern.isSingleColumn) = true := by
      obtain ⟨part, hpart, hcol⟩ := hcols
      exact fun h => hcol (isSingleColumn_iff.1 (List.all_eq_true.1 h part hpart))
    rw [if_neg hall]
    obtain ⟨k, hk⟩ := hfit
    obtain ⟨first, hfirst⟩ := List.exists_mem_of_ne_nil parts hne
    refine .bind (grows_transposes hS hparts fun part hpart hlarge =>
      hfits fun hboth => hlarge (hboth part hpart).1) ?_
    rintro n₁ S₁ rows h₁ ⟨hus, hall⟩
    have hrows : ∀ row ∈ rows, row.shape.1 = k := by
      intro row hrow
      obtain ⟨i, hi⟩ := List.mem_iff_getElem?.1 hrow
      obtain ⟨part, hpart, hflips⟩ := exists_of_forall₂ hall hi
      rw [hflips.shape]
      exact hk part (List.mem_of_getElem? hpart)
    have hne' : rows ≠ [] := fun hnil => by simp [hnil, hne] at hall
    refine .bind (grows_compose_horizontal h₁.graph hus hne' ⟨k, hrows⟩) ?_
    rintro n₂ S₂ t h₂ ⟨ht, hcomposes⟩
    refine (grows_flips h₂.graph ht fun hlarge => hfits fun hboth => hlarge ?_).mono ?_
    · obtain ⟨row, hrow⟩ := List.exists_mem_of_ne_nil rows hne'
      have hheight : row.shape.1 = t.shape.1 := hcomposes.spans.1 _ (List.mem_map_of_mem hrow)
      have hlt := (hboth first hfirst).2
      rwa [hk first hfirst, ← hrows row hrow, hheight] at hlt
    · rintro n₃ S₃ r - ⟨hr, hflips⟩
      exact ⟨hr, hcomposes.of_flips hflips (hall.flip.imp fun row part h => h.symm)⟩

theorem grows_compose (hS : IsGraph n S) (hparts : ∀ part ∈ parts, Usable S part)
    (hne : parts ≠ []) (hfit : axis.Fit (parts.map shape))
    (hfits : ¬ JoinFits axis (parts.map shape) → refused .misuse) :
    Grows refused n S (joinAlong axis parts) fun S' r => Usable S' r ∧ Composes axis parts r := by
  have hsum : ((parts.map shape).map Prod.fst).sum = (parts.map fun part => part.shape.1).sum := by
    rw [List.map_map]
    rfl
  cases axis with
  | horizontal =>
    obtain ⟨m, hm⟩ := hfit
    exact grows_compose_horizontal hS hparts hne ⟨m, List.forall_mem_map.1 hm⟩
  | vertical =>
    obtain ⟨k, hk⟩ := hfit
    have hk := List.forall_mem_map.1 hk
    by_cases hcols : ∀ part ∈ parts, part.shape.2 = 1
    · refine grows_compose_columns hS hparts hne hcols fun hlarge => hfits fun hboth => hlarge ?_
      rw [← hsum]
      exact hboth.1
    · obtain ⟨part, hpart, hcol⟩ : ∃ part ∈ parts, part.shape.2 ≠ 1 := by simpa using hcols
      refine grows_compose_rows hS hparts hne ⟨k, hk⟩ ⟨part, hpart, hcol⟩ fun hlarge =>
        hfits fun hboth => hlarge ?_
      exact List.forall_mem_map.1 (hboth.2 ⟨part.shape, List.mem_map_of_mem hpart, hcol⟩)
  | diagonal =>
    refine (grows_diagcat hS hparts hne fun e he => ?_).mono ?_
    · have hrows : Pattern.checkRows (parts.map Expr.pattern) = .error e := by
        unfold Pattern.diagcatChecked at he
        cases hc : Pattern.checkRows (parts.map Expr.pattern) with
        | error e' => simpa [hc, bind, Except.bind] using he
        | ok => simp [hc, bind, Except.bind, pure, Except.pure] at he
      refine checkRows_error (fun hlarge => hfits fun hsmall => hlarge ?_) hrows
      rw [← hsum]
      exact hsmall
    · rintro n' S' r hext ⟨hr, hjoins, hval⟩
      exact ⟨hr, .of_joins hext.graph (fun part hpart => hext.subset (hparts part hpart).1) hjoins
        hval⟩

theorem joinFits_of_spans {shapes : List (Nat × Nat)} {whole : Nat × Nat}
    (h : Axis.vertical.Spans shapes whole)
    (hfits : whole.1 < Size.listLimit ∧ whole.2 < Size.listLimit) : JoinFits .vertical shapes := by
  refine ⟨?_, fun _ s hs => ⟨?_, ?_⟩⟩
  · rw [← h.2]
    exact Nat.lt_trans hfits.1 (by decide)
  · refine Nat.lt_of_le_of_lt ?_ hfits.1
    rw [h.2]
    exact List.le_sum_of_mem (List.mem_map_of_mem hs)
  · rw [h.1 s hs]
    exact hfits.2

/-! ## Splitting and joining what is at hand -/

/-- The step gives a result with the property, or is refused because the memory does not suffice. -/
def Yields {β : Type} (n : Nat) (step : Build β) (memory : Prop) (Q : β → Nat → Prop) : Prop :=
  match step n with
  | .ok (r, n') => Q r n'
  | .error e => OutOf memory e

omit [Scalar α] in
theorem Yields.of_grows {β : Type} {step : Build β} {memory : Prop} {P : Set (Expr α) → β → Prop}
    {Q : β → Nat → Prop} (h : Grows (OutOf memory) n S step P)
    (hPQ : ∀ S' r n', Extends n S n' S' → P S' r → Q r n') : Yields n step memory Q := by
  unfold Grows at h
  unfold Yields
  split
  · rename_i r n' hstep
    simp only [hstep] at h
    obtain ⟨S', hext, hP⟩ := h
    exact hPQ S' r n' hext hP
  · rename_i e hstep
    simpa only [hstep] using h

/-- Evaluation never fails and gives one buffer, with a number for every nonzero. -/
def Evaluates (x : Expr α) : Prop :=
  ∀ env : Nat → Nat → α,
    evalTree env x = .ok [nonzeros env x] ∧ (nonzeros env x).length = x.nnz

theorem IsGraph.evaluates (hS : IsGraph n S) (hx : Usable S x) : Evaluates x := fun env =>
  ⟨by rw [(hS.evalTree_eq hx.1).1, hS.values_of_not_isSplit hx.1 hx.2], hS.length_nonzeros hx.1⟩

/-- Both have one pattern and one value. -/
structure SameValue (x y : Expr α) : Prop where
  pattern : y.pattern = x.pattern
  value : ∀ env : Nat → Nat → α, evalTree env y = evalTree env x

theorem Composes.sameValue (hS : IsGraph n S) (hx : Usable S x) (hy : Usable S y)
    (h : Composes axis parts x) (h' : Composes axis parts y) (hne : parts ≠ []) :
    SameValue x y := by
  obtain ⟨hpattern, hentry⟩ := h.unique h' hne
  refine ⟨hpattern.symm, fun env => ?_⟩
  rw [(hS.evaluates hx env).1, (hS.evaluates hy env).1, hS.nonzeros_eq_gather hx.1,
    hS.nonzeros_eq_gather hy.1, hpattern, hentry]

/-- Splitting and joining the expressions at hand, with `n` identities drawn. -/
structure SplitsAndJoins (n : Nat) (G : List (Expr α)) : Prop where
  /-- Columns are cut into blocks, and joining the blocks gives back the node. -/
  horzsplit : ∀ x ∈ G, ∀ cols, Offsets.IsTable cols x.shape.2 →
    Yields n (x.horzsplit cols) True fun parts _ => (∀ part ∈ parts, Evaluates part) ∧
      List.Forall₂ (fun range part => IsBlock x (0, x.shape.1) range part)
        (Offsets.blocks cols) parts ∧
      ∀ m, horzcat parts m = .ok (x, m)
  /-- So are the rows of a column. -/
  vertsplit_column : ∀ x ∈ G, ∀ rows, Offsets.IsTable rows x.shape.1 → x.shape.2 = 1 →
    Yields n (x.vertsplit rows) True fun parts _ => (∀ part ∈ parts, Evaluates part) ∧
      List.Forall₂ (fun range part => IsBlock x range (0, x.shape.2) part)
        (Offsets.blocks rows) parts ∧
      (x.shape.1 < Size.wordLimit → ∀ m, vertcat parts m = .ok (x, m))
  /-- Rows of matrices are cut through transposes; joining them gives the same value. -/
  vertsplit_matrix : ∀ x ∈ G, ∀ rows, Offsets.IsTable rows x.shape.1 → x.shape.2 ≠ 1 →
    Yields n (x.vertsplit rows) (x.shape.1 < Size.listLimit ∧ x.shape.2 < Size.listLimit)
      fun parts n' => (∀ part ∈ parts, Evaluates part) ∧
        List.Forall₂ (fun range part => IsBlock x range (0, x.shape.2) part)
          (Offsets.blocks rows) parts ∧
        ∀ m ≥ n', Yields m (vertcat parts)
          (x.shape.1 < Size.listLimit ∧ x.shape.2 < Size.listLimit) fun y _ => SameValue x y
  /-- The blocks on a diagonal that covers all nonzeros. -/
  diagsplit : ∀ x ∈ G, ∀ rows cols, Offsets.IsTable rows x.shape.1 →
    Offsets.IsTable cols x.shape.2 → rows.length = cols.length →
    (∀ e ∈ x.pattern.triplets, Pattern.inDiagonal rows cols e = true) →
    Yields n (x.diagsplit rows cols) True fun parts _ => (∀ part ∈ parts, Evaluates part) ∧
      List.Forall₂ (fun block part => IsBlock x block.1 block.2 part)
        ((Offsets.blocks rows).zip (Offsets.blocks cols)) parts ∧
      (x.shape.1 < Size.wordLimit → ∀ m, diagcat parts m = .ok (x, m))
  /-- A nonzero outside of the diagonal is refused, and the covered ones are counted. -/
  diagsplit_refused : ∀ x ∈ G, ∀ rows cols, Offsets.IsTable rows x.shape.1 →
    Offsets.IsTable cols x.shape.2 → rows.length = cols.length →
    (¬ ∀ e ∈ x.pattern.triplets, Pattern.inDiagonal rows cols e = true) →
    x.diagsplit rows cols n = .error (.diagonalCoverage
      (x.pattern.triplets.countP (Pattern.inDiagonal rows cols)) x.nnz)
  /-- Any parts that go together are laid out along the axis. -/
  joinAlong : ∀ axis parts, parts ≠ [] → (∀ part ∈ parts, part ∈ G) →
    axis.Fit (parts.map shape) →
    Yields n (joinAlong axis parts) (JoinFits axis (parts.map shape)) fun y _ =>
      Evaluates y ∧ Composes axis parts y

/-- Splitting gives the blocks of the dense value, joining lays dense values out along the axis, and
joining the parts of a split gives back what was split. -/
theorem split_join_correct {G : List (Expr α)} (hG : Built n G) : SplitsAndJoins n G := by
  obtain ⟨hS, hsplit⟩ := hG.isGraph
  have husable (x : Expr α) (hx : x ∈ G) : Usable (nodesOf G) x := ⟨mem_nodesOf hx, hsplit x hx⟩
  constructor
  case horzsplit =>
    intro x hx cols htable
    refine .of_grows (grows_horzsplit hS (husable x hx) htable) ?_
    rintro S' parts n' hext ⟨hcut, hcols⟩
    refine ⟨fun part hpart => hext.graph.evaluates (hcut.usable part hpart), ?_, ?_⟩
    · rw [hcols]
      exact hcut.composes.columnBlocks
    · exact hcut.joinAlong_eq hS (husable x hx).1 (.inl rfl) fun h => by cases h
  case vertsplit_column =>
    intro x hx rows htable hcol
    refine .of_grows (grows_vertsplit_column hS (husable x hx) htable hcol) ?_
    rintro S' parts n' hext ⟨hcut, hrows⟩
    refine ⟨fun part hpart => hext.graph.evaluates (hcut.usable part hpart), ?_, ?_⟩
    · rw [hrows]
      exact hcut.composes.rowBlocks
    · exact fun hword => hcut.joinAlong_eq hS (husable x hx).1 (.inr hword) fun _ => hcol
  case vertsplit_matrix =>
    intro x hx rows htable hcol
    refine .of_grows (grows_vertsplit_matrix hS (husable x hx) htable hcol fun h => ⟨rfl, h⟩) ?_
    rintro S' parts n' hext ⟨hus, hcomposes, hrows⟩
    refine ⟨fun part hpart => hext.graph.evaluates (hus part hpart), ?_, fun m hm => ?_⟩
    · rw [hrows]
      exact hcomposes.rowBlocks
    · have hne : parts ≠ [] := by
        rintro rfl
        have hblock := htable.block
        simp [hrows] at hblock
      have hfit : Axis.vertical.Fit (parts.map shape) := ⟨_, hcomposes.spans.1⟩
      refine .of_grows (grows_compose (hext.graph.mono hm) hus hne hfit fun hlarge =>
        ⟨rfl, fun hfits => hlarge (joinFits_of_spans hcomposes.spans hfits)⟩) ?_
      rintro S'' y m' hext' ⟨hy, hcomposes'⟩
      have hx' := (husable x hx).mono (hext.subset.trans hext'.subset)
      exact hcomposes.sameValue hext'.graph hx' hy hcomposes' hne
  case diagsplit =>
    intro x hx rows cols hrows hcols hlen hcover
    refine .of_grows (grows_diagsplit hS (husable x hx) hrows hcols hlen hcover) ?_
    rintro S' parts n' hext ⟨hcut, hrows', hcols'⟩
    refine ⟨fun part hpart => hext.graph.evaluates (hcut.usable part hpart), ?_, ?_⟩
    · rw [hrows', hcols']
      exact hcut.composes.diagonalBlocks
    · exact fun hword => hcut.joinAlong_eq hS (husable x hx).1 (.inr hword) fun h => by
        cases h
  case diagsplit_refused =>
    intro x hx rows cols hrows hcols hlen hcover
    exact diagsplit_of_uncovered hrows hcols hlen hcover n
  case joinAlong =>
    intro axis parts hne hparts hfit
    refine .of_grows (grows_compose hS (fun part hpart => husable part (hparts part hpart)) hne hfit
      fun hlarge => ⟨rfl, hlarge⟩) ?_
    rintro S' y n' hext ⟨hy, hcomposes⟩
    exact ⟨hext.graph.evaluates hy, hcomposes⟩

/-- A matrix, and a column cut in two. -/
theorem split_join_correct_symbols :
    let x : Expr Rat := .node 0 (.symbol "x") [] (.dense 3 4) []
    let c : Expr Rat := .node 1 (.symbol "c") [] (.column 5) []
    let q : Expr Rat := .node 2 (.split .vertical [0, 2, 5]) [c] (.column 2) [.column 3]
    let v : Nat → Expr Rat := fun i => .node (3 + i) (.output i) [q] (.column (2 + i)) []
    SplitsAndJoins 5 [v 0, v 1, c, x] := by
  intro x c q v
  have hx : Built 1 [x] := .symbol "x" _ .start
  have hc : Built 2 [c, x] := .symbol "c" _ hx
  have hG : Built 5 [v 0, v 1, c, x] :=
    .make (.split .vertical c [0, 2, 5] []) hc (by simp [Construction.operands]) rfl
  exact split_join_correct hG

end DiffGraph
