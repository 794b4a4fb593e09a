import Mathlib
import DiffGraph.Proofs.Pattern.Joins

/-!
# Splitting undoes joining

A split at valid offsets gives parts that make up the pattern again
(`joins_of_horzsplit`, `joins_of_vertsplit`, `joins_of_diagsplit`), and a pattern
made of parts is split at their sizes into these parts
(`Joins.horzsplit_eq`, `Joins.vertsplit_eq`, `Joins.diagsplit_eq`).
-/

namespace DiffGraph

namespace Offsets

theorem exists_sizes_of_flaw? {offsets : List Nat} {total : Nat} {what : String}
    (h : flaw? offsets total what = none) :
    ∃ sizes, offsets = ofSizes sizes ∧ sizes.sum = total := by
  have table : ∀ (rest : List Nat) (s : Nat),
      (∀ b ∈ blocks (s :: rest), b.1 ≤ b.2) → ∃ sizes, s :: rest = sizesFrom s sizes := by
    intro rest
    induction rest with
    | nil => exact fun s _ => ⟨[], rfl⟩
    | cons t rest ih =>
      intro s hle
      have hst : s ≤ t := hle (s, t) (by simp [blocks])
      obtain ⟨sizes, hsizes⟩ := ih t fun b hb => hle b (by simp [blocks] at hb ⊢; exact .inr hb)
      exact ⟨(t - s) :: sizes, by rw [sizesFrom, Nat.add_sub_cancel' hst, hsizes]⟩
  unfold flaw? at h
  cases offsets with
  | nil => simp at h
  | cons s rest =>
    obtain ⟨last, hlast⟩ : ∃ last, (s :: rest).getLast? = some last :=
      ⟨_, List.getLast?_eq_some_getLast (by simp)⟩
    simp only [List.head?_cons, hlast] at h
    split at h
    · cases h
    · rename_i hends
      split at h
      · cases h
      · rename_i hdec
        have hs : s = 0 := by omega
        subst hs
        have hle : ∀ b ∈ blocks (0 :: rest), b.1 ≤ b.2 := by
          intro b hb
          refine Nat.le_of_not_lt fun hlt => hdec ?_
          exact List.any_eq_true.2 ⟨b, hb, by simpa using hlt⟩
        obtain ⟨sizes, hsizes⟩ := table rest 0 hle
        refine ⟨sizes, hsizes, ?_⟩
        rw [hsizes, getLast?_sizesFrom] at hlast
        have := Option.some.inj hlast
        omega

/-- The table cuts the given number of items into at least one block. -/
structure IsTable (offsets : List Nat) (total : Nat) : Prop where
  first : offsets.head? = some 0
  last : offsets.getLast? = some total
  increasing : offsets.Pairwise (· ≤ ·)
  block : 2 ≤ offsets.length

theorem le_of_mem_blocks {offsets : List Nat} (h : offsets.Pairwise (· ≤ ·)) {block : Nat × Nat}
    (hblock : block ∈ blocks offsets) : block.1 ≤ block.2 := by
  induction offsets with
  | nil => cases hblock
  | cons a rest ih =>
    cases rest with
    | nil => cases hblock
    | cons b rest =>
      obtain ⟨hle, hrest⟩ := List.pairwise_cons.1 h
      rcases List.mem_cons.1 hblock with rfl | hblock
      · exact hle b List.mem_cons_self
      · exact ih hrest hblock

theorem IsTable.flaw?_eq_none {offsets : List Nat} {total : Nat} (h : IsTable offsets total)
    (what : String) : flaw? offsets total what = none := by
  unfold flaw?
  rw [h.first, h.last]
  refine (if_neg (by simp)).trans (if_neg fun hany => ?_)
  obtain ⟨block, hblock, hlt⟩ := List.any_eq_true.1 hany
  exact absurd (le_of_mem_blocks h.increasing hblock) (Nat.not_le_of_lt (of_decide_eq_true hlt))

theorem IsTable.blocks_ne_nil {offsets : List Nat} {total : Nat} (h : IsTable offsets total) :
    blocks offsets ≠ [] := by
  have hlen : (blocks offsets).length = offsets.length - 1 := by simp [blocks]
  intro hnil
  have := h.block
  rw [hnil, List.length_nil] at hlen
  omega

theorem getElem?_blocks_sizesFrom {sizes : List Nat} {s i n : Nat} (h : sizes[i]? = some n) :
    (blocks (sizesFrom s sizes))[i]? =
      some (s + (sizes.take i).sum, s + (sizes.take i).sum + n) := by
  induction sizes generalizing s i with
  | nil => simp at h
  | cons m ms ih =>
    rw [blocks_sizesFrom_cons]
    cases i with
    | zero =>
      obtain rfl : m = n := by simpa using h
      simp
    | succ i =>
      rw [List.getElem?_cons_succ, ih (by simpa using h)]
      simp [Nat.add_assoc]

theorem getElem?_blocks_ofSizes {sizes : List Nat} {i n : Nat} (h : sizes[i]? = some n) :
    (blocks (ofSizes sizes))[i]? = some ((sizes.take i).sum, (sizes.take i).sum + n) := by
  simpa [ofSizes] using getElem?_blocks_sizesFrom (s := 0) h

theorem getElem?_zip_blocks {ms ns : List Nat} {i m n : Nat} (hm : ms[i]? = some m)
    (hn : ns[i]? = some n) :
    ((blocks (ofSizes ms)).zip (blocks (ofSizes ns)))[i]? =
      some (((ms.take i).sum, (ms.take i).sum + m), ((ns.take i).sum, (ns.take i).sum + n)) := by
  rw [List.zip, List.getElem?_zipWith, getElem?_blocks_ofSizes hm, getElem?_blocks_ofSizes hn]

@[simp] theorem length_blocks_sizesFrom (s : Nat) (sizes : List Nat) :
    (blocks (sizesFrom s sizes)).length = sizes.length := by
  simp [blocks]

theorem sum_take_add_le {sizes : List Nat} {i n : Nat} (h : sizes[i]? = some n) :
    (sizes.take i).sum + n ≤ sizes.sum := by
  induction sizes generalizing i with
  | nil => simp at h
  | cons m ms ih =>
    cases i with
    | zero =>
      obtain rfl : m = n := by simpa using h
      simp
    | succ i =>
      have := ih (i := i) (by simpa using h)
      simp only [List.take_succ_cons, List.sum_cons]
      omega

theorem exists_block {sizes : List Nat} {k : Nat} (h : k < sizes.sum) :
    ∃ i n, sizes[i]? = some n ∧ (sizes.take i).sum ≤ k ∧ k < (sizes.take i).sum + n := by
  induction sizes generalizing k with
  | nil => simp at h
  | cons m ms ih =>
    rcases Nat.lt_or_ge k m with hk | hk
    · exact ⟨0, m, rfl, by simp, by simpa using hk⟩
    · obtain ⟨i, n, hi, hle, hlt⟩ := ih (k := k - m) (by simp only [List.sum_cons] at h; omega)
      refine ⟨i + 1, n, by simpa using hi, ?_, ?_⟩ <;>
        simp only [List.take_succ_cons, List.sum_cons] <;> omega

end Offsets

theorem slice_append_slice {β : Type} (xs : List β) (s m n : Nat) :
    slice xs s (s + m) ++ slice xs (s + m) (s + m + n) = slice xs s (s + (m + n)) := by
  simp only [slice, Nat.add_sub_cancel_left, List.take_add, List.drop_drop]

theorem flatMap_slice_blocks {β : Type} (xs : List β) (s : Nat) (sizes : List Nat) :
    (Offsets.blocks (Offsets.sizesFrom s sizes)).flatMap (fun (a, b) => slice xs a b) =
      slice xs s (s + sizes.sum) := by
  induction sizes generalizing s with
  | nil => simp [Offsets.blocks, Offsets.sizesFrom, slice]
  | cons n ns ih =>
    rw [Offsets.blocks_sizesFrom_cons, List.flatMap_cons, ih, List.sum_cons]
    exact slice_append_slice xs s n ns.sum

theorem map_slice_blocks {β : Type} (xs : List β) (s : Nat) (sizes : List Nat) :
    (Offsets.blocks (Offsets.sizesFrom s sizes)).map (fun (a, b) => slice xs a b) =
      chunks sizes (xs.drop s) := by
  induction sizes generalizing s with
  | nil => rfl
  | cons n ns ih =>
    rw [Offsets.blocks_sizesFrom_cons, List.map_cons, ih, chunks, List.drop_drop]
    simp [slice]

theorem chunks_map {β γ : Type} (f : β → γ) (sizes : List Nat) (xs : List β) :
    chunks sizes (xs.map f) = (chunks sizes xs).map (List.map f) := by
  induction sizes generalizing xs with
  | nil => rfl
  | cons n ns ih => rw [chunks, chunks, List.map_cons, ← List.map_drop, ih, List.map_take]

theorem map_length_chunks {β : Type} {sizes : List Nat} {xs : List β}
    (h : sizes.sum ≤ xs.length) : (chunks sizes xs).map List.length = sizes := by
  induction sizes generalizing xs with
  | nil => rfl
  | cons n ns ih =>
    simp only [List.sum_cons] at h
    rw [chunks, List.map_cons, ih (by rw [List.length_drop]; omega), List.length_take]
    congr 1
    omega

namespace Pattern

variable {p q whole : Pattern} {parts : List Pattern} {axis : Axis} {r c a b : Nat}

/-! ## Blocks -/

theorem mem_triplets_columnBlock :
    (r, c) ∈ (p.columnBlock a b).triplets ↔ c < b - a ∧ (r, a + c) ∈ p.triplets := by
  simp only [mem_triplets, columnBlock, slice, List.getElem?_take, List.getElem?_drop]
  split
  · rename_i h
    simp [h]
  · rename_i h
    simp [h]

theorem mem_triplets_rowBlock :
    (r, c) ∈ (p.rowBlock a b).triplets ↔ r < b - a ∧ (a + r, c) ∈ p.triplets := by
  simp only [mem_triplets, rowBlock, List.getElem?_map, Option.map_eq_some_iff,
    exists_exists_and_eq_and, List.mem_map, List.mem_filter, Bool.and_eq_true, decide_eq_true_eq]
  constructor
  · rintro ⟨rows, hc, s, ⟨hs, hle, hlt⟩, rfl⟩
    exact ⟨by omega, rows, hc, by rwa [Nat.add_sub_cancel' hle]⟩
  · rintro ⟨hr, rows, hc, hm⟩
    exact ⟨rows, hc, a + r, ⟨hm, by omega, by omega⟩, by omega⟩

theorem ncols_columnBlock (h : b ≤ p.ncols) : (p.columnBlock a b).ncols = b - a :=
  length_slice h

@[simp] theorem nrows_columnBlock : (p.columnBlock a b).nrows = p.nrows := rfl

@[simp] theorem nrows_rowBlock : (p.rowBlock a b).nrows = b - a := rfl

@[simp] theorem ncols_rowBlock : (p.rowBlock a b).ncols = p.ncols := by
  simp [rowBlock, ncols]

theorem checkOffsets_eq_ok_iff {offsets : List Nat} {total : Nat} {what : String} :
    checkOffsets offsets total what = .ok () ↔ Offsets.flaw? offsets total what = none := by
  unfold checkOffsets
  split <;> simp [*]

theorem eq_of_mem_iff (hrows : p.nrows = q.nrows) (hcols : p.ncols = q.ncols)
    (h : ∀ r c, r < q.nrows → c < q.ncols → ((r, c) ∈ p.triplets ↔ (r, c) ∈ q.triplets)) :
    p = q := by
  refine ext_triplets (Prod.ext hrows hcols) fun r c => ?_
  by_cases hin : r < q.nrows ∧ c < q.ncols
  · exact h r c hin.1 hin.2
  · constructor
    · intro hm
      have := lt_of_mem_triplets hm
      exact absurd ⟨hrows ▸ this.1, hcols ▸ this.2⟩ hin
    · intro hm
      exact absurd (lt_of_mem_triplets hm) hin

/-! ## The size of a whole -/

theorem Joins.ncols_horizontal (h : Joins .horizontal parts whole) :
    whole.ncols = (parts.map ncols).sum := by
  unfold ncols
  rw [h.2, List.length_flatMap]

theorem Joins.nrows_vertical (h : Joins .vertical parts whole) :
    whole.nrows = (parts.map nrows).sum := by
  obtain ⟨-, rfl⟩ := h
  induction parts with
  | nil => rfl
  | cons p ps ih => simpa [above] using ih

theorem Joins.nrows_diagonal (h : Joins .diagonal parts whole) :
    whole.nrows = (parts.map nrows).sum := by
  obtain rfl : whole = parts.foldr diagonally (empty 0 0) := h
  induction parts with
  | nil => rfl
  | cons p ps ih => simpa [diagonally] using ih

theorem Joins.ncols_diagonal (h : Joins .diagonal parts whole) :
    whole.ncols = (parts.map ncols).sum := by
  obtain rfl : whole = parts.foldr diagonally (empty 0 0) := h
  induction parts with
  | nil => rfl
  | cons p ps ih =>
    simp only [List.foldr_cons, List.map_cons, List.sum_cons, ← ih]
    simp [diagonally, ncols]

/-- Parts make one whole only. -/
theorem Joins.unique {whole' : Pattern} (h : Joins axis parts whole) (h' : Joins axis parts whole')
    (hne : parts ≠ []) : whole = whole' := by
  cases axis with
  | horizontal =>
    obtain ⟨p, ps, rfl⟩ := List.exists_cons_of_ne_nil hne
    exact eq_of_columns_eq ((h.1 p (by simp)).symm.trans (h'.1 p (by simp))) (h.2.trans h'.2.symm)
  | vertical => exact h.2.trans h'.2.symm
  | diagonal => exact (show whole = _ from h).trans (show whole' = _ from h').symm

theorem Joins.shape_eq {parts' : List Pattern} {whole' : Pattern} (h : Joins axis parts whole)
    (h' : Joins axis parts' whole') (hne : parts ≠ [])
    (hshape : parts.map shape = parts'.map shape) : whole.shape = whole'.shape := by
  have hrows : parts.map nrows = parts'.map nrows := by
    simpa [Function.comp_def, shape] using congrArg (List.map Prod.fst) hshape
  have hcols : parts.map ncols = parts'.map ncols := by
    simpa [Function.comp_def, shape] using congrArg (List.map Prod.snd) hshape
  cases axis with
  | horizontal =>
    refine Prod.ext ?_ ?_
    · obtain ⟨p, ps, rfl⟩ := List.exists_cons_of_ne_nil hne
      cases parts' with
      | nil => simp at hshape
      | cons p' ps' =>
        have hp : p.nrows = p'.nrows := by simpa using congrArg List.head? hrows
        exact (h.1 p (by simp)).symm.trans (hp.trans (h'.1 p' (by simp)))
    · simpa [shape, h.ncols_horizontal, h'.ncols_horizontal] using congrArg List.sum hcols
  | vertical =>
    refine Prod.ext ?_ (h.ncols_vertical.trans h'.ncols_vertical.symm)
    simpa [shape, h.nrows_vertical, h'.nrows_vertical] using congrArg List.sum hrows
  | diagonal =>
    refine Prod.ext ?_ ?_
    · simpa [shape, h.nrows_diagonal, h'.nrows_diagonal] using congrArg List.sum hrows
    · simpa [shape, h.ncols_diagonal, h'.ncols_diagonal] using congrArg List.sum hcols

/-! ## Splits -/

theorem horzsplit_eq_ok_iff {offsets : List Nat} :
    p.horzsplit offsets = .ok parts ↔ Offsets.flaw? offsets p.ncols "column" = none ∧
      parts = (Offsets.blocks offsets).map fun (a, b) => p.columnBlock a b := by
  rw [← checkOffsets_eq_ok_iff, horzsplit]
  cases checkOffsets offsets p.ncols "column" <;>
    simp [bind, Except.bind, pure, Except.pure, eq_comm]

theorem vertsplit_eq_ok_iff {offsets : List Nat} :
    p.vertsplit offsets = .ok parts ↔ Offsets.flaw? offsets p.nrows "row" = none ∧
      parts = (Offsets.blocks offsets).map fun (a, b) => p.rowBlock a b := by
  rw [← checkOffsets_eq_ok_iff, vertsplit]
  cases checkOffsets offsets p.nrows "row" <;>
    simp [bind, Except.bind, pure, Except.pure, eq_comm]

theorem diagsplit_eq_ok_iff {rows cols : List Nat} :
    p.diagsplit rows cols = .ok parts ↔ Offsets.flaw? rows p.nrows "row" = none ∧
      Offsets.flaw? cols p.ncols "column" = none ∧ rows.length = cols.length ∧
      parts = ((Offsets.blocks rows).zip (Offsets.blocks cols)).map
        fun ((r0, r1), (c0, c1)) => (p.columnBlock c0 c1).rowBlock r0 r1 := by
  rw [← checkOffsets_eq_ok_iff, ← checkOffsets_eq_ok_iff, diagsplit]
  cases checkOffsets rows p.nrows "row" <;> cases checkOffsets cols p.ncols "column" <;>
    by_cases hlen : rows.length = cols.length <;>
    simp [bind, Except.bind, pure, Except.pure, throw, throwThe, MonadExceptOf.throw, hlen, eq_comm]

/-- The column blocks of a table make up the pattern. -/
theorem joins_of_horzsplit {offsets : List Nat} (h : p.horzsplit offsets = .ok parts) :
    Joins .horizontal parts p ∧ offsets = Offsets.ofSizes (parts.map ncols) := by
  obtain ⟨hflaw, rfl⟩ := horzsplit_eq_ok_iff.1 h
  obtain ⟨sizes, rfl, hsum⟩ := Offsets.exists_sizes_of_flaw? hflaw
  refine ⟨⟨?_, ?_⟩, ?_⟩
  · intro q hq
    obtain ⟨_, -, rfl⟩ := List.mem_map.1 hq
    rfl
  · have := flatMap_slice_blocks p.columns 0 sizes
    rw [Nat.zero_add, hsum] at this
    rw [List.flatMap_map]
    simpa [Offsets.ofSizes, columnBlock, slice, ncols] using this.symm
  · rw [List.map_map]
    congr 1
    refine List.ext_getElem? fun i => ?_
    cases hi : sizes[i]? with
    | none => simpa [Offsets.ofSizes] using hi
    | some n =>
      have hle := Offsets.sum_take_add_le hi
      rw [hsum] at hle
      rw [List.getElem?_map, Offsets.getElem?_blocks_ofSizes hi]
      simp [ncols_columnBlock (p := p) (a := (sizes.take i).sum) hle]

theorem joins_of_vertsplit {offsets : List Nat} (hcol : p.ncols = 1)
    (h : p.vertsplit offsets = .ok parts) :
    Joins .vertical parts p ∧ offsets = Offsets.ofSizes (parts.map nrows) := by
  obtain ⟨hflaw, rfl⟩ := vertsplit_eq_ok_iff.1 h
  obtain ⟨sizes, rfl, hsum⟩ := Offsets.exists_sizes_of_flaw? hflaw
  set parts := (Offsets.blocks (Offsets.ofSizes sizes)).map fun (a, b) => p.rowBlock a b with hparts
  have hsizes : parts.map nrows = sizes := by
    rw [hparts, List.map_map]
    exact Offsets.sizes_blocks_sizesFrom 0 sizes
  have hcols : ∀ q ∈ parts, q.ncols = 1 := by
    intro q hq
    obtain ⟨_, -, rfl⟩ := List.mem_map.1 hq
    simpa using hcol
  have hjoin : Joins .vertical parts (parts.foldr above (empty 0 1)) := ⟨hcols, rfl⟩
  have hpart : ∀ {i n : Nat}, sizes[i]? = some n → parts[i]? =
      some (p.rowBlock (sizes.take i).sum ((sizes.take i).sum + n)) ∧
        Axis.vertical.corner (parts.take i) = ((sizes.take i).sum, 0) := by
    intro i n hi
    constructor
    · rw [hparts, List.getElem?_map, Offsets.getElem?_blocks_ofSizes hi]
      rfl
    · simp [Axis.corner, Axis.step, ← hsizes, List.map_take]
  refine ⟨⟨hcols, ?_⟩, by rw [hsizes]⟩
  refine ext_triplets (Prod.ext ?_ (hcol.trans hjoin.ncols_vertical.symm)) fun r c => ?_
  · rw [shape, shape, hjoin.nrows_vertical, hsizes, hsum]
  constructor
  · intro hm
    have hlt := (lt_of_mem_triplets hm).1
    obtain ⟨i, n, hi, hle, hr⟩ := Offsets.exists_block (hsum ▸ hlt)
    obtain ⟨hp, hcorner⟩ := hpart hi
    have := (hjoin.mem_triplets_iff hp (r := r - (sizes.take i).sum) (c := c) (by simp; omega)
      (by simpa using (lt_of_mem_triplets hm).2)).2
        (mem_triplets_rowBlock.2 ⟨by omega, by rwa [Nat.add_sub_cancel' hle]⟩)
    rwa [hcorner, shift, Nat.add_sub_cancel' hle, Nat.zero_add] at this
  · intro hm
    obtain ⟨i, q, e, hq, he, heq⟩ := hjoin.exists_part hm
    cases hi : sizes[i]? with
    | none => simp [hparts, Offsets.ofSizes, List.getElem?_eq_none_iff.1 hi] at hq
    | some n =>
      obtain ⟨hp, hcorner⟩ := hpart hi
      obtain rfl := Option.some.inj (hp.symm.trans hq)
      rw [hcorner, shift, Nat.zero_add] at heq
      rw [heq]
      exact (mem_triplets_rowBlock.1 he).2

/-- The tables of a diagonal split are those of the sizes of its parts, and a part has the nonzeros
of the pattern behind its corner. -/
theorem diagsplit_spec {rows cols : List Nat} (h : p.diagsplit rows cols = .ok parts) :
    rows = Offsets.ofSizes (parts.map nrows) ∧ cols = Offsets.ofSizes (parts.map ncols) ∧
      p.shape = ((parts.map nrows).sum, (parts.map ncols).sum) ∧
      ∀ (i : Nat) (q : Pattern), parts[i]? = some q → ∀ r c, (r, c) ∈ q.triplets ↔
        r < q.nrows ∧ c < q.ncols ∧
          shift (Axis.diagonal.corner (parts.take i)) (r, c) ∈ p.triplets := by
  obtain ⟨hrows, hcols, hlen, heq⟩ := diagsplit_eq_ok_iff.1 h
  obtain ⟨ms, rfl, hms⟩ := Offsets.exists_sizes_of_flaw? hrows
  obtain ⟨ns, rfl, hns⟩ := Offsets.exists_sizes_of_flaw? hcols
  have hlen : ms.length = ns.length := by simpa using hlen
  have hpart : ∀ {i m n : Nat}, ms[i]? = some m → ns[i]? = some n → parts[i]? =
      some ((p.columnBlock (ns.take i).sum ((ns.take i).sum + n)).rowBlock
        (ms.take i).sum ((ms.take i).sum + m)) := by
    intro i m n hm hn
    rw [heq, List.getElem?_map, Offsets.getElem?_zip_blocks hm hn]
    rfl
  have hncols {i n : Nat} (hn : ns[i]? = some n) :
      (p.columnBlock (ns.take i).sum ((ns.take i).sum + n)).ncols = n := by
    rw [ncols_columnBlock (hns ▸ Offsets.sum_take_add_le hn), Nat.add_sub_cancel_left]
  have hlength : parts.length = ms.length := by simp [heq, Offsets.ofSizes, hlen]
  have hsize : ∀ i : Nat, (parts.map nrows)[i]? = ms[i]? ∧ (parts.map ncols)[i]? = ns[i]? := by
    intro i
    rcases Nat.lt_or_ge i ms.length with hi | hi
    · have hm := List.getElem?_eq_getElem hi
      have hn := List.getElem?_eq_getElem (hlen ▸ hi)
      rw [List.getElem?_map, List.getElem?_map, hpart hm hn, hm, hn]
      simp [hncols hn]
    · have h₁ : parts.length ≤ i := by omega
      have h₂ : ns.length ≤ i := by omega
      simp [hi, h₁, h₂]
  have hmap : parts.map nrows = ms := List.ext_getElem? fun i => (hsize i).1
  have hmap' : parts.map ncols = ns := List.ext_getElem? fun i => (hsize i).2
  refine ⟨by rw [hmap], by rw [hmap'], by rw [hmap, hmap', hms, hns, shape], ?_⟩
  intro i q hq r c
  have hi : i < ms.length := hlength ▸ (List.getElem?_eq_some_iff.1 hq).1
  have hm := List.getElem?_eq_getElem hi
  have hn := List.getElem?_eq_getElem (hlen ▸ hi)
  obtain rfl := Option.some.inj ((hpart hm hn).symm.trans hq)
  have hcorner : Axis.diagonal.corner (parts.take i) = ((ms.take i).sum, (ns.take i).sum) := by
    simp [Axis.corner, Axis.step, ← hmap, ← hmap', List.map_take]
  rw [hcorner, mem_triplets_rowBlock, mem_triplets_columnBlock, ncols_rowBlock, hncols hn,
    nrows_rowBlock, Nat.add_sub_cancel_left, Nat.add_sub_cancel_left]
  rfl

/-- The blocks on the diagonal make up the pattern if they cover its nonzeros. -/
theorem joins_of_diagsplit {rows cols : List Nat} (h : p.diagsplit rows cols = .ok parts)
    (hcover : (parts.map nnz).sum = p.nnz) :
    Joins .diagonal parts p ∧ rows = Offsets.ofSizes (parts.map nrows) ∧
      cols = Offsets.ofSizes (parts.map ncols) := by
  obtain ⟨hrows, hcols, hshape, hmem⟩ := diagsplit_spec h
  have hjoin : Joins .diagonal parts (parts.foldr diagonally (empty 0 0)) := rfl
  -- every nonzero of the blocks is one of the pattern, and there are as many
  have hsub : (parts.foldr diagonally (empty 0 0)).triplets ⊆ p.triplets := by
    intro e he
    obtain ⟨i, q, e', hq, he', rfl⟩ := hjoin.exists_part he
    exact ((hmem i q hq e'.1 e'.2).1 he').2.2
  have hperm := (List.subperm_of_subset (nodup_triplets _) hsub).perm_of_length_le
    (by rw [length_triplets, length_triplets, hjoin.nnz_eq, hcover])
  refine ⟨ext_triplets ?_ fun r c => hperm.mem_iff.symm, hrows, hcols⟩
  rw [hshape, shape, hjoin.nrows_diagonal, hjoin.ncols_diagonal]

theorem getElem?_sizes {f : Pattern → Nat} {i : Nat} (h : parts[i]? = some p) :
    (parts.map f)[i]? = some (f p) := by
  rw [List.getElem?_map, h]
  rfl

/-- The place lies in a block on the diagonal of the grid of two tables. -/
def inDiagonal (rows cols : List Nat) (e : Nat × Nat) : Bool :=
  ((Offsets.blocks rows).zip (Offsets.blocks cols)).any fun block =>
    block.1.1 ≤ e.1 && e.1 < block.1.2 && block.2.1 ≤ e.2 && e.2 < block.2.2

theorem inDiagonal_iff {e : Nat × Nat} :
    inDiagonal (Offsets.ofSizes (parts.map nrows)) (Offsets.ofSizes (parts.map ncols)) e = true ↔
      ∃ (i : Nat) (q : Pattern) (e' : Nat × Nat), parts[i]? = some q ∧ e'.1 < q.nrows ∧
        e'.2 < q.ncols ∧ e = shift (Axis.diagonal.corner (parts.take i)) e' := by
  have hcorner (i : Nat) : Axis.diagonal.corner (parts.take i) =
      (((parts.map nrows).take i).sum, ((parts.map ncols).take i).sum) := by
    simp [Axis.corner, Axis.step, List.map_take]
  have hrange {i : Nat} {q : Pattern} (hq : parts[i]? = some q) :=
    Offsets.getElem?_zip_blocks (getElem?_sizes (f := nrows) hq) (getElem?_sizes (f := ncols) hq)
  unfold inDiagonal
  simp only [List.any_eq_true, Bool.and_eq_true, decide_eq_true_eq, List.mem_iff_getElem?]
  constructor
  · rintro ⟨block, ⟨i, hi⟩, hin⟩
    have hlt : i < parts.length := by
      simpa [Offsets.ofSizes] using (List.getElem?_eq_some_iff.1 hi).1
    have hq := List.getElem?_eq_getElem hlt
    obtain rfl := Option.some.inj ((hrange hq).symm.trans hi)
    refine ⟨i, _, (e.1 - ((parts.map nrows).take i).sum, e.2 - ((parts.map ncols).take i).sum), hq,
      by dsimp only at hin ⊢; omega, by dsimp only at hin ⊢; omega, ?_⟩
    rw [hcorner]
    exact Prod.ext (Nat.add_sub_cancel' hin.1.1.1).symm (Nat.add_sub_cancel' hin.1.2).symm
  · rintro ⟨i, q, e', hq, hr, hc, rfl⟩
    refine ⟨_, ⟨i, hrange hq⟩, ?_⟩
    rw [hcorner]
    simp only [shift]
    omega

theorem sum_nnz_of_diagsplit {rows cols : List Nat} (h : p.diagsplit rows cols = .ok parts) :
    (parts.map nnz).sum = p.triplets.countP (inDiagonal rows cols) := by
  obtain ⟨rfl, rfl, -, hmem⟩ := diagsplit_spec h
  have hjoin : Joins .diagonal parts (parts.foldr diagonally (empty 0 0)) := rfl
  have hperm : (parts.foldr diagonally (empty 0 0)).triplets.Perm (p.triplets.filter (inDiagonal
      (Offsets.ofSizes (parts.map nrows)) (Offsets.ofSizes (parts.map ncols)))) := by
    have hnodup := (nodup_triplets p).filter (inDiagonal (Offsets.ofSizes (parts.map nrows))
      (Offsets.ofSizes (parts.map ncols)))
    refine (List.perm_ext_iff_of_nodup (nodup_triplets _) hnodup).2 fun e => ?_
    rw [List.mem_filter, inDiagonal_iff]
    constructor
    · intro he
      obtain ⟨i, q, e', hq, he', rfl⟩ := hjoin.exists_part he
      obtain ⟨hr, hc, hp⟩ := (hmem i q hq e'.1 e'.2).1 he'
      exact ⟨hp, i, q, e', hq, hr, hc, rfl⟩
    · rintro ⟨he, i, q, e', hq, hr, hc, rfl⟩
      exact (hjoin.mem_triplets_iff hq hr hc).2 ((hmem i q hq e'.1 e'.2).2 ⟨hr, hc, he⟩)
  rw [← hjoin.nnz_eq, ← length_triplets, hperm.length_eq, List.countP_eq_length_filter]

/-! ## Splitting what was joined -/

/-- A whole is cut into its parts by cutting out the range of every part. -/
theorem Joins.map_blocks_eq {β : Type} (h : Joins axis parts whole) {ranges : List β}
    {cut : β → Pattern} (hlen : ranges.length = parts.length)
    (hcut : ∀ i p, parts[i]? = some p → ∃ range, ranges[i]? = some range ∧
      (cut range).shape = p.shape ∧ ∀ r c, r < p.nrows → c < p.ncols →
        ((r, c) ∈ (cut range).triplets ↔
          shift (axis.corner (parts.take i)) (r, c) ∈ whole.triplets)) :
    ranges.map cut = parts := by
  refine List.ext_getElem? fun i => ?_
  rcases Nat.lt_or_ge i parts.length with hi | hi
  · have hp := List.getElem?_eq_getElem hi
    obtain ⟨range, hrange, hshape, hmem⟩ := hcut i _ hp
    rw [List.getElem?_map, hrange, hp]
    refine congrArg some (eq_of_mem_iff (congrArg Prod.fst hshape) (congrArg Prod.snd hshape) ?_)
    intro r c hr hc
    rw [hmem r c hr hc, h.mem_triplets_iff hp hr hc]
  · rw [List.getElem?_eq_none (by simpa [hlen] using hi), List.getElem?_eq_none hi]

theorem Joins.horzsplit_eq (h : Joins .horizontal parts whole) :
    whole.horzsplit (Offsets.ofSizes (parts.map ncols)) = .ok parts := by
  refine horzsplit_eq_ok_iff.2 ⟨?_, (h.map_blocks_eq (by simp [Offsets.ofSizes]) ?_).symm⟩
  · rw [h.ncols_horizontal]
    exact Offsets.flaw?_ofSizes _ _
  · intro i p hp
    have hn := getElem?_sizes (f := ncols) hp
    have hle := Offsets.sum_take_add_le hn
    rw [← h.ncols_horizontal] at hle
    refine ⟨_, Offsets.getElem?_blocks_ofSizes hn, ?_, fun r c _ hc => ?_⟩
    · rw [shape, shape, ncols_columnBlock hle, nrows_columnBlock,
        h.1 p (List.mem_of_getElem? hp), Nat.add_sub_cancel_left]
    · rw [mem_triplets_columnBlock, Nat.add_sub_cancel_left]
      simp [hc, shift, Axis.corner, Axis.step, List.map_take]

theorem Joins.vertsplit_eq (h : Joins .vertical parts whole) :
    whole.vertsplit (Offsets.ofSizes (parts.map nrows)) = .ok parts := by
  refine vertsplit_eq_ok_iff.2 ⟨?_, (h.map_blocks_eq (by simp [Offsets.ofSizes]) ?_).symm⟩
  · rw [h.nrows_vertical]
    exact Offsets.flaw?_ofSizes _ _
  · intro i p hp
    have hn := getElem?_sizes (f := nrows) hp
    refine ⟨_, Offsets.getElem?_blocks_ofSizes hn, ?_, fun r c hr _ => ?_⟩
    · rw [shape, shape, nrows_rowBlock, ncols_rowBlock, h.ncols_vertical,
        h.1 p (List.mem_of_getElem? hp), Nat.add_sub_cancel_left]
    · rw [mem_triplets_rowBlock, Nat.add_sub_cancel_left]
      simp [hr, shift, Axis.corner, Axis.step, List.map_take]

theorem Joins.diagsplit_eq (h : Joins .diagonal parts whole) :
    whole.diagsplit (Offsets.ofSizes (parts.map nrows)) (Offsets.ofSizes (parts.map ncols)) =
      .ok parts := by
  refine diagsplit_eq_ok_iff.2
    ⟨?_, ?_, by simp, (h.map_blocks_eq (by simp [Offsets.ofSizes]) ?_).symm⟩
  · rw [h.nrows_diagonal]
    exact Offsets.flaw?_ofSizes _ _
  · rw [h.ncols_diagonal]
    exact Offsets.flaw?_ofSizes _ _
  · intro i p hp
    have hm := getElem?_sizes (f := nrows) hp
    have hn := getElem?_sizes (f := ncols) hp
    have hle := Offsets.sum_take_add_le hn
    rw [← h.ncols_diagonal] at hle
    refine ⟨_, Offsets.getElem?_zip_blocks hm hn, ?_, fun r c hr hc => ?_⟩
    · rw [shape, shape, nrows_rowBlock, ncols_rowBlock, ncols_columnBlock hle,
        Nat.add_sub_cancel_left, Nat.add_sub_cancel_left]
    · rw [mem_triplets_rowBlock, mem_triplets_columnBlock, Nat.add_sub_cancel_left,
        Nat.add_sub_cancel_left]
      simp [hr, hc, shift, Axis.corner, Axis.step, List.map_take]

/-! ## Joining -/

theorem joins_of_horzcat (h : horzcat parts = .ok whole) : Joins .horizontal parts whole := by
  cases parts with
  | nil =>
    obtain rfl := Except.ok.inj h
    exact ⟨by simp, rfl⟩
  | cons p ps =>
    rw [horzcat] at h
    split at h
    · rename_i hrows
      obtain rfl := Except.ok.inj h
      exact ⟨hrows, rfl⟩
    · cases h

theorem joins_of_vertcat (hne : parts ≠ []) (hcols : ∀ p ∈ parts, p.ncols = 1)
    (h : vertcat parts = .ok whole) : Joins .vertical parts whole := by
  obtain ⟨p, ps, rfl⟩ := List.exists_cons_of_ne_nil hne
  rw [vertcat] at h
  split at h
  · cases h
  · refine ⟨hcols, ?_⟩
    cases hrows : checkRows (p :: ps) with
    | error e => simp [hrows, bind, Except.bind] at h
    | ok =>
      rw [hrows, hcols p (by simp)] at h
      exact (Except.ok.inj h).symm

theorem horzcat_ne_error {m : Nat} (hrows : ∀ p ∈ parts, p.nrows = m) (e : GraphError) :
    horzcat parts ≠ .error e := by
  cases parts with
  | nil => exact fun h => by cases h
  | cons p ps =>
    rw [horzcat, dif_pos fun q hq => (hrows q hq).trans (hrows p (by simp)).symm]
    exact fun h => by cases h

theorem checkRows_of_vertcat (hcols : ∀ p ∈ parts, p.ncols = 1) {e : GraphError}
    (h : vertcat parts = .error e) : checkRows parts = .error e := by
  cases parts with
  | nil => cases h
  | cons p ps =>
    have hfind : ps.find? (fun q => q.ncols ≠ p.ncols) = none :=
      List.find?_eq_none.2 fun q hq => by simp [hcols q (by simp [hq]), hcols p (by simp)]
    rw [vertcat, hfind] at h
    cases hc : checkRows (p :: ps) with
    | error e' => simpa [hc, bind, Except.bind] using h
    | ok => simp [hc, bind, Except.bind, pure, Except.pure] at h

theorem joins_of_diagcatChecked (h : diagcatChecked parts = .ok whole) :
    Joins .diagonal parts whole := by
  unfold diagcatChecked at h
  cases hrows : checkRows parts with
  | error e => simp [hrows, bind, Except.bind] at h
  | ok =>
    rw [hrows] at h
    exact (Except.ok.inj h).symm

end Pattern

end DiffGraph
