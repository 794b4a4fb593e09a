import Mathlib
import DiffGraph.Proofs.Collocation.Count
import DiffGraph.Proofs.Collocation.Equations
import DiffGraph.Proofs.Function.Expand

/-!
# The residual function

The blocks are stacked into one column with as many rows as there are unknowns
(`sum_length_blocks`), the totals are filled up to dense columns, and the three together are
compiled. What the residual gives is the collocation system and the sums of the quadrature
terms (`residual_spec`), also when it is expanded.
-/

namespace DiffGraph

open Expr

variable {α : Type} [ExactNumerals α] {env : Nat → Nat → α} {ok : Prop} {m n r : Nat}
  {refused : GraphError → Prop} {G S S' : Set (Expr α)} {x : Expr α} {v : Nat → α}

/-! ## Columns on top of each other -/

theorem gather_column {T : Type} (k : Nat) (M : Nat → Nat → T) :
    (Pattern.column k).gather M = rows k fun i => M i 0 := by
  simp [Pattern.gather, Pattern.triplets, Pattern.column, Pattern.dense, rows, Function.comp_def]

theorem HasColumn.nonzeros_densify (hx : HasColumn env S x r v) :
    (Pattern.dense x.pattern.nrows x.pattern.ncols).gather (Expr.entry env x) = rows r v := by
  rw [hx.nrows, hx.ncols]
  exact (gather_column r _).trans
    (List.map_congr_left fun i hi => hx.entry i (List.mem_range.1 hi))

theorem rows_getElem (xs : List α) : rows xs.length (fun i => xs[i]?.getD 0) = xs := by
  refine List.ext_getElem (by simp [rows]) fun i h₁ h₂ => ?_
  simp [rows, h₂]

theorem gather_joined {xs : List (Expr α)} {blocks : List (List α)} {p : Pattern}
    (hS : IsGraph n S) (hxs : List.Forall₂ (HasRows env S) xs blocks)
    (hjoins : Pattern.Joins .vertical (xs.map Expr.pattern) p) :
    (Pattern.column (blocks.map List.length).sum).gather
      (p.entry (xs.map (nonzeros env)).flatten) = blocks.flatten := by
  have hshapes : ((blocks.map List.length).map Pattern.column).map Pattern.shape =
      (xs.map Expr.pattern).map Pattern.shape := by
    rw [List.map_map, List.map_map, List.map_map]
    refine (map_eq_of_forall₂ hxs fun x b hx => hx.shape.trans ?_).symm
    simp [Pattern.column]
  have hlen : (xs.map (nonzeros env)).map List.length = (xs.map Expr.pattern).map Pattern.nnz := by
    rw [List.map_map, List.map_map]
    refine List.map_congr_left fun x hx => ?_
    obtain ⟨i, hi⟩ := List.mem_iff_getElem?.1 hx
    obtain ⟨b, -, hb⟩ := exists_of_forall₂ hxs.flip hi
    exact hS.length_nonzeros hb.usable.1
  rw [(Pattern.joins_columns _).gather_entry_flatten hjoins hshapes hlen]
  refine congrArg List.flatten ?_
  clear hjoins hshapes hlen
  induction hxs with
  | nil => rfl
  | @cons x b xs blocks hx _ ih =>
    refine congrArg₂ List.cons ?_ ih
    refine (gather_column b.length _).trans ((List.map_congr_left fun i hi => ?_).trans
      (rows_getElem b))
    exact hx.entry i (List.mem_range.1 hi)

theorem grows_stack_rows (hS : IsGraph n S) {xs : List (Expr α)} {blocks : List (List α)}
    (hxs : List.Forall₂ (HasRows env S) xs blocks) (hne : blocks ≠ [])
    (hfits : ¬ Size.Fits ((blocks.map List.length).sum, 1) → refused .misuse) :
    Grows refused n S (do (← vertcat xs).densify) fun S' y =>
      Usable S' y ∧ y.pattern = .column (blocks.map List.length).sum ∧
        nonzeros env y = blocks.flatten := by
  have hcolumns (x : Expr α) (hx : x ∈ xs) : Usable S x ∧ x.pattern.ncols = 1 := by
    obtain ⟨i, hi⟩ := List.mem_iff_getElem?.1 hx
    obtain ⟨c, -, hc⟩ := exists_of_forall₂ hxs.flip hi
    exact ⟨hc.usable, hc.ncols⟩
  have hnil : xs ≠ [] := by
    rintro rfl
    exact hne (List.forall₂_nil_left_iff.1 hxs)
  have hrows : (xs.map fun x => x.pattern.nrows) = blocks.map List.length :=
    map_eq_of_forall₂ hxs fun x b hx => hx.nrows
  refine (grows_stack hS hcolumns hnil (hrows ▸ hfits)).mono ?_
  rintro n' S' y - ⟨hy, hp, p, hjoins, hval⟩
  rw [hrows] at hp hval
  exact ⟨hy, hp, (hval env).trans (gather_joined hS hxs hjoins)⟩

theorem grows_densify_total {column : Prop} {terms : List (Nat → α)} (hS : IsGraph n S)
    (hx : IsTotal column env S x r terms) (hok : ok → column ∧ Size.Fits (r, 1)) :
    Grows (fun _ => ¬ ok) n S x.densify fun S' y =>
      Usable S' y ∧ (column → nonzeros env y = rows r fun i => (terms.map fun q => q i).sum) := by
  refine (grows_densify hS hx.usable fun hbig h => hbig ?_).mono ?_
  · rw [(hx.sum (hok h).1).shape]
    exact (hok h).2
  · rintro n' S' y - ⟨hy, -, hval⟩
    exact ⟨hy, fun hc => (hval env).trans (hx.sum hc).nonzeros_densify⟩

/-! ## Counting the equations -/

namespace Transcription

variable (s : Transcription α)

theorem map_length_pointBlocks (hg : s.backward = none → s.bwd.nrx = 0) (k j : Nat) :
    ((s.pointBlocks k j).map List.length).sum = s.fwd.nx + s.bwd.nrx := by
  cases hb : s.backward with
  | none => simp [pointBlocks, hb, rows, hg hb]
  | some g => simp [pointBlocks, hb, rows]

theorem map_length_jointBlocks (hg : s.backward = none → s.bwd.nrx = 0) (k : Nat) :
    ((s.jointBlocks k).map List.length).sum = s.fwd.nx + s.bwd.nrx := by
  cases hb : s.backward with
  | none => simp [jointBlocks, hb, rows, hg hb]
  | some g => simp [jointBlocks, hb, rows]

omit [ExactNumerals α] in
theorem sum_flatMap_lengths {β : Type} (f : β → List (List α)) (c : Nat) (xs : List β)
    (h : ∀ x ∈ xs, ((f x).map List.length).sum = c) :
    ((xs.flatMap f).map List.length).sum = xs.length * c := by
  induction xs with
  | nil => simp
  | cons x xs ih =>
    rw [List.flatMap_cons, List.map_append, List.sum_append, h x (by simp),
      ih fun y hy => h y (by simp [hy]), List.length_cons, Nat.succ_mul, Nat.add_comm]

/-- There are as many equations as unknowns. -/
theorem sum_length_blocks (hg : s.backward = none → s.bwd.nrx = 0) :
    (s.blocks.map List.length).sum =
      s.elements * (s.degree + 1) * (s.fwd.nx + s.bwd.nrx) := by
  rw [blocks, sum_flatMap_lengths _ ((s.degree + 1) * (s.fwd.nx + s.bwd.nrx)),
    List.length_range, Nat.mul_assoc]
  intro k _
  rw [elementBlocks, List.map_append, List.sum_append, s.map_length_jointBlocks hg,
    sum_flatMap_lengths _ _ _ fun j _ => s.map_length_pointBlocks hg k j, List.length_range',
    Nat.succ_mul]

theorem blocks_ne_nil (h : s.elements ≠ 0) : s.blocks ≠ [] := by
  intro hnil
  rw [blocks, List.flatMap_eq_nil_iff] at hnil
  have := hnil 0 (List.mem_range.2 (Nat.pos_of_ne_zero h))
  simp [elementBlocks, jointBlocks] at this

end Transcription

/-! ## The function -/

namespace Discretization

variable (d : Discretization α)

/-- The outputs stand for the equations and for the sums of quadratures. -/
structure Outputs (s : Transcription α) (outputs : List (List α)) : Prop where
  length : outputs.length = 3
  residual : outputs[0]? = some s.blocks.flatten
  qf : d.f.HasQuadratureColumn →
    outputs[1]? = some (rows d.fwd.nq fun i => (s.quadratures.map fun q => q i).sum)
  rqf : (∀ g, d.g = some g → g.HasQuadratureColumn) →
    outputs[2]? = some (rows d.bwd.nrq fun i => (s.backwardQuadratures.map fun q => q i).sum)

/-- A residual function of the given symbols; at the arguments it gives the collocation system. -/
structure IsResidual (symbols : List (Expr α)) (args : List (List α)) (s : Transcription α)
    (S : Set (Expr α)) (r : Function α) : Prop where
  compiled : r.Compiled S
  inputs : r.inputs = symbols
  unknowns : (r.outputs.map nnz)[0]? = some d.unknowns
  outputs : d.Outputs s (r.outputs.map (nonzeros (Function.assign symbols args)))

variable {s : Transcription α} {t : Trajectory α} {v x0 p rx0 rp : List α} {args : List (List α)}

/-- The residual function for a trajectory that stands for the states of a problem. -/
theorem grows_residualOf (hG : IsGraph m G) (hd : d.WellPosed G)
    (hs : s = d.transcription v x0 p rx0 rp) (hS : IsGraph n S) (hconst : constantsOf G ⊆ S)
    (hin : ∀ x ∈ t.inputs, x ∈ S ∧ x.isSymbol = true)
    (hsym : ∀ x ∈ S, x.isSymbol = true → x ∈ t.inputs) (hv : t.v.nnz = d.unknowns)
    (ht : t.Holds d s (Function.assign t.inputs args) S) :
    Grows (fun _ => ¬ d.Manageable) n S (d.residualOf t) fun S' (r, _) =>
      d.IsResidual t.inputs args s S' r := by
  have hcount : (s.blocks.map List.length).sum = d.unknowns := by
    subst hs
    refine Transcription.sum_length_blocks _ fun hg => hd.unpaired ?_
    exact Option.map_eq_none_iff.1 hg
  have hne : s.blocks ≠ [] := by
    subst hs
    exact Transcription.blocks_ne_nil _ hd.elements
  unfold residualOf
  refine .bind (d.grows_equations hG hd hs hS hconst ht) fun n₁ S₁ eqs h₁ heqs => ?_
  refine .bind (.onGraph (grows_stack_rows h₁.graph heqs.residuals hne fun hbig h => hbig ?_))
    fun n₂ S₂ stacked h₂ hstack => ?_
  · rw [hcount]
    exact h.columns _ (by simp [columnSizes])
  obtain ⟨hstacked, hpattern, hvalue⟩ := hstack
  rw [hcount] at hpattern
  have hnnz : stacked.nnz = d.unknowns := by
    rw [nnz, hpattern]
    simp [Pattern.column]
  rw [if_neg (by rw [hnnz, hv]; simp)]
  refine .bind (.onGraph (grows_densify_total h₂.graph (heqs.qf.mono h₂.subset)
    fun h => ⟨h.forward.quadrature, h.quadratures.1⟩)) fun n₃ S₃ qf h₃ htotal => ?_
  obtain ⟨hqf, hqfv⟩ := htotal
  refine .bind (.onGraph (grows_densify_total h₃.graph (heqs.rqf.mono (h₂.trans h₃).subset)
    fun h => ⟨fun g hg => (h.backward g hg).quadrature, h.quadratures.2⟩))
    fun n₄ S₄ rqf h₄ htotal => ?_
  obtain ⟨hrqf, hrqfv⟩ := htotal
  have hext := h₁.trans (h₂.trans (h₃.trans h₄))
  have houts (o : Expr α) (ho : o ∈ [stacked, qf, rqf]) : Usable S₄ o := by
    simp only [List.mem_cons, List.not_mem_nil, or_false] at ho
    rcases ho with rfl | rfl | rfl
    · exact hstacked.mono (h₃.trans h₄).subset
    · exact hqf.mono h₄.subset
    · exact hrqf
  obtain ⟨r, hr, hcompiled, hrin, hrout, -⟩ := Function.exists_compiled h₄.graph
    (fun x hx => ⟨hext.subset (hin x hx).1, (hin x hx).2⟩)
    (fun x hx hs => hsym x (hext.symbols x hx hs) hs) houts "collocation_residual"
  rw [hr]
  refine .bind (Q := fun _ r' => r' = r) (.onGraph (.pure h₄.graph rfl)) ?_
  rintro n₅ S₅ r' h₅ rfl
  refine .pure h₅.graph ⟨hcompiled.mono h₅.subset, hrin, ?_, ?_⟩
  · rw [hrout]
    exact congrArg some hnnz
  · rw [hrout]
    exact ⟨rfl, congrArg some hvalue, fun hc => congrArg some (hqfv hc),
      fun hc => congrArg some (hrqfv hc)⟩

theorem grows_residual (hS : IsGraph n S) (hd : d.WellPosed S) {S₀ : Set (Expr α)}
    (hadd : AddsSymbols n (constantsOf S) (n + 5) S₀ (d.symbolsFrom n).inputs)
    (hargs : [v, x0, p, rx0, rp].map List.length = d.columnSizes) :
    Grows (fun _ => ¬ d.Manageable) (n + 5) S₀
      (((Assemble.onGraph ((d.symbolsFrom n).v.vertsplit (Offsets.ofSizes d.blockSizes))) >>=
        fun blocks => pure { d.symbolsFrom n with blocks }) >>= d.residualOf)
      fun S' (r, _) => d.IsResidual (d.symbolsFrom n).inputs [v, x0, p, rx0, rp]
        (d.transcription v x0 p rx0 rp) S' r := by
  refine .bind (d.grows_trajectory hd.elements hadd hargs) fun n₁ S₁ t h₁ ⟨hinputs, ht⟩ => ?_
  have hv : t.v.nnz = d.unknowns := by
    rw [(List.cons.inj hinputs).1]
    simp [symbolsFrom, nnz, Expr.pattern, Pattern.column]
  rw [← hinputs]
  rw [← hinputs] at hadd
  refine d.grows_residualOf hS hd rfl h₁.graph (hadd.subset.trans h₁.subset)
    (fun x hx => ⟨h₁.subset (hadd.mem x hx).1, (hadd.mem x hx).2.1⟩) (fun x hx hsym => ?_) hv ht
  refine (hadd.symbols x (h₁.symbols x hx hsym) hsym).resolve_left fun hconst => ?_
  obtain ⟨id, name, q, rfl⟩ := (hS.wellFormed x hconst.1).exists_of_isSymbol hsym
  cases hconst.2.1

/-- The residual function is refused only if the problem is not manageable; it stands for the
collocation system at all arguments. -/
theorem residual_spec (hS : IsGraph n S) (hd : d.WellPosed S)
    (hargs : [v, x0, p, rx0, rp].map List.length = d.columnSizes) :
    match d.residual n with
    | .error _ => ¬ d.Manageable
    | .ok ((r, _), n') => n ≤ n' ∧ (∃ S', IsGraph n' S' ∧ r.Compiled S') ∧
      r.inputs.map Expr.pattern = d.columnSizes.map Pattern.column ∧
      (r.outputs.map nnz)[0]? = some d.unknowns ∧
      ∃ outs, r.evaluate [v, x0, p, rx0, rp] = .ok outs ∧
        d.Outputs (d.transcription v x0 p rx0 rp) outs := by
  obtain ⟨S₀, hadd⟩ := d.exists_addsSymbols hS.constantsOf
  have hrun : d.residual n = (d.trajectory n >>= fun (t, n') => d.residualOf t n') :=
    congrFun d.residual_eq n
  rw [hrun, d.trajectory_eq hd.elements]
  split_ifs with hfits
  · have hgrow := d.grows_residual hS hd hadd hargs
    unfold Grows at hgrow
    show match ((_ : Assemble α (Trajectory α)) >>= d.residualOf) (n + 5) with
      | .error _ => _
      | .ok ((r, _), n') => _
    split
    · rename_i e herror
      rw [herror] at hgrow
      exact hgrow
    · rename_i r times n' hok
      rw [hok] at hgrow
      obtain ⟨S', hext, hr⟩ := hgrow
      have hlens : [v, x0, p, rx0, rp].map List.length = r.inputs.map nnz := by
        rw [hargs, hr.inputs]
        simp [Trajectory.inputs, symbolsFrom, columnSizes, nnz, Expr.pattern, Pattern.column]
      obtain ⟨hgraph, slot, hlayout⟩ := hr.compiled.exists_layout hext.graph
      refine ⟨Nat.le_trans (by omega) hext.le, ⟨S', hext.graph, hr.compiled⟩, ?_, hr.unknowns, _,
        Function.run_eq hlayout hgraph hlens, ?_⟩
      · rw [hr.inputs]
        rfl
      · rw [hr.inputs]
        exact hr.outputs
  · exact fun h => hfits h.columns

end Discretization

end DiffGraph
