import Mathlib
import DiffGraph.Proofs.Collocation.Shapes

/-!
# As many equations as unknowns

Over any numbers the residual function of a problem has an equation for every unknown
(`Discretization.residual_shapes`): the table of blocks and the count of the equations are
never wrong, so the assembly is refused only where a constructor of the graph is.
-/

namespace DiffGraph

open Expr

variable {α : Type} [OrderedScalar α] {ok : Prop} {m n r : Nat} {G S : Set (Expr α)} {x : Expr α}

namespace Discretization

variable (d : Discretization α) {t : Trajectory α}

def residualOf (t : Trajectory α) : Assemble α (Function α × List α) := do
  let eqs ← d.equations t
  let stacked ← .onGraph (do (← Expr.vertcat eqs.residuals.toList).densify)
  if stacked.nnz ≠ t.v.nnz then throw (.equationCount stacked.nnz t.v.nnz)
  let qf ← .onGraph eqs.qf.densify
  let rqf ← .onGraph eqs.rqf.densify
  let r ← .onGraph (Function.compile "collocation_residual" t.inputs [stacked, qf, rqf])
  return (r, eqs.times.toList)

theorem residual_eq : d.residual = d.trajectory >>= d.residualOf :=
  rfl

/-- The residual function of a problem, whatever its numbers are: an equation for every unknown and
a time for every point. Where there are collocation points the functions of the problem could be
called with the states, and every quadrature is counted. -/
structure IsResidualFunction (d : Discretization α) (S : Set (Expr α)) (r : Function α)
    (times : List α) : Prop where
  compiled : r.Compiled S
  inputs : r.inputs.map Expr.pattern = d.columnSizes.map Pattern.column
  outputs : ∃ q rq, r.outputs.map nnz = [d.unknowns, q, rq] ∧ (d.degree ≠ 0 →
    q = d.fwd.nq * Problem.quadColumns d.f ∧ rq = d.bwd.nrq * d.backwardQuadColumns)
  times : times.length = d.pointCount
  fits : ∀ k ∈ d.columnSizes, Size.Fits (k, 1)
  takes : d.degree ≠ 0 → d.Matches

theorem grows_densify_total_shape {columns : Nat} (hS : IsGraph n S)
    (hx : HasTotalShape S x r columns) (hok : ok → columns = 1 ∧ Size.Fits (r, 1)) :
    Grows (fun _ => ¬ ok) n S x.densify fun S' y =>
      Usable S' y ∧ (x.shape = (r, columns) → y.nnz = r * columns) := by
  refine (grows_densify hS hx.usable fun hbig h => hbig ?_).mono ?_
  · obtain ⟨hcolumns, hfits⟩ := hok h
    rwa [hx.shape_eq hcolumns, hcolumns]
  · rintro n' S' y - ⟨hy, hp, -⟩
    refine ⟨hy, fun hshape => ?_⟩
    have hrows : x.pattern.nrows = r := congrArg Prod.fst hshape
    have hcols : x.pattern.ncols = columns := congrArg Prod.snd hshape
    rw [nnz, hp, hrows, hcols]
    simp

/-- The equations are as many as the unknowns, so the count is never wrong. -/
theorem grows_residualOf_shapes (hG : IsGraph m G) (hd : d.IsChecked G) (hS : IsGraph n S)
    (hconst : constantsOf G ⊆ S) (hin : ∀ x ∈ t.inputs, x.isSymbol = true)
    (hsym : ∀ x ∈ S, x.isSymbol = true → x ∈ t.inputs) (ht : t.HasShapes d S)
    (hfits : ∀ k ∈ d.columnSizes, Size.Fits (k, 1)) :
    Grows (Unfit d.Manageable) n S (d.residualOf t) fun S' (r, times) =>
      d.IsResidualFunction S' r times := by
  have hv : t.v.pattern = .column d.unknowns := (List.cons.inj ht.inputPatterns).1
  unfold residualOf
  refine .bind (d.grows_equations_shapes hG hd hS hconst ht) fun n₁ S₁ eqs h₁ heqs => ?_
  have hne : eqs.residuals.toList ≠ [] := by
    intro hnil
    have hrows := heqs.rows
    rw [hnil, List.map_nil, List.sum_nil] at hrows
    exact hd.unknowns_ne_zero hrows.symm
  refine .bind (.onGraph (grows_stack h₁.graph heqs.residuals hne fun hbig => absurd ?_ hbig))
    fun n₂ S₂ stacked h₂ hstack => ?_
  · rw [heqs.rows]
    exact hfits _ (by simp [columnSizes])
  obtain ⟨hstacked, hpattern, -⟩ := hstack
  have hnnz : stacked.nnz = d.unknowns := by
    rw [nnz, hpattern, heqs.rows]
    simp [Pattern.column]
  rw [if_neg (by rw [hnnz, nnz, hv]; simp [Pattern.column])]
  refine .bind (.unfit (grows_densify_total_shape h₂.graph (heqs.qf.mono h₂.subset)
    fun h => ⟨h.forward.quadrature, h.quadratures.1⟩)) fun n₃ S₃ qf h₃ htotal => ?_
  obtain ⟨hqf, hq⟩ := htotal
  refine .bind (.unfit (grows_densify_total_shape h₃.graph (heqs.rqf.mono (h₂.trans h₃).subset)
    fun h => ⟨h.backwardQuadColumns_eq, h.quadratures.2⟩)) fun n₄ S₄ rqf h₄ htotal => ?_
  obtain ⟨hrqf, hrq⟩ := htotal
  have hext := h₁.trans (h₂.trans (h₃.trans h₄))
  have houts (o : Expr α) (ho : o ∈ [stacked, qf, rqf]) : Usable S₄ o := by
    simp only [List.mem_cons, List.not_mem_nil, or_false] at ho
    rcases ho with rfl | rfl | rfl
    · exact hstacked.mono (h₃.trans h₄).subset
    · exact hqf.mono h₄.subset
    · exact hrqf
  obtain ⟨r, hr, hcompiled, hrin, hrout, -⟩ := Function.exists_compiled h₄.graph
    (fun x hx => ⟨hext.subset (ht.inputs x hx).1, hin x hx⟩)
    (fun x hx hs => hsym x (hext.symbols x hx hs) hs) houts "collocation_residual"
  rw [hr]
  refine .bind (Q := fun _ r' => r' = r) (.onGraph (.pure h₄.graph rfl)) ?_
  rintro n₅ S₅ r' h₅ rfl
  have hcalled (hdegree : d.degree ≠ 0) : eqs.IsCalled d :=
    heqs.called hdegree (Nat.mul_ne_zero hd.elements (Nat.succ_ne_zero _))
  refine .pure h₅.graph ⟨hcompiled.mono h₅.subset, hrin ▸ ht.inputPatterns,
    ⟨qf.nnz, rqf.nnz, ?_, fun hdegree => ⟨hq (hcalled hdegree).qf, hrq (hcalled hdegree).rqf⟩⟩,
    heqs.times, hfits, fun hdegree => (hcalled hdegree).takes⟩
  rw [hrout, ← hnnz]
  rfl

/-- The residual function of a problem is made unless a function cannot be called with the states
or the memory is too small. -/
theorem residual_shapes (hS : IsGraph n S) (hd : d.IsChecked S) :
    match d.residual n with
    | .error e => Unfit d.Manageable e
    | .ok ((r, times), n') => n ≤ n' ∧ ∃ S', IsGraph n' S' ∧ d.IsResidualFunction S' r times := by
  obtain ⟨S₀, hadd⟩ := d.exists_addsSymbols hS.constantsOf
  have hrun : d.residual n = (d.trajectory n >>= fun (t, n') => d.residualOf t n') :=
    congrFun d.residual_eq n
  rw [hrun, d.trajectory_eq hd.elements]
  split_ifs with hfits
  · have hgrow : Grows (Unfit d.Manageable) (n + 5) S₀
        (((Assemble.onGraph ((d.symbolsFrom n).v.vertsplit (Offsets.ofSizes d.blockSizes))) >>=
          fun blocks => pure { d.symbolsFrom n with blocks }) >>= d.residualOf)
        fun S' (r, times) => d.IsResidualFunction S' r times := by
      refine .bind (d.grows_trajectory_shapes hd.elements hadd) fun n₁ S₁ t h₁ ⟨hinputs, ht⟩ => ?_
      rw [← hinputs] at hadd
      refine d.grows_residualOf_shapes hS hd h₁.graph (hadd.subset.trans h₁.subset)
        (fun x hx => (hadd.mem x hx).2.1) (fun x hx hsym => ?_) ht hfits
      refine (hadd.symbols x (h₁.symbols x hx hsym) hsym).resolve_left fun hconst => ?_
      obtain ⟨id, name, q, rfl⟩ := (hS.wellFormed x hconst.1).exists_of_isSymbol hsym
      cases hconst.2.1
    unfold Grows at hgrow
    show match ((_ : Assemble α (Trajectory α)) >>= d.residualOf) (n + 5) with
      | .error e => _
      | .ok ((r, times), n') => _
    split
    · rename_i e herror
      rw [herror] at hgrow
      exact hgrow
    · rename_i r times n' hok
      rw [hok] at hgrow
      obtain ⟨S', hext, hr⟩ := hgrow
      exact ⟨Nat.le_trans (by omega) hext.le, S', hext.graph, hr⟩
  · exact ⟨⟨_, rfl⟩, fun h => hfits h.columns⟩

end Discretization

end DiffGraph
