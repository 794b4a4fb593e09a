import Mathlib
import DiffGraph.Proofs.Collocation.Create
import DiffGraph.Proofs.Collocation.Points
import DiffGraph.Proofs.Collocation.Residual

/-!
# The residual of an integrator

A new integrator discretises its problem (`exact_of_discretize`) and assembles the
residual function, as a matrix function or expanded to scalar expressions. In both
forms the residual gives the equations of the collocation system and the sums of
quadratures (`residual_spec`).
-/

namespace DiffGraph

open Expr

variable {α : Type} [ExactNumerals α] {ok : Prop} {n : Nat} {S S' : Set (Expr α)}
  {refused : Failure α → Prop} {f : Function α} {g : Option (Function α)}
  {options : CollocationOptions α}

namespace Collocation

/-- The discretisation has the values of the problem, and the basis belongs to the points. -/
structure Discretizes (f : Function α) (g : Option (Function α)) (options : CollocationOptions α)
    (d : Discretization α) : Prop extends IsDiscretization f g options d where
  forwardAt : d.f.outputAt = f.outputAt
  backwardAt : d.g.map Function.outputAt = g.map Function.outputAt
  length : d.h = (options.tf - options.t0) / options.elements

/-- In exact arithmetic a discretisation is that of the problem's values. -/
theorem exact_of_discretize (hS : IsGraph n S) (hf : f.Compiled S)
    (hg : ∀ g', g = some g' → g'.Compiled S) {d : Discretization α} {n' : Nat}
    (h : discretize f g options n = .ok (d, n')) :
    ∃ S', Extends n S n' S' ∧ d.WellPosed S' ∧ Discretizes f g options d := by
  obtain ⟨S', hext, hchecked, hd⟩ := discretization_of_ok hS hf hg h
  have hbasis : d.basis = Basis.lagrange d.points := by
    obtain ⟨m, m', hrun⟩ := hd.basis
    have hgrow : Grows (fun _ => True) m ∅ _ _ := Basis.grows_ofPoints (IsGraph.empty m) d.points
    exact (hgrow.exists_of_ok hrun).choose_spec.2
  refine ⟨S', hext, { hchecked with
    points := (Scheme.length_points hd.points).trans (by rw [hd.degree])
    basis := hbasis }, { hd with
    forwardAt := hd.forward.outputAt_eq hS hf hext.graph hchecked.forward
    backwardAt := ?_
    length := hd.h.trans (by rw [OrderedScalar.ofNat_eq_cast]) }⟩
  cases hgd : d.g with
  | none =>
    have hback := hd.backward
    rw [hgd] at hback
    cases hback
    rfl
  | some g₁ =>
    obtain ⟨g', rfl, hdense⟩ := hd.exists_of_dense hgd
    exact congrArg some (hdense.outputAt_eq hS (hg _ rfl) hext.graph (hchecked.backward g₁ hgd))

/-! ## The form of the residual -/

theorem exists_residualForm {r : Function α} (hS : IsGraph n S) (hr : r.Compiled S)
    (expand : Bool) :
    ∃ form n', residualForm r expand n = .ok (form, n') ∧
      form.system.inputs = r.inputs.map Expr.pattern ∧
      form.system.outputs = r.outputs.map Expr.pattern ∧
      ∀ args outs, args.map List.length = r.inputs.map nnz → r.evaluate args = .ok outs →
        Delivers form.FitsMemory (form.system.eval args) outs := by
  obtain ⟨hgraph, slot, hlayout⟩ := hr.exists_layout hS
  cases expand with
  | false =>
    refine ⟨.matrix r, n, rfl, rfl, rfl, fun args outs _ hout => ⟨fun _ => ?_, fun h => ?_⟩⟩
    · exact congrArg (Except.mapError FunctionError.graph) hout
    · exact absurd trivial h
  | true =>
    obtain ⟨t, n', ht, hx⟩ := Function.exists_expansion hS hr n
    refine ⟨.scalar t, n', ?_, hx.inputPatterns, hx.outputPatterns, fun args outs hargs hout => ?_⟩
    · unfold residualForm
      rw [if_pos rfl, ht]
    · obtain rfl := Except.ok.inj (hout.symm.trans (Function.run_eq hlayout hgraph hargs))
      have hrun := hx.run_eq hS hr hargs
      exact ⟨fun h => hrun.trans (if_pos h), fun h => hrun.trans (if_neg h)⟩

/-! ## The assembled residual -/

/-- The collocation problem at the arguments of the residual function. -/
def transcription (f : Function α) (g : Option (Function α)) (options : CollocationOptions α)
    (fwd : ForwardSizes) (bwd : BackwardSizes) (points v x0 p rx0 rp : List α) :
    Transcription α where
  forward := f.outputAt
  backward := g.map Function.outputAt
  fwd := fwd
  bwd := bwd
  elements := options.elements
  degree := options.degree
  t0 := options.t0
  h := (options.tf - options.t0) / options.elements
  points := points
  x := forwardStates fwd.nx bwd.nrx v x0
  rx := backwardStates fwd.nx bwd.nrx (options.elements * (options.degree + 1)) v rx0
  p := fun i => p[i]?.getD 0
  rp := fun i => rp[i]?.getD 0

theorem Discretizes.transcription_eq {d : Discretization α} (hd : Discretizes f g options d)
    (v x0 p rx0 rp : List α) : d.transcription v x0 p rx0 rp =
      transcription f g options d.fwd d.bwd d.points v x0 p rx0 rp := by
  rw [Discretization.transcription, transcription, hd.forwardAt, hd.backwardAt, hd.elements,
    hd.degree, hd.t0, hd.length, Discretization.pointCount, hd.elements, hd.degree]

def argumentLengths (c : Collocation α) (options : CollocationOptions α) : List Nat :=
  [options.elements * (options.degree + 1) * (c.fwd.nx + c.bwd.nrx), c.fwd.nx, c.fwd.np, c.bwd.nrx,
    c.bwd.nrp]

/-- At all arguments the residual of a new integrator gives the outputs that its discretisation
stands for. -/
theorem residual_spec (hS : IsGraph n S) (hf : f.Compiled S)
    (hg : ∀ g', g = some g' → g'.Compiled S) {c : Collocation α} {n' : Nat}
    (h : create f g options n = .ok (c, n')) :
    ∃ d : Discretization α, Discretizes f g options d ∧ c.fwd = d.fwd ∧ c.bwd = d.bwd ∧
      d.elements ≠ 0 ∧ (d.degree ≠ 0 → d.Matches) ∧ ∀ v x0 p rx0 rp : List α,
        [v, x0, p, rx0, rp].map List.length = c.argumentLengths options →
        ∃ outs, Delivers c.residual.FitsMemory (c.residual.system.eval [v, x0, p, rx0, rp]) outs ∧
          d.Outputs (transcription f g options c.fwd c.bwd d.points v x0 p rx0 rp) outs := by
  obtain ⟨d, n₁, r, n₂, n₃, hdisc, hres, hform, hnew⟩ := exists_of_create h
  have hfwd := hnew.fwd
  have hbwd := hnew.bwd
  obtain ⟨S₁, h₁, hwell, hd⟩ := exact_of_discretize hS hf hg hdisc
  have hshapes := d.residual_shapes h₁.graph hwell.toIsChecked
  rw [hres] at hshapes
  obtain ⟨-, _, -, hfun⟩ := hshapes
  refine ⟨d, hd, hfwd, hbwd, hwell.elements, hfun.takes, fun v x0 p rx0 rp hargs => ?_⟩
  have hsizes : [v, x0, p, rx0, rp].map List.length = d.columnSizes := by
    rw [hargs, argumentLengths, hfwd, hbwd, ← hd.elements, ← hd.degree]
    rfl
  have hspec := d.residual_spec h₁.graph hwell hsizes
  rw [hres] at hspec
  obtain ⟨-, ⟨S₂, hS₂, hcompiled⟩, hinputs, -, outs, heval, houts⟩ := hspec
  obtain ⟨form, n₄, hform', -, -, hdelivers⟩ := exists_residualForm hS₂ hcompiled options.expand
  obtain ⟨rfl, -⟩ := Prod.mk.inj (Except.ok.inj (hform.symm.trans hform'))
  refine ⟨outs, hdelivers _ _ ?_ heval, ?_⟩
  · rw [hsizes]
    have hnnz := congrArg (List.map Pattern.nnz) hinputs
    rw [List.map_map, List.map_map] at hnnz
    refine Eq.trans ?_ hnnz.symm
    exact (List.map_congr_left fun k _ => by simp [Pattern.column]).symm.trans
      (List.map_id _) |>.symm
  · rw [hfwd, hbwd, ← hd.transcription_eq]
    exact houts

end Collocation

end DiffGraph
