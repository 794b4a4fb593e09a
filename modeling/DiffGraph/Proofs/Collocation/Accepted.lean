import Mathlib
import DiffGraph.Proofs.Collocation.System

/-!
# Problems that pass the checks

The checks of a problem look at fewer slots than its assembly. An explicit problem passes
with an empty input for the rates, but is called without one; the backward function of an
implicit problem takes two rates, whose shapes nobody compares; and of the quadratures only
the rows are read. `create_iff_takesStates` says that nothing else goes wrong: a problem that
passed its checks has an integrator with quadratures of the sizes that were read if and only
if these slots are as the assembly has them (`TakesStates`, `HasQuadratureColumn`).
-/

namespace DiffGraph

open Expr

variable {α : Type} {n : Nat} {S : Set (Expr α)} {f f' : Function α} {g : Option (Function α)}
  {fwd : ForwardSizes} {bwd : BackwardSizes}

/-! ## Slots -/

namespace Function

theorem map_shape_inputs (f : Function α) : f.inputs.map shape =
    (List.range f.inputs.length).map fun i => (Problem.patternOf f.inputs i).shape := by
  refine List.ext_getElem (by simp) fun i h₁ h₂ => ?_
  rw [List.length_map] at h₁
  simp only [List.getElem_map, List.getElem_range]
  rw [Problem.patternOf_eq (List.getElem?_eq_getElem h₁)]
  rfl

theorem takes_iff {lengths : List Nat} :
    f.Takes lengths ↔ f.inputs.length = lengths.length ∧
      ((List.range lengths.length).map fun i => (Problem.patternOf f.inputs i).shape) =
        lengths.map fun k => (k, 1) := by
  rw [Takes, map_shape_inputs]
  constructor
  · intro h
    have hlen : f.inputs.length = lengths.length := by simpa using (congrArg List.length h).symm
    exact ⟨hlen, hlen ▸ h.symm⟩
  · rintro ⟨hlen, h⟩
    rw [hlen, h]

theorem FitsMemory.column (hm : f.FitsMemory) (hS : IsGraph n S) (hf : f.Compiled S) {i k : Nat}
    (hi : i < f.inputs.length) (h : (Problem.patternOf f.inputs i).shape = (k, 1)) :
    Size.Fits (k, 1) := by
  have hx := List.getElem?_eq_getElem hi
  rw [Problem.patternOf_eq hx] at h
  exact h ▸ hm.input hS hf (List.getElem_mem hi)

theorem FitsMemory.quadratures (hm : f.FitsMemory) (hS : IsGraph n S) (hf : f.Compiled S)
    {states r : Nat} (h : Problem.Yields f states r) (hcolumn : f.HasQuadratureColumn) :
    Size.Fits (r, 1) := by
  by_cases hr : r = 0
  · subst hr
    decide
  · obtain ⟨q, hq, hshape⟩ := h.exists_quadrature hr
    rw [show Problem.quadColumns f = 1 from hcolumn] at hshape
    exact hshape ▸ hm.output hS hf (List.mem_of_getElem? hq)

theorem FitsMemory.nrows_lt (hm : f.FitsMemory) (hS : IsGraph n S) (hf : f.Compiled S)
    {states r : Nat} (h : Problem.Yields f states r) (hcolumn : f.HasQuadratureColumn)
    (hlen : f.outputs.length ≤ 2) {o : Expr α} (ho : o ∈ f.outputs) :
    o.pattern.nrows < Size.wordLimit := by
  have hlt {k : Nat} (hk : Size.Fits (k, 1)) : k < Size.wordLimit :=
    Nat.lt_of_lt_of_le (by simpa using hk.2) (by decide)
  obtain ⟨i, hi⟩ := List.mem_iff_getElem?.1 ho
  have hlast := (List.getElem?_eq_some_iff.1 hi).1
  obtain rfl | rfl : i = 0 ∨ i = 1 := by omega
  · obtain ⟨o', ho', hshape⟩ := h.rate
    obtain rfl := Option.some.inj (hi.symm.trans ho')
    have hfits := hm.output hS hf ho
    rw [hshape] at hfits
    rw [show o.pattern.nrows = states from congrArg Prod.fst hshape]
    exact hlt hfits
  · have hrows : Problem.quadRows f = o.pattern.nrows := by
      rw [Problem.quadRows, hi]
      rfl
    rw [← hrows, h.quadratures]
    exact hlt (hm.quadratures hS hf h hcolumn)

end Function

theorem DenseVersion.callable [Scalar α] (h : DenseVersion f f') (hm : f.FitsMemory)
    (hS : IsGraph n S) (hf : f.Compiled S) {states r : Nat} (hyields : Problem.Yields f states r)
    (hcolumn : f.HasQuadratureColumn) (hlen : f.outputs.length ≤ 2) {lengths : List Nat}
    (htakes : f'.Takes lengths) : f'.Callable lengths :=
  ⟨htakes, h.memory hm fun _ ho => hm.nrows_lt hS hf hyields hcolumn hlen ho,
    h.quadColumns_eq.trans hcolumn⟩

namespace Problem

/-- The slots that the checks do not compare: an explicit problem has no input for the rates, and
the backward function of an implicit problem takes the rates of both states. -/
structure TakesStates (f : Function α) (g : Option (Function α)) (fwd : ForwardSizes)
    (bwd : BackwardSizes) : Prop where
  inputs : fwd.explicit = true → f.inputs.length = 3
  rates : fwd.explicit = false → ∀ g', g = some g' →
    (patternOf g'.inputs 5).shape = (fwd.nx, 1) ∧ (patternOf g'.inputs 6).shape = (bwd.nrx, 1)

/-- Every place of the quadratures is a row of them if and only if they are in one column. -/
theorem Yields.mul_quadColumns_eq_iff {states r : Nat} (h : Yields f states r) :
    r * quadColumns f = r ↔ f.HasQuadratureColumn := by
  by_cases hr : r = 0
  · subst hr
    exact iff_of_true (Nat.zero_mul _) h.quadColumns_eq
  · exact Nat.mul_eq_left hr

end Problem

namespace Collocation

variable [OrderedScalar α] {options : CollocationOptions α} {d : Discretization α}

/-- The functions of the discretisation take the arguments of the assembly if and only if the slots
that the checks passed over are as the assembly has them. -/
theorem IsDiscretization.matches_iff (hd : IsDiscretization f g options d) :
    d.Matches ↔ Problem.TakesStates f g d.fwd d.bwd := by
  have hsizes := Problem.forwardSizes_spec hd.fwd
  constructor
  · intro h
    refine ⟨fun hexplicit => ?_, fun himplicit g' hg => ?_⟩
    · have hlen := (Function.takes_iff.1 h.forward).1
      rw [Discretization.forwardLengths, hexplicit] at hlen
      exact hd.forward.inputs ▸ hlen
    · obtain ⟨g₁, hg₁, hdense⟩ := hd.exists_dense hg
      have hshapes := (Function.takes_iff.1 (h.backward g₁ hg₁)).2
      rw [hdense.inputs, Discretization.backwardLengths, himplicit] at hshapes
      -- The rates are the last two arguments.
      have hat (i : Nat) := congrArg (·[i]?) hshapes
      exact ⟨Option.some.inj (hat 5), Option.some.inj (hat 6)⟩
  · intro h
    constructor
    · have hx := (Problem.columnLength_spec hsizes.nx).1
      have hp := (Problem.columnLength_spec hsizes.np).1
      rw [Function.takes_iff, hd.forward.inputs, Discretization.forwardLengths]
      cases hexplicit : d.fwd.explicit with
      | true =>
        refine ⟨h.inputs hexplicit, ?_⟩
        simp [List.range_succ, hx, hp, hsizes.time]
      | false =>
        obtain ⟨hlen, hrates⟩ := hsizes.implicit hexplicit
        refine ⟨hlen, ?_⟩
        simp [List.range_succ, hx, hp, hsizes.time, (Problem.columnLength_spec hrates).1]
    · intro g₁ hg₁
      obtain ⟨g', rfl, hdense⟩ := hd.exists_of_dense hg₁
      have hback := Problem.backwardSizes_spec (hd.bwd g' rfl)
      have hrx := (Problem.columnLength_spec hback.nrx).1
      have hrp := (Problem.columnLength_spec hback.nrp).1
      have hx := (Problem.columnLength_spec hback.nx).1
      have hp := (Problem.columnLength_spec hback.np).1
      have hlen := hback.inputs
      rw [Function.takes_iff, hdense.inputs, Discretization.backwardLengths]
      cases hexplicit : d.fwd.explicit with
      | true =>
        rw [hexplicit] at hlen
        refine ⟨hlen, ?_⟩
        simp [List.range_succ, hrx, hrp, hx, hp, hback.time]
      | false =>
        obtain ⟨hrate, hrrate⟩ := h.rates hexplicit g' rfl
        rw [hexplicit] at hlen
        refine ⟨hlen, ?_⟩
        simp [List.range_succ, hrx, hrp, hx, hp, hback.time, hrate, hrrate]

/-! ## Integrators -/

/-- What passes all checks: sizes that can be read off the problem, a horizon, elements, a degree of
the tables, a solver with options that it accepts, and no startup integrator. -/
structure Accepted (f : Function α) (g : Option (Function α)) (options : CollocationOptions α)
    (fwd : ForwardSizes) (bwd : BackwardSizes) : Prop where
  forward : Problem.forwardSizes f = .ok fwd
  backward : ∀ g', g = some g' → Problem.backwardSizes g' fwd = .ok bwd
  unpaired : g = none → bwd = ⟨0, 0, 0⟩
  elements : options.elements ≠ 0
  horizon : checkHorizon options.t0 options.tf = .ok ()
  degree : 1 ≤ options.degree ∧ options.degree ≤ 5
  solver : options.solver ∈ solverNames
  solverOptions : Newton.Accepts options.solverOptions
  startup : options.startup = none

/-- The memory holds the functions of the problem and the unknowns. -/
structure FitsMemory (f : Function α) (g : Option (Function α)) (options : CollocationOptions α)
    (fwd : ForwardSizes) (bwd : BackwardSizes) : Prop where
  forward : f.FitsMemory
  backward : ∀ g', g = some g' → g'.FitsMemory
  unknowns : Size.Fits (options.elements * (options.degree + 1) * (fwd.nx + bwd.nrx), 1)

theorem Accepted.discretizable (h : Accepted f g options fwd bwd)
    (hm : FitsMemory f g options fwd bwd) (hS : IsGraph n S) (hf : f.Compiled S)
    (hg : ∀ g', g = some g' → g'.Compiled S) : Discretizable f g options where
  elements := h.elements
  horizon := h.horizon
  points := Scheme.exists_points_iff.2 h.degree
  forward := ⟨fwd, h.forward, fun g' hg' => ⟨bwd, h.backward g' hg'⟩⟩
  outputs _ ho := hm.forward.output hS hf ho
  backwardOutputs g' hg' _ ho := (hm.backward g' hg').output hS (hg g' hg') ho

theorem Accepted.sizes_eq (h : Accepted f g options fwd bwd)
    (hd : IsDiscretization f g options d) : d.fwd = fwd ∧ d.bwd = bwd := by
  obtain rfl : d.fwd = fwd := Except.ok.inj (hd.fwd.symm.trans h.forward)
  refine ⟨rfl, ?_⟩
  cases g with
  | none => rw [hd.unpaired rfl, h.unpaired rfl]
  | some g' => exact Except.ok.inj ((hd.bwd g' rfl).symm.trans (h.backward g' rfl))

theorem IsDiscretization.backwardQuadColumns_eq (hd : IsDiscretization f g options d) :
    d.backwardQuadColumns = (g.map Problem.quadColumns).getD 1 := by
  unfold Discretization.backwardQuadColumns
  cases hg₁ : d.g with
  | none =>
    cases hg : g with
    | none => rfl
    | some g' =>
      obtain ⟨g₁, hsome, -⟩ := hd.exists_dense hg
      cases hg₁.symm.trans hsome
  | some g₁ =>
    obtain ⟨g', rfl, hdense⟩ := hd.exists_of_dense hg₁
    exact hdense.quadColumns_eq

theorem IsDiscretization.backward_fits (hd : IsDiscretization f g options d)
    (hm : ∀ g', g = some g' → g'.FitsMemory) (hS : IsGraph n S)
    (hg : ∀ g', g = some g' → g'.Compiled S)
    (hback : ∀ g', g = some g' → g'.HasQuadratureColumn) :
    Size.Fits (d.bwd.nrx, 1) ∧ Size.Fits (d.bwd.nrp, 1) ∧ Size.Fits (d.bwd.nrq, 1) := by
  cases g with
  | none =>
    rw [hd.unpaired rfl]
    decide
  | some g' =>
    have hsizes := Problem.backwardSizes_spec (hd.bwd g' rfl)
    have hyields := Problem.backwardSizes_yields (hd.bwd g' rfl)
    have hlen : 5 ≤ g'.inputs.length := by
      rw [hsizes.inputs]
      split <;> decide
    have hfits := hm g' rfl
    have hcompiled := hg g' rfl
    exact ⟨hfits.column hS hcompiled (by omega) (Problem.columnLength_spec hsizes.nrx).1,
      hfits.column hS hcompiled (by omega) (Problem.columnLength_spec hsizes.nrp).1,
      hfits.quadratures hS hcompiled hyields (hback g' rfl)⟩

/-- A problem that passed its checks is manageable if the other slots are as the assembly has
them. -/
theorem Accepted.manageable (h : Accepted f g options fwd bwd)
    (hm : FitsMemory f g options fwd bwd) (hS : IsGraph n S) (hf : f.Compiled S)
    (hg : ∀ g', g = some g' → g'.Compiled S) (hd : IsDiscretization f g options d)
    (htakes : Problem.TakesStates f g fwd bwd) (hcolumn : f.HasQuadratureColumn)
    (hback : ∀ g', g = some g' → g'.HasQuadratureColumn) : d.Manageable := by
  obtain ⟨rfl, rfl⟩ := h.sizes_eq hd
  have hmatches := hd.matches_iff.2 htakes
  have hsizes := Problem.forwardSizes_spec hd.fwd
  have hyields := Problem.forwardSizes_yields hd.fwd
  have hinputs := hsizes.inputs.1
  obtain ⟨hnrx, hnrp, hnrq⟩ := hd.backward_fits hm.backward hS hg hback
  refine {
    columns := fun k hk => ?_
    quadratures := ⟨hm.forward.quadratures hS hf hyields hcolumn, hnrq⟩
    forward := hd.forward.callable hm.forward hS hf hyields hcolumn hsizes.outputs.2
      hmatches.forward
    backward := fun g₁ hg₁ => ?_ }
  · simp only [Discretization.columnSizes, List.mem_cons, List.not_mem_nil, or_false] at hk
    rcases hk with rfl | rfl | rfl | rfl | rfl
    · rw [Discretization.unknowns, Discretization.pointCount, hd.elements, hd.degree]
      exact hm.unknowns
    · exact hm.forward.column hS hf (by omega) (Problem.columnLength_spec hsizes.nx).1
    · exact hm.forward.column hS hf (by omega) (Problem.columnLength_spec hsizes.np).1
    · exact hnrx
    · exact hnrp
  · obtain ⟨g', rfl, hdense⟩ := hd.exists_of_dense hg₁
    exact hdense.callable (hm.backward g' rfl) hS (hg g' rfl)
      (Problem.backwardSizes_yields (hd.bwd g' rfl)) (hback g' rfl)
      (Problem.backwardSizes_spec (hd.bwd g' rfl)).outputs.2 (hmatches.backward g₁ hg₁)

/-- A problem that passed its checks has an integrator if the other slots are as the assembly has
them. -/
theorem Accepted.exists_integrator (h : Accepted f g options fwd bwd)
    (hm : FitsMemory f g options fwd bwd) (hS : IsGraph n S) (hf : f.Compiled S)
    (hg : ∀ g', g = some g' → g'.Compiled S) (htakes : Problem.TakesStates f g fwd bwd)
    (hcolumn : f.HasQuadratureColumn) (hback : ∀ g', g = some g' → g'.HasQuadratureColumn) :
    ∃ c n', create f g options n = .ok (c, n') := by
  have hgrow : Grows (fun _ => ¬ True) n S (discretize f g options) _ :=
    grows_discretize hS hf hg fun _ => h.discretizable hm hS hf hg
  unfold Grows at hgrow
  split at hgrow
  swap
  · exact absurd trivial hgrow
  rename_i d n₁ hd
  obtain ⟨S₁, h₁, hchecked, hdisc⟩ := hgrow
  have hspec := d.residual_shapes h₁.graph hchecked
  split at hspec
  · exact absurd (h.manageable hm hS hf hg hdisc htakes hcolumn hback) hspec.2
  rename_i r times n₂ hr
  obtain ⟨-, S₂, hS₂, hres⟩ := hspec
  obtain ⟨form, n₃, hform⟩ := exists_form hS₂ hres.compiled options.expand n₂
  obtain ⟨-, hin, hout⟩ := isCompiled_of_residualForm hS₂ hres.compiled hform
  obtain ⟨solver, hsolver⟩ :=
    Newton.exists_create (isSquare_of_residual hchecked hres hin hout) h.solverOptions
  have hnamed : createSolver options.solver form.system options.solverOptions = .ok solver := by
    unfold createSolver
    rw [if_pos (by simpa using h.solver), hsolver]
  obtain ⟨c, hc⟩ := exists_create hd hr hform hnamed h.startup
  exact ⟨c, n₃, hc⟩

def outputSizes (c : Collocation α) : List Nat :=
  c.residual.system.outputs.map Pattern.nnz

/-- An integrator of a problem that passed its checks takes its states, and counts every place of
its quadratures. -/
theorem Accepted.outputSizes_eq (h : Accepted f g options fwd bwd) (hS : IsGraph n S)
    (hf : f.Compiled S) (hg : ∀ g', g = some g' → g'.Compiled S) {c : Collocation α} {n' : Nat}
    (hc : create f g options n = .ok (c, n')) :
    Problem.TakesStates f g fwd bwd ∧ c.outputSizes = [c.unknownCount,
      fwd.nq * Problem.quadColumns f, bwd.nrq * (g.map Problem.quadColumns).getD 1] := by
  obtain ⟨d, n₁, S₁, S₂, r, -, -, hdisc, hres, -, -, hout, hcount, -⟩ :=
    residual_of_create hS hf hg hc
  obtain ⟨rfl, rfl⟩ := h.sizes_eq hdisc
  -- At a collocation point the functions are called and their quadratures are added.
  have hdegree : d.degree ≠ 0 := by
    have := h.degree.1
    rw [hdisc.degree]
    omega
  obtain ⟨q, rq, houtputs, hcounted⟩ := hres.outputs
  obtain ⟨rfl, rfl⟩ := hcounted hdegree
  refine ⟨hdisc.matches_iff.1 (hres.takes hdegree), ?_⟩
  rw [outputSizes, hout, List.map_map, hcount, ← hdisc.forward.quadColumns_eq,
    ← hdisc.backwardQuadColumns_eq]
  exact houtputs

/-- A problem that passed its checks has an integrator with the quadratures that the checks have
counted, if and only if it takes the states as the assembly gives them and its quadratures are in
one column. A problem that does not take the states has no integrator at all. -/
theorem create_iff_takesStates (hS : IsGraph n S) (hf : f.Compiled S)
    (hg : ∀ g', g = some g' → g'.Compiled S) (h : Accepted f g options fwd bwd)
    (hm : FitsMemory f g options fwd bwd) :
    ((∃ c n', create f g options n = .ok (c, n')) → Problem.TakesStates f g fwd bwd) ∧
      ((∃ c n', create f g options n = .ok (c, n') ∧
          c.outputSizes = [c.unknownCount, fwd.nq, bwd.nrq]) ↔
        Problem.TakesStates f g fwd bwd ∧ f.HasQuadratureColumn ∧
          ∀ g', g = some g' → g'.HasQuadratureColumn) := by
  have hforward := (Problem.forwardSizes_yields h.forward).mul_quadColumns_eq_iff
  have hbackward : bwd.nrq * (g.map Problem.quadColumns).getD 1 = bwd.nrq ↔
      ∀ g', g = some g' → g'.HasQuadratureColumn := by
    cases g with
    | none => exact iff_of_true (Nat.mul_one _) nofun
    | some g' =>
      refine (Problem.backwardSizes_yields (h.backward g' rfl)).mul_quadColumns_eq_iff.trans ?_
      simp
  refine ⟨fun ⟨c, n', hc⟩ => (h.outputSizes_eq hS hf hg hc).1, ?_, ?_⟩
  · rintro ⟨c, n', hc, hsizes⟩
    obtain ⟨htakes, hcounted⟩ := h.outputSizes_eq hS hf hg hc
    obtain ⟨-, hq, hrq, -⟩ : _ ∧ _ ∧ _ ∧ _ := by
      simpa only [List.cons.injEq] using hcounted.symm.trans hsizes
    exact ⟨htakes, hforward.1 hq, hbackward.1 hrq⟩
  · rintro ⟨htakes, hcolumn, hback⟩
    obtain ⟨c, n', hc⟩ := h.exists_integrator hm hS hf hg htakes hcolumn hback
    refine ⟨c, n', hc, ?_⟩
    rw [(h.outputSizes_eq hS hf hg hc).2, hforward.2 hcolumn, hbackward.2 hback]

end Collocation

/-! ## An empty input for the rates -/

namespace Growth

def noRates : Expr Rat :=
  .node 3 (.symbol "dx") [] (.column 0) []

def rate : Expr Rat :=
  .node 4 (.binary .mul .none) [p, x] .scalar []

/-- The state `x` grows at the rate `p`; there is an input for the rates of change, but it is
empty. -/
def withEmptyRates : Function Rat :=
  ⟨"growth", [x, p, t, noRates], [rate], [⟨rate, [1, 0], [some 4]⟩],
    #[.scalar, .scalar, .scalar, .column 0, .scalar], [0, 1, 2, 3], [4]⟩

theorem exists_compiled_withEmptyRates : ∃ S, IsGraph 5 S ∧ withEmptyRates.Compiled S := by
  have hx : Built 1 [x] := .symbol "x" _ .start
  have hp : Built 2 [p, x] := .symbol "p" _ hx
  have ht : Built 3 [t, p, x] := .symbol "t" _ hp
  have hrates : Built 4 [noRates, t, p, x] := .symbol "dx" _ ht
  have hslope : Built 5 [rate, noRates, t, p, x] :=
    .make (.binary .mul p x) hrates (by simp [Construction.operands]) rfl
  have hf : Function.compile "growth" [x, p, t, noRates] [rate] = .ok withEmptyRates := by cbv
  exact ⟨_, Function.compiled_of_built hslope (by simp) (by simp) hf⟩

def oneElement : CollocationOptions Rat :=
  { CollocationOptions.default with elements := 1, degree := 1 }

theorem accepted_oneElement {f : Function Rat} {fwd : ForwardSizes}
    (h : Problem.forwardSizes f = .ok fwd) :
    Collocation.Accepted f none oneElement fwd ⟨0, 0, 0⟩ where
  forward := h
  backward := nofun
  unpaired _ := rfl
  elements := by decide
  horizon := by cbv
  degree := by decide
  solver := by decide
  solverOptions := Newton.accepts_default.1
  startup := rfl

end Growth

namespace Collocation

/-- Growth at a constant rate has an integrator, but not with an empty input for the rates. -/
theorem create_iff_takesStates_growth :
    (∃ c n', create Growth.problem none Growth.oneElement 5 = .ok (c, n') ∧
      c.outputSizes = [c.unknownCount, 1, 0]) ∧
    Problem.forwardSizes Growth.withEmptyRates = .ok ⟨1, 1, 0, true⟩ ∧
      ¬ ∃ c n', create Growth.withEmptyRates none Growth.oneElement 5 = .ok (c, n') := by
  have hsizes : Problem.forwardSizes Growth.problem = .ok ⟨1, 1, 1, true⟩ := by cbv
  have hsizes' : Problem.forwardSizes Growth.withEmptyRates = .ok ⟨1, 1, 0, true⟩ := by cbv
  obtain ⟨S, hS, hf⟩ := Growth.exists_compiled
  obtain ⟨S', hS', hf'⟩ := Growth.exists_compiled_withEmptyRates
  have hfits (f : Function Rat) (hslots : ∀ p ∈ f.slots, Size.Fits p.shape)
      (hnodes : ∀ ins ∈ f.instructions, (ins.node.deps.map fun d => d.pattern.nrows).sum <
        Size.wordLimit ∧ (ins.node.patterns.map Pattern.nrows).sum < Size.wordLimit) :
      f.FitsMemory :=
    ⟨fun _ p hp => hslots p (Array.mem_of_getElem? hp), fun ins h => (hnodes ins h).1,
      fun ins h => (hnodes ins h).2⟩
  refine ⟨?_, hsizes', fun h => ?_⟩
  · exact (create_iff_takesStates hS hf (g := none) (by simp)
      (Growth.accepted_oneElement hsizes)
      ⟨hfits _ (by decide) (by decide), by simp, by decide⟩).2.2
        ⟨⟨fun _ => rfl, by simp⟩, rfl, by simp⟩
  · have htakes := (create_iff_takesStates hS' hf' (g := none) (by simp)
      (Growth.accepted_oneElement hsizes')
      ⟨hfits _ (by decide) (by decide), by simp, by decide⟩).1 h
    exact absurd (htakes.inputs rfl) (by decide)

end Collocation

end DiffGraph
