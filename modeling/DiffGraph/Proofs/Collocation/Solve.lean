import Mathlib
import DiffGraph.Proofs.Collocation.Prepare

/-!
# What a solve leaves behind

`Collocation.solution` is what a reset for given inputs and seeds has to find: it depends on the
integrator only through the guess. A solve keeps the integrator sound; it succeeds if there is
such a solution, and then the integrator holds it (`Sound.solve`, `Collocation.Holds`). What
`integrate` reads out of an integrator are the quantities of the solution that it holds
(`Holds.integrate`).
-/

namespace DiffGraph

namespace Collocation

variable {α : Type} [OrderedScalar α] {c c' : Collocation α} {inputs : List (List α)}
  {seeds : List (List (List α))} {sol : Newton.Solution α}

def guess (c : Collocation α) (inputs : List (List α)) (seeds : List (List (List α))) :
    Except (Failure α) (List α) :=
  match c.prepare inputs seeds with
  | (c, .ok ()) => .ok c.unknowns
  | (_, .error e) => .error e

/-- What a reset has to find. -/
def solution (c : Collocation α) (inputs : List (List α)) (seeds : List (List (List α))) :
    Except (Failure α) (Newton.Solution α) := do
  let v ← c.guess inputs seeds
  (Newton.solution c.solver.system c.solver.options v inputs seeds).mapError (.within .solving)

/-- The states and quadratures among the outputs of a solution, or among its sensitivities. -/
def quantities (c : Collocation α) (outputs : List (List α)) : Quantities α :=
  c.withStates ⟨[], outputs[1]?.getD [], [], outputs[2]?.getD []⟩ (outputs.headD [])

/-- The integrator has solved for the solution. -/
structure Holds (c : Collocation α) (sol : Newton.Solution α) : Prop where
  once : c.integratedOnce = true
  solved : c.solved = true
  outputs : c.solver.outputs = sol.outputs
  sens : c.solver.sens.take sol.sens.length = sol.sens
  quadratures : c.outputs.qf = sol.outputs[1]?.getD [] ∧ c.outputs.rqf = sol.outputs[2]?.getD []
  sensQuadratures : c.sens.map (fun q => (q.qf, q.rqf)) =
    sol.sens.map fun s => (s[1]?.getD [], s[2]?.getD [])

theorem Prepared.sound (h : c.Prepared inputs seeds c') (hc : c.Sound) : c'.Sound where
  system := h.same.hasSystem hc.system
  startup := h.same.hasStartup hc.startup
  solver := h.solver
  sens := by
    rw [h.sens]
    exact hc.sens.trans h.tables
  once hsolved := by
    rw [h.solved] at hsolved
    cases hsolved

theorem Sound.withSolver (hc : c.Sound) {solver : Newton α} (hsame : c.solver.SameProblem solver)
    (ha : solver.Aligned) : Sound { c with solver } ∧ c.SameProblem { c with solver } := by
  have hproblem : c.SameProblem { c with solver } :=
    { SameProblem.refl c with system := hsame.system, solverOptions := hsame.options }
  have htables : solver.sens.length = c.solver.sens.length := by
    rw [← ha.tables, hsame.seeds, hc.solver.tables]
  refine ⟨⟨hproblem.hasSystem hc.system, hproblem.hasStartup hc.startup, ha, ?_, hc.once⟩, hproblem⟩
  rw [htables]
  exact hc.sens

theorem Sound.collect (hc : c.Sound) {directions : Nat} (houtputs : c.solver.outputs = sol.outputs)
    (hsens : c.solver.sens.take directions = sol.sens) (hdir : sol.sens.length = directions) :
    (c.collect directions).Sound ∧ c.SameProblem (c.collect directions) ∧
      (c.collect directions).Holds sol := by
  have hproblem : c.SameProblem (c.collect directions) := { SameProblem.refl c with }
  refine ⟨⟨hproblem.hasSystem hc.system, hproblem.hasStartup hc.startup, hc.solver, ?_,
    fun _ => rfl⟩, hproblem, ⟨rfl, rfl, houtputs, ?_, ?_, ?_⟩⟩
  · simp [Collocation.collect]
  · rw [hdir]
    exact hsens
  · rw [← houtputs]
    exact ⟨rfl, rfl⟩
  · rw [← hsens]
    simp [Collocation.collect, Function.comp_def]

/-- A solve succeeds if there is a solution, and then the integrator holds it; otherwise the
integrator is closed. It is a misuse only for lack of memory. -/
theorem Sound.solve (hc : c.Sound) (hinputs : c.Accepts inputs)
    (hseeds : ∀ s ∈ seeds, c.Accepts s) :
    (c.solve inputs seeds).1.Sound ∧ c.SameProblem (c.solve inputs seeds).1 ∧
      (c.residual.FitsMemory → NoMisuse (c.solve inputs seeds).2) ∧
      match c.solution inputs seeds with
      | .error e => (c.solve inputs seeds).2 = .error e ∧ (c.solve inputs seeds).1.solved = false ∧
        (c.solve inputs seeds).1.integratedOnce = c.integratedOnce
      | .ok sol => (c.solve inputs seeds).2 = .ok () ∧ (c.solve inputs seeds).1.Holds sol ∧
        sol.sens.length = seeds.length := by
  obtain ⟨hprepared, hmisuse⟩ := hc.prepare hinputs hseeds
  rw [solve_eq]
  rcases hprep : c.prepare inputs seeds with ⟨p, e | u⟩
  · rw [hprep] at hprepared hmisuse
    have hsolution : c.solution inputs seeds = .error e := by
      rw [solution, guess, hprep]
      rfl
    rw [hsolution]
    exact ⟨hprepared.sound hc, hprepared.same, fun _ => .error (hmisuse e rfl), rfl,
      hprepared.solved, hprepared.once⟩
  rw [hprep] at hprepared
  dsimp only at hprepared ⊢
  have hp : p.Sound := hprepared.sound hc
  obtain ⟨h⟩ := hp.system.compiled.exists_semantics
  obtain ⟨haligned, hfine⟩ := Newton.aligned_evaluate h hp.system.square hp.solver
    hprepared.directions
  have hspec := Newton.evaluate_spec hp.solver hp.system.square hprepared.directions
  have hsame := Newton.sameProblem_evaluate hprepared.directions
  rw [hprepared.same.residual] at hfine
  rw [hprepared.loaded.1, hprepared.loaded.2, hprepared.same.system,
    hprepared.same.solverOptions, show p.solver.outputs.headD [] = p.unknowns from rfl] at hspec
  have hsens (sol : Newton.Solution α) (hsol : Newton.solution c.solver.system c.solver.options
      p.unknowns inputs seeds = .ok sol) := Newton.length_of_solution hsol
  have hsolution : c.solution inputs seeds = (Newton.solution c.solver.system c.solver.options
      p.unknowns inputs seeds).mapError (.within .solving) := by
    rw [solution, guess, hprep]
    rfl
  rw [hsolution]
  generalize Newton.solution c.solver.system c.solver.options p.unknowns inputs seeds = found
    at hspec hsens ⊢
  generalize p.solver.evaluate seeds.length = evaluated at haligned hfine hspec hsame ⊢
  obtain ⟨solver, result⟩ := evaluated
  obtain ⟨hsound, hproblem⟩ := hp.withSolver hsame haligned
  have hsolved : p.solved = false := hprepared.solved
  cases found with
  | error e =>
    obtain rfl : result = .error e := hspec
    exact ⟨hsound, hprepared.same.trans hproblem, fun hm => .error (hfine hm e rfl), rfl, hsolved,
      hprepared.once⟩
  | ok sol =>
    obtain ⟨rfl, houtputs, hsensitivities⟩ := hspec
    obtain ⟨hcollected, hstill, hholds⟩ := hsound.collect houtputs hsensitivities (hsens sol rfl)
    exact ⟨hcollected, (hprepared.same.trans hproblem).trans hstill, fun _ => .ok (), rfl, hholds,
      hsens sol rfl⟩

/-! ## Reading a solution -/

theorem Sound.length_quantities (hc : c.Sound) {outputs : List (List α)}
    (houtputs : outputs.map List.length = c.solver.system.outputs.map Pattern.nnz) :
    (c.quantities outputs).xf.length = c.fwd.nx ∧
      (c.quantities outputs).rxf.length = c.bwd.nrx := by
  obtain ⟨v, rest, rfl, hv⟩ := Newton.exists_head hc.system.square houtputs
  have hblock : c.blockSize ≤ v.length := by
    rw [hv, unknownCount]
    exact Nat.le_mul_of_pos_left _ (List.length_pos_iff.2 hc.system.points)
  rw [blockSize] at hblock
  constructor
  · show (v.drop (v.length - c.fwd.nx)).length = c.fwd.nx
    rw [List.length_drop]
    omega
  · show (v.take c.bwd.nrx).length = c.bwd.nrx
    rw [List.length_take]
    omega

omit [OrderedScalar α] in
theorem withStates_eq {q : Quantities α} {outputs : List (List α)}
    (h : q.qf = outputs[1]?.getD [] ∧ q.rqf = outputs[2]?.getD []) :
    c.withStates q (outputs.headD []) = c.quantities outputs := by
  rw [withStates, h.1, h.2]
  rfl

theorem Holds.sens_eq (h : c.Holds sol) (hc : c.Sound) :
    (c.sens.zip c.solver.sens).map (fun (q, s) => c.withStates q (s.headD [])) =
      sol.sens.map c.quantities := by
  have hcount : c.sens.length = sol.sens.length := by
    simpa using congrArg List.length h.sensQuadratures
  have htables := hc.sens
  refine List.ext_getElem (by simp; omega) fun i h₁ h₂ => ?_
  have hi : i < sol.sens.length := by simpa using h₂
  have hq : i < c.sens.length := by omega
  have hs : i < c.solver.sens.length := by omega
  have htake : (c.solver.sens.take sol.sens.length)[i]? = sol.sens[i]? := congrArg (·[i]?) h.sens
  rw [List.getElem?_take_of_lt hi, List.getElem?_eq_getElem hs,
    List.getElem?_eq_getElem hi] at htake
  have hquad := congrArg (·[i]?) h.sensQuadratures
  simp only [List.getElem?_map, List.getElem?_eq_getElem hq, List.getElem?_eq_getElem hi,
    Option.map_some] at hquad
  simp only [List.getElem_map, List.getElem_zip]
  rw [Option.some.inj htake]
  exact withStates_eq (Prod.mk.inj (Option.some.inj hquad))

theorem Holds.length_outputs (h : c.Holds sol) (hc : c.Sound) (s : List (List α))
    (hs : s ∈ sol.outputs :: sol.sens) :
    s.map List.length = c.solver.system.outputs.map Pattern.nnz := by
  rcases List.mem_cons.1 hs with rfl | hs
  · rw [← h.outputs]
    exact hc.solver.outputs
  · rw [← h.sens] at hs
    exact hc.solver.sens s (List.mem_of_mem_take hs)

omit [OrderedScalar α] in
theorem SameProblem.quantities_eq (h : c.SameProblem c') : c'.quantities = c.quantities := by
  funext outputs
  rw [quantities, quantities, withStates, withStates, h.fwd, h.bwd]

def withSolution (c : Collocation α) : Collocation α :=
  { c with
    outputs := c.withStates c.outputs c.unknowns
    sens := (c.sens.zip c.solver.sens).map fun (q, s) => c.withStates q (s.headD []) }

omit [OrderedScalar α] in
theorem sameProblem_withSolution (c : Collocation α) : c.SameProblem c.withSolution :=
  { SameProblem.refl c with }

theorem Sound.withSolution (hc : c.Sound) : c.withSolution.Sound where
  system := c.sameProblem_withSolution.hasSystem hc.system
  startup := c.sameProblem_withSolution.hasStartup hc.startup
  solver := hc.solver
  sens := by simp [Collocation.withSolution]
  once := hc.once

theorem Holds.withSolution (h : c.Holds sol) (hc : c.Sound) : c.withSolution.Holds sol ∧
    c.withSolution.outputs = c.quantities sol.outputs ∧
      c.withSolution.sens = sol.sens.map c.quantities := by
  have hsens : c.withSolution.sens = sol.sens.map c.quantities := h.sens_eq hc
  refine ⟨⟨h.once, h.solved, h.outputs, h.sens, h.quadratures, ?_⟩, ?_, hsens⟩
  · rw [hsens, List.map_map]
    rfl
  · show c.withStates c.outputs (c.solver.outputs.headD []) = _
    rw [h.outputs]
    exact withStates_eq h.quadratures

theorem Holds.integrate_eq (h : c.Holds sol) (t : α) : c.integrate t =
    if OrderedScalar.less t c.options.t0 || OrderedScalar.less c.options.tf t then
      .error (.outsideHorizon t c.options.t0 c.options.tf)
    else .ok c.withSolution := by
  unfold Collocation.integrate
  rw [if_neg (by simp [h.once]), if_neg (by simp [h.solved])]
  rfl

theorem integrate_cases (c : Collocation α) (t : α) :
    (∃ e, c.integrate t = .error e ∧ e.isMisuse = false) ∨ c.integrate t = .ok c.withSolution := by
  unfold Collocation.integrate
  split
  · exact .inl ⟨_, rfl, rfl⟩
  split
  · exact .inl ⟨_, rfl, rfl⟩
  split
  · exact .inl ⟨_, rfl, rfl⟩
  · exact .inr rfl

theorem integrate_of_not_solved (h : c.solved = false) (t : α) :
    c.integrate t = .error (if c.integratedOnce then .notSolved else .notReset) := by
  unfold Collocation.integrate
  rw [h]
  cases c.integratedOnce with
  | false => rfl
  | true => rfl

end Collocation

end DiffGraph
