import Mathlib
import DiffGraph.Collocation.Integrator
import DiffGraph.Proofs.Collocation.Count
import DiffGraph.Proofs.Collocation.Problem
import DiffGraph.Proofs.Function.Expand
import DiffGraph.Proofs.Integrate.Startup
import DiffGraph.Proofs.Solve.Newton

/-!
# New integrators

What `create` puts together, over any numbers: the discretisation is that of the problem
(`grows_discretize`), the residual is a compiled system with as many equations as unknowns
(`parts_of_create`), the solver has buffers of its lengths and the startup integrator
follows the forward function.
-/

namespace DiffGraph

open Expr

variable {α : Type} {ok : Prop} {n : Nat} {S S' : Set (Expr α)} {refused : Failure α → Prop}
  {f : Function α} {g : Option (Function α)} {options : CollocationOptions α}

/-- The memory runs the residual; only scalar expressions keep temporaries. -/
def Residual.FitsMemory : Residual α → Prop
  | .matrix _ => True
  | .scalar f => f.FitsMemory

theorem step_bind_eq {β γ : Type} {step : Assemble α β} {next : β → Assemble α γ} {b : β}
    {n n' : Nat} (h : step n = .ok (b, n')) : (step >>= next) n = next b n' := by
  show (step n >>= fun out => next out.1 out.2) = next b n'
  rw [h]
  rfl

theorem ok_of_lift {β : Type} {check : Except (Failure α) β} {r : β} {n n' : Nat}
    (h : (liftM check : Assemble α β) n = .ok (r, n')) : check = .ok r := by
  cases check with
  | error e => cases h
  | ok b =>
    obtain ⟨rfl, -⟩ := Prod.mk.inj (Except.ok.inj h)
    rfl

theorem grows_check {β γ : Type} {check : Except (Failure α) β} {step : β → Assemble α γ}
    {Q : Set (Expr α) → γ → Prop} (hcheck : ∀ e, check = .error e → refused e)
    (h : ∀ b, check = .ok b → Grows refused n S (step b) Q) :
    Grows refused n S ((liftM check : Assemble α β) >>= step) Q := by
  cases check with
  | error e => exact hcheck e rfl
  | ok b => exact h b rfl

namespace Collocation

variable [OrderedScalar α]

/-! ## Discretisations -/

/-- What the discretisation of a problem consists of. -/
structure IsDiscretization (f : Function α) (g : Option (Function α))
    (options : CollocationOptions α) (d : Discretization α) : Prop where
  forward : DenseVersion f d.f
  backward : Option.Rel DenseVersion g d.g
  fwd : Problem.forwardSizes f = .ok d.fwd
  bwd : ∀ g', g = some g' → Problem.backwardSizes g' d.fwd = .ok d.bwd
  unpaired : g = none → d.bwd = ⟨0, 0, 0⟩
  elements : d.elements = options.elements
  degree : d.degree = options.degree
  t0 : d.t0 = options.t0
  h : d.h = (options.tf - options.t0) / OrderedScalar.ofNat options.elements
  points : options.scheme.points options.degree = .ok d.points
  basis : ∃ m m', Basis.ofPoints d.points m = .ok (d.basis, m')

namespace IsDiscretization

variable {d : Discretization α} {g' : Function α}

theorem exists_dense (hd : IsDiscretization f g options d) (hg : g = some g') :
    ∃ g₁, d.g = some g₁ ∧ DenseVersion g' g₁ := by
  have hback := hd.backward
  rw [hg] at hback
  generalize d.g = dense at hback ⊢
  cases hback with
  | some h => exact ⟨_, rfl, h⟩

theorem exists_of_dense (hd : IsDiscretization f g options d) {g₁ : Function α}
    (hg₁ : d.g = some g₁) : ∃ g', g = some g' ∧ DenseVersion g' g₁ := by
  cases hg : g with
  | none =>
    have hback := hd.backward
    rw [hg, hg₁] at hback
    cases hback
  | some g' =>
    obtain ⟨g₂, hg₂, hdense⟩ := hd.exists_dense hg
    obtain rfl := Option.some.inj (hg₂.symm.trans hg₁)
    exact ⟨g', rfl, hdense⟩

end IsDiscretization

/-- The problem passes all checks, and the memory holds its outputs. -/
structure Discretizable (f : Function α) (g : Option (Function α))
    (options : CollocationOptions α) : Prop where
  elements : options.elements ≠ 0
  horizon : checkHorizon options.t0 options.tf = .ok ()
  points : ∃ points : List α, options.scheme.points options.degree = .ok points
  forward : ∃ fwd, Problem.forwardSizes f = .ok fwd ∧
    ∀ g', g = some g' → ∃ bwd, Problem.backwardSizes g' fwd = .ok bwd
  outputs : ∀ o ∈ f.outputs, Size.Fits o.shape
  backwardOutputs : ∀ g', g = some g' → ∀ o ∈ g'.outputs, Size.Fits o.shape

theorem grows_basis (hS : IsGraph n S) (points : List α) :
    Grows refused n S (fun n => (Basis.ofPoints points n).mapError fun e =>
      Failure.within .lagrangeBasis (.graph e)) fun _ b =>
        ∃ m m', Basis.ofPoints points m = .ok (b, m') :=
  .mapError (((Basis.grows_ofPoints_scalars hS points).of_run
    (P := fun b => ∃ m m', Basis.ofPoints points m = .ok (b, m')) fun _ _ hb => ⟨_, _, hb⟩).mono
      fun _ _ _ _ h => h.2)

theorem grows_discretize (hS : IsGraph n S) (hf : f.Compiled S)
    (hg : ∀ g', g = some g' → g'.Compiled S) (hok : ok → Discretizable f g options) :
    Grows (fun _ => ¬ ok) n S (discretize f g options) fun S' d =>
      d.IsChecked S' ∧ IsDiscretization f g options d := by
  unfold discretize
  dsimp only
  split
  · rename_i helements
    exact fun h => (hok h).elements helements
  rename_i helements
  simp only [pure_bind]
  refine grows_check (fun e he h => by simp [(hok h).horizon] at he) fun _ hhorizon => ?_
  refine grows_check (fun e he h => ?_) fun points hpoints => ?_
  · obtain ⟨points, hpoints⟩ := (hok h).points
    simp [hpoints] at he
  refine grows_check (fun e he h => ?_) fun fwd hfwd => ?_
  · obtain ⟨fwd, hfwd, -⟩ := (hok h).forward
    simp [hfwd] at he
  refine .bind (.onGraph (Problem.grows_withDenseOutputs hS hf fun o ho hbig h =>
    hbig ((hok h).outputs o ho))) fun n₁ S₁ f₁ h₁ ⟨hf₁, hdense⟩ => ?_
  have hyields := (Problem.forwardSizes_yields hfwd).dense hdense
  have hstates := (Problem.forwardSizes_spec hfwd).nonempty
  cases g with
  | none =>
    simp only [Option.mapM_none, pure_bind]
    refine .bind (grows_basis h₁.graph points) fun n₂ S₂ b h₂ hb => .pure h₂.graph ⟨?_, ?_⟩
    · exact {
        forward := hf₁.mono h₂.subset
        backward := nofun
        yields := hyields
        backwardYields := nofun
        unpaired := fun _ => rfl
        states := hstates
        elements := helements }
    · exact {
        forward := hdense
        backward := .none
        fwd := hfwd
        bwd := nofun
        unpaired := fun _ => rfl
        elements := rfl
        degree := rfl
        t0 := rfl
        h := rfl
        points := hpoints
        basis := hb }
  | some g' =>
    dsimp only
    refine grows_check (fun e he h => ?_) fun bwd hbwd => ?_
    · obtain ⟨fwd', hfwd', hback⟩ := (hok h).forward
      obtain ⟨bwd, hbwd⟩ := hback g' rfl
      obtain rfl := Except.ok.inj (hfwd'.symm.trans hfwd)
      simp [hbwd] at he
    simp only [Option.mapM_some, bind_map_left]
    refine .bind (.onGraph (Problem.grows_withDenseOutputs h₁.graph ((hg g' rfl).mono h₁.subset)
      fun o ho hbig h => hbig ((hok h).backwardOutputs g' rfl o ho)))
      fun n₂ S₂ g₁ h₂ ⟨hg₁, hdense'⟩ => ?_
    refine .bind (grows_basis h₂.graph points) fun n₃ S₃ b h₃ hb => .pure h₃.graph ⟨?_, ?_⟩
    · have hbyields := (Problem.backwardSizes_yields hbwd).dense hdense'
      exact {
        forward := hf₁.mono (h₂.trans h₃).subset
        backward := fun g₂ hg₂ => Option.some.inj hg₂ ▸ hg₁.mono h₃.subset
        yields := hyields
        backwardYields := fun g₂ hg₂ => Option.some.inj hg₂ ▸ hbyields
        unpaired := nofun
        states := hstates
        elements := helements }
    · exact {
        forward := hdense
        backward := .some hdense'
        fwd := hfwd
        bwd := fun g₂ hg₂ => Option.some.inj hg₂ ▸ hbwd
        unpaired := nofun
        elements := rfl
        degree := rfl
        t0 := rfl
        h := rfl
        points := hpoints
        basis := hb }

theorem discretization_of_ok (hS : IsGraph n S) (hf : f.Compiled S)
    (hg : ∀ g', g = some g' → g'.Compiled S) {d : Discretization α} {n' : Nat}
    (h : discretize f g options n = .ok (d, n')) :
    ∃ S', Extends n S n' S' ∧ d.IsChecked S' ∧ IsDiscretization f g options d :=
  have hgrow : Grows (fun _ => ¬ False) n S (discretize f g options) _ :=
    grows_discretize hS hf hg False.elim
  hgrow.exists_of_ok h

/-! ## The parts of an integrator -/

theorem isCompiled_of_residualForm {r : Function α} (hS : IsGraph n S) (hr : r.Compiled S)
    {expand : Bool} {form : Residual α} {m m' : Nat}
    (h : residualForm r expand m = .ok (form, m')) :
    form.system.IsCompiled form.FitsMemory ∧ form.system.inputs = r.inputs.map Expr.pattern ∧
      form.system.outputs = r.outputs.map Expr.pattern := by
  unfold residualForm at h
  split at h
  · obtain ⟨t, m₁, ht, hx⟩ := Function.exists_expansion hS hr m
    obtain ⟨m₂, G, hG, hcompiled⟩ := hx.exists_compiled hS hr
    dsimp only at h
    rw [ht] at h
    obtain ⟨rfl, -⟩ := Prod.mk.inj (Except.ok.inj h)
    exact ⟨.terms hG hcompiled, hx.inputPatterns, hx.outputPatterns⟩
  · obtain ⟨rfl, -⟩ := Prod.mk.inj (Except.ok.inj h)
    exact ⟨.function hS hr, rfl, rfl⟩

theorem exists_form {r : Function α} (hS : IsGraph n S) (hr : r.Compiled S) (expand : Bool)
    (m : Nat) : ∃ form m', residualForm r expand m = .ok (form, m') := by
  cases expand with
  | false => exact ⟨_, _, rfl⟩
  | true =>
    obtain ⟨t, m', ht, -⟩ := Function.exists_expansion hS hr m
    refine ⟨.scalar t, m', ?_⟩
    unfold residualForm
    rw [if_pos rfl, ht]

/-- A new integrator: nothing is solved, and the solvers are as they were created. -/
structure IsNew (d : Discretization α) (options : CollocationOptions α) (c : Collocation α) :
    Prop where
  fwd : c.fwd = d.fwd
  bwd : c.bwd = d.bwd
  solver : createSolver options.solver c.residual.system options.solverOptions = .ok c.solver
  startup : ∀ s, c.startup = some s →
    ∃ name, createStartup name d.f options.startupOptions = .ok s
  integratedOnce : c.integratedOnce = false
  solved : c.solved = false
  sens : c.sens = []
  options : c.options = options

theorem exists_of_create {c : Collocation α} {n' : Nat}
    (h : create f g options n = .ok (c, n')) :
    ∃ d n₁ r n₂ n₃, discretize f g options n = .ok (d, n₁) ∧
      d.residual n₁ = .ok ((r, c.times), n₂) ∧
      residualForm r options.expand n₂ = .ok (c.residual, n₃) ∧ IsNew d options c := by
  obtain ⟨d, n₁, hd, h⟩ := ok_of_step_bind h
  obtain ⟨⟨r, times⟩, n₂, hr, h⟩ := ok_of_step_bind h
  obtain ⟨form, n₃, hform, h⟩ := ok_of_step_bind h
  obtain ⟨solver, n₄, hsolver, h⟩ := ok_of_step_bind h
  obtain ⟨startup, n₅, hstartup, h⟩ := ok_of_step_bind h
  obtain ⟨rfl, -⟩ := Prod.mk.inj (Except.ok.inj h)
  refine ⟨d, n₁, r, n₂, n₃, hd, hr, hform, rfl, rfl, ok_of_lift hsolver, fun s hs => ?_, rfl,
    rfl, rfl, rfl⟩
  cases hname : options.startup with
  | none =>
    rw [hname] at hstartup
    obtain ⟨rfl, -⟩ := Prod.mk.inj (Except.ok.inj hstartup)
    cases hs
  | some name =>
    rw [hname, Option.mapM_some] at hstartup
    refine ⟨name, ?_⟩
    cases hs' : createStartup name d.f options.startupOptions with
    | error e =>
      rw [hs'] at hstartup
      cases hstartup
    | ok s' =>
      rw [hs'] at hstartup
      obtain ⟨rfl, -⟩ := Prod.mk.inj (Except.ok.inj hstartup)
      exact congrArg Except.ok (Option.some.inj hs)

/-- The parts make an integrator; without a startup integrator nothing else is asked for. -/
theorem exists_create {d : Discretization α} {r : Function α} {times : List α} {form : Residual α}
    {solver : Newton α} {n₁ n₂ n₃ : Nat} (hd : discretize f g options n = .ok (d, n₁))
    (hr : d.residual n₁ = .ok ((r, times), n₂))
    (hform : residualForm r options.expand n₂ = .ok (form, n₃))
    (hsolver : createSolver options.solver form.system options.solverOptions = .ok solver)
    (hstartup : options.startup = none) : ∃ c, create f g options n = .ok (c, n₃) := by
  unfold create
  rw [step_bind_eq hd, step_bind_eq hr]
  dsimp only
  rw [step_bind_eq hform, hsolver, hstartup]
  exact ⟨_, rfl⟩

/-! ## Systems -/

/-- A backward and a forward state. -/
def blockSize (c : Collocation α) : Nat :=
  c.bwd.nrx + c.fwd.nx

def unknownCount (c : Collocation α) : Nat :=
  c.times.length * c.blockSize

/-- The solver has the system of the residual: an equation for every unknown, the states and
parameters as inputs, and two quadratures. -/
structure HasSystem (c : Collocation α) : Prop where
  compiled : c.solver.system.IsCompiled c.residual.FitsMemory
  square : c.solver.system.IsSquare c.unknownCount
  inputs : (c.solver.system.inputs.drop 1).map Pattern.nnz = c.inputSizes
  outputs : c.solver.system.outputs.length = 3
  points : c.times ≠ []

/-- The startup integrator, if there is one, has a rate for every forward state. -/
def HasStartup (c : Collocation α) : Prop :=
  ∀ s, c.startup = some s → Startup.IsRate s.f ∧ s.x.length = c.fwd.nx

omit [OrderedScalar α] in
theorem isSquare_of_residual {d : Discretization α} {r : Function α} {times : List α}
    {s : System α} (hd : d.IsChecked S) (hr : d.IsResidualFunction S' r times)
    (hin : s.inputs = r.inputs.map Expr.pattern) (hout : s.outputs = r.outputs.map Expr.pattern) :
    s.IsSquare d.unknowns := by
  obtain ⟨q, rq, houtputs, -⟩ := hr.outputs
  have hnnz : s.outputs.map Pattern.nnz = [d.unknowns, q, rq] := by
    rw [hout, List.map_map]
    exact houtputs
  refine ⟨⟨.column d.unknowns, ?_, by simp [Pattern.column]⟩, ?_, hd.unknowns_ne_zero, ?_⟩
  · rw [hin, hr.inputs]
    rfl
  · have hhead := congrArg (·[0]?) hnnz
    simpa using hhead
  · simpa using (hr.fits d.unknowns (by simp [Discretization.columnSizes])).2

theorem residual_of_create (hS : IsGraph n S) (hf : f.Compiled S)
    (hg : ∀ g', g = some g' → g'.Compiled S) {c : Collocation α} {n' : Nat}
    (h : create f g options n = .ok (c, n')) :
    ∃ (d : Discretization α) (n₁ : Nat) (S₁ S₂ : Set (Expr α)) (r : Function α), IsGraph n₁ S₁ ∧
      d.IsChecked S₁ ∧ IsDiscretization f g options d ∧ d.IsResidualFunction S₂ r c.times ∧
      c.residual.system.IsCompiled c.residual.FitsMemory ∧
      c.residual.system.inputs = r.inputs.map Expr.pattern ∧
      c.residual.system.outputs = r.outputs.map Expr.pattern ∧ c.unknownCount = d.unknowns ∧
      IsNew d options c := by
  obtain ⟨d, n₁, r, n₂, n₃, hd, hr, hform, hnew⟩ := exists_of_create h
  obtain ⟨S₁, h₁, hchecked, hdisc⟩ := discretization_of_ok hS hf hg hd
  have hspec := d.residual_shapes h₁.graph hchecked
  rw [hr] at hspec
  obtain ⟨-, S₂, hS₂, hres⟩ := hspec
  obtain ⟨hcompiled, hin, hout⟩ := isCompiled_of_residualForm hS₂ hres.compiled hform
  refine ⟨d, n₁, S₁, S₂, r, h₁.graph, hchecked, hdisc, hres, hcompiled, hin, hout, ?_, hnew⟩
  rw [unknownCount, blockSize, hres.times, hnew.fwd, hnew.bwd, Discretization.unknowns,
    Nat.add_comm]

theorem parts_of_create (hS : IsGraph n S) (hf : f.Compiled S)
    (hg : ∀ g', g = some g' → g'.Compiled S) {c : Collocation α} {n' : Nat}
    (h : create f g options n = .ok (c, n')) :
    c.options = options ∧ c.HasSystem ∧ c.HasStartup ∧ c.solver.Aligned ∧
      c.integratedOnce = false ∧ c.solved = false ∧ c.sens = [] := by
  obtain ⟨d, n₁, S₁, S₂, r, h₁, hchecked, hdisc, hres, hcompiled, hin, hout, hcount, hnew⟩ :=
    residual_of_create hS hf hg h
  have hstates := Problem.forwardSizes_spec hdisc.fwd
  obtain ⟨ha, hsystem, -, -⟩ : c.solver.Aligned ∧ c.solver.system = c.residual.system ∧ _ := by
    have hsolver := hnew.solver
    unfold createSolver at hsolver
    split at hsolver
    · exact Newton.aligned_create hsolver
    · cases hsolver
  have hpoints : d.pointCount ≠ 0 := Nat.mul_ne_zero hchecked.elements (Nat.succ_ne_zero _)
  obtain ⟨q, rq, houtputs, -⟩ := hres.outputs
  refine ⟨hnew.options, ⟨hsystem ▸ hcompiled, ?_, ?_, ?_, ?_⟩, ?_, ha, hnew.integratedOnce,
    hnew.solved, hnew.sens⟩
  · rw [hsystem, hcount]
    exact isSquare_of_residual hchecked hres hin hout
  · rw [hsystem, hin, hres.inputs, inputSizes, hnew.fwd, hnew.bwd]
    simp [Discretization.columnSizes, Pattern.column]
  · rw [hsystem, hout, List.length_map]
    simpa using congrArg List.length houtputs
  · intro hnil
    rw [← hres.times, hnil] at hpoints
    exact hpoints rfl
  · intro s hs
    obtain ⟨name, hs⟩ := hnew.startup s hs
    unfold createStartup at hs
    split at hs
    · obtain ⟨hfs, hrate, x, hx, hlen⟩ := Startup.create_spec h₁ hchecked.forward hs
      obtain ⟨x', hx', hnx⟩ := hstates.exists_states
      rw [hdisc.forward.inputs, hx'] at hx
      obtain rfl := Option.some.inj hx
      exact ⟨hfs ▸ hrate, hlen.trans (hnx.trans (congrArg ForwardSizes.nx hnew.fwd).symm)⟩
    · cases hs

end Collocation

end DiffGraph
