import Mathlib
import DiffGraph.Proofs.Floating
import DiffGraph.Proofs.Solve.Newton

/-!
# Convergence

The iterates of Newton's method are what its steps lead to from the guess
(`Newton.Iterates`). A successful solve returns one of them at which the iteration
may stop (`Newton.Converged`): the residual there is within its tolerance, or the
step that led there is within that for steps. Both sizes are maxima, and a maximum
passes over undefined entries, so tolerances bind the defined entries only
(`Newton.atMost_maxAbs_iff`, `Newton.atMost_stepSize_iff`): a residual without any
defined entry counts as zero, a step without any has no size.
-/

namespace DiffGraph

open FloatingScalar

variable {α : Type} [FloatingScalar α]

/-- No defined entry is larger. -/
def Within (bound : α) (xs : List α) : Prop :=
  ∀ x ∈ xs, ¬ Undefined x → OrderedScalar.atMost (OrderedScalar.abs x) bound = true

/-! ## Sizes -/

namespace Newton

theorem undefined_max_iff {x y : α} :
    Undefined (OrderedScalar.max x y) ↔ Undefined x ∧ Undefined y := by
  by_cases hx : Undefined x
  · simp [max_of_undefined_left y hx, hx]
  · by_cases hy : Undefined y
    · simp [max_of_undefined_right hx hy, hx]
    · rcases (max_of_defined hx hy).1 with h | h <;> simp [h, hx, hy]

/-- A bound of a maximum is a bound of its defined operands, one of which there must be. -/
theorem atMost_max_iff {x y b : α} : OrderedScalar.atMost (OrderedScalar.max x y) b = true ↔
    (¬ Undefined x ∨ ¬ Undefined y) ∧ (¬ Undefined x → OrderedScalar.atMost x b = true) ∧
      (¬ Undefined y → OrderedScalar.atMost y b = true) := by
  have hdefined (z : α) (hz : OrderedScalar.atMost z b = true) : ¬ Undefined z :=
    (defined_of_atMost hz).1
  by_cases hx : Undefined x
  · rw [max_of_undefined_left y hx]
    exact ⟨fun h => ⟨.inr (hdefined y h), fun hx' => absurd hx hx', fun _ => h⟩,
      fun ⟨hor, _, h⟩ => h (hor.resolve_left (not_not.2 hx))⟩
  · by_cases hy : Undefined y
    · rw [max_of_undefined_right hx hy]
      exact ⟨fun h => ⟨.inl hx, fun _ => h, fun hy' => absurd hy hy'⟩, fun ⟨_, h, _⟩ => h hx⟩
    · obtain ⟨hmax, hxmax, hymax⟩ := max_of_defined hx hy
      refine ⟨fun h => ⟨.inl hx, fun _ => atMost_trans hxmax h, fun _ => atMost_trans hymax h⟩,
        fun ⟨_, h, h'⟩ => ?_⟩
      rcases hmax with hmax | hmax <;> rw [hmax]
      · exact h hx
      · exact h' hy

theorem within_cons_iff {b x : α} {xs : List α} : Within b (x :: xs) ↔
    (¬ Undefined x → OrderedScalar.atMost (OrderedScalar.abs x) b = true) ∧ Within b xs :=
  List.forall_mem_cons

theorem atMost_foldl_iff {xs : List α} {m b : α} :
    OrderedScalar.atMost
        (xs.foldl (fun m x => OrderedScalar.max m (OrderedScalar.abs x)) m) b = true ↔
      (¬ Undefined m ∨ ∃ x ∈ xs, ¬ Undefined x) ∧
        (¬ Undefined m → OrderedScalar.atMost m b = true) ∧ Within b xs := by
  induction xs generalizing m with
  | nil =>
    rw [List.foldl_nil]
    exact ⟨fun h => ⟨.inl (defined_of_atMost h).1, fun _ => h, nofun⟩,
      fun ⟨h, hm, _⟩ => hm (h.resolve_right (by simp))⟩
  | cons x xs ih =>
    have hmax : ¬ Undefined (OrderedScalar.max m (OrderedScalar.abs x)) ↔
        ¬ Undefined m ∨ ¬ Undefined x := by
      rw [undefined_max_iff, undefined_abs, not_and_or]
    rw [List.foldl_cons, ih, within_cons_iff, hmax]
    by_cases hm : Undefined m
    · by_cases hx : Undefined x
      · simp [hm, hx]
      · rw [max_of_undefined_left _ hm]
        simp [hm, hx]
    · by_cases hx : Undefined x
      · rw [max_of_undefined_right hm ((undefined_abs x).2 hx)]
        simp [hm, hx]
      · rw [atMost_max_iff, undefined_abs]
        simp [hm, hx, and_assoc]

/-- A residual is within a bound if its defined entries are; no entry need be defined. -/
theorem atMost_maxAbs_iff {xs : List α} {b : α} : OrderedScalar.atMost (maxAbs xs) b = true ↔
    OrderedScalar.atMost 0 b = true ∧ Within b xs := by
  unfold maxAbs
  rw [atMost_foldl_iff]
  exact ⟨fun ⟨_, h, hxs⟩ => ⟨h defined_zero, hxs⟩,
    fun ⟨h, hxs⟩ => ⟨.inl defined_zero, fun _ => h, hxs⟩⟩

/-- A step is within a bound if its defined entries are, and one of its entries is defined. -/
theorem atMost_stepSize_iff {step : List α} {b : α} (hne : step ≠ []) :
    OrderedScalar.atMost (stepSize step) b = true ↔
      (∃ x ∈ step, ¬ Undefined x) ∧ Within b step := by
  obtain ⟨x, xs, rfl⟩ := List.exists_cons_of_ne_nil hne
  rw [stepSize, atMost_foldl_iff, within_cons_iff, undefined_abs]
  simp only [List.mem_cons, exists_eq_or_imp]

/-! ## Iterates -/

section Runs

variable (s : System α) (options : NewtonOptions α) (inputs : List (List α))

inductive StepsTo (x step : List α) : List α → Prop
  | mk {r : List α} {lu : LU α} : residual s (x :: inputs) = .ok r →
      factorize s (x :: inputs) = .ok lu → lu.solve r = .ok step →
      StepsTo x step (advance options x step)

inductive Iterates (guess : List α) : Nat → List α → Prop
  | start : Iterates guess 0 guess
  | next {k : Nat} {x step y : List α} : Iterates guess k x → StepsTo s options inputs x step y →
      Iterates guess (k + 1) y

/-- The iteration may stop after the given number of steps, with this iterate: every defined entry
of the residual is within the tolerance, or every defined entry of the last step. -/
inductive Converged (guess : List α) : Nat → List α → Prop
  | residual {k : Nat} {x r : List α} : Iterates s options inputs guess k x →
      residual s (x :: inputs) = .ok r → Within options.absTol r → Converged guess k x
  | step {k : Nat} {x step y : List α} : Iterates s options inputs guess k x →
      StepsTo s options inputs x step y → (step ≠ [] → ∃ c ∈ step, ¬ Undefined c) →
      Within options.stepTol step → Converged guess (k + 1) y

variable {s options inputs}

/-- From an iterate, the iteration only ends with success where it may stop. -/
theorem iterate_converged {guess x : List α} {done : Nat}
    (hx : Iterates s options inputs guess done x) (left : Nat) :
    ∀ y, (iterate s options inputs left done x).2 = .ok y →
      ∃ k, (iterate s options inputs left done x).1 = ⟨k, .success⟩ ∧ k ≤ done + left ∧
        Converged s options inputs guess k y := by
  induction left using Nat.strongRecOn generalizing done x with
  | ind left ih =>
    unfold iterate
    dsimp only
    cases hr : residual s (x :: inputs) with
    | error e => exact fun y h => by cases h
    | ok r =>
      dsimp only
      split
      · rename_i hsmall
        rintro y ⟨⟩
        exact ⟨done, rfl, Nat.le_add_right _ _, .residual hx hr (atMost_maxAbs_iff.1 hsmall).2⟩
      cases left with
      | zero => exact fun y h => by cases h
      | succ left =>
        dsimp only
        cases hlu : factorize s (x :: inputs) with
        | error e => exact fun y h => by cases h
        | ok lu =>
          dsimp only
          split
          · exact fun y h => by cases h
          · exact fun y h => by cases h
          · rename_i step hstep
            have hnext : StepsTo s options inputs x step (advance options x step) :=
              .mk hr hlu hstep
            split
            · rename_i hsmall
              rintro y ⟨⟩
              refine ⟨done + 1, rfl, by omega, ?_⟩
              by_cases hempty : step = []
              · exact .step hx hnext (fun hne => absurd hempty hne) (by simp [Within, hempty])
              · obtain ⟨hdefined, hwithin⟩ := (atMost_stepSize_iff hempty).1 hsmall
                exact .step hx hnext (fun _ => hdefined) hwithin
            · intro y hy
              obtain ⟨k, hk, hle, hconverged⟩ := ih left left.lt_succ_self (.next hx hnext) y hy
              exact ⟨k, hk, by omega, hconverged⟩

end Runs

/-! ## Solves -/

section Solves

variable {n : Newton α} {lu : LU α} {x : List α} {directions : Nat}

theorem stats_sensitivities (n : Newton α) (lu : LU α) (x : List α) (dirs : List Nat) :
    (n.sensitivities lu x dirs).1.stats = n.stats := by
  induction dirs generalizing n with
  | nil => rfl
  | cons dir dirs ih =>
    unfold sensitivities
    split
    · rfl
    · exact ih _

theorem exists_outputs_finish (h : (n.finish directions x).2 = .ok ()) :
    (n.finish directions x).1.stats = n.stats ∧
      ∃ outs, (n.finish directions x).1.outputs = x :: outs := by
  revert h
  unfold finish
  dsimp only
  split
  · nofun
  · rename_i out hout
    split
    · exact fun _ => ⟨rfl, _, rfl⟩
    · split
      · nofun
      · rename_i lu hlu
        exact fun _ => ⟨stats_sensitivities _ _ _ _, _, outputs_sensitivities _ _ _ _⟩

theorem solve_converged (h : n.solve.2 = .ok x) : ∃ guess rest k, n.outputs = guess :: rest ∧
    n.solve.1 = ⟨k, .success⟩ ∧ k ≤ n.options.maxIter ∧
      Converged n.system n.options n.inputs guess k x := by
  unfold solve at h ⊢
  cases hguess : n.outputs with
  | nil => simp [hguess] at h
  | cons guess rest =>
    rw [hguess] at h
    obtain ⟨k, hk, hle, hconverged⟩ := iterate_converged .start _ x h
    exact ⟨guess, rest, k, rfl, hk, by omega, hconverged⟩

/-- A solve succeeds only if the iteration has come to an iterate at which it may stop, and returns
that iterate. -/
theorem evaluate_converged (h : (n.evaluate directions).2 = .ok ()) :
    ∃ guess rest k x outs, n.outputs = guess :: rest ∧
      (n.evaluate directions).1.outputs = x :: outs ∧
      (n.evaluate directions).1.stats = ⟨k, .success⟩ ∧ k ≤ n.options.maxIter ∧
      Converged n.system n.options n.inputs guess k x := by
  revert h
  unfold evaluate
  split
  · nofun
  dsimp only
  split
  · nofun
  rename_i x hx
  intro h
  obtain ⟨guess, rest, k, hguess, hk, hle, hconverged⟩ := solve_converged hx
  obtain ⟨hstats, outs, houts⟩ := exists_outputs_finish h
  exact ⟨guess, rest, k, x, outs, hguess, houts, hstats.trans hk, hle, hconverged⟩

end Solves

open Expr in
/-- A solve with the default tolerances accepts zero as a root of the quotient of the unknown by
itself, though the residual there is undefined. -/
theorem evaluate_converged_quotient :
    let x : Expr Float := .node 0 (.symbol "x") [] .scalar []
    let q : Expr Float := .node 1 (.binary .div .none) [x, x] .scalar []
    ∃ f n, Function.compile "quotient" [x] [q] = .ok f ∧ create f.system .default = .ok n ∧
      ((n.setGuess [0]).evaluate 0).2 = .ok () ∧
      ((n.setGuess [0]).evaluate 0).1.outputs = [[0]] ∧
      residual f.system [[0]] = .ok [0 / 0] ∧ Undefined (0 / 0 : Float) ∧
      Converged f.system .default [] [0] 0 [0] := by
  intro x q
  have hx : Built 1 [x] := .symbol "x" _ .start
  have hG : Built 2 [q, x] := .make (.binary .div x x) hx (by simp [Construction.operands]) rfl
  let f : Function Float :=
    ⟨"quotient", [x], [q], [⟨q, [0, 0], [some 1]⟩], #[.scalar, .scalar], [0], [1]⟩
  have hf : Function.compile "quotient" [x] [q] = .ok f := by cbv
  obtain ⟨hS, hcompiled⟩ := Function.compiled_of_built hG (by simp) (by simp) hf
  obtain ⟨hgraph, slot, hlayout⟩ := hcompiled.exists_layout hS
  have hvalue : f.evaluate [[0]] = .ok [[0 / 0]] := Function.run_eq hlayout hgraph rfl
  have hrun : f.system.eval [[0]] = .ok [[0 / 0]] :=
    congrArg (Except.mapError FunctionError.graph) hvalue
  have hresidual : residual f.system [[0]] = .ok [0 / 0] := by
    rw [residual, hrun]
  have hsmall : OrderedScalar.atMost (maxAbs [(0 / 0 : Float)])
      (NewtonOptions.default : NewtonOptions Float).absTol = true := by decide
  let n : Newton Float := ⟨f.system, .default, [], [[0]], [], [], ⟨0, .unfinished⟩⟩
  have hcreate : create f.system .default = .ok n := rfl
  have hsolve : (n.setGuess [0]).solve = (⟨0, .success⟩, .ok [0]) := by
    show iterate f.system .default [] 1000 0 [0] = _
    unfold iterate
    simp only [hresidual, hsmall, if_true]
  have heval : (n.setGuess [0]).evaluate 0 =
      ({ n with stats := ⟨0, .success⟩, outputs := [[0]] }, .ok ()) := by
    have hinput : (n.setGuess [0]).inputError? = none := rfl
    have hout : (n.setGuess [0]).system.eval ([0] :: (n.setGuess [0]).inputs) = .ok [[0 / 0]] :=
      hrun
    unfold evaluate finish
    simp only [hinput, hsolve, hout, ofSystem, Except.mapError, if_true]
    rfl
  have hok : ((n.setGuess [0]).evaluate 0).2 = .ok () := by rw [heval]
  obtain ⟨guess, rest, k, y, outs, hguess, houts, hstats, -, hconverged⟩ := evaluate_converged hok
  rw [heval] at houts hstats
  obtain ⟨rfl, -⟩ := List.cons.inj houts
  obtain ⟨rfl, -⟩ := List.cons.inj hguess
  obtain rfl : 0 = k := (SolveStats.mk.inj hstats).1
  exact ⟨f, n, hf, hcreate, hok, by rw [heval], hresidual, show Float.isNaN _ = true by decide,
    hconverged⟩

end Newton

end DiffGraph
