import Mathlib
import DiffGraph.Proofs.Solve.Sensitivity

/-!
# Statistics of solves

A solve asks its system for residuals and for Jacobians. `Newton.iterateRecorded` is the iteration
that also keeps the points at which it asks, with the same answer. A run goes on through some
iterates and ends at the next one in one of four ways (`Newton.Goes`, `Newton.Ends`), from which
the statistics can be read back: how many steps were taken, and why there was no other
(`Newton.solve_statistics`).
-/

namespace DiffGraph

/-! ## Sizes -/

/-- Comparisons, absolute values and maxima are those of the order. -/
class OrderedExactly (α : Type) [ExactOrderedField α] [LinearOrder α] : Prop extends
    IsStrictOrderedRing α where
  abs_eq (x : α) : OrderedScalar.abs x = |x|
  max_eq (x y : α) : OrderedScalar.max x y = max x y
  atMost_iff (x y : α) : OrderedScalar.atMost x y = true ↔ x ≤ y
  less_iff (x y : α) : OrderedScalar.less x y = true ↔ x < y

theorem orderedExactly_rat : @OrderedExactly Rat exactOrderedRat inferInstance :=
  letI := exactOrderedRat
  { (inferInstance : IsStrictOrderedRing Rat) with
    abs_eq := fun _ => rfl
    max_eq := fun x y => by
      show (if x < y then y else x) = max x y
      rw [max_def_lt]
    atMost_iff := fun _ _ => decide_eq_true_iff
    less_iff := fun _ _ => decide_eq_true_iff }

/-- The largest absolute value of the entries, and zero if there are none. -/
def largest {α : Type} [Lattice α] [AddGroup α] (xs : List α) : α :=
  (xs.map abs).foldr max 0

namespace Newton

section Sizes

variable {α : Type} [ExactOrderedField α] [LinearOrder α] [OrderedExactly α]

theorem foldl_max_abs (xs : List α) {m : α} (hm : 0 ≤ m) :
    xs.foldl (fun m x => OrderedScalar.max m (OrderedScalar.abs x)) m = max m (largest xs) := by
  induction xs generalizing m with
  | nil => exact (max_eq_left hm).symm
  | cons x xs ih =>
    rw [List.foldl_cons, OrderedExactly.abs_eq, OrderedExactly.max_eq,
      ih (hm.trans (le_max_left _ _)), max_assoc]
    rfl

theorem maxAbs_eq_largest (xs : List α) : maxAbs xs = largest xs := by
  have hnonneg : (0 : α) ≤ largest xs := by
    cases xs with
    | nil => exact le_rfl
    | cons x xs => exact (abs_nonneg x).trans (le_max_left _ _)
  rw [maxAbs, foldl_max_abs xs le_rfl, max_eq_right hnonneg]

theorem stepSize_eq_largest (xs : List α) : stepSize xs = largest xs := by
  cases xs with
  | nil => rfl
  | cons x xs =>
    rw [stepSize, OrderedExactly.abs_eq, foldl_max_abs xs (abs_nonneg x)]
    rfl

end Sizes

/-! ## Requests -/

section Runs

variable {α : Type} [OrderedScalar α]

structure Requests (α : Type) where
  residuals : List (List α)
  jacobians : List (List α)

def Requests.residual (q : Requests α) (s : System α) (inputs : List (List α)) (x : List α) :
    Except (Failure α) (List α) × Requests α :=
  (Newton.residual s (x :: inputs), { q with residuals := q.residuals ++ [x] })

def Requests.jacobian (q : Requests α) (s : System α) (inputs : List (List α)) (x : List α) :
    Except (Failure α) (LU α) × Requests α :=
  (factorize s (x :: inputs), { q with jacobians := q.jacobians ++ [x] })

/-- Newton's iteration, with the requests that it makes. -/
def iterateRecorded (s : System α) (options : NewtonOptions α) (inputs : List (List α))
    (left done : Nat) (x : List α) (q : Requests α) :
    (SolveStats × Except (Failure α) (List α)) × Requests α :=
  match q.residual s inputs x with
  | (.error e, q) => ((⟨done, .unfinished⟩, .error e), q)
  | (.ok r, q) =>
    let size := maxAbs r
    if OrderedScalar.atMost size options.absTol then ((⟨done, .success⟩, .ok x), q)
    else match left with
      | 0 => ((⟨done, .iterationLimit⟩, .error (.notConverged options.maxIter size)), q)
      | left + 1 =>
        match q.jacobian s inputs x with
        | (.error e, q) => ((⟨done, .unfinished⟩, .error e), q)
        | (.ok lu, q) =>
          match lu.solve r with
          | .error .noUnknowns => ((⟨done, .unfinished⟩, .error .misuse), q)
          | .error .singular => ((⟨done, .singularJacobian⟩, .error (.singularAt done)), q)
          | .ok step =>
            let x := advance options x step
            if OrderedScalar.atMost (stepSize step) options.stepTol then
              ((⟨done + 1, .success⟩, .ok x), q)
            else iterateRecorded s options inputs left (done + 1) x q

theorem fst_iterateRecorded (s : System α) (options : NewtonOptions α) (inputs : List (List α))
    (left done : Nat) (x : List α) (q : Requests α) :
    (iterateRecorded s options inputs left done x q).1 =
      iterate s options inputs left done x := by
  induction left using Nat.strongRecOn generalizing done x q with
  | ind left ih =>
    unfold iterateRecorded iterate
    dsimp only [Requests.residual, Requests.jacobian]
    cases residual s (x :: inputs) with
    | error e => rfl
    | ok r =>
      dsimp only
      split
      · rfl
      cases left with
      | zero => rfl
      | succ left =>
        dsimp only
        cases factorize s (x :: inputs) with
        | error e => rfl
        | ok lu =>
          dsimp only
          cases lu.solve r with
          | error e => cases e <;> rfl
          | ok step =>
            dsimp only
            split
            · rfl
            · exact ih left left.lt_succ_self _ _ _

def solveRecorded (n : Newton α) : (SolveStats × Except (Failure α) (List α)) × Requests α :=
  match n.outputs with
  | guess :: _ =>
    iterateRecorded n.system n.options n.inputs n.options.maxIter 0 guess ⟨[], []⟩
  | [] => ((⟨0, .unfinished⟩, .error .misuse), ⟨[], []⟩)

theorem fst_solveRecorded (n : Newton α) : n.solveRecorded.1 = n.solve := by
  unfold solveRecorded solve
  cases n.outputs with
  | nil => rfl
  | cons guess rest => exact fst_iterateRecorded n.system n.options n.inputs _ _ _ _

/-! ## Runs -/

/-- Residuals and Jacobians of a system that never fails, with as many equations as unknowns. -/
structure Evaluates (s : System α) (inputs : List (List α)) (m : Nat)
    (F : List α → List α) (J : List α → LU α) : Prop where
  residual {x : List α} : x.length = m →
    Newton.residual s (x :: inputs) = .ok (F x) ∧ (F x).length = m
  jacobian {x : List α} : x.length = m →
    factorize s (x :: inputs) = .ok (J x) ∧ (J x).rows.size = m

/-- Systems that fit a memory are such. -/
theorem exists_evaluates {s : System α} {memory : Prop} (h : s.Semantics memory) {m : Nat}
    (hm : s.IsSquare m) (hmemory : memory) {inputs : List (List α)}
    (hinputs : inputs.map List.length = (s.inputs.drop 1).map Pattern.nnz) :
    ∃ F J, Evaluates s inputs m F J := by
  refine ⟨fun x => (residual s (x :: inputs)).toOption.getD [],
    fun x => (factorize s (x :: inputs)).toOption.getD ⟨#[], []⟩, fun hx => ?_, fun hx => ?_⟩
  · obtain ⟨r, hr, hrm⟩ := exists_residual h hm hmemory (map_length_cons_inputs hm hinputs hx)
    exact hr ▸ ⟨rfl, hrm⟩
  · obtain ⟨lu, hlu, hrows⟩ :=
      exists_factorize h hm hmemory (map_length_cons_inputs hm hinputs hx)
    exact hlu ▸ ⟨rfl, hrows⟩

def Stops (options : NewtonOptions α) (r : List α) : Prop :=
  OrderedScalar.atMost (maxAbs r) options.absTol = true

def StopsAfter (options : NewtonOptions α) (step : List α) : Prop :=
  OrderedScalar.atMost (stepSize step) options.stepTol = true

/-- The status of a solve that finds no step. -/
def statusOf : LinearError → SolveStatus
  | .noUnknowns => .unfinished
  | .singular => .singularJacobian

/-- The answer of a solve that finds no step. -/
def failureOf (k : Nat) : LinearError → Failure α
  | .noUnknowns => .misuse
  | .singular => .singularAt k

section Runs

variable (F : List α → List α) (J : List α → LU α) (options : NewtonOptions α)
  (x c : Nat → List α)

/-- The iteration goes on after an iterate. -/
structure Goes (k : Nat) : Prop where
  residual : ¬ Stops options (F (x k))
  solve : (J (x k)).solve (F (x k)) = .ok (c k)
  step : ¬ StopsAfter options (c k)

/-- How a run ends at an iterate, with what answer and after how many Jacobians: its residual is
small, there are no steps left, there is no step, or the step is small. -/
inductive Ends (limit k : Nat) : SolveStats × Except (Failure α) (List α) → Nat → Prop
  | residual : k ≤ limit → Stops options (F (x k)) → Ends limit k (⟨k, .success⟩, .ok (x k)) k
  | limit : k = limit → ¬ Stops options (F (x k)) → Ends limit k
    (⟨k, .iterationLimit⟩, .error (.notConverged options.maxIter (maxAbs (F (x k))))) k
  | unsolved (e : LinearError) : k < limit → ¬ Stops options (F (x k)) →
    (J (x k)).solve (F (x k)) = .error e →
    Ends limit k (⟨k, statusOf e⟩, .error (failureOf k e)) (k + 1)
  | step : k < limit → ¬ Stops options (F (x k)) → (J (x k)).solve (F (x k)) = .ok (c k) →
    StopsAfter options (c k) → Ends limit k (⟨k + 1, .success⟩, .ok (x (k + 1))) (k + 1)

/-- A run goes on through the iterates before the last one and ends there. -/
structure Run (limit last : Nat) (result : SolveStats × Except (Failure α) (List α))
    (jacobians : Nat) : Prop where
  goes (j : Nat) : j < last → Goes F J options x c j
  ends : Ends F J options x c limit last result jacobians

end Runs

namespace Run

variable {F : List α → List α} {J : List α → LU α} {options : NewtonOptions α}
  {x c : Nat → List α} {limit last jacobians : Nat}
  {result : SolveStats × Except (Failure α) (List α)}
  (h : Run F J options x c limit last result jacobians)

include h

theorem bounds : last ≤ limit ∧ last ≤ result.1.iterations ∧ result.1.iterations ≤ last + 1 ∧
    result.1.iterations ≤ jacobians ∧ jacobians ≤ limit := by
  obtain ⟨-, hends⟩ := h
  cases hends <;> (dsimp only; omega)

theorem solve {k : Nat} (hk : k < result.1.iterations) :
    (J (x k)).solve (F (x k)) = .ok (c k) := by
  obtain ⟨hgoes, hends⟩ := h
  cases hends with
  | residual => exact (hgoes k hk).solve
  | limit => exact (hgoes k hk).solve
  | unsolved => exact (hgoes k hk).solve
  | step _ _ hsolve _ =>
    rcases Nat.lt_succ_iff_lt_or_eq.1 hk with hk | rfl
    · exact (hgoes k hk).solve
    · exact hsolve

/-- The answer is the last iterate, or the failure that the status tells. -/
theorem answer : result.2 = match result.1.status with
    | .success => .ok (x result.1.iterations)
    | .iterationLimit =>
      .error (.notConverged options.maxIter (maxAbs (F (x result.1.iterations))))
    | .singularJacobian => .error (.singularAt result.1.iterations)
    | .unfinished => .error .misuse := by
  obtain ⟨-, hends⟩ := h
  cases hends with
  | unsolved e => cases e <;> rfl
  | _ => rfl

/-- The limit is reached if all iterates and steps up to it are too large. -/
theorem iterationLimit_iff : result.1.status = .iterationLimit ↔
    result.1.iterations = limit ∧ (∀ k ≤ limit, ¬ Stops options (F (x k))) ∧
      ∀ k < limit, ¬ StopsAfter options (c k) := by
  obtain ⟨hgoes, hends⟩ := h
  cases hends with
  | residual hle hsmall =>
    exact ⟨nofun, fun ⟨_, hlarge, _⟩ => absurd hsmall (hlarge last hle)⟩
  | limit heq hlarge =>
    subst heq
    refine ⟨fun _ => ⟨rfl, fun k hk => ?_, fun k hk => (hgoes k hk).step⟩, fun _ => rfl⟩
    rcases Nat.lt_or_eq_of_le hk with hk | rfl
    · exact (hgoes k hk).residual
    · exact hlarge
  | unsolved e hlt _ _ =>
    exact ⟨by cases e <;> nofun, fun ⟨heq, _⟩ => absurd heq (Nat.ne_of_lt hlt)⟩
  | step hlt _ _ hsmall =>
    exact ⟨nofun, fun ⟨_, _, hwide⟩ => absurd hsmall (hwide last hlt)⟩

/-- There is no step from some iterate, unless the run has stopped before. -/
theorem unsolved_iff (e : LinearError) : result.1.status = statusOf e ↔
    ∃ k ≤ result.1.iterations, k < limit ∧ (∀ j ≤ k, ¬ Stops options (F (x j))) ∧
      (∀ j < k, ¬ StopsAfter options (c j)) ∧ (J (x k)).solve (F (x k)) = .error e := by
  obtain ⟨hgoes, hends⟩ := h
  -- an iterate with a step is not the one in question
  have hbefore {k : Nat} (hk : k < last) : (J (x k)).solve (F (x k)) ≠ .error e := fun herr => by
    cases (hgoes k hk).solve.symm.trans herr
  have hresidual (hlarge : ¬ Stops options (F (x last))) (j : Nat) (hj : j ≤ last) :
      ¬ Stops options (F (x j)) := by
    rcases Nat.lt_or_eq_of_le hj with hj | rfl
    · exact (hgoes j hj).residual
    · exact hlarge
  cases hends with
  | residual _ hsmall =>
    refine ⟨by cases e <;> nofun, fun ⟨k, hk, _, hlarge, _, herr⟩ => ?_⟩
    rcases Nat.lt_or_eq_of_le hk with hk | rfl
    · exact absurd herr (hbefore hk)
    · exact absurd hsmall (hlarge k le_rfl)
  | limit heq _ =>
    refine ⟨by cases e <;> nofun, fun ⟨k, _, hlt, _, _, herr⟩ => ?_⟩
    exact absurd herr (hbefore (heq ▸ hlt))
  | unsolved e' hlt hlarge hsolve =>
    constructor
    · intro heq
      obtain rfl : e' = e := by cases e <;> cases e' <;> first | rfl | cases heq
      exact ⟨last, le_rfl, hlt, hresidual hlarge, fun j hj => (hgoes j hj).step, hsolve⟩
    · rintro ⟨k, hk, _, _, _, herr⟩
      rcases Nat.lt_or_eq_of_le hk with hk | rfl
      · exact absurd herr (hbefore hk)
      · rw [Except.error.inj (hsolve.symm.trans herr)]
  | step _ _ hsolve hsmall =>
    refine ⟨by cases e <;> nofun, fun ⟨k, hk, _, _, hwide, herr⟩ => ?_⟩
    rcases Nat.lt_trichotomy k last with hlt | rfl | hlt
    · exact absurd herr (hbefore hlt)
    · cases hsolve.symm.trans herr
    · exact absurd hsmall (hwide last hlt)

/-- A run is successful if it comes to an iterate or takes a step that is small enough. -/
theorem success_iff : result.1.status = .success ↔
    (∃ k ≤ result.1.iterations, Stops options (F (x k))) ∨
      ∃ k < result.1.iterations, StopsAfter options (c k) := by
  obtain ⟨hgoes, hends⟩ := h
  have hnone (hlarge : ¬ Stops options (F (x last))) :
      ¬ ((∃ k ≤ last, Stops options (F (x k))) ∨ ∃ k < last, StopsAfter options (c k)) := by
    rintro (⟨k, hk, hsmall⟩ | ⟨k, hk, hsmall⟩)
    · rcases Nat.lt_or_eq_of_le hk with hk | rfl
      · exact (hgoes k hk).residual hsmall
      · exact hlarge hsmall
    · exact (hgoes k hk).step hsmall
  cases hends with
  | residual _ hsmall => exact ⟨fun _ => .inl ⟨last, le_rfl, hsmall⟩, fun _ => rfl⟩
  | limit _ hlarge => exact ⟨nofun, fun hsmall => absurd hsmall (hnone hlarge)⟩
  | unsolved e _ hlarge _ =>
    exact ⟨by cases e <;> nofun, fun hsmall => absurd hsmall (hnone hlarge)⟩
  | step _ _ _ hsmall =>
    exact ⟨fun _ => .inr ⟨last, last.lt_succ_self, hsmall⟩, fun _ => rfl⟩

end Run

section Systems

variable {s : System α} {inputs : List (List α)} {m : Nat} {F : List α → List α}
  {J : List α → LU α} (h : Evaluates s inputs m F J) (options : NewtonOptions α)

include h

theorem Evaluates.length_advance {x step : List α} (hx : x.length = m)
    (hsolve : (J x).solve (F x) = .ok step) : (advance options x step).length = m := by
  have hpos : (J x).rows.size ≠ 0 := fun hzero => by
    rw [LU.solve_eq_noUnknowns hzero] at hsolve
    cases hsolve
  rw [advance, List.length_zipWith, hx, (LU.solve_spec hpos _).2 step hsolve,
    (h.residual hx).2, Nat.min_self]

/-- Only where there are no unknowns the linear system has none. -/
theorem Evaluates.solve_eq_noUnknowns_iff {x : List α} (hx : x.length = m) :
    (J x).solve (F x) = .error .noUnknowns ↔ m = 0 := by
  rw [← (h.jacobian hx).2]
  exact ⟨fun herr => by_contra fun hpos => (LU.solve_spec hpos _).1 herr,
    fun hzero => LU.solve_eq_noUnknowns hzero _⟩

def stepAt (F : List α → List α) (J : List α → LU α) (x : List α) : List α :=
  ((J x).solve (F x)).toOption.getD []

def orbit (F : List α → List α) (J : List α → LU α) (options : NewtonOptions α) (guess : List α) :
    Nat → List α
  | 0 => guess
  | k + 1 =>
    let x := orbit F J options guess k
    advance options x (stepAt F J x)

theorem Evaluates.length_orbit {guess : List α} (hguess : guess.length = m) {last : Nat}
    (hsolve : ∀ k < last, (J (orbit F J options guess k)).solve (F (orbit F J options guess k)) =
      .ok (stepAt F J (orbit F J options guess k))) {k : Nat} (hk : k ≤ last) :
    (orbit F J options guess k).length = m := by
  induction k with
  | zero => exact hguess
  | succ k ih => exact h.length_advance options (ih (by omega)) (hsolve k (by omega))

/-- A run from an iterate asks for the residuals up to the iterate at which it ends, and for the
Jacobians in between. -/
theorem Evaluates.exists_run {guess : List α} (left done : Nat)
    (hx : (orbit F J options guess done).length = m)
    (hgoes : ∀ j < done, Goes F J options (orbit F J options guess)
      (fun k => stepAt F J (orbit F J options guess k)) j) (q : Requests α) :
    let x := orbit F J options guess
    ∃ last result jacobians, done ≤ last ∧
      Run F J options x (fun k => stepAt F J (x k)) (done + left) last result jacobians ∧
      iterateRecorded s options inputs left done (x done) q =
        (result, ⟨q.residuals ++ (List.range' done (last + 1 - done)).map x,
          q.jacobians ++ (List.range' done (jacobians - done)).map x⟩) := by
  intro x
  induction left using Nat.strongRecOn generalizing done q with
  | ind left ih =>
    obtain ⟨hr, hrlen⟩ := h.residual hx
    obtain ⟨hlu, hrows⟩ := h.jacobian hx
    have hone : done + 1 - done = 1 := Nat.add_sub_cancel_left ..
    unfold iterateRecorded
    dsimp only [Requests.residual, Requests.jacobian]
    rw [hr]
    dsimp only
    split
    · rename_i hsmall
      exact ⟨done, _, done, le_rfl, ⟨hgoes, .residual (Nat.le_add_right _ _) hsmall⟩,
        by simp [hone, x]⟩
    rename_i hlarge
    cases left with
    | zero => exact ⟨done, _, done, le_rfl, ⟨hgoes, .limit rfl hlarge⟩, by simp [hone, x]⟩
    | succ left =>
      have hlimit : done < done + (left + 1) := by omega
      rw [hlu]
      dsimp only
      cases hsolve : (J (x done)).solve (F (x done)) with
      | error e =>
        refine ⟨done, _, done + 1, le_rfl, ⟨hgoes, .unsolved e hlimit hlarge hsolve⟩, ?_⟩
        cases e <;> simp [hone, x, statusOf, failureOf]
      | ok step =>
        have hstep : stepAt F J (x done) = step := by rw [stepAt, hsolve]; rfl
        have hnext : x (done + 1) = advance options (x done) step := hstep ▸ rfl
        subst hstep
        dsimp only
        rw [← hnext]
        split
        · rename_i hsmall
          exact ⟨done, _, done + 1, le_rfl, ⟨hgoes, .step hlimit hlarge hsolve hsmall⟩,
            by simp [hone, x]⟩
        rename_i hwide
        have hgoesNext (j : Nat) (hj : j < done + 1) :
            Goes F J options x (fun k => stepAt F J (x k)) j := by
          rcases Nat.lt_succ_iff_lt_or_eq.1 hj with hj | rfl
          · exact hgoes j hj
          · exact ⟨hlarge, hsolve, hwide⟩
        obtain ⟨last, result, jacobians, hle, hrun, heq⟩ := ih left left.lt_succ_self (done + 1)
          (h.length_advance options hx hsolve) hgoesNext
          ⟨q.residuals ++ [x done], q.jacobians ++ [x done]⟩
        rw [Nat.add_right_comm, Nat.add_assoc] at hrun
        refine ⟨last, result, jacobians, by omega, hrun, heq.trans ?_⟩
        obtain ⟨-, hlast, -, hjacobians, -⟩ := hrun.bounds
        rw [show last + 1 - done = last + 1 - (done + 1) + 1 by omega,
          show jacobians - done = jacobians - (done + 1) + 1 by omega]
        simp [List.range'_succ]

end Systems

end Runs

/-! ## The account -/

section Account

variable {α : Type} [ExactOrderedField α] [LinearOrder α] [OrderedExactly α]

theorem stops_iff {options : NewtonOptions α} {r : List α} :
    Stops options r ↔ largest r ≤ options.absTol := by
  rw [Stops, OrderedExactly.atMost_iff, maxAbs_eq_largest]

theorem stopsAfter_iff {options : NewtonOptions α} {step : List α} :
    StopsAfter options step ↔ largest step ≤ options.stepTol := by
  rw [StopsAfter, OrderedExactly.atMost_iff, stepSize_eq_largest]

/-- The statistics of a solve are true of its iterates `x` and its steps `c`. A solve asks for the
residuals and the Jacobians at its first iterates, at most once more for residuals than it may take
steps. The status says which of its tests has ended it. Without unknowns there is no step from the
guess; the solve is then a success or a misuse. -/
theorem solve_statistics {n : Newton α} {guess : List α} {rest : List (List α)}
    (hguess : n.outputs = guess :: rest) {F : List α → List α} {J : List α → LU α}
    (h : Evaluates n.system n.inputs guess.length F J) :
    ∃ (x c : Nat → List α) (requests : Requests α), n.solveRecorded = (n.solve, requests) ∧
      (∃ e, n.solve.1.iterations ≤ e ∧ e ≤ n.solve.1.iterations + 1 ∧
        e ≤ n.options.maxIter + 1 ∧ requests.residuals = (List.range e).map x) ∧
      (∃ f, n.solve.1.iterations ≤ f ∧ f ≤ n.options.maxIter ∧
        requests.jacobians = (List.range f).map x) ∧
      x 0 = guess ∧
      (∀ k < n.solve.1.iterations, (J (x k)).solve (F (x k)) = .ok (c k) ∧
        x (k + 1) = List.zipWith (fun a s => a - n.options.damping * s) (x k) (c k)) ∧
      (n.solve.2 = match n.solve.1.status with
        | .success => .ok (x n.solve.1.iterations)
        | .iterationLimit =>
          .error (.notConverged n.options.maxIter (largest (F (x n.solve.1.iterations))))
        | .singularJacobian => .error (.singularAt n.solve.1.iterations)
        | .unfinished => .error .misuse) ∧
      (n.solve.1.status = .iterationLimit ↔ n.solve.1.iterations = n.options.maxIter ∧
        (∀ k ≤ n.options.maxIter, n.options.absTol < largest (F (x k))) ∧
        ∀ k < n.options.maxIter, n.options.stepTol < largest (c k)) ∧
      (n.solve.1.status = .singularJacobian ↔ ∃ k ≤ n.solve.1.iterations, k < n.options.maxIter ∧
        (∀ j ≤ k, n.options.absTol < largest (F (x j))) ∧
        (∀ j < k, n.options.stepTol < largest (c j)) ∧
        (J (x k)).solve (F (x k)) = .error .singular) ∧
      (n.solve.1.status = .success ↔
        (∃ k ≤ n.solve.1.iterations, largest (F (x k)) ≤ n.options.absTol) ∨
          ∃ k < n.solve.1.iterations, largest (c k) ≤ n.options.stepTol) ∧
      (n.solve.1.status = .unfinished ↔
        guess = [] ∧ n.options.absTol < 0 ∧ 0 < n.options.maxIter) := by
  have hstart : (orbit F J n.options guess 0).length = guess.length := rfl
  obtain ⟨last, result, jacobians, -, hrun, heq⟩ := h.exists_run n.options n.options.maxIter 0
    hstart (fun j hj => by omega) ⟨[], []⟩
  set x := orbit F J n.options guess
  set c := fun k => stepAt F J (x k)
  have hrecorded : n.solveRecorded = (result, ⟨(List.range (last + 1)).map x,
      (List.range jacobians).map x⟩) := by
    rw [solveRecorded, hguess]
    exact heq.trans (by simp [List.range_eq_range'])
  obtain rfl : n.solve = result := by rw [← fst_solveRecorded, hrecorded]
  rw [Nat.zero_add] at hrun
  obtain ⟨hlast, hle, hge, hjacobians, hlimit⟩ := hrun.bounds
  refine ⟨x, c, _, hrecorded, ⟨last + 1, hge, by omega, by omega, rfl⟩,
    ⟨jacobians, hjacobians, hlimit, rfl⟩, rfl, fun k hk => ⟨hrun.solve hk, rfl⟩,
    by simpa only [maxAbs_eq_largest] using hrun.answer, ?_, ?_, ?_, ?_⟩
  · simpa only [stops_iff, stopsAfter_iff, not_le] using hrun.iterationLimit_iff
  · have hsingular := hrun.unsolved_iff .singular
    simp only [stops_iff, stopsAfter_iff, not_le] at hsingular
    exact hsingular
  · simpa only [stops_iff, stopsAfter_iff] using hrun.success_iff
  · have hlen {k : Nat} (hk : k ≤ n.solve.1.iterations) : (x k).length = guess.length :=
      h.length_orbit n.options rfl (fun k hk => hrun.solve hk) hk
    have hempty := hrun.unsolved_iff .noUnknowns
    have hzero (hnone : guess.length = 0) : F (x 0) = [] :=
      List.length_eq_zero_iff.1 ((h.residual rfl).2.trans hnone)
    constructor
    · intro hstatus
      obtain ⟨k, hk, hlt, hlarge, -, hsolve⟩ := hempty.1 hstatus
      have hnone := (h.solve_eq_noUnknowns_iff (hlen hk)).1 hsolve
      have hfirst := mt stops_iff.2 (hlarge 0 (Nat.zero_le k))
      rw [hzero hnone, not_le] at hfirst
      exact ⟨List.length_eq_zero_iff.1 hnone, hfirst, by omega⟩
    · rintro ⟨hnil, htol, hpos⟩
      have hnone : guess.length = 0 := by rw [hnil]; rfl
      refine hempty.2 ⟨0, Nat.zero_le _, hpos, fun j hj => ?_, fun j hj => by omega,
        (h.solve_eq_noUnknowns_iff (hlen (Nat.zero_le _))).2 hnone⟩
      obtain rfl := Nat.le_zero.1 hj
      rw [stops_iff, hzero hnone, not_le]
      exact htol

/-- The square root of minus four, from two: one step leads to zero, where the square has the
derivative zero. -/
theorem solve_statistics_root :
    let v : Expr Rat := .node 0 (.symbol "v") [] .scalar []
    let p : Expr Rat := .node 1 (.symbol "p") [] .scalar []
    let q : Expr Rat := .node 2 (.binary .mul .none) [v, v] .scalar []
    let e : Expr Rat := .node 3 (.binary .sub .none) [q, p] .scalar []
    ∃ (f : Function Rat) (n : Newton Rat) (F : List Rat → List Rat) (J : List Rat → LU Rat)
      (x c : Nat → List Rat) (requests : Requests Rat),
      Function.compile "root" [v, p] [e] = .ok f ∧ n.system = f.system ∧ n.outputs = [[2]] ∧
      Evaluates n.system n.inputs 1 F J ∧
      n.solveRecorded = ((⟨1, .singularJacobian⟩, .error (.singularAt 1)), requests) ∧
      requests.residuals = [[2], [0]] ∧ x 0 = [2] ∧ (J (x 0)).solve (F (x 0)) = .ok (c 0) ∧
      x 1 = List.zipWith (fun a s => a - 1 * s) (x 0) (c 0) ∧
      ∃ k ≤ 1, (J (x k)).solve (F (x k)) = .error .singular := by
  intro v p q e
  have hv : Built 1 [v] := .symbol "v" _ .start
  have hp : Built 2 [p, v] := .symbol "p" _ hv
  have hq : Built 3 [q, p, v] := .make (.binary .mul v v) hp (by simp [Construction.operands]) rfl
  have hG : Built 4 [e, q, p, v] :=
    .make (.binary .sub q p) hq (by simp [Construction.operands]) rfl
  let f : Function Rat := ⟨"root", [v, p], [e], [⟨q, [0, 0], [some 2]⟩, ⟨e, [2, 1], [some 3]⟩],
    #[.scalar, .scalar, .scalar, .scalar], [0, 1], [3]⟩
  have hf : Function.compile "root" [v, p] [e] = .ok f := by cbv
  let n : Newton Rat := ⟨f.system, ⟨5, 0, 1, 1⟩, [[-4]], [[2]], [], [], ⟨0, .unfinished⟩⟩
  obtain ⟨hS, hcompiled⟩ := Function.compiled_of_built hG (by simp) (by simp) hf
  have hs : f.system.IsCompiled True := .function hS hcompiled
  obtain ⟨hsemantics⟩ := hs.exists_semantics
  have hsquare : f.system.IsSquare 1 :=
    ⟨⟨.scalar, rfl, rfl⟩, ⟨.scalar, rfl, rfl⟩, one_ne_zero, by decide⟩
  obtain ⟨F, J, hFJ⟩ := exists_evaluates hsemantics hsquare trivial
    (show n.inputs.map List.length = _ from rfl)
  have hrun : n.solveRecorded = ((⟨1, .singularJacobian⟩, .error (.singularAt 1)),
      ⟨[[2], [0]], [[2], [0]]⟩) := by cbv
  have hstats : n.solve.1 = ⟨1, .singularJacobian⟩ := by rw [← fst_solveRecorded, hrun]
  obtain ⟨x, c, requests, hrequests, -, -, hstart, hsteps, -, -, hsingular, -⟩ :=
    @solve_statistics Rat exactOrderedRat inferInstance orderedExactly_rat n [2] [] rfl F J hFJ
  rw [hstats] at hsteps hsingular
  obtain ⟨hstep, hnext⟩ := hsteps 0 Nat.zero_lt_one
  obtain ⟨k, hk, -, -, -, herr⟩ := hsingular.1 rfl
  obtain rfl := (Prod.mk.inj (hrequests.symm.trans hrun)).2
  exact ⟨f, n, F, J, x, c, _, hf, rfl, rfl, hFJ, hrun, rfl, hstart, hstep, hnext, k, hk, herr⟩

end Account

end Newton

end DiffGraph
