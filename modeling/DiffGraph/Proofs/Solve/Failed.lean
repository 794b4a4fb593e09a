import Mathlib
import DiffGraph.Proofs.Scalar
import DiffGraph.Proofs.Solve.Newton

/-!
# Solves that fail

A solve writes nothing but the statistics until it has a root and the outputs there
(`Newton.Reaches`). It stores these before it differentiates, and the sensitivities of a
direction before it looks at the next one. So a solve that fails earlier leaves the solver
as it was, and one that fails at the solution leaves new outputs and the sensitivities of the
directions before the failing one (`Newton.evaluate_failed`). The inputs, and the seeds of
the directions that there are, never change.
-/

namespace DiffGraph.Newton

variable {α : Type} [OrderedScalar α] {n n' : Newton α} {lu : LU α} {x : List α}
  {directions : Nat} {e : Failure α}

/-- The iteration ends at the root `x`, and the system has the outputs `out` there. -/
structure Reaches (n : Newton α) (x : List α) (out : List (List α)) : Prop where
  inputs : n.inputError? = none
  root : n.solve.2 = .ok x
  outputs : n.system.eval (x :: n.inputs) = .ok out

/-- What a solve for the given number of directions finds at the root `x` in one of them. -/
def sensitivityAt (n : Newton α) (directions : Nat) (x : List α) (dir : Nat) :
    Except (Failure α) (List (List α)) := do
  let lu ← factorize n.system (x :: n.inputs)
  n.sensitivity lu x ((n.withDirections directions).seeds[dir]?.getD [])

/-- The solver once the outputs and the sensitivities of the first `k` directions are stored. -/
structure StoredUpTo (n : Newton α) (directions : Nat) (x : List α) (out : List (List α))
    (k : Nat) (n' : Newton α) : Prop where
  outputs : n'.outputs = x :: out.drop 1
  computed : ∀ dir < k, ∃ sens, n.sensitivityAt directions x dir = .ok sens ∧
    (dir < n.sens.length → n'.sens[dir]? = some sens)
  kept : ∀ dir < n.sens.length, k ≤ dir → n'.sens[dir]? = n.sens[dir]?

/-- Sensitivities are stored direction after direction, up to one that fails, if any does. -/
theorem sensitivities_stored {first count : Nat} {r : Except (Failure α) Unit}
    (h : n.sensitivities lu x (List.range' first count) = (n', r)) :
    ∃ k, first ≤ k ∧
      (match r with
        | .ok () => k = first + count
        | .error e => k < first + count ∧ n.sensitivity lu x (n.seeds[k]?.getD []) = .error e) ∧
      (∀ dir, first ≤ dir → dir < k → ∃ sens,
        n.sensitivity lu x (n.seeds[dir]?.getD []) = .ok sens ∧
          (dir < n.sens.length → n'.sens[dir]? = some sens)) ∧
      ∀ dir, dir < first ∨ k ≤ dir → n'.sens[dir]? = n.sens[dir]? := by
  induction count generalizing n first with
  | zero =>
    obtain ⟨rfl, rfl⟩ := Prod.mk.inj h
    exact ⟨first, le_rfl, rfl, fun dir _ _ => by omega, fun _ _ => rfl⟩
  | succ count ih =>
    rw [List.range'_succ] at h
    unfold sensitivities at h
    split at h
    · rename_i e hfirst
      obtain ⟨rfl, rfl⟩ := Prod.mk.inj h
      exact ⟨first, le_rfl, ⟨by omega, hfirst⟩, fun dir _ _ => by omega, fun _ _ => rfl⟩
    · rename_i own hown
      -- the other directions see the inputs and seeds only, which the table does not touch
      obtain ⟨k, hfirst, hend, hdone, hkept⟩ := ih h
      refine ⟨k, by omega, ?_, fun dir hle hlt => ?_, fun dir hdir => ?_⟩
      · cases r with
        | ok => exact hend.trans (Nat.succ_add_eq_add_succ first count)
        | error e => exact ⟨by omega, hend.2⟩
      · rcases Nat.eq_or_lt_of_le hle with rfl | hnext
        · refine ⟨own, hown, fun hmem => (hkept _ (.inl (Nat.lt_succ_self _))).trans ?_⟩
          exact List.getElem?_set_self hmem
        · obtain ⟨sens, hsens, hstored⟩ := hdone dir hnext hlt
          exact ⟨sens, hsens, fun hmem => hstored (by simpa using hmem)⟩
      · refine (hkept dir (by omega)).trans (List.getElem?_set_ne ?_)
        omega

/-- What fails at the solution: the outputs are stored, and the sensitivities before the first
direction that has none. -/
theorem finish_failed {out : List (List α)}
    (hout : n.system.eval (x :: n.inputs) = .ok out)
    (h : n.finish directions x = (n', .error e)) :
    n'.inputs = n.inputs ∧ n.seeds <+: n'.seeds ∧ ∃ k < directions,
      n.sensitivityAt directions x k = .error e ∧ n.StoredUpTo directions x out k n' := by
  unfold finish at h
  dsimp only [ofSystem] at h
  rw [hout] at h
  dsimp only [Except.mapError] at h
  split at h
  · cases h
  rename_i hdir
  set m : Newton α := { n with outputs := x :: out.drop 1 }.withDirections directions with hm
  have hseeds : n.seeds <+: m.seeds := List.prefix_append _ _
  have hsens (dir : Nat) (hlt : dir < n.sens.length) : m.sens[dir]? = n.sens[dir]? :=
    List.getElem?_append_left hlt
  have hlength : n.sens.length ≤ m.sens.length := by simp [hm, withDirections]
  split at h
  · rename_i e' hfactor
    obtain ⟨rfl, he⟩ := Prod.mk.inj h
    obtain rfl := Except.error.inj he
    refine ⟨rfl, hseeds, 0, by omega, ?_, rfl, by simp, fun dir hlt _ => hsens dir hlt⟩
    exact congrArg (· >>= _) hfactor
  · rename_i lu hlu
    have hat (dir : Nat) : n.sensitivityAt directions x dir =
        m.sensitivity lu x (m.seeds[dir]?.getD []) := congrArg (· >>= _) hlu
    rw [List.range_eq_range'] at h
    obtain ⟨k, -, ⟨hk, hfail⟩, hdone, hkept⟩ := sensitivities_stored h
    have hsame := sameProblem_sensitivities m lu x (List.range' 0 directions)
    have hstored := outputs_sensitivities m lu x (List.range' 0 directions)
    rw [h] at hsame hstored
    refine ⟨hsame.inputs, hsame.seeds ▸ hseeds, k, by omega, (hat k).trans hfail, hstored,
      fun dir hlt => ?_, fun dir hlt hle => (hkept dir (.inr hle)).trans (hsens dir hlt)⟩
    obtain ⟨sens, hsens, hnew⟩ := hdone dir (Nat.zero_le _) hlt
    exact ⟨sens, (hat dir).trans hsens, fun hmem => hnew (Nat.lt_of_lt_of_le hmem hlength)⟩

/-- A failed solve keeps the inputs, and the seeds of the directions that there are. Without a root,
or without outputs there, it keeps everything but the statistics. At a root the outputs are stored
nevertheless, and the sensitivities of the directions before the one that fails; those of the others
are kept. -/
theorem evaluate_failed (h : n.evaluate directions = (n', .error e)) :
    n'.inputs = n.inputs ∧ n.seeds <+: n'.seeds ∧
      ((∀ x out, ¬ n.Reaches x out) → n' = { n with stats := n'.stats }) ∧
      ∀ x out, n.Reaches x out → ∃ k < directions,
        n.sensitivityAt directions x k = .error e ∧ n.StoredUpTo directions x out k n' := by
  unfold evaluate at h
  split at h
  · rename_i e' hinput
    obtain ⟨rfl, -⟩ := Prod.mk.inj h
    refine ⟨rfl, List.prefix_rfl, fun _ => rfl, fun x out hreach => ?_⟩
    cases hinput.symm.trans hreach.inputs
  rename_i hinput
  dsimp only at h
  split at h
  · rename_i e' hroot
    obtain ⟨rfl, -⟩ := Prod.mk.inj h
    refine ⟨rfl, List.prefix_rfl, fun _ => rfl, fun x out hreach => ?_⟩
    cases hroot.symm.trans hreach.root
  · rename_i x hroot
    cases hout : n.system.eval (x :: n.inputs) with
    | error e' =>
      dsimp only [finish, ofSystem] at h
      rw [hout] at h
      obtain ⟨rfl, -⟩ := Prod.mk.inj h
      refine ⟨rfl, List.prefix_rfl, fun _ => rfl, fun y out hreach => ?_⟩
      obtain rfl := Except.ok.inj (hroot.symm.trans hreach.root)
      cases hout.symm.trans hreach.outputs
    | ok out =>
      have hreach : n.Reaches x out := ⟨hinput, hroot, hout⟩
      obtain ⟨hinputs, hseeds, k, hk, hfail, hstored⟩ :=
        finish_failed (n := { n with stats := n.solve.1 }) hout h
      refine ⟨hinputs, hseeds, fun hnone => absurd hreach (hnone x out), fun y out' hreach' => ?_⟩
      obtain rfl := Except.ok.inj (hroot.symm.trans hreach'.root)
      obtain rfl := Except.ok.inj (hout.symm.trans hreach'.outputs)
      exact ⟨k, hk, hfail, hstored.outputs, hstored.computed, hstored.kept⟩

/-- A step of twice its length takes the square of the unknown from two to zero, where its
derivative vanishes: the solve fails, and the root has taken the place of the guess. -/
theorem evaluate_failed_square :
    let x : Expr Rat := .node 0 (.symbol "x") [] .scalar []
    let p : Expr Rat := .node 1 (.binary .mul .none) [x, x] .scalar []
    ∃ f n, Function.compile "square" [x] [p] = .ok f ∧
      create f.system ⟨5, 0, 1, 2⟩ = .ok n ∧ (n.setGuess [2]).outputs = [[2]] ∧
      (n.setGuess [2]).Reaches [0] [[0]] ∧
      ((n.setGuess [2]).evaluate 1).2 = .error .singularAtSolution ∧
      ((n.setGuess [2]).evaluate 1).1.outputs = [[0]] ∧
      (n.setGuess [2]).sensitivityAt 1 [0] 0 = .error .singularAtSolution := by
  intro x p
  let f : Function Rat :=
    ⟨"square", [x], [p], [⟨p, [0, 0], [some 1]⟩], #[.scalar, .scalar], [0], [1]⟩
  let n : Newton Rat := ⟨f.system, ⟨5, 0, 1, 2⟩, [], [[0]], [], [], ⟨0, .unfinished⟩⟩
  have hfail : ((n.setGuess [2]).evaluate 1).2 = .error .singularAtSolution := by cbv
  have hreach : (n.setGuess [2]).Reaches [0] [[0]] :=
    ⟨by cbv, by cbv, by decide +kernel⟩
  obtain ⟨-, -, -, hstored⟩ := evaluate_failed (Prod.ext rfl hfail)
  obtain ⟨k, hk, hat, hstored⟩ := hstored [0] [[0]] hreach
  obtain rfl : k = 0 := by omega
  exact ⟨f, n, by cbv, by cbv, rfl, hreach, hfail, hstored.outputs, hat⟩

end DiffGraph.Newton
