import Mathlib
import DiffGraph.Solve.Linear

/-!
# Sizes in linear systems

Elimination keeps the number of rows, and substitution the number of entries of the
right-hand side. So a system with a row is solved for as many unknowns as the
right-hand side has entries, or it is singular.
-/

namespace DiffGraph

variable {α : Type} [OrderedScalar α]

namespace LU

@[simp] theorem size_eliminateColumn (lu : LU α) (i : Nat) :
    (eliminateColumn lu i).rows.size = lu.rows.size := by
  unfold eliminateColumn
  dsimp only
  split
  · rfl
  · simp

@[simp] theorem size_factor (rows : Array (Array α)) : (factor rows).rows.size = rows.size := by
  have hfold (is : List Nat) (lu : LU α) :
      (is.foldl eliminateColumn lu).rows.size = lu.rows.size := by
    induction is generalizing lu with
    | nil => rfl
    | cons i is ih => rw [List.foldl_cons, ih, size_eliminateColumn]
  exact hfold _ _

@[simp] theorem size_substitute (rows : Array (Array α)) (i : Nat) (affected : Nat → Bool)
    (b : Array α) : (substitute rows i affected b).size = b.size := by
  simp [substitute]

theorem size_of_backStep {rows : Array (Array α)} {b b' : Array α} {i : Nat}
    (h : backStep rows b i = .ok b') : b'.size = b.size := by
  unfold backStep at h
  dsimp only at h
  split at h
  · cases h
  · obtain rfl := Except.ok.inj h
    simp

theorem size_of_foldlM_backStep {rows : Array (Array α)} {is : List Nat} {b b' : Array α}
    (h : is.foldlM (backStep rows) b = .ok b') : b'.size = b.size := by
  induction is generalizing b with
  | nil => rw [Except.ok.inj h]
  | cons i is ih =>
    rw [List.foldlM_cons] at h
    cases hstep : backStep rows b i with
    | error e =>
      rw [hstep] at h
      cases h
    | ok next =>
      rw [hstep] at h
      exact (ih h).trans (size_of_backStep hstep)

theorem foldlM_backStep_ne_noUnknowns (rows : Array (Array α)) (is : List Nat) (b : Array α) :
    is.foldlM (backStep rows) b ≠ .error .noUnknowns := by
  induction is generalizing b with
  | nil => nofun
  | cons i is ih =>
    rw [List.foldlM_cons]
    cases hstep : backStep rows b i with
    | ok next => exact ih next
    | error e =>
      unfold backStep at hstep
      dsimp only at hstep
      split at hstep
      · obtain rfl := Except.error.inj hstep
        nofun
      · cases hstep

theorem solve_spec {lu : LU α} (h : lu.rows.size ≠ 0) (b : List α) :
    lu.solve b ≠ .error .noUnknowns ∧ ∀ x, lu.solve b = .ok x → x.length = b.length := by
  have hswaps (swaps : List (Nat × Nat)) (b : Array α) :
      (swaps.foldl (fun (b : Array α) s => b.swapIfInBounds s.1 s.2) b).size = b.size := by
    induction swaps generalizing b with
    | nil => rfl
    | cons s swaps ih => rw [List.foldl_cons, ih, Array.size_swapIfInBounds]
  have hforward (is : List Nat) (b : Array α) : (is.foldl (fun b i =>
      substitute lu.rows i (fun r => decide (i < r)) b) b).size = b.size := by
    induction is generalizing b with
    | nil => rfl
    | cons i is ih => rw [List.foldl_cons, ih, size_substitute]
  unfold solve
  rw [if_neg (by simpa using h)]
  dsimp only
  constructor
  · intro herr
    cases hback : ((List.range lu.rows.size).reverse.foldlM (backStep lu.rows) _) with
    | error e =>
      rw [hback] at herr
      obtain rfl : e = .noUnknowns := Except.error.inj herr
      exact foldlM_backStep_ne_noUnknowns _ _ _ hback
    | ok b' =>
      rw [hback] at herr
      cases herr
  · intro x hx
    cases hback : ((List.range lu.rows.size).reverse.foldlM (backStep lu.rows) _) with
    | error e =>
      rw [hback] at hx
      cases hx
    | ok b' =>
      rw [hback] at hx
      obtain rfl : b'.toList = x := Except.ok.inj hx
      rw [Array.length_toList, size_of_foldlM_backStep hback, hforward, hswaps, List.size_toArray]

end LU

theorem SparseMatrix.size_rows (m : SparseMatrix α) : m.rows.size = m.pattern.nrows := by
  have hfold (entries : List ((Nat × Nat) × α)) (rows : Array (Array α)) :
      (entries.foldl (fun rows e =>
        rows.modify e.1.1 fun row => row.modify e.1.2 (· + e.2)) rows).size = rows.size := by
    induction entries generalizing rows with
    | nil => rfl
    | cons e entries ih => rw [List.foldl_cons, ih, Array.size_modify]
  exact (hfold _ _).trans Array.size_replicate

end DiffGraph
