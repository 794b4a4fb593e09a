import Mathlib
import DiffGraph.Collocation.Points
import DiffGraph.Proofs.Scalar

/-!
# The tables of collocation points

A list of points has one point more than its degree, and no point twice.
-/

namespace DiffGraph.Scheme

variable {α : Type} [ExactNumerals α] {scheme : Scheme} {degree : Nat} {points : List α}

theorem length_points (h : (scheme.points degree : Except (Failure α) _) = .ok points) :
    points.length = degree + 1 := by
  unfold Scheme.points at h
  rcases scheme <;> rcases degree with _ | _ | _ | _ | _ | _ | d <;> cases h <;> rfl

theorem exists_points_iff {β : Type} [OrderedScalar β] :
    (∃ points : List β, scheme.points degree = (.ok points : Except (Failure β) _)) ↔
      1 ≤ degree ∧ degree ≤ 5 := by
  constructor
  · rintro ⟨points, h⟩
    unfold Scheme.points at h
    rcases scheme <;> rcases degree with _ | _ | _ | _ | _ | _ | d <;> cases h <;> decide
  · rintro ⟨hpos, hle⟩
    obtain rfl | rfl | rfl | rfl | rfl :
        degree = 1 ∨ degree = 2 ∨ degree = 3 ∨ degree = 4 ∨ degree = 5 := by omega
    all_goals cases scheme <;> exact ⟨_, rfl⟩

theorem nodup_points (h : (scheme.points degree : Except (Failure α) _) = .ok points) :
    points.Nodup := by
  unfold Scheme.points at h
  rcases scheme <;> rcases degree with _ | _ | _ | _ | _ | _ | d <;> cases h <;>
    simp [places16, OrderedScalar.ofDecimal_eq_mul] <;> norm_num

end DiffGraph.Scheme
