import Mathlib
import DiffGraph.Proofs.Collocation.Transcription

/-!
# Exactness of Lagrange bases

A polynomial of lower degree than there are points is the polynomial through its own
values (`interpolant_eval`). So the sums that a basis forms of the values at the
points, with its values at one or with its slopes at a point, give the value at one
and the derivative at that point of every such polynomial (`ofPoints_exact`).
-/

namespace DiffGraph

open Polynomial

variable {α : Type} [ExactField α] {points : List α}

theorem interpolant_eval (h : points.Nodup) {q : α[X]} (hq : q.degree < points.length) :
    interpolant points (fun j => q.eval (points[j]?.getD 0)) = q := by
  have hcard : q.degree < (Finset.range points.length).card := by rwa [Finset.card_range]
  exact (Lagrange.eq_interpolate (injOn_points h) hcard).symm

theorem sum_zip_points (coefficients : List α) (q : α[X]) :
    ((coefficients.zip points).map fun (c, x) => c * q.eval x).sum =
      ((coefficients.zip ((List.range points.length).map
        fun j (_ : Nat) => q.eval (points[j]?.getD 0))).map fun (c, v) => c * v 0).sum := by
  have hpoints : ((List.range points.length).map fun j (_ : Nat) => q.eval (points[j]?.getD 0)) =
      points.map fun x _ => q.eval x := by
    refine List.ext_getElem (by simp) fun j h₁ h₂ => ?_
    have hj : j < points.length := by simpa using h₂
    simp [List.getElem?_eq_getElem hj]
  rw [hpoints, List.zip_map_right, List.map_map]
  rfl

namespace Basis

/-- The basis of distinct points is always built, with a value and a list of slopes for every point;
it gives the value at one and the derivative at every point of all polynomials of lower degree than
there are points. -/
theorem ofPoints_exact (h : points.Nodup) (n : Nat) :
    ∃ b n', ofPoints points n = .ok (b, n') ∧
      b.ends.length = points.length ∧ b.slopes.length = points.length ∧
      (∀ s ∈ b.slopes, s.length = points.length) ∧
      ∀ q : α[X], q.degree < points.length →
        ((b.ends.zip points).map fun (d, x) => d * q.eval x).sum = q.eval 1 ∧
        ∀ (j : Nat) (x : α), points[j]? = some x →
          (((b.slopesAt j).zip points).map fun (c, y) => c * q.eval y).sum =
            q.derivative.eval x := by
  have hgrow : Grows (fun _ => False) n ∅ (ofPoints points) fun _ b => b = lagrange points :=
    grows_ofPoints (IsGraph.empty n) points
  unfold Grows at hgrow
  cases hrun : ofPoints points n with
  | error e => simp only [hrun] at hgrow
  | ok out =>
    obtain ⟨b, n'⟩ := out
    simp only [hrun] at hgrow
    obtain ⟨-, -, rfl⟩ := hgrow
    refine ⟨lagrange points, n', rfl, by simp [lagrange], by simp [lagrange],
      by simp [lagrange], fun q hq => ⟨?_, fun j x hx => ?_⟩⟩
    · rw [sum_zip_points, sum_zip_ends, interpolant_eval h hq]
    · have hj : j < points.length := (List.getElem?_eq_some_iff.1 hx).1
      rw [sum_zip_points, sum_zip_slopes hj, interpolant_eval h hq, hx]
      rfl

/-- The points `0`, `1/2` and `1`: the sums are exact on quadratic polynomials. -/
theorem ofPoints_exact_quadratic :
    ∃ b n', ofPoints [(0 : Rat), 1 / 2, 1] 0 = .ok (b, n') ∧
      ((b.ends.zip [0, 1 / 2, 1]).map fun (d, x) => d * x ^ 2).sum = 1 ∧
      (((b.slopesAt 1).zip [0, 1 / 2, 1]).map fun (c, x) => c * x ^ 2).sum = 1 := by
  obtain ⟨b, n', hb, -, -, -, hexact⟩ :=
    ofPoints_exact (show [(0 : Rat), 1 / 2, 1].Nodup by norm_num) 0
  have hdegree : (X ^ 2 : Rat[X]).degree < [(0 : Rat), 1 / 2, 1].length := by
    rw [degree_X_pow]
    norm_num
  obtain ⟨hends, hslopes⟩ := hexact (X ^ 2) hdegree
  refine ⟨b, n', hb, ?_, ?_⟩
  · simpa using hends
  · have h := hslopes 1 (1 / 2) rfl
    norm_num [derivative_pow] at h
    simpa using h

end Basis

end DiffGraph
