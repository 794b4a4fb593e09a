import Mathlib
import DiffGraph.Collocation.Problem
import DiffGraph.Proofs.Collocation.Basis

/-!
# The collocation system on numbers

A `Transcription` gives the collocation equations of a problem for given states. In
every element the states of a row lie on a polynomial (`interpolant`); at every
collocation point the equation compares its slope with the function of the problem,
and at the end of the element its value with the next state (`blocks`). The
quadratures are sums over the collocation points (`quadrature`).
-/

namespace DiffGraph

open Polynomial

variable {α : Type} [ExactField α]

/-- The polynomial through the values at the points, of lower degree than there are points. -/
noncomputable def interpolant (points : List α) (values : Nat → α) : α[X] :=
  Lagrange.interpolate (Finset.range points.length) (fun j => points[j]?.getD 0) values

theorem injOn_points {points : List α} (h : points.Nodup) :
    Set.InjOn (fun j => points[j]?.getD 0) (Finset.range points.length : Set Nat) := by
  intro i hi j hj hij
  have hi : i < points.length := by simpa using hi
  have hj : j < points.length := by simpa using hj
  simp only [List.getElem?_eq_getElem hi, List.getElem?_eq_getElem hj, Option.getD_some] at hij
  exact (h.getElem_inj_iff).1 hij

theorem degree_interpolant_lt {points : List α} (h : points.Nodup) (values : Nat → α) :
    (interpolant points values).degree < points.length := by
  have := Lagrange.degree_interpolate_lt values (injOn_points h)
  rwa [Finset.card_range] at this

theorem eval_interpolant {points : List α} (h : points.Nodup) (values : Nat → α) {j : Nat}
    (hj : j < points.length) : (interpolant points values).eval (points[j]?.getD 0) = values j :=
  Lagrange.eval_interpolate_at_node values (injOn_points h) (Finset.mem_range.2 hj)

/-- What a linear form gives on the polynomial through the values, from the Lagrange polynomials. -/
theorem sum_zip_lagrange (points : List α) (φ : α[X] →ₗ[α] α) (values : Nat → Nat → α) (i : Nat) :
    ((((List.range points.length).map fun j => φ (Basis.lagrangeAt points j)).zip
        ((List.range points.length).map values)).map fun (c, v) => c * v i).sum =
      φ (interpolant points fun j => values j i) := by
  have hterm (j : Nat) : φ (C (values j i) * Basis.lagrangeAt points j) =
      φ (Basis.lagrangeAt points j) * values j i := by
    rw [← smul_eq_C_mul, map_smul, smul_eq_mul, mul_comm]
  have hsum : φ (interpolant points fun j => values j i) =
      ∑ j ∈ Finset.range points.length, φ (C (values j i) * Basis.lagrangeAt points j) := by
    rw [interpolant, Lagrange.interpolate_apply, map_sum]
    rfl
  rw [hsum, Finset.sum_congr rfl fun j _ => hterm j, List.zip_map', List.map_map]
  rfl

theorem sum_zip_slopes {points : List α} {j : Nat} (hj : j < points.length)
    (values : Nat → Nat → α) (i : Nat) :
    ((((Basis.lagrange points).slopesAt j).zip ((List.range points.length).map values)).map
        fun (c, v) => c * v i).sum =
      (interpolant points fun j => values j i).derivative.eval (points[j]?.getD 0) := by
  have hslopes : (Basis.lagrange points).slopesAt j = (List.range points.length).map fun l =>
      ((leval (points[j]?.getD 0)).comp derivative) (Basis.lagrangeAt points l) := by
    rw [Basis.slopesAt, Basis.lagrange, List.map_map]
    refine List.map_congr_left fun l _ => ?_
    simp [hj, leval]
  rw [hslopes, sum_zip_lagrange]
  rfl

theorem sum_zip_ends (points : List α) (values : Nat → Nat → α) (i : Nat) :
    (((Basis.lagrange points).ends.zip ((List.range points.length).map values)).map
        fun (c, v) => c * v i).sum = (interpolant points fun j => values j i).eval 1 :=
  sum_zip_lagrange points (leval 1) values i

def rows {β : Type} (m : Nat) (v : Nat → β) : List β :=
  (List.range m).map v

/-- Forward state `m` in an unknown vector of backward and forward states by turns: it follows the
backward state at the point before; the first one is the initial state. -/
def forwardStates (nx nrx : Nat) (v x0 : List α) (m i : Nat) : α :=
  if m = 0 then x0[i]?.getD 0 else v[(m - 1) * (nrx + nx) + nrx + i]?.getD 0

/-- Backward state `m` in such a vector; the last one is the initial state of the backward
problem. -/
def backwardStates (nx nrx count : Nat) (v rx0 : List α) (m i : Nat) : α :=
  if m = count then rx0[i]?.getD 0 else v[m * (nrx + nx) + i]?.getD 0

/-- A collocation problem with states. Functions are given by their outputs at columns, states by
the number of their point, counted over all elements, and their row. -/
structure Transcription (α : Type) where
  forward : (output : Nat) → List (Nat → α) → Nat → α
  backward : Option ((output : Nat) → List (Nat → α) → Nat → α)
  fwd : ForwardSizes
  bwd : BackwardSizes
  /-- The number of finite elements. -/
  elements : Nat
  /-- The degree of the polynomials. -/
  degree : Nat
  /-- The start of the horizon and the length of an element. -/
  t0 : α
  h : α
  /-- The start of an element and its collocation points, on the unit interval. -/
  points : List α
  x : Nat → Nat → α
  rx : Nat → Nat → α
  p : Nat → α
  rp : Nat → α

namespace Transcription

variable (s : Transcription α)

def index (k j : Nat) : Nat :=
  k * (s.degree + 1) + j

def point (j : Nat) : α :=
  s.points[j]?.getD 0

def time (k j : Nat) : α :=
  s.t0 + s.h * (k + s.point j)

/-- The polynomial of a row of the states in element `k`. -/
noncomputable def curve (states : Nat → Nat → α) (k i : Nat) : α[X] :=
  interpolant s.points fun j => states (s.index k j) i

theorem natDegree_curve_le (hpoints : s.points.Nodup) (hlen : s.points.length = s.degree + 1)
    (states : Nat → Nat → α) (k i : Nat) : (s.curve states k i).natDegree ≤ s.degree := by
  have hlt := degree_interpolant_lt hpoints fun j => states (s.index k j) i
  rw [hlen] at hlt
  by_cases hzero : s.curve states k i = 0
  · simp [hzero]
  · exact Nat.le_of_lt_succ ((natDegree_lt_iff_degree_lt hzero).2 hlt)

theorem eval_curve (hpoints : s.points.Nodup) (hlen : s.points.length = s.degree + 1)
    (states : Nat → Nat → α) (k i : Nat) {j : Nat} (hj : j ≤ s.degree) :
    (s.curve states k i).eval (s.point j) = states (s.index k j) i :=
  eval_interpolant hpoints _ (by omega)

noncomputable def slope (states : Nat → Nat → α) (k j i : Nat) : α :=
  (s.curve states k i).derivative.eval (s.point j)

noncomputable def rate (states : Nat → Nat → α) (k j i : Nat) : α :=
  s.slope states k j i / s.h

noncomputable def forwardColumns (k j : Nat) : List (Nat → α) :=
  [s.x (s.index k j), s.p, fun _ => s.time k j] ++
    if s.fwd.explicit then [] else [s.rate s.x k j]

noncomputable def backwardColumns (k j : Nat) : List (Nat → α) :=
  [s.rx (s.index k j), s.rp, s.x (s.index k j), s.p, fun _ => s.time k j] ++
    if s.fwd.explicit then [] else [s.rate s.x k j, s.rate s.rx k j]

/-- The equation at point `j` of element `k`: `h * f - slope` for an explicit problem, else `f`. -/
noncomputable def equation (f : List (Nat → α) → Nat → α) (columns : List (Nat → α))
    (states : Nat → Nat → α) (k j i : Nat) : α :=
  if s.fwd.explicit then s.h * f columns i - s.slope states k j i else f columns i

/-- The state behind element `k` and the end of the polynomial. -/
noncomputable def joint (states : Nat → Nat → α) (k i : Nat) : α :=
  states (s.index (k + 1) 0) i - (s.curve states k i).eval 1

noncomputable def pointBlocks (k j : Nat) : List (List α) :=
  rows s.fwd.nx (s.equation (s.forward 0) (s.forwardColumns k j) s.x k j) ::
    match s.backward with
    | none => []
    | some g => [rows s.bwd.nrx (s.equation (g 0) (s.backwardColumns k j) s.rx k j)]

noncomputable def jointBlocks (k : Nat) : List (List α) :=
  rows s.fwd.nx (s.joint s.x k) ::
    match s.backward with
    | none => []
    | some _ => [rows s.bwd.nrx (s.joint s.rx k)]

noncomputable def elementBlocks (k : Nat) : List (List α) :=
  (List.range' 1 s.degree).flatMap (s.pointBlocks k) ++ s.jointBlocks k

/-- All equations, block by block. -/
noncomputable def blocks : List (List α) :=
  (List.range s.elements).flatMap s.elementBlocks

noncomputable def weight (j : Nat) : α :=
  (Basis.lagrangeAt s.points j).eval 1 * s.h

noncomputable def pointQuadrature (k j i : Nat) : α :=
  s.forward 1 (s.forwardColumns k j) i * s.weight j

/-- The backward quadrature at point `j` of element `k`, if there is a backward problem. -/
noncomputable def pointBackwardQuadrature (k j : Nat) : List (Nat → α) :=
  match s.backward with
  | none => []
  | some g => [fun i => g 1 (s.backwardColumns k j) i * s.weight j]

noncomputable def quadratures : List (Nat → α) :=
  (List.range s.elements).flatMap fun k => (List.range' 1 s.degree).map (s.pointQuadrature k)

noncomputable def backwardQuadratures : List (Nat → α) :=
  (List.range s.elements).flatMap fun k =>
    (List.range' 1 s.degree).flatMap (s.pointBackwardQuadrature k)

end Transcription

end DiffGraph
