import Mathlib
import DiffGraph.Proofs.Collocation.System

/-!
# Constant quadratures

The weights of an element are the values of the Lagrange polynomials of its collocation
points at the end. With the value of the polynomial of the start they add up to the
length of the element (`sum_weights`), so a constant quadrature comes out as the constant
times the horizon if that polynomial vanishes at the end. This is so for Radau points,
which hold the end, and only for them (`eval_start_eq_zero_iff`).
-/

namespace DiffGraph

open Expr Polynomial

variable {α : Type} [ExactNumerals α] {n n' : Nat} {S : Set (Expr α)} {f : Function α}
  {g : Option (Function α)} {options : CollocationOptions α} {points : List α}

/-! ## The polynomial of the start -/

namespace Scheme

variable {scheme : Scheme} {degree : Nat}

theorem degree_ne_zero (h : (scheme.points degree : Except (Failure α) _) = .ok points) :
    degree ≠ 0 := by
  rintro rfl
  cases scheme <;> cases h

theorem one_mem_points_iff (h : (scheme.points degree : Except (Failure α) _) = .ok points) :
    1 ∈ points ↔ scheme = .radau := by
  unfold Scheme.points at h
  rcases scheme <;> rcases degree with _ | _ | _ | _ | _ | _ | d <;> cases h <;>
    simp [places16, OrderedScalar.ofDecimal_eq_mul] <;> norm_num

theorem head_points (h : (scheme.points degree : Except (Failure α) _) = .ok points) :
    points[0]? = some 0 := by
  unfold Scheme.points at h
  rcases scheme <;> rcases degree with _ | _ | _ | _ | _ | _ | d <;> cases h <;> rfl

/-- The polynomial of the start vanishes at the end for Radau points only. -/
theorem eval_start_eq_zero_iff (h : (scheme.points degree : Except (Failure α) _) = .ok points) :
    (Basis.lagrangeAt points 0).eval 1 = 0 ↔ scheme = .radau := by
  rw [← one_mem_points_iff h, Basis.lagrangeAt, Lagrange.basis, eval_prod, Finset.prod_eq_zero_iff]
  have hhead := head_points h
  have hnodup := nodup_points h
  have hfactor {i : Nat} (hi : i < points.length) (hne : i ≠ 0) :
      (Lagrange.basisDivisor (points[0]?.getD 0) (points[i]?.getD 0)).eval 1 = 0 ↔
        points[i] = 1 := by
    have hpos : 0 < points.length := by omega
    have hstart : (0 : α) - points[i] ≠ 0 := by
      rw [List.getElem?_eq_getElem hpos] at hhead
      rw [sub_ne_zero, ← Option.some.inj hhead, Ne, hnodup.getElem_inj_iff]
      exact hne.symm
    rw [hhead, List.getElem?_eq_getElem hi, Option.getD_some, Option.getD_some,
      Lagrange.basisDivisor, eval_C_mul, eval_sub, eval_X, eval_C, mul_eq_zero,
      or_iff_right (inv_ne_zero hstart), sub_eq_zero, eq_comm]
  constructor
  · rintro ⟨i, hi, hzero⟩
    obtain ⟨hne, hi⟩ := Finset.mem_erase.1 hi
    have hi := Finset.mem_range.1 hi
    exact (hfactor hi hne).1 hzero ▸ List.getElem_mem hi
  · intro hmem
    obtain ⟨i, hi, hone⟩ := List.getElem_of_mem hmem
    have hne : i ≠ 0 := by
      rintro rfl
      rw [List.getElem?_eq_getElem hi, hone] at hhead
      exact one_ne_zero (Option.some.inj hhead)
    exact ⟨i, Finset.mem_erase.2 ⟨hne, Finset.mem_range.2 hi⟩, (hfactor hi hne).2 hone⟩

end Scheme

/-! ## The weights of an element -/

namespace Transcription

variable (s : Transcription α)

/-- The weights of the collocation points and that of the start add up to the length. -/
theorem sum_weights (hnodup : s.points.Nodup) (hlen : s.points.length = s.degree + 1) :
    ((List.range' 1 s.degree).map s.weight).sum =
      s.h * (1 - (Basis.lagrangeAt s.points 0).eval 1) := by
  have hall : ∑ j ∈ Finset.range s.points.length, Basis.lagrangeAt s.points j = 1 :=
    Lagrange.sum_basis (injOn_points hnodup) ⟨0, Finset.mem_range.2 (by omega)⟩
  have hvalues := congrArg (eval 1) hall
  rw [eval_finsetSum, eval_one, hlen, Finset.sum_range_succ'] at hvalues
  have hrange : ((List.range' 1 s.degree).map s.weight).sum =
      ∑ j ∈ Finset.range s.degree, s.weight (j + 1) := by
    rw [List.range'_eq_map_range, List.map_map]
    exact congrArg List.sum (List.map_congr_left fun j _ => congrArg s.weight (Nat.add_comm 1 j))
  rw [hrange, ← eq_sub_of_add_eq hvalues, Finset.mul_sum]
  exact Finset.sum_congr rfl fun j _ => mul_comm _ _

/-- Constant terms at all points add up to the constant times the horizon, less the share of the
start. -/
theorem sum_terms (hnodup : s.points.Nodup) (hlen : s.points.length = s.degree + 1) {q : α}
    {term : Nat → Nat → Nat → α} {i : Nat} (hterm : ∀ k j, term k j i = q * s.weight j) :
    (((List.range s.elements).flatMap fun k => (List.range' 1 s.degree).map (term k)).map
      fun t => t i).sum =
      q * (s.elements * s.h * (1 - (Basis.lagrangeAt s.points 0).eval 1)) := by
  have helement (k : Nat) : (((List.range' 1 s.degree).map (term k)).map fun t => t i).sum =
      q * (s.h * (1 - (Basis.lagrangeAt s.points 0).eval 1)) := by
    rw [List.map_map, ← s.sum_weights hnodup hlen, ← List.sum_map_mul_left]
    exact congrArg List.sum (List.map_congr_left fun j _ => hterm k j)
  rw [List.map_flatMap, List.flatMap_def, List.sum_flatten, List.map_map]
  refine (congrArg List.sum (List.map_congr_left fun k _ => helement k)).trans ?_
  rw [List.map_const', List.sum_replicate, List.length_range, nsmul_eq_mul]
  ring

end Transcription

/-! ## Constant quadratures -/

structure Function.HasConstantQuadrature (f : Function α) (q : List α) : Prop where
  shape : ∃ y, f.outputs[1]? = some y ∧ y.shape = (q.length, 1)
  value : ∀ columns, f.inputs.length ≤ columns.length → ∀ i, f.outputAt 1 columns i = q[i]?.getD 0

namespace Function.HasConstantQuadrature

variable {q : List α}

theorem quadRows_eq (h : f.HasConstantQuadrature q) : Problem.quadRows f = q.length := by
  obtain ⟨y, hy, hshape⟩ := h.shape
  rw [Problem.quadRows, hy]
  exact congrArg Prod.fst hshape

theorem hasQuadratureColumn {f' : Function α} (h : f.HasConstantQuadrature q)
    (hdense : DenseVersion f f') : f'.HasQuadratureColumn := by
  obtain ⟨y, hy, hshape⟩ := h.shape
  refine hdense.quadColumns_eq.trans ?_
  rw [Problem.quadColumns, Problem.patternOf_eq hy]
  split
  · rfl
  · exact congrArg Prod.snd hshape

end Function.HasConstantQuadrature

theorem entry_column (v : List α) (i : Nat) :
    (Pattern.column v.length).entry v i 0 = v[i]?.getD 0 := by
  by_cases hi : i < v.length
  · exact Pattern.entry_of_getElem? (by simp [Pattern.triplets, Pattern.column, Pattern.dense, hi])
  · have hout : (i, 0) ∉ (Pattern.column v.length).triplets := fun h =>
      hi (Pattern.mem_triplets_dense.1 h).1
    rw [Pattern.entry_of_not_mem hout, List.getElem?_eq_none (by omega), Option.getD_none]

theorem Function.hasConstantQuadrature_of_constant (hS : IsGraph n S) (hf : f.Compiled S)
    {y : Expr α} {q : List α} (hy : f.outputs[1]? = some y) (hq : y.constant? = some q)
    (hp : y.pattern = .column q.length) : f.HasConstantQuadrature q where
  shape := ⟨y, hy, congrArg Pattern.shape hp⟩
  value columns hlen i := by
    rw [Function.outputAt_eq hS hf hlen hy]
    dsimp only [Expr.entry]
    rw [hp, hS.nonzeros_of_constant? (hf.outputs y (List.mem_of_getElem? hy)).1 hq, entry_column]

theorem rows_sum_eq {q : List α} {terms : List (Nat → α)} {c : α}
    (h : ∀ i, (terms.map fun t => t i).sum = q[i]?.getD 0 * c) :
    rows q.length (fun i => (terms.map fun t => t i).sum) = q.map (· * c) := by
  refine List.ext_getElem (by simp [rows]) fun i h₁ h₂ => ?_
  have hi : i < q.length := by simpa using h₂
  simp [rows, h, hi]

namespace Transcription

variable {s : Transcription α} {q : List α}

theorem pointQuadrature_eq (hs : s.forward = f.outputAt) (hq : f.HasConstantQuadrature q)
    (hinputs : f.inputs.length = 3 + if s.fwd.explicit then 0 else 1) (k j i : Nat) :
    s.pointQuadrature k j i = q[i]?.getD 0 * s.weight j := by
  rw [pointQuadrature, hs, hq.value]
  rw [hinputs, forwardColumns]
  cases s.fwd.explicit <;> simp

theorem rows_quadratures (hnodup : s.points.Nodup) (hlen : s.points.length = s.degree + 1)
    (hs : s.forward = f.outputAt) (hq : f.HasConstantQuadrature q)
    (hinputs : f.inputs.length = 3 + if s.fwd.explicit then 0 else 1) :
    rows q.length (fun i => (s.quadratures.map fun t => t i).sum) =
      q.map (· * (s.elements * s.h * (1 - (Basis.lagrangeAt s.points 0).eval 1))) :=
  rows_sum_eq fun i => s.sum_terms hnodup hlen fun k j => pointQuadrature_eq hs hq hinputs k j i

theorem backwardQuadratures_eq {g : Function α} (hs : s.backward = some g.outputAt) :
    s.backwardQuadratures = (List.range s.elements).flatMap fun k =>
      (List.range' 1 s.degree).map fun j i =>
        g.outputAt 1 (s.backwardColumns k j) i * s.weight j := by
  refine congrArg ((List.range s.elements).flatMap ·) (funext fun k => ?_)
  unfold pointBackwardQuadrature
  rw [hs]
  exact List.flatMap_pure_eq_map _ _

theorem rows_backwardQuadratures {g : Function α} (hnodup : s.points.Nodup)
    (hlen : s.points.length = s.degree + 1) (hs : s.backward = some g.outputAt)
    (hq : g.HasConstantQuadrature q)
    (hinputs : g.inputs.length = if s.fwd.explicit then 5 else 7) :
    rows q.length (fun i => (s.backwardQuadratures.map fun t => t i).sum) =
      q.map (· * (s.elements * s.h * (1 - (Basis.lagrangeAt s.points 0).eval 1))) := by
  rw [backwardQuadratures_eq hs]
  refine rows_sum_eq fun i => s.sum_terms hnodup hlen fun k j => ?_
  rw [hq.value]
  rw [hinputs, backwardColumns]
  cases s.fwd.explicit <;> simp

end Transcription

namespace Collocation

/-- A constant quadrature gives the constant times the length of the horizon, less the part that
the value of the polynomial of the start at the end takes away; with Radau points, and only with
them, this is nothing. -/
theorem constant_quadrature (hS : IsGraph n S) (hf : f.Compiled S)
    (hg : ∀ g', g = some g' → g'.Compiled S) {c : Collocation α}
    (h : create f g options n = .ok (c, n')) :
    ∃ points : List α, options.scheme.points options.degree = .ok points ∧
      ((Basis.lagrangeAt points 0).eval 1 = 0 ↔ options.scheme = .radau) ∧
      ∀ v x0 p rx0 rp : List α, [v, x0, p, rx0, rp].map List.length = c.argumentLengths options →
        ∃ outs, Delivers c.residual.FitsMemory (c.residual.system.eval [v, x0, p, rx0, rp]) outs ∧
          (∀ q, f.HasConstantQuadrature q → outs[1]? = some (q.map (· *
            ((options.tf - options.t0) * (1 - (Basis.lagrangeAt points 0).eval 1))))) ∧
          ∀ g' q, g = some g' → g'.HasConstantQuadrature q → outs[2]? = some (q.map (· *
            ((options.tf - options.t0) * (1 - (Basis.lagrangeAt points 0).eval 1)))) := by
  obtain ⟨d, hd, hfwd, hbwd, helements, hmatches, hspec⟩ := residual_spec hS hf hg h
  have hnodup := Scheme.nodup_points hd.points
  have hlen := Scheme.length_points hd.points
  have hdegree := hd.degree.symm ▸ Scheme.degree_ne_zero hd.points
  have hhorizon : (options.elements : α) * ((options.tf - options.t0) / options.elements) =
      options.tf - options.t0 :=
    mul_div_cancel₀ _ (by exact_mod_cast hd.elements ▸ helements)
  refine ⟨d.points, hd.points, Scheme.eval_start_eq_zero_iff hd.points,
    fun v x0 p rx0 rp hargs => ?_⟩
  obtain ⟨outs, hrun, houts⟩ := hspec v x0 p rx0 rp hargs
  refine ⟨outs, hrun, fun q hq => ?_, fun g' q hg' hq => ?_⟩
  · have hinputs : f.inputs.length = 3 + if c.fwd.explicit then 0 else 1 := by
      have htakes := congrArg List.length (hmatches hdegree).forward
      rw [List.length_map, List.length_map] at htakes
      rw [← hd.forward.inputs, ← htakes, hfwd, Discretization.forwardLengths]
      cases d.fwd.explicit <;> rfl
    rw [houts.qf (hq.hasQuadratureColumn hd.forward), (Problem.forwardSizes_spec hd.fwd).nq,
      hq.quadRows_eq, ← hhorizon]
    exact congrArg some (Transcription.rows_quadratures hnodup hlen rfl hq hinputs)
  · subst hg'
    have hsizes := Problem.backwardSizes_spec (hd.bwd g' rfl)
    have hinputs := hsizes.inputs
    rw [← hfwd] at hinputs
    rw [houts.rqf fun g₂ hg₂ => ?_, hsizes.nrq, hq.quadRows_eq, ← hhorizon]
    · exact congrArg some (Transcription.rows_backwardQuadratures hnodup hlen rfl hq hinputs)
    · obtain ⟨g₁, hg₁, hdense⟩ := hd.exists_dense rfl
      obtain rfl := Option.some.inj (hg₁.symm.trans hg₂)
      exact hq.hasQuadratureColumn hdense

end Collocation

theorem Growth.hasConstantQuadrature : Growth.problem.HasConstantQuadrature [1] := by
  obtain ⟨S, hS, hf⟩ := Growth.exists_compiled
  exact Function.hasConstantQuadrature_of_constant hS hf (y := Growth.one) rfl rfl rfl

namespace Collocation

theorem constant_quadrature_growth :
    ∃ c n', create Growth.problem none Growth.setup 5 = .ok (c, n') ∧
      Growth.problem.HasConstantQuadrature [1] ∧
      ∃ outs, c.residual.system.eval [[2, 5], [1], [3], [], []] = .ok outs ∧
        outs[1]? = some ([1].map (· * (Growth.setup.tf - Growth.setup.t0))) := by
  obtain ⟨S, hS, hf⟩ := Growth.exists_compiled
  have hsample : sample Growth.problem none Growth.setup 5 [[2, 5], [1], [3], [], []] =
      some (⟨1, 1, 1, true⟩, ⟨0, 0, 0⟩, [[5, 3], [1], []]) := by
    cbv
  obtain ⟨c, n', hcreate, hfwd, hbwd, hmemory, hout⟩ := exists_of_sample hsample
  obtain ⟨points, hpoints, hstart, hspec⟩ :=
    constant_quadrature hS hf (fun _ h => by cases h) hcreate
  obtain ⟨outs, hdelivers, hqf, -⟩ := hspec [2, 5] [1] [3] [] [] (by
    rw [argumentLengths, hfwd, hbwd]
    rfl)
  refine ⟨c, n', hcreate, Growth.hasConstantQuadrature, outs, hdelivers.1 hmemory, ?_⟩
  rw [hqf [1] Growth.hasConstantQuadrature, hstart.2 rfl, sub_zero, mul_one]

/-- With the midpoint as the only collocation point a constant quadrature is counted twice. -/
theorem legendre_quadrature_growth :
    ∃ c n', create Growth.problem none { Growth.setup with scheme := .legendre } 5 = .ok (c, n') ∧
      Growth.problem.HasConstantQuadrature [1] ∧
      c.residual.system.eval [[2, 5], [1], [3], [], []] = .ok [[4, 2], [2], []] ∧
      [2] ≠ [1].map (· * (Growth.setup.tf - Growth.setup.t0)) := by
  have hsample : sample Growth.problem none { Growth.setup with scheme := .legendre } 5
      [[2, 5], [1], [3], [], []] = some (⟨1, 1, 1, true⟩, ⟨0, 0, 0⟩, [[4, 2], [2], []]) := by
    cbv
  obtain ⟨c, n', hcreate, -, -, -, hout⟩ := exists_of_sample hsample
  exact ⟨c, n', hcreate, Growth.hasConstantQuadrature, hout,
    by simp [Growth.setup, CollocationOptions.default]⟩

end Collocation

end DiffGraph
