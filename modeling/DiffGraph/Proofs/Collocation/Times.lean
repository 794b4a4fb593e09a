import Mathlib
import DiffGraph.Proofs.Collocation.Create
import DiffGraph.Proofs.Collocation.Points
import DiffGraph.Proofs.Integrate.Follow

/-!
# The times of the points

Every collocation point and every end of an element adds its time to a list
(`Discretization.times_of_residual`). In exact arithmetic entry `m` is the time of forward state
`m + 1`, counted over all elements (`pointTimes_eq`); since the points of an element do not
decrease, neither do the times, and they stay inside the horizon.
-/

namespace DiffGraph

variable {α : Type}

/-! ## Points -/

/-- Points on the unit interval, from its start on. -/
structure Scheme.IsGrid [LinearOrder α] [Zero α] [One α] (points : List α) : Prop where
  start : points[0]? = some 0
  sorted : points.Pairwise (· ≤ ·)
  bound : ∀ x ∈ points, x ≤ 1

theorem Scheme.isGrid_points [ExactNumerals α] [LinearOrder α] [OrderedNumerals α]
    {scheme : Scheme} {degree : Nat} {points : List α}
    (h : (scheme.points degree : Except (Failure α) _) = .ok points) : IsGrid points := by
  unfold Scheme.points at h
  rcases scheme <;> rcases degree with _ | _ | _ | _ | _ | _ | d <;> cases h <;>
    refine ⟨rfl, ?_, ?_⟩ <;> simp [places16, OrderedScalar.ofDecimal_eq_mul] <;> norm_num

/-! ## Recording times -/

section Recorded

variable {β γ δ : Type} {n n' : Nat}

theorem recorded_of_foldlM {step : β → γ → Assemble α β} (record : β → List δ)
    {added : γ → List δ} (hstep : ∀ b x n b' n', step b x n = .ok (b', n') →
      record b' = record b ++ added x) {xs : List γ} {b b' : β}
    (h : xs.foldlM step b n = .ok (b', n')) : record b' = record b ++ xs.flatMap added := by
  induction xs generalizing b n with
  | nil =>
    obtain ⟨rfl, -⟩ := Prod.mk.inj (Except.ok.inj h)
    simp
  | cons x xs ih =>
    rw [List.foldlM_cons] at h
    obtain ⟨b₁, n₁, hb₁, h⟩ := ok_of_step_bind h
    rw [ih h, hstep _ _ _ _ _ hb₁, List.flatMap_cons, List.append_assoc]

namespace Discretization

variable [OrderedScalar α] {d : Discretization α} {t : Trajectory α} {h : Expr α}
  {eqs eqs' : Equations α}

theorem times_of_addPoint {xs rxs : List (Expr α)} {k j : Nat}
    (hrun : d.addPoint t h xs rxs k j eqs n = .ok (eqs', n')) :
    eqs'.times.toList = eqs.times.toList ++ [d.timeAt k (d.points[j]?.getD 0)] := by
  unfold addPoint at hrun
  obtain ⟨time, n₁, -, hrun⟩ := ok_of_step_bind hrun
  obtain ⟨slope, n₂, -, hrun⟩ := ok_of_step_bind hrun
  obtain ⟨rate, n₃, -, hrun⟩ := ok_of_step_bind hrun
  obtain ⟨x, n₄, -, hrun⟩ := ok_of_step_bind hrun
  obtain ⟨⟨equation, qf⟩, n₅, -, hrun⟩ := ok_of_step_bind hrun
  dsimp only at hrun
  cases hg : d.g <;> rw [hg] at hrun
  · obtain ⟨rfl, -⟩ := Prod.mk.inj (Except.ok.inj hrun)
    exact Array.toList_push
  · obtain ⟨rslope, n₆, -, hrun⟩ := ok_of_step_bind hrun
    obtain ⟨rrate, n₇, -, hrun⟩ := ok_of_step_bind hrun
    obtain ⟨rx, n₈, -, hrun⟩ := ok_of_step_bind hrun
    obtain ⟨⟨equation', rqf⟩, n₉, -, hrun⟩ := ok_of_step_bind hrun
    obtain ⟨rfl, -⟩ := Prod.mk.inj (Except.ok.inj hrun)
    exact Array.toList_push

/-- The times of the collocation points of element `k`, and of its end. -/
def elementTimes (d : Discretization α) (k : Nat) : List α :=
  ((List.range' 1 d.degree).map fun j => d.timeAt k (d.points[j]?.getD 0)) ++ [d.endTime k]

theorem times_of_addElement {k : Nat} (hrun : d.addElement t h eqs k n = .ok (eqs', n')) :
    eqs'.times.toList = eqs.times.toList ++ d.elementTimes k := by
  unfold addElement at hrun
  obtain ⟨xs, n₁, -, hrun⟩ := ok_of_step_bind hrun
  obtain ⟨rxs, n₂, -, hrun⟩ := ok_of_step_bind hrun
  obtain ⟨eqs₁, n₃, hpoints, hrun⟩ := ok_of_step_bind hrun
  have hsteps := recorded_of_foldlM (fun eqs : Equations α => eqs.times.toList)
    (fun _ _ _ _ _ hstep => times_of_addPoint hstep) hpoints
  obtain ⟨next, n₄, -, hrun⟩ := ok_of_step_bind hrun
  obtain ⟨equation, n₅, -, hrun⟩ := ok_of_step_bind hrun
  have hend : (eqs₁.times.push (d.endTime k)).toList =
      eqs.times.toList ++ d.elementTimes k := by
    rw [Array.toList_push, hsteps, elementTimes, List.map_eq_flatMap, List.append_assoc]
  dsimp only at hrun
  cases hg : d.g <;> rw [hg] at hrun
  · obtain ⟨rfl, -⟩ := Prod.mk.inj (Except.ok.inj hrun)
    exact hend
  · obtain ⟨rnext, n₆, -, hrun⟩ := ok_of_step_bind hrun
    obtain ⟨equation', n₇, -, hrun⟩ := ok_of_step_bind hrun
    obtain ⟨rfl, -⟩ := Prod.mk.inj (Except.ok.inj hrun)
    exact hend

def pointTimes (d : Discretization α) : List α :=
  (List.range d.elements).flatMap d.elementTimes

theorem times_of_residual {r : Function α} {times : List α}
    (hrun : d.residual n = .ok ((r, times), n')) : times = d.pointTimes := by
  unfold residual at hrun
  obtain ⟨t, n₁, -, hrun⟩ := ok_of_step_bind hrun
  obtain ⟨eqs, n₂, hequations, hrun⟩ := ok_of_step_bind hrun
  have htimes : eqs.times.toList = d.pointTimes := by
    unfold equations at hequations
    obtain ⟨h, n₃, -, hequations⟩ := ok_of_step_bind hequations
    obtain ⟨qf, n₄, -, hequations⟩ := ok_of_step_bind hequations
    obtain ⟨rqf, n₅, -, hequations⟩ := ok_of_step_bind hequations
    exact recorded_of_foldlM (fun eqs : Equations α => eqs.times.toList)
      (fun _ _ _ _ _ hstep => times_of_addElement hstep) hequations
  obtain ⟨stacked, n₆, -, hrun⟩ := ok_of_step_bind hrun
  split at hrun
  · cases hrun
  obtain ⟨qf, n₇, -, hrun⟩ := ok_of_step_bind hrun
  obtain ⟨rqf, n₈, -, hrun⟩ := ok_of_step_bind hrun
  obtain ⟨r', n₉, -, hrun⟩ := ok_of_step_bind hrun
  obtain ⟨hpair, -⟩ := Prod.mk.inj (Except.ok.inj hrun)
  rw [← htimes]
  exact (Prod.mk.inj hpair).2.symm

end Discretization

end Recorded

/-! ## The times of the forward states -/

namespace Discretization

theorem index_lt (d : Discretization α) {k j : Nat} (hk : k < d.elements) (hj : j ≤ d.degree) :
    k * (d.degree + 1) + j < d.pointCount := by
  calc k * (d.degree + 1) + j < (k + 1) * (d.degree + 1) := by
        rw [Nat.succ_mul]
        omega
    _ ≤ d.pointCount := Nat.mul_le_mul_right _ hk

/-- The time of forward state `m`, counted over all elements. -/
def stateTime [OrderedScalar α] (d : Discretization α) (m : Nat) : α :=
  d.timeAt (m / (d.degree + 1)) (d.points[m % (d.degree + 1)]?.getD 0)

theorem stateTime_index [OrderedScalar α] (d : Discretization α) (k : Nat) {j : Nat}
    (hj : j ≤ d.degree) :
    d.stateTime (k * (d.degree + 1) + j) = d.timeAt k (d.points[j]?.getD 0) := by
  have hlt : j < d.degree + 1 := Nat.lt_succ_of_le hj
  rw [stateTime, Nat.mul_comm, Nat.mul_add_div (Nat.succ_pos _), Nat.div_eq_of_lt hlt,
    Nat.add_zero, Nat.mul_add_mod_self_left, Nat.mod_eq_of_lt hlt]

section Exact

variable [ExactNumerals α] {d : Discretization α}

/-- The end of an element is the start of the next one. -/
theorem stateTime_start (h0 : d.points[0]? = some 0) (k : Nat) :
    d.stateTime (k * (d.degree + 1)) = d.t0 + d.h * k := by
  have hindex := d.stateTime_index k (Nat.zero_le _)
  rw [Nat.add_zero] at hindex
  rw [hindex, h0, timeAt, OrderedScalar.ofNat_eq_cast, Option.getD_some, add_zero]

/-- The times of an element are those of the forward states behind its start. -/
theorem elementTimes_eq (h0 : d.points[0]? = some 0) (k : Nat) : d.elementTimes k =
    (List.range (d.degree + 1)).map fun j => d.stateTime (k * (d.degree + 1) + j + 1) := by
  rw [elementTimes, List.range_succ, List.map_append, List.range'_eq_map_range, List.map_map,
    List.map_singleton]
  refine congrArg₂ (· ++ ·) (List.map_congr_left fun j hj => ?_) ?_
  · have hindex := d.stateTime_index k (Nat.succ_le_of_lt (List.mem_range.1 hj))
    rw [Function.comp_apply, Nat.add_comm 1, ← hindex]
    rfl
  · have hstart := stateTime_start h0 (k + 1)
    rw [Nat.add_assoc, ← Nat.succ_mul, hstart, endTime, OrderedScalar.ofNat_eq_cast]

theorem pointTimes_eq (h0 : d.points[0]? = some 0) :
    d.pointTimes = (List.range d.pointCount).map fun m => d.stateTime (m + 1) := by
  unfold pointTimes pointCount
  induction d.elements with
  | zero => simp
  | succ k ih =>
    have hcount : List.range ((k + 1) * (d.degree + 1)) = List.range (k * (d.degree + 1)) ++
        (List.range (d.degree + 1)).map (k * (d.degree + 1) + ·) := by
      rw [Nat.succ_mul, List.range_add]
    rw [hcount, List.range_succ, List.flatMap_append, ih, List.flatMap_singleton,
      elementTimes_eq h0, List.map_append, List.map_map]
    rfl

variable [LinearOrder α] [OrderedNumerals α]

/-- From one state to the next, within an element or at its end, time does not go back. -/
theorem stateTime_le_succ (hgrid : Scheme.IsGrid d.points)
    (hlen : d.points.length = d.degree + 1) (hh : 0 ≤ d.h) (m : Nat) :
    d.stateTime m ≤ d.stateTime (m + 1) := by
  obtain ⟨k, j, hj, rfl⟩ : ∃ k j, j ≤ d.degree ∧ m = k * (d.degree + 1) + j :=
    ⟨m / (d.degree + 1), m % (d.degree + 1), Nat.lt_succ_iff.1 (Nat.mod_lt m (Nat.succ_pos _)),
      (Nat.div_add_mod' m _).symm⟩
  have hpoint : j < d.points.length := by omega
  rw [d.stateTime_index k hj, timeAt, OrderedScalar.ofNat_eq_cast,
    List.getElem?_eq_getElem hpoint, Option.getD_some]
  rcases Nat.lt_or_ge j d.degree with hlt | hge
  · rw [Nat.add_assoc, d.stateTime_index k hlt, timeAt, OrderedScalar.ofNat_eq_cast,
      List.getElem?_eq_getElem (by omega), Option.getD_some]
    have hle := List.pairwise_iff_getElem.1 hgrid.sorted j (j + 1) hpoint (by omega) (by omega)
    gcongr
  · obtain rfl : j = d.degree := Nat.le_antisymm hj hge
    rw [Nat.add_assoc, ← Nat.succ_mul, stateTime_start hgrid.start]
    have hle := hgrid.bound _ (List.getElem_mem hpoint)
    push_cast
    gcongr

theorem monotone_stateTime (hgrid : Scheme.IsGrid d.points)
    (hlen : d.points.length = d.degree + 1) (hh : 0 ≤ d.h) : Monotone d.stateTime :=
  monotone_nat_of_le_succ (stateTime_le_succ hgrid hlen hh)

/-- The times do not decrease, and stay between the start and the end of the last element. -/
theorem pointTimes_sorted (hgrid : Scheme.IsGrid d.points)
    (hlen : d.points.length = d.degree + 1) (hh : 0 ≤ d.h) :
    d.pointTimes.Pairwise (· ≤ ·) ∧
      ∀ t ∈ d.pointTimes, d.t0 ≤ t ∧ t ≤ d.t0 + d.h * d.elements := by
  have hmono := monotone_stateTime hgrid hlen hh
  rw [pointTimes_eq hgrid.start]
  refine ⟨?_, fun t ht => ?_⟩
  · rw [List.pairwise_map]
    exact List.pairwise_lt_range.imp fun hlt => hmono (by omega)
  · obtain ⟨m, hm, rfl⟩ := List.mem_map.1 ht
    have hfirst : d.stateTime 0 = d.t0 := by
      have hstart := stateTime_start hgrid.start 0
      simpa using hstart
    rw [← stateTime_start hgrid.start, ← hfirst]
    exact ⟨hmono (Nat.zero_le _), hmono (List.mem_range.1 hm)⟩

end Exact

end Discretization

/-! ## The times of an integrator -/

section Options

variable [ExactNumerals α] {options : CollocationOptions α}

/-- The time of forward state `j` of element `k`. -/
def CollocationOptions.stateTime (options : CollocationOptions α) (points : List α) (k j : Nat) :
    α :=
  options.t0 + (options.tf - options.t0) / options.elements * (k + points[j]?.getD 0)

/-- The times of all points: entry `k * (degree + 1) + j` is the time of the forward state behind
point `j` of element `k`, which is the first one of the next element behind the last point. -/
structure CollocationOptions.HasTimes [LinearOrder α] (options : CollocationOptions α)
    (points times : List α) : Prop where
  length : times.length = options.elements * (options.degree + 1)
  entry : ∀ k < options.elements, ∀ j ≤ options.degree,
    times[k * (options.degree + 1) + j]? = some (if j < options.degree then
      options.stateTime points k (j + 1) else options.stateTime points (k + 1) 0)
  sorted : times.Pairwise (· ≤ ·)
  inside : ∀ t ∈ times, options.t0 ≤ t ∧ t ≤ options.tf

theorem CollocationOptions.HasTimes.sorted_from [LinearOrder α] {points times : List α}
    (h : options.HasTimes points times) : (options.t0 :: times).Pairwise (· ≤ ·) :=
  List.pairwise_cons.2 ⟨fun t ht => (h.inside t ht).1, h.sorted⟩

namespace Collocation

variable [LinearOrder α] [OrderedNumerals α] {f : Function α} {g : Option (Function α)}
  {d : Discretization α} {n n' : Nat}

theorem horizon_of_discretize (h : discretize f g options n = .ok (d, n')) :
    options.t0 < options.tf := by
  unfold discretize at h
  split at h
  · cases h
  obtain ⟨u, n₁, hcheck, -⟩ := ok_of_step_bind h
  have hcheck := ok_of_lift hcheck
  unfold checkHorizon at hcheck
  split at hcheck
  · cases hcheck
  · rename_i hinside
    simp only [Bool.or_eq_true, not_or, OrderedNumerals.atMost_iff, not_le] at hinside
    exact hinside.1.1

omit [LinearOrder α] [OrderedNumerals α] in
theorem IsDiscretization.timeAt_eq (hd : IsDiscretization f g options d) (k j : Nat) :
    d.timeAt k (d.points[j]?.getD 0) = options.stateTime d.points k j := by
  rw [Discretization.timeAt, CollocationOptions.stateTime, hd.t0, hd.h,
    OrderedScalar.ofNat_eq_cast, OrderedScalar.ofNat_eq_cast]

theorem IsDiscretization.hasTimes (hd : IsDiscretization f g options d) (helements : d.elements ≠ 0)
    (hhorizon : options.t0 < options.tf) : options.HasTimes d.points d.pointTimes := by
  have hgrid := Scheme.isGrid_points hd.points
  have hlen : d.points.length = d.degree + 1 :=
    (Scheme.length_points hd.points).trans (by rw [hd.degree])
  have hcount : (options.elements : α) ≠ 0 := by
    rw [← hd.elements]
    exact_mod_cast helements
  have hh : d.h * d.elements = options.tf - options.t0 := by
    rw [hd.h, OrderedScalar.ofNat_eq_cast, hd.elements, div_mul_cancel₀ _ hcount]
  have hpos : 0 ≤ d.h := by
    rw [hd.h, OrderedScalar.ofNat_eq_cast]
    exact div_nonneg (sub_nonneg.2 hhorizon.le) (Nat.cast_nonneg _)
  obtain ⟨hsorted, hinside⟩ := Discretization.pointTimes_sorted hgrid hlen hpos
  refine ⟨?_, fun k hk j hj => ?_, hsorted, fun t ht => ?_⟩
  · rw [Discretization.pointTimes_eq hgrid.start, List.length_map, List.length_range,
      Discretization.pointCount, hd.elements, hd.degree]
  · rw [← hd.elements] at hk
    rw [← hd.degree] at hj ⊢
    rw [Discretization.pointTimes_eq hgrid.start, List.getElem?_map,
      List.getElem?_range (d.index_lt hk hj), Option.map_some, Nat.add_assoc]
    split
    · rename_i hlt
      rw [d.stateTime_index k hlt, hd.timeAt_eq]
    · have hindex := d.stateTime_index (k + 1) (Nat.zero_le _)
      rw [Nat.add_zero, hd.timeAt_eq] at hindex
      rw [← hindex, show j = d.degree by omega, Nat.succ_mul]
  · have htime := hinside t ht
    rw [hh, hd.t0, add_sub_cancel] at htime
    exact htime

end Collocation

end Options

end DiffGraph
