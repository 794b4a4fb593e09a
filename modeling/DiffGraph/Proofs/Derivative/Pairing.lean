import Mathlib
import DiffGraph.Proofs.Derivative.Dual
import DiffGraph.Proofs.Graph.Dense

/-!
# Inner products

Adjoints and derivatives meet in inner products, which run over the nonzeros of a
pattern: `sumProducts` of two buffers, and `pairing` of an adjoint, or nothing,
with the derivatives of the entries. A contribution to an adjoint adds its inner
product (`pairing_accumulate`), and what joins parts adds up those of the parts
(`Pattern.Joins.gather_entry_flatten`, `sumProducts_flatten`).
-/

namespace DiffGraph

open Expr

variable {α : Type} [ExactField α] {p q : Pattern} {M N : Nat → Nat → α}

/-! ## Sums over a pattern -/

theorem total_eq_sum (p : Pattern) (M : Nat → Nat → α) : total p M = (p.gather M).sum :=
  List.sum_eq_foldl.symm

theorem total_congr (h : ∀ i j, (i, j) ∈ p.triplets → M i j = N i j) : total p M = total p N := by
  rw [total, total, Pattern.gather_congr h]

theorem total_add : total p (fun i j => M i j + N i j) = total p M + total p N := by
  simp only [total_eq_sum, Pattern.gather, List.sum_map_add]

theorem mul_total (x : α) : x * total p M = total p fun i j => x * M i j := by
  simp only [total_eq_sum, Pattern.gather, List.sum_map_mul_left]

theorem total_eq_zero (h : ∀ i j, (i, j) ∈ p.triplets → M i j = 0) : total p M = 0 := by
  rw [total_congr h, total_eq_sum, Pattern.gather, List.map_const', List.sum_replicate, nsmul_zero]

theorem total_scalar : total .scalar M = M 0 0 := by
  rw [total_eq_sum, Pattern.gather, Pattern.triplets_scalar]
  exact List.sum_singleton

/-- Two patterns of one shape give the same sum if what they do not share is zero. -/
theorem total_eq_total (hshape : p.shape = q.shape) (hp : ∀ i j, (i, j) ∉ p.triplets → M i j = 0)
    (hq : ∀ i j, (i, j) ∉ q.triplets → M i j = 0) : total p M = total q M := by
  rw [total_eq_gridSum hp, total_eq_gridSum hq, hshape]

theorem total_transpose (p : Pattern) (M : Nat → Nat → α) :
    total p.transpose M = total p fun i j => M j i := by
  have hperm : p.transpose.triplets.Perm (p.triplets.map Prod.swap) := by
    refine (List.perm_ext_iff_of_nodup p.transpose.nodup_triplets
      (p.nodup_triplets.map Prod.swap_injective)).2 fun ⟨j, i⟩ => ?_
    rw [Pattern.mem_triplets_transpose, List.mem_map]
    constructor
    · exact fun h => ⟨(i, j), h, rfl⟩
    · rintro ⟨⟨i', j'⟩, h, heq⟩
      obtain ⟨rfl, rfl⟩ := Prod.mk.inj heq
      exact h
  rw [total_eq_sum, total_eq_sum, Pattern.gather, Pattern.gather, (hperm.map _).sum_eq,
    List.map_map]
  rfl

theorem gridSum_congr {s : Nat × Nat} (h : ∀ i < s.1, ∀ j < s.2, M i j = N i j) :
    gridSum s M = gridSum s N :=
  Finset.sum_congr rfl fun i hi => Finset.sum_congr rfl fun j hj =>
    h i (Finset.mem_range.1 hi) j (Finset.mem_range.1 hj)

theorem gridSum_add {s : Nat × Nat} :
    gridSum s (fun i j => M i j + N i j) = gridSum s M + gridSum s N := by
  simp only [gridSum, Finset.sum_add_distrib]

theorem gridSum_mul {s : Nat × Nat} (x : α) :
    gridSum s M * x = gridSum s fun i j => M i j * x := by
  simp only [gridSum, Finset.sum_mul]

/-! ## Buffers -/

/-- The inner product of two buffers. -/
def sumProducts (xs ys : List α) : α :=
  (List.zipWith (· * ·) xs ys).sum

theorem sumProducts_gather (p : Pattern) (M N : Nat → Nat → α) :
    sumProducts (p.gather M) (p.gather N) = total p fun i j => M i j * N i j := by
  rw [sumProducts, total_eq_sum, Pattern.gather, Pattern.gather, List.zipWith_map,
    List.zipWith_self]
  rfl

theorem sumProducts_append {xs xs' ys ys' : List α} (h : xs.length = ys.length) :
    sumProducts (xs ++ xs') (ys ++ ys') = sumProducts xs ys + sumProducts xs' ys' := by
  rw [sumProducts, List.zipWith_append h, List.sum_append]
  rfl

theorem sumProducts_flatten {xss yss : List (List α)}
    (h : xss.map List.length = yss.map List.length) :
    sumProducts xss.flatten yss.flatten = (List.zipWith sumProducts xss yss).sum := by
  induction xss generalizing yss with
  | nil =>
    obtain rfl : yss = [] := by simpa using h.symm
    rfl
  | cons xs xss ih =>
    cases yss with
    | nil => simp at h
    | cons ys yss =>
      obtain ⟨hlen, hrest⟩ := List.cons.inj h
      rw [List.flatten_cons, List.flatten_cons, sumProducts_append hlen, ih hrest,
        List.zipWith_cons_cons, List.sum_cons]

/-! ## Adjoints -/

variable {env : Nat → Nat → α} {n : Nat} {S : Set (Expr α)} {x : Expr α} {c : Option (Expr α)}
  {D : Nat → Nat → α}

/-- The inner product of an adjoint with derivatives, over the nonzeros of a pattern. -/
def pairing (env : Nat → Nat → α) (p : Pattern) (c : Option (Expr α)) (D : Nat → Nat → α) : α :=
  total p fun i j => partialEntry env c i j * D i j

@[simp] theorem pairing_none : pairing env p none D = 0 :=
  total_eq_zero fun _ _ _ => zero_mul _

theorem pairing_congr {D' : Nat → Nat → α} (h : ∀ i j, (i, j) ∈ p.triplets → D i j = D' i j) :
    pairing env p c D = pairing env p c D' :=
  total_congr fun i j hij => congrArg _ (h i j hij)

theorem pairing_some (hS : IsGraph n S) (hx : x ∈ S) (D : Nat → Nat → α) :
    pairing env x.pattern (some x) D = sumProducts (nonzeros env x) (x.pattern.gather D) := by
  rw [hS.nonzeros_eq_gather hx, sumProducts_gather]
  rfl

theorem pairing_accumulate (hp : x.pattern = p)
    (h : nonzeros env x = p.gather fun i j => partialEntry env c i j + M i j) :
    pairing env p (some x) D = pairing env p c D + total p fun i j => M i j * D i j := by
  rw [pairing, pairing, ← total_add]
  refine total_congr fun i j hij => ?_
  show entry env x i j * D i j = _
  rw [entry_of_nonzeros hp h, if_pos hij, add_mul]

end DiffGraph
