import Mathlib
import DiffGraph.Proofs.Graph.Elementwise

/-!
# Inner products and partial sums

What `dot`, `sum` and `accumulate` build: the sum of the products of the entries,
the sum of the entries, and the partial sum with a contribution added on a given
pattern.
-/

namespace DiffGraph

open Expr

variable {α : Type} [Scalar α] {refused : GraphError → Prop} {n : Nat} {S : Set (Expr α)}
  {x y : Expr α}

theorem entry_scalar {r : Expr α} {env : Nat → Nat → α} {v : α} (hp : r.pattern = .scalar)
    (h : nonzeros env r = [v]) : entry env r 0 0 = v := by
  rw [entry, hp, h]
  rfl

/-- The sum of a function over the nonzeros of a pattern, added up in their order. -/
def total (p : Pattern) (M : Nat → Nat → α) : α :=
  (p.gather M).foldl (· + ·) 0

theorem foldl_add_of_forall_zero [Exact α] {xs : List α} (h : ∀ v ∈ xs, v = 0) :
    xs.foldl (· + ·) 0 = 0 := by
  induction xs with
  | nil => rfl
  | cons v xs ih =>
    rw [List.foldl_cons, h v (by simp), Exact.zero_add]
    exact ih fun w hw => h w (by simp [hw])

theorem total_mul_eq_zero [Exact α] {p : Pattern} {M N : Nat → Nat → α}
    (h : ∀ k : Nat, (p.gather M)[k]?.getD 0 = 0 ∨ (p.gather N)[k]?.getD 0 = 0) :
    total p (fun i j => M i j * N i j) = 0 := by
  refine foldl_add_of_forall_zero fun v hv => ?_
  obtain ⟨⟨i, j⟩, hij, rfl⟩ := List.mem_map.1 hv
  obtain ⟨k, hk⟩ := List.mem_iff_getElem?.1 hij
  have hk' := h k
  rw [getD_gather hk, getD_gather hk] at hk'
  rcases hk' with hz | hz
  · exact (congrArg (· * N i j) hz).trans (Exact.zero_mul _)
  · exact (congrArg (M i j * ·) hz).trans (Exact.mul_zero _)

theorem zip_gather {T : Type} (p : Pattern) (M N : Nat → Nat → T) :
    (p.gather M).zip (p.gather N) = p.triplets.map fun e => (M e.1 e.2, N e.1 e.2) :=
  List.zip_map'

theorem grows_dot (hS : IsGraph n S) (hx : Usable S x) (hy : Usable S y)
    (h : x.shape ≠ y.shape → refused (.shapeMismatch "inner_prod" (.shapes x.shape y.shape))) :
    Grows refused n S (dot x y) fun S' r =>
      Usable S' r ∧ r.pattern = .scalar ∧ (Exact α → ∃ u, x.pattern.union y.pattern = .ok u ∧
        ∀ env : Nat → Nat → α,
          nonzeros env r = [total u fun i j => entry env x i j * entry env y i j]) := by
  unfold dot
  split
  · rename_i hshape
    exact h hshape
  rename_i hshape
  refine grows_onto_union hS hx hy (not_not.1 hshape) ?_
  intro n' S' u a b hext hu ha hb hap hbp hav hbv
  split
  · rename_i hz
    refine (grows_constant hext.graph rfl).mono ?_
    rintro n'' S'' r - ⟨hr, hp, hval⟩
    refine ⟨hr, hp, fun hα => ⟨u, hu, fun env => ?_⟩⟩
    rw [hval, total_mul_eq_zero fun k => ?_]
    rcases Bool.or_eq_true_iff.1 hz with hz | hz
    · exact .inl (hav env ▸ hext.graph.getD_of_isZero ha.1 hz env k)
    · exact .inr (hbv env ▸ hext.graph.getD_of_isZero hb.1 hz env k)
  · split
    · rename_i xs ys hxs hys
      refine (grows_constant hext.graph rfl).mono ?_
      rintro n'' S'' r - ⟨hr, hp, hval⟩
      refine ⟨hr, hp, fun hα => ⟨u, hu, fun env => ?_⟩⟩
      rw [hval, ← hext.graph.nonzeros_of_constant? ha.1 hxs env,
        ← hext.graph.nonzeros_of_constant? hb.1 hys env, hav, hbv, Scalar.sum, Exact.neg_zero]
      simp [total, Pattern.gather, List.zipWith_map, List.zipWith_self]
    · refine (Grows.fresh hext.graph rfl rfl
        (fun id => .innerProduct id (hap.trans hbp.symm)) ?_).mono ?_
      · rintro d hd
        rcases List.mem_pair.1 hd with rfl | rfl
        · exact ha
        · exact hb
      · rintro n'' S'' r hext' ⟨hr, id, rfl⟩
        refine ⟨hr, rfl, fun hα => ⟨u, hu, fun env =>
          hext'.graph.nonzeros_of_compute hr.1 rfl ?_⟩⟩
        show [[((nonzeros env a).zip (nonzeros env b)).foldl (fun t ab => t + ab.1 * ab.2) 0]] = _
        rw [hav, hbv, zip_gather, List.foldl_map, total, Pattern.gather, List.foldl_map]

theorem grows_ones (hS : IsGraph n S) (p : Pattern) :
    Grows refused n S (liftM (ones p : Fresh (Expr α))) fun S' r =>
      Usable S' r ∧ r.pattern = p ∧
        ∀ env : Nat → Nat → α, nonzeros env r = p.gather fun _ _ => 1 := by
  refine (grows_constant hS (by simp)).mono ?_
  rintro n' S' r - ⟨hr, hp, hval⟩
  refine ⟨hr, hp, fun env => ?_⟩
  rw [hval, Pattern.gather, List.map_const', Pattern.length_triplets]

theorem grows_sum (hS : IsGraph n S) (hx : Usable S x) :
    Grows refused n S x.sum fun S' r =>
      Usable S' r ∧ r.pattern = .scalar ∧ (Exact α → ∀ env : Nat → Nat → α,
        nonzeros env r = [total x.pattern (entry env x)]) := by
  unfold sum
  refine .bind (grows_ones hS x.pattern) ?_
  rintro n₁ S₁ o h₁ ⟨ho, hop, hov⟩
  refine (grows_dot h₁.graph (hx.mono h₁.subset) ho
    fun hne => absurd (congrArg Pattern.shape hop.symm) hne).mono ?_
  rintro n₂ S₂ r - ⟨hr, hp, hval⟩
  refine ⟨hr, hp, fun hα env => ?_⟩
  obtain ⟨u, hu, hval⟩ := hval hα
  rw [hop, Pattern.union_self] at hu
  obtain rfl := Except.ok.inj hu
  rw [hval, total, total]
  refine congrArg (fun v => [List.foldl (· + ·) 0 v]) (Pattern.gather_congr fun i j hij => ?_)
  rw [entry_of_nonzeros hop (hov env), if_pos hij, Exact.mul_one]

/-! ## Partial sums -/

/-- The entry of a partial sum; nothing is zero. -/
def partialEntry (env : Nat → Nat → α) (x : Option (Expr α)) (i j : Nat) : α :=
  x.elim 0 fun x => entry env x i j

theorem grows_accumulate (hS : IsGraph n S) {t : Option (Expr α)} {target : Pattern}
    (ht : ∀ x ∈ t, Usable S x ∧ x.pattern = target) (hx : Usable S x)
    (hshape : x.shape = target.shape) :
    Grows refused n S (accumulate t x target) fun S' r =>
      Usable S' r ∧ r.pattern = target ∧ (Exact α → ∀ env : Nat → Nat → α,
        nonzeros env r = target.gather fun i j => partialEntry env t i j + entry env x i j) := by
  unfold accumulate
  refine .bind (grows_project hS hx fun hne => absurd hshape hne) ?_
  rintro n₁ S₁ c h₁ ⟨hc, hcp, hcv⟩
  have hcs : c.shape = target.shape := congrArg Pattern.shape hcp
  cases t with
  | none =>
    refine .pure h₁.graph ⟨hc, hcp, fun hα env => ?_⟩
    rw [hcv]
    exact Pattern.gather_congr fun i j _ => (Exact.zero_add _).symm
  | some t =>
    obtain ⟨ht, htp⟩ := ht t rfl
    have hts : t.shape = target.shape := congrArg Pattern.shape htp
    have hbs : binaryShape t c = target.shape := by
      rw [binaryShape, hts, hcs, ite_self]
    refine .bind (grows_binary h₁.graph (ht.mono h₁.subset) hc .add
      (fun hne => absurd (.inl (hts.trans hcs.symm)) hne)
      fun hne => absurd (hts.trans hcs.symm) hne) ?_
    rintro n₂ S₂ s h₂ ⟨hs, hss, hsv⟩
    refine (grows_project h₂.graph hs fun hne => absurd (hss.trans hbs) hne).mono ?_
    rintro n₃ S₃ r - ⟨hr, hp, hval⟩
    refine ⟨hr, hp, fun hα env => ?_⟩
    rw [hval]
    refine Pattern.gather_congr fun i j hij => ?_
    obtain ⟨hi, hj⟩ := Pattern.lt_of_mem_triplets hij
    have hrows : s.pattern.nrows = target.nrows := congrArg Prod.fst (hss.trans hbs)
    have hcols : s.pattern.ncols = target.ncols := congrArg Prod.snd (hss.trans hbs)
    rw [hsv hα env i (hrows ▸ hi) j (hcols ▸ hj),
      spreadEntry_of_lt env (by rwa [htp]) (by rwa [htp]),
      spreadEntry_of_lt env (by rwa [hcp]) (by rwa [hcp]),
      entry_of_nonzeros hcp (hcv env), if_pos hij]
    rfl

end DiffGraph
