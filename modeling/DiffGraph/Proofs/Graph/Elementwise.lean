import Mathlib
import DiffGraph.Expr.Elementwise
import DiffGraph.Proofs.Graph.Grow
import DiffGraph.Proofs.Scalar

/-!
# Elementwise operations, entry by entry

What `unary` and `binary` build. In exact arithmetic (`Exact`) every branch,
whatever it folds, drops or densifies, has the entries of the operation on the
entries of the operands; a 1x1 operand counts at every place (`spreadEntry`).
-/

namespace DiffGraph

open Expr

variable {α : Type} [Scalar α] {refused : GraphError → Prop} {n : Nat} {S : Set (Expr α)}
  {x y : Expr α}

theorem UnaryOp.apply_zero [Exact α] {op : UnaryOp} (h : op.preservesZero = true) :
    op.apply (0 : α) = 0 := by
  cases op with
  | neg => exact Exact.neg_zero
  | sin => exact Exact.sin_zero
  | _ => simp [preservesZero] at h

theorem BinaryOp.apply_zero_zero [Exact α] (op : BinaryOp) : op.apply (0 : α) 0 = 0 := by
  cases op with
  | add => exact Exact.zero_add 0
  | sub => exact Exact.sub_zero 0
  | mul => exact Exact.zero_mul 0
  | div => exact Exact.zero_div 0

/-! ## Unary operations -/

omit [Scalar α] in
theorem mem_deps_of_negated? (h : x.negated? = some y) : y ∈ x.deps := by
  unfold negated? at h
  split at h
  · rename_i z hop hdeps
    obtain rfl := Option.some.inj h
    exact hdeps ▸ List.mem_singleton_self z
  · cases h

omit [Scalar α] in
theorem IsGraph.exists_of_negated? (hS : IsGraph n S) (hx : x ∈ S) (h : x.negated? = some y) :
    ∃ id, x = node id (.unary .neg) [y] y.pattern [] ∧ Usable S y := by
  obtain ⟨id, p, ps, rfl⟩ : ∃ id p ps, x = node id (.unary .neg) [y] p ps := by
    obtain ⟨id, op, deps, p, ps⟩ := x
    unfold negated? at h
    split at h
    · rename_i y' hop hdeps
      obtain rfl := Option.some.inj h
      obtain rfl : op = .unary .neg := hop
      obtain rfl : deps = [y'] := hdeps
      exact ⟨_, _, _, rfl⟩
    · cases h
  obtain ⟨rfl, rfl⟩ : ps = [] ∧ y.pattern = p := by
    cases hS.wellFormed _ hx with
    | unary _ pattern _ => exact ⟨rfl, pattern⟩
  exact ⟨id, rfl, hS.closed _ hx y (List.mem_singleton_self y),
    hS.proper _ hx rfl y (List.mem_singleton_self y)⟩

theorem grows_unaryNode (hS : IsGraph n S) (hx : Usable S x) {op : UnaryOp}
    (hd : op.preservesZero = true ∨ x.pattern = .dense x.pattern.nrows x.pattern.ncols) :
    Grows refused n S (liftM (unaryNode op x)) fun S' r =>
      Usable S' r ∧ r.pattern = x.pattern ∧
        (Exact α → ∀ env : Nat → Nat → α, nonzeros env r = (nonzeros env x).map op.apply) := by
  unfold unaryNode
  split
  · rename_i nz hnz
    refine (grows_constant hS ((List.length_map _).trans
      (hS.isDag.length_of_constant? hx.1 hnz))).mono ?_
    rintro n' S' r - ⟨hr, hp, hval⟩
    exact ⟨hr, hp, fun _ env => by rw [hval, hS.nonzeros_of_constant? hx.1 hnz]⟩
  · rename_i y _ hy
    obtain ⟨id, rfl, hus⟩ := hS.exists_of_negated? hx.1 hy
    refine .pure hS ⟨hus, rfl, fun _ env => ?_⟩
    have hneg : nonzeros env (node id (.unary .neg) [y] y.pattern []) =
        (nonzeros env y).map (UnaryOp.apply .neg) := hS.nonzeros_of_compute hx.1 rfl rfl
    rw [hneg, List.map_map]
    exact (List.map_id'' (fun v => Exact.neg_neg v) _).symm
  · refine (Grows.fresh hS rfl rfl (fun id => .unary id rfl hd) (by simpa using hx)).mono ?_
    rintro n' S' r hext ⟨hr, id, rfl⟩
    exact ⟨hr, rfl, fun _ env => hext.graph.nonzeros_of_compute hr.1 rfl rfl⟩

def unaryPattern (op : UnaryOp) (x : Expr α) : Pattern :=
  if op.preservesZero then x.pattern else .dense x.pattern.nrows x.pattern.ncols

theorem entry_unary [Exact α] {op : UnaryOp} {r : Expr α} {env : Nat → Nat → α}
    (hlen : (nonzeros env y).length = y.nnz) (hy : y.pattern = unaryPattern op x)
    (hr : r.pattern = y.pattern) (hval : nonzeros env r = (nonzeros env y).map op.apply) {i j : Nat}
    (hi : i < x.pattern.nrows) (hj : j < x.pattern.ncols) :
    entry env r i j = op.apply (entry env y i j) := by
  have hin : (i, j) ∈ y.pattern.triplets ∨ op.apply (0 : α) = 0 := by
    unfold unaryPattern at hy
    split at hy
    · rename_i hz
      exact .inr (UnaryOp.apply_zero hz)
    · exact .inl (hy ▸ Pattern.mem_triplets_dense.2 ⟨hi, hj⟩)
  rw [entry, hr, hval, Pattern.entry_map hlen hin]
  rfl

theorem grows_unary (hS : IsGraph n S) (hx : Usable S x) {op : UnaryOp}
    (hfits : op.preservesZero = false → ¬ Size.Fits x.shape → refused .misuse) :
    Grows refused n S (unary op x) fun S' r =>
      Usable S' r ∧ r.pattern = unaryPattern op x ∧
        (Exact α → ∀ (env : Nat → Nat → α), ∀ i < x.pattern.nrows, ∀ j < x.pattern.ncols,
          entry env r i j = op.apply (entry env x i j)) := by
  unfold unary
  by_cases hz : op.preservesZero = true
  · have hxp : x.pattern = unaryPattern op x := by simp [unaryPattern, hz]
    rw [if_pos hz]
    refine .bind (Q := fun _ y => y = x) (.pure hS rfl) ?_
    rintro n' S' y hext rfl
    refine (grows_unaryNode hext.graph (hx.mono hext.subset) (.inl hz)).mono ?_
    rintro n'' S'' r - ⟨hr, hp, hval⟩
    exact ⟨hr, hp.trans hxp, fun hα env i hi j hj =>
      entry_unary (hS.length_nonzeros hx.1) hxp hp (hval hα env) hi hj⟩
  · rw [if_neg hz]
    refine .bind (grows_densify hS hx (hfits (by simpa using hz))) ?_
    rintro n' S' y hext ⟨hy, hyp, hyv⟩
    have hxp : y.pattern = unaryPattern op x := by simp [unaryPattern, hz, hyp]
    refine (grows_unaryNode hext.graph hy (.inr (by simp [hyp]))).mono ?_
    rintro n'' S'' r - ⟨hr, hp, hval⟩
    refine ⟨hr, hp.trans hxp, fun hα env i hi j hj => ?_⟩
    rw [entry_unary (hext.graph.length_nonzeros hy.1) hxp hp (hval hα env) hi hj,
      entry_of_nonzeros hyp (hyv env), if_pos (Pattern.mem_triplets_dense.2 ⟨hi, hj⟩)]

/-! ## Binary operations -/

/-- A 1x1 operand counts at every place. -/
def spreadEntry {T : Type} [Element Id α T] [Zero T] (env : Nat → Nat → T) (x : Expr α)
    (i j : Nat) : T :=
  if x.shape = (1, 1) then entry env x 0 0 else entry env x i j

/-- The shape of a binary operation. -/
def binaryShape (x y : Expr α) : Nat × Nat :=
  if x.shape = (1, 1) then y.shape else x.shape

/-- One shape, or a 1x1 operand. -/
def Compatible (x y : Expr α) : Prop :=
  x.shape = y.shape ∨ x.shape = (1, 1) ∨ y.shape = (1, 1)

namespace Expr.Aligned

variable {a : Aligned α} {op : BinaryOp}

/-- What the operands have at the nonzeros of the result, and that elsewhere the result is zero. -/
structure Lines (S : Set (Expr α)) (op : BinaryOp) (x y : Expr α) (a : Aligned α) : Prop where
  left : Usable S a.left
  right : Usable S a.right
  fits : a.Fits op
  shape : a.pattern.shape = binaryShape x y
  value : ∀ (env : Nat → Nat → α) (i j k : Nat), a.pattern.triplets[k]? = some (i, j) →
    combine op a.broadcast (nonzeros env a.left) (nonzeros env a.right) k =
      op.apply (spreadEntry env x i j) (spreadEntry env y i j)
  outside : Exact α → ∀ (env : Nat → Nat → α) (i j : Nat), i < a.pattern.nrows →
    j < a.pattern.ncols → (i, j) ∉ a.pattern.triplets →
      op.apply (spreadEntry env x i j) (spreadEntry env y i j) = 0

end Expr.Aligned

theorem IsGraph.getD_of_isZero [Exact α] (hS : IsGraph n S) (hx : x ∈ S) (h : x.isZero = true)
    (env : Nat → Nat → α) (k : Nat) : (nonzeros env x)[k]?.getD 0 = 0 := by
  unfold isZero at h
  cases hnz : x.constant? with
  | none => simp [hnz] at h
  | some nz =>
    rw [hS.nonzeros_of_constant? hx hnz]
    simp only [hnz, Option.any_some, List.all_eq_true] at h
    cases hk : nz[k]? with
    | none => rfl
    | some v => exact Exact.eq_of_beq v 0 (h v (List.mem_of_getElem? hk))

theorem IsGraph.getD_of_isOne [Exact α] (hS : IsGraph n S) (hx : x ∈ S) (h : x.isOne = true)
    (env : Nat → Nat → α) {k : Nat} (hk : k < x.nnz) : (nonzeros env x)[k]?.getD 0 = 1 := by
  unfold isOne at h
  cases hnz : x.constant? with
  | none => simp [hnz] at h
  | some nz =>
    rw [← hS.isDag.length_of_constant? hx hnz] at hk
    rw [hS.nonzeros_of_constant? hx hnz, List.getElem?_eq_getElem hk]
    simp only [hnz, Option.any_some, Bool.and_eq_true, List.all_eq_true] at h
    exact Exact.eq_of_beq _ 1 (h.2 _ (List.getElem_mem hk))

/-- What a simplification says about the nonzeros of the result. -/
def Expr.Simplified.Holds (S : Set (Expr α)) (op : BinaryOp) (a : Aligned α) : Simplified α → Prop
  | .operand z => Usable S z ∧ z.pattern = a.pattern ∧ (Exact α → ∀ (env : Nat → Nat → α),
      ∀ k < a.pattern.nnz, combine op a.broadcast (nonzeros env a.left) (nonzeros env a.right) k =
        (nonzeros env z)[k]?.getD 0)
  | .negation z => Usable S z ∧ z.pattern = a.pattern ∧ (Exact α → ∀ (env : Nat → Nat → α),
      ∀ k < a.pattern.nnz, combine op a.broadcast (nonzeros env a.left) (nonzeros env a.right) k =
        -(nonzeros env z)[k]?.getD 0)
  | .zero => Exact α → ∀ (env : Nat → Nat → α), ∀ k < a.pattern.nnz,
      combine op a.broadcast (nonzeros env a.left) (nonzeros env a.right) k = 0
  | .none => True

theorem combine_eq (op : BinaryOp) (broadcast : Broadcast) (xs ys : List α) (k : Nat) :
    combine op broadcast xs ys k = op.apply (xs[(broadcast.operands k).1]?.getD 0)
      (ys[(broadcast.operands k).2]?.getD 0) := rfl

theorem simplify_spec (hS : IsGraph n S) {op : BinaryOp} {a : Aligned α} (hl : Usable S a.left)
    (hr : Usable S a.right) (h : a.Fits op) : (simplify op a).Holds S op a := by
  have zero_left (_ : Exact α) (hz : a.left.isZero = true) (env : Nat → Nat → α) (k : Nat) :
      (nonzeros env a.left)[k]?.getD 0 = 0 := hS.getD_of_isZero hl.1 hz env k
  have zero_right (_ : Exact α) (hz : a.right.isZero = true) (env : Nat → Nat → α) (k : Nat) :
      (nonzeros env a.right)[k]?.getD 0 = 0 := hS.getD_of_isZero hr.1 hz env k
  have one_left (_ : Exact α) (hz : a.left.isOne = true) (env : Nat → Nat → α) {k : Nat}
      (hk : k < a.pattern.nnz) : (nonzeros env a.left)[(a.broadcast.operands k).1]?.getD 0 = 1 :=
    hS.getD_of_isOne hl.1 hz env (h.operands_lt hk).1
  have one_right (_ : Exact α) (hz : a.right.isOne = true) (env : Nat → Nat → α) {k : Nat}
      (hk : k < a.pattern.nnz) : (nonzeros env a.right)[(a.broadcast.operands k).2]?.getD 0 = 1 :=
    hS.getD_of_isOne hr.1 hz env (h.operands_lt hk).2
  unfold simplify
  cases op with
  | add =>
    dsimp only
    split_ifs with h₁ h₂
    · obtain ⟨hz, hp⟩ := Bool.and_eq_true_iff.1 h₁
      have hp := of_decide_eq_true hp
      refine ⟨hr, hp, fun hα env k _ => ?_⟩
      rw [combine_eq, zero_left hα hz, (h.operands_of_pattern k).2 hp]
      exact Exact.zero_add _
    · obtain ⟨hz, hp⟩ := Bool.and_eq_true_iff.1 h₂
      have hp := of_decide_eq_true hp
      refine ⟨hl, hp, fun hα env k _ => ?_⟩
      rw [combine_eq, zero_right hα hz, (h.operands_of_pattern k).1 hp]
      exact Exact.add_zero _
    · trivial
  | sub =>
    dsimp only
    split_ifs with h₁ h₂
    · obtain ⟨hz, hp⟩ := Bool.and_eq_true_iff.1 h₁
      have hp := of_decide_eq_true hp
      refine ⟨hl, hp, fun hα env k _ => ?_⟩
      rw [combine_eq, zero_right hα hz, (h.operands_of_pattern k).1 hp]
      exact Exact.sub_zero _
    · obtain ⟨hz, hp⟩ := Bool.and_eq_true_iff.1 h₂
      have hp := of_decide_eq_true hp
      refine ⟨hr, hp, fun hα env k _ => ?_⟩
      rw [combine_eq, zero_left hα hz, (h.operands_of_pattern k).2 hp]
      exact Exact.zero_sub _
    · trivial
  | mul =>
    dsimp only
    split_ifs with h₁ h₂ h₃
    · rintro hα env k -
      rcases Bool.or_eq_true_iff.1 h₁ with hz | hz
      · rw [combine_eq, zero_left hα hz]
        exact Exact.zero_mul _
      · rw [combine_eq, zero_right hα hz]
        exact Exact.mul_zero _
    · obtain ⟨hz, hp⟩ := Bool.and_eq_true_iff.1 h₂
      have hp := of_decide_eq_true hp
      refine ⟨hr, hp, fun hα env k hk => ?_⟩
      rw [combine_eq, one_left hα hz env hk, (h.operands_of_pattern k).2 hp]
      exact Exact.one_mul _
    · obtain ⟨hz, hp⟩ := Bool.and_eq_true_iff.1 h₃
      have hp := of_decide_eq_true hp
      refine ⟨hl, hp, fun hα env k hk => ?_⟩
      rw [combine_eq, one_right hα hz env hk, (h.operands_of_pattern k).1 hp]
      exact Exact.mul_one _
    · trivial
  | div =>
    dsimp only
    split_ifs with h₁
    · obtain ⟨hz, hp⟩ := Bool.and_eq_true_iff.1 h₁
      have hp := of_decide_eq_true hp
      refine ⟨hl, hp, fun hα env k hk => ?_⟩
      rw [combine_eq, one_right hα hz env hk, (h.operands_of_pattern k).1 hp]
      exact Exact.div_one _
    · trivial

theorem simplify_operand {op : BinaryOp} {a : Aligned α} {z : Expr α}
    (h : simplify op a = .operand z ∨ simplify op a = .negation z) :
    z = a.left ∨ z = a.right := by
  unfold simplify at h
  cases op <;> dsimp only at h <;> split_ifs at h <;> simp_all

theorem map_range_eq {f : Nat → α} {v : List α} {m : Nat} (hlen : v.length = m)
    (h : ∀ k < m, f k = v[k]?.getD 0) : (List.range m).map f = v := by
  rw [← Element.map_nth_range v hlen]
  exact List.map_congr_left fun k hk => h k (List.mem_range.1 hk)

/-- A binary operation on operands in line combines them nonzero by nonzero. -/
theorem grows_binaryNode (hS : IsGraph n S) {op : BinaryOp} {a : Aligned α}
    (hl : Usable S a.left) (hr : Usable S a.right) (h : a.Fits op) :
    Grows refused n S (liftM (binaryNode op a)) fun S' r =>
      Usable S' r ∧ r.pattern = a.pattern ∧ (Exact α → ∀ env : Nat → Nat → α, nonzeros env r =
        (List.range a.pattern.nnz).map
          (combine op a.broadcast (nonzeros env a.left) (nonzeros env a.right))) := by
  unfold binaryNode
  split
  · rename_i xs ys hxs hys
    refine (grows_constant hS (by simp)).mono ?_
    rintro n' S' r - ⟨hr', hp, hval⟩
    refine ⟨hr', hp, fun _ env => ?_⟩
    rw [hval, hS.nonzeros_of_constant? hl.1 hxs, hS.nonzeros_of_constant? hr.1 hys]
  · have hsimp := simplify_spec hS hl hr h
    split
    · rename_i z hz
      rw [hz] at hsimp
      obtain ⟨hzS, hp, hval⟩ := hsimp
      refine .pure hS ⟨hzS, hp, fun hα env => (map_range_eq ?_ (hval hα env)).symm⟩
      rw [hS.length_nonzeros hzS.1, nnz, hp]
    · rename_i z hz
      rw [hz] at hsimp
      obtain ⟨hzS, hp, hval⟩ := hsimp
      refine (grows_unaryNode hS hzS (.inl rfl)).mono ?_
      rintro n' S' r - ⟨hr', hp', hval'⟩
      refine ⟨hr', hp'.trans hp, fun hα env => ?_⟩
      have hlen : (nonzeros env z).length = a.pattern.nnz := by
        rw [hS.length_nonzeros hzS.1, nnz, hp]
      rw [hval' hα]
      refine (map_range_eq (by simpa using hlen) fun k hk => (hval hα env k hk).trans ?_).symm
      rw [List.getElem?_map, List.getElem?_eq_getElem (hlen ▸ hk)]
      rfl
    · rename_i hz
      rw [hz] at hsimp
      refine (grows_constant hS (by simp)).mono ?_
      rintro n' S' r - ⟨hr', hp, hval⟩
      refine ⟨hr', hp, fun hα env => ?_⟩
      rw [hval]
      refine (map_range_eq (by simp) fun k hk => (hsimp hα env k hk).trans ?_).symm
      simp [hk]
    · refine (Grows.fresh hS rfl rfl (fun id => .binary id rfl h) ?_).mono ?_
      · rintro d hd
        rcases List.mem_pair.1 hd with rfl | rfl
        · exact hl
        · exact hr
      · rintro n' S' r hext ⟨hr', id, rfl⟩
        exact ⟨hr', rfl, fun _ env => hext.graph.nonzeros_of_compute hr'.1 rfl rfl⟩

theorem grows_onto_union (hS : IsGraph n S) (hx : Usable S x) (hy : Usable S y)
    (hshape : x.shape = y.shape) {β : Type} {f : Expr α → Expr α → Build β}
    {Q : Set (Expr α) → β → Prop}
    (hf : ∀ n' S' u a b, Extends n S n' S' → x.pattern.union y.pattern = .ok u → Usable S' a →
      Usable S' b → a.pattern = u → b.pattern = u →
      (∀ env : Nat → Nat → α, nonzeros env a = u.gather (entry env x)) →
      (∀ env : Nat → Nat → α, nonzeros env b = u.gather (entry env y)) →
      Grows refused n' S' (f a b) Q) :
    Grows refused n S (do
      let union ← x.pattern.union y.pattern
      let a ← x.onto union
      let b ← y.onto union
      f a b) Q := by
  obtain ⟨u, hu⟩ := Pattern.union_eq_ok_of_shape hshape
  refine .bind (Q := fun _ p => p = u) (.lift hS (fun p hp => ?_) fun e he => ?_) ?_
  · exact Except.ok.inj (hp.symm.trans hu)
  · rw [hu] at he
    cases he
  rintro n₁ S₁ p h₁ rfl
  obtain ⟨hux, huy⟩ := Pattern.shape_of_union hu
  refine .bind (grows_onto h₁.graph (hx.mono h₁.subset) hux.symm) ?_
  rintro n₂ S₂ a h₂ ⟨ha, hap, hav⟩
  refine .bind (grows_onto h₂.graph (hy.mono (h₁.trans h₂).subset) huy.symm) ?_
  rintro n₃ S₃ b h₃ ⟨hb, hbp, hbv⟩
  exact hf n₃ S₃ p a b ((h₁.trans h₂).trans h₃) hu (ha.mono h₃.subset) hb hap hbp hav hbv

theorem spreadEntry_of_lt {T : Type} [Element Id α T] [Zero T] (env : Nat → Nat → T) {i j : Nat}
    (hi : i < x.pattern.nrows) (hj : j < x.pattern.ncols) :
    spreadEntry env x i j = entry env x i j := by
  unfold spreadEntry
  split
  · rename_i hs
    have h₁ : x.pattern.nrows = 1 := congrArg Prod.fst hs
    have h₂ : x.pattern.ncols = 1 := congrArg Prod.snd hs
    obtain rfl : i = 0 := by omega
    obtain rfl : j = 0 := by omega
    rfl
  · rfl

theorem spreadEntry_of_shape_ne {T : Type} [Element Id α T] [Zero T] (env : Nat → Nat → T)
    (h : x.shape ≠ (1, 1)) (i j : Nat) : spreadEntry env x i j = entry env x i j :=
  if_neg h

theorem getD_gather {p : Pattern} {M : Nat → Nat → α} {i j k : Nat}
    (h : p.triplets[k]? = some (i, j)) : (p.gather M)[k]?.getD 0 = M i j := by
  simp [Pattern.gather, h]

theorem lt_of_getElem?_triplets {p : Pattern} {i j k : Nat} (h : p.triplets[k]? = some (i, j)) :
    i < p.nrows ∧ j < p.ncols :=
  Pattern.lt_of_mem_triplets (List.mem_of_getElem? h)

/-- The operand that is not broadcast, dense unless the operation keeps its zeros. -/
theorem grows_unless (hS : IsGraph n S) (hx : Usable S x) (keep : Prop) [Decidable keep]
    (hfits : ¬ keep → ¬ Size.Fits x.shape → refused .misuse)
    {β : Type} {f : Expr α → Build β}
    {Q : Set (Expr α) → β → Prop}
    (hf : ∀ n' S' z, Extends n S n' S' → Usable S' z → z.shape = x.shape →
      (keep ∧ z.pattern = x.pattern ∨ z.pattern = .dense z.pattern.nrows z.pattern.ncols) →
      (∀ env : Nat → Nat → α, nonzeros env z = z.pattern.gather (entry env x)) →
      Grows refused n' S' (f z) Q) :
    Grows refused n S (if keep then f x else do
      let z ← x.densify
      f z) Q := by
  split
  · rename_i hk
    exact hf n S x (.refl hS) hx rfl (.inl ⟨hk, rfl⟩) fun env => hS.nonzeros_eq_gather hx.1
  · rename_i hk
    refine .bind (grows_densify hS hx (hfits hk)) ?_
    rintro n' S' z hext ⟨hz, hp, hval⟩
    refine hf n' S' z hext hz ?_ (.inr ?_) ?_
    · rw [shape, hp]
      exact Pattern.shape_dense _ _
    · simp [hp]
    · exact fun env => hp ▸ hval env

omit [Scalar α] in
theorem pattern_of_single (hsx : x.shape = (1, 1)) {a : Expr α}
    (hap : a.pattern = .dense x.pattern.nrows x.pattern.ncols) : a.pattern = .scalar := by
  have hrows : x.pattern.nrows = 1 := congrArg Prod.fst hsx
  have hcols : x.pattern.ncols = 1 := congrArg Prod.snd hsx
  rwa [hrows, hcols] at hap

theorem single_of_densify (hsx : x.shape = (1, 1)) {a : Expr α}
    (hap : a.pattern = .dense x.pattern.nrows x.pattern.ncols)
    (hav : ∀ env : Nat → Nat → α,
      nonzeros env a = (Pattern.dense x.pattern.nrows x.pattern.ncols).gather (entry env x)) :
    a.pattern = .scalar ∧ ∀ (env : Nat → Nat → α) (i j : Nat),
      (nonzeros env a)[0]?.getD 0 = spreadEntry env x i j := by
  have hrows : x.pattern.nrows = 1 := congrArg Prod.fst hsx
  have hcols : x.pattern.ncols = 1 := congrArg Prod.snd hsx
  rw [hrows, hcols] at hav
  refine ⟨pattern_of_single hsx hap, fun env i j => ?_⟩
  rw [hav, spreadEntry, if_pos hsx]
  refine getD_gather ?_
  rw [show Pattern.dense 1 1 = .scalar from rfl, Pattern.triplets_scalar]
  rfl

theorem grows_align (hS : IsGraph n S) (hx : Usable S x) (hy : Usable S y) (op : BinaryOp)
    (h : ¬ Compatible x y →
      refused (.shapeMismatch op.name (.shapes x.shape y.shape)))
    (hfits : x.shape ≠ y.shape → op ≠ .mul → ¬ Size.Fits (binaryShape x y) → refused .misuse) :
    Grows refused n S (align op x y) fun S' a => a.Lines S' op x y := by
  unfold align
  split
  · rename_i hshape
    refine grows_onto_union hS hx hy hshape ?_
    intro n' S' u a b hext hu ha hb hap hbp hav hbv
    have hux := (Pattern.shape_of_union hu).1
    have hrows : u.nrows = x.pattern.nrows := congrArg Prod.fst hux
    have hcols : u.ncols = x.pattern.ncols := congrArg Prod.snd hux
    have hrows' : u.nrows = y.pattern.nrows := hrows.trans (congrArg Prod.fst hshape)
    have hcols' : u.ncols = y.pattern.ncols := hcols.trans (congrArg Prod.snd hshape)
    have hp : (⟨a, b, .none⟩ : Aligned α).pattern = u := hap
    refine .pure hext.graph ⟨ha, hb, hap.trans hbp.symm, ?_, fun env i j k hk => ?_,
      fun hα env i j hi hj hnot => ?_⟩
    · rw [hp, hux, binaryShape, ← hshape, ite_self]
      rfl
    · rw [hp] at hk
      obtain ⟨hi, hj⟩ := lt_of_getElem?_triplets hk
      rw [combine_eq, hav, hbv, spreadEntry_of_lt env (hrows ▸ hi) (hcols ▸ hj),
        spreadEntry_of_lt env (hrows' ▸ hi) (hcols' ▸ hj)]
      exact congrArg₂ op.apply (getD_gather hk) (getD_gather hk)
    · rw [hp] at hi hj hnot
      rw [Pattern.mem_triplets_union hu, not_or] at hnot
      rw [spreadEntry_of_lt env (hrows ▸ hi) (hcols ▸ hj),
        spreadEntry_of_lt env (hrows' ▸ hi) (hcols' ▸ hj), entry,
        Pattern.entry_of_not_mem hnot.1, entry, Pattern.entry_of_not_mem hnot.2]
      exact BinaryOp.apply_zero_zero op
  · rename_i hshape
    split
    · rename_i hsx
      have hsx : x.shape = (1, 1) := Pattern.isScalar_iff.1 hsx
      have hsy : y.shape ≠ (1, 1) := fun hsy => hshape (hsx.trans hsy.symm)
      have hshape' : binaryShape x y = y.shape := if_pos hsx
      refine grows_unless hS hy (op = .mul) (hshape' ▸ hfits hshape) ?_
      intro n₁ S₁ z h₁ hz hzs hzp hzv
      refine .bind (grows_densify h₁.graph (hx.mono h₁.subset)
        fun hlarge => absurd (hsx ▸ Size.fits_one) hlarge) ?_
      rintro n₂ S₂ a h₂ ⟨ha, hap, hav⟩
      obtain ⟨hscalar, hsingle⟩ := single_of_densify hsx hap hav
      have hp : (⟨a, z, .left⟩ : Aligned α).pattern = z.pattern := rfl
      refine .pure h₂.graph ⟨ha, hz.mono h₂.subset, ⟨hscalar, hzs ▸ hsy, hzp.imp_left And.left⟩, ?_,
        fun env i j k hk => ?_, fun hα env i j hi hj hnot => ?_⟩
      · rw [binaryShape, if_pos hsx]
        exact hzs
      · rw [combine_eq, hzv, spreadEntry_of_shape_ne env hsy]
        exact congrArg₂ op.apply (hsingle env i j) (getD_gather hk)
      · rw [spreadEntry_of_shape_ne env hsy]
        rcases hzp with ⟨rfl, hzp⟩ | hdense
        · rw [hp, hzp] at hnot
          rw [entry, Pattern.entry_of_not_mem hnot]
          exact Exact.mul_zero _
        · rw [hp] at hi hj hnot
          exact absurd (hdense ▸ Pattern.mem_triplets_dense.2 ⟨hi, hj⟩) hnot
    · rename_i hsx
      have hsx : x.shape ≠ (1, 1) := fun h => hsx (Pattern.isScalar_iff.2 h)
      split
      swap
      · rename_i hsy
        exact h fun hc => (hc.resolve_left hshape).elim hsx fun hsy' =>
          hsy (Pattern.isScalar_iff.2 hsy')
      rename_i hsy
      have hsy : y.shape = (1, 1) := Pattern.isScalar_iff.1 hsy
      have hshape' : binaryShape x y = x.shape := if_neg hsx
      refine grows_unless hS hx (op = .mul ∨ op = .div)
        (fun hop => hshape' ▸ hfits hshape fun h => hop (.inl h)) ?_
      intro n₁ S₁ z h₁ hz hzs hzp hzv
      refine .bind (grows_densify h₁.graph (hy.mono h₁.subset)
        fun hlarge => absurd (hsy ▸ Size.fits_one) hlarge) ?_
      rintro n₂ S₂ b h₂ ⟨hb, hbp, hbv⟩
      obtain ⟨hscalar, hsingle⟩ := single_of_densify hsy hbp hbv
      have hp : (⟨z, b, .right⟩ : Aligned α).pattern = z.pattern := rfl
      refine .pure h₂.graph ⟨hz.mono h₂.subset, hb, ⟨hscalar, hzs ▸ hsx, ?_⟩, ?_,
        fun env i j k hk => ?_, fun hα env i j hi hj hnot => ?_⟩
      · exact hzp.elim (fun hop => hop.1.imp_right .inl) fun hdense => .inr (.inr hdense)
      · rw [binaryShape, if_neg hsx]
        exact hzs
      · rw [combine_eq, hzv, spreadEntry_of_shape_ne env hsx]
        exact congrArg₂ op.apply (getD_gather hk) (hsingle env i j)
      · rw [spreadEntry_of_shape_ne env hsx]
        rcases hzp with ⟨hop, hzp⟩ | hdense
        · rw [hp, hzp] at hnot
          rw [entry, Pattern.entry_of_not_mem hnot]
          rcases hop with rfl | rfl
          · exact Exact.zero_mul _
          · exact Exact.zero_div _
        · rw [hp] at hi hj hnot
          exact absurd (hdense ▸ Pattern.mem_triplets_dense.2 ⟨hi, hj⟩) hnot

theorem align_of_not_compatible (op : BinaryOp) (h : ¬ Compatible x y) (n : Nat) :
    align op x y n = .error (.shapeMismatch op.name (.shapes x.shape y.shape)) := by
  unfold Compatible at h
  push Not at h
  unfold align
  rw [if_neg h.1, if_neg fun hs => h.2.1 (Pattern.isScalar_iff.1 hs),
    if_neg fun hs => h.2.2 (Pattern.isScalar_iff.1 hs)]
  rfl

theorem compatible_of_binary {op : BinaryOp} {r : Expr α} {n' : Nat}
    (h : binary op x y n = .ok (r, n')) : Compatible x y := by
  by_contra hne
  have hrun : binary op x y n =
      align op x y n >>= fun (a, n') => (liftM (binaryNode op a) : Build (Expr α)) n' := rfl
  rw [hrun, align_of_not_compatible op hne] at h
  cases h

/-- A binary operation acts on every pair of entries. -/
theorem grows_binary (hS : IsGraph n S) (hx : Usable S x) (hy : Usable S y) (op : BinaryOp)
    (h : ¬ Compatible x y →
      refused (.shapeMismatch op.name (.shapes x.shape y.shape)))
    (hfits : x.shape ≠ y.shape → op ≠ .mul → ¬ Size.Fits (binaryShape x y) → refused .misuse) :
    Grows refused n S (binary op x y) fun S' r =>
      Usable S' r ∧ r.shape = binaryShape x y ∧
        (Exact α → ∀ (env : Nat → Nat → α), ∀ i < r.pattern.nrows, ∀ j < r.pattern.ncols,
          entry env r i j = op.apply (spreadEntry env x i j) (spreadEntry env y i j)) := by
  unfold binary
  refine .bind (grows_align hS hx hy op h hfits) ?_
  intro n₁ S₁ a h₁ ha
  refine (grows_binaryNode h₁.graph ha.left ha.right ha.fits).mono ?_
  rintro n₂ S₂ r - ⟨hr, hp, hval⟩
  refine ⟨hr, by rw [shape, hp, ha.shape], fun hα env i hi j hj => ?_⟩
  rw [hp] at hi hj
  by_cases hmem : (i, j) ∈ a.pattern.triplets
  · obtain ⟨k, hk⟩ := List.mem_iff_getElem?.1 hmem
    have hlt : k < a.pattern.nnz := by
      rw [← Pattern.length_triplets]
      exact (List.getElem?_eq_some_iff.1 hk).1
    rw [← ha.value env i j k hk, entry, hp, hval hα, Pattern.entry_of_getElem? hk,
      List.getElem?_map, List.getElem?_range hlt]
    rfl
  · rw [ha.outside hα env i j hi hj hmem, entry, hp, Pattern.entry_of_not_mem hmem]

end DiffGraph
