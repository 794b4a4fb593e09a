import Mathlib
import DiffGraph.Proofs.Graph.Built

/-!
# What the constructors mean

The dense value of an expression has its nonzeros at the places of its pattern
and zero elsewhere. Over a field every constructor, whatever it folds, drops or
makes dense, gives an expression whose dense value is the operation on the dense
values of its operands (`constructors_correct`); it is refused for shapes that do
not go together, and otherwise only if a dense matrix does not fit into memory.
-/

namespace DiffGraph

open Expr

/-- The sum over all places of a shape. -/
def gridSum {α : Type} [AddCommMonoid α] (shape : Nat × Nat) (M : Nat → Nat → α) : α :=
  ∑ r ∈ Finset.range shape.1, ∑ c ∈ Finset.range shape.2, M r c

section Field

variable {α : Type} [ExactField α] {n : Nat} {G : List (Expr α)} {x y : Expr α}

theorem total_eq_gridSum {p : Pattern} {M : Nat → Nat → α}
    (h : ∀ r c, (r, c) ∉ p.triplets → M r c = 0) : total p M = gridSum p.shape M := by
  have hsubset : p.triplets.toFinset ⊆ Finset.range p.nrows ×ˢ Finset.range p.ncols := by
    rintro ⟨r, c⟩ hrc
    obtain ⟨hr, hc⟩ := Pattern.lt_of_mem_triplets (List.mem_toFinset.1 hrc)
    exact Finset.mem_product.2 ⟨Finset.mem_range.2 hr, Finset.mem_range.2 hc⟩
  have hzero : ∀ rc ∈ Finset.range p.nrows ×ˢ Finset.range p.ncols, rc ∉ p.triplets.toFinset →
      M rc.1 rc.2 = 0 := fun rc _ hrc => h rc.1 rc.2 fun hmem => hrc (List.mem_toFinset.2 hmem)
  calc total p M = (p.triplets.map fun rc => M rc.1 rc.2).sum := List.sum_eq_foldl.symm
    _ = ∑ rc ∈ p.triplets.toFinset, M rc.1 rc.2 := (List.sum_toFinset _ p.nodup_triplets).symm
    _ = ∑ rc ∈ Finset.range p.nrows ×ˢ Finset.range p.ncols, M rc.1 rc.2 :=
      Finset.sum_subset hsubset hzero
    _ = gridSum p.shape M := Finset.sum_product _ _ _

end Field

/-- The step gives an expression of the given shape that can be evaluated under every assignment
and has the given entries; or it is refused because the memory does not suffice. -/
def Gives {α : Type} [Scalar α] (n : Nat) (step : Build (Expr α)) (memory : Prop)
    (shape : Nat × Nat) (M : (Nat → Nat → α) → Nat → Nat → α) : Prop :=
  match step n with
  | .ok (r, _) => r.shape = shape ∧ ∀ env : Nat → Nat → α, ∃ v,
      evalTree env r = .ok [v] ∧ v.length = r.nnz ∧
        ∀ i < shape.1, ∀ j < shape.2, r.pattern.entry v i j = M env i j
  | .error e => OutOf memory e

theorem Gives.of_grows {α : Type} [Scalar α] {n : Nat} {S : Set (Expr α)} {step : Build (Expr α)}
    {memory : Prop} {shape : Nat × Nat} {M : (Nat → Nat → α) → Nat → Nat → α}
    (h : Grows (OutOf memory) n S step fun S' r => Usable S' r ∧ r.shape = shape ∧
      ∀ env : Nat → Nat → α, ∀ i < shape.1, ∀ j < shape.2, entry env r i j = M env i j) :
    Gives n step memory shape M := by
  unfold Grows at h
  unfold Gives
  split
  · rename_i r n' hstep
    simp only [hstep] at h
    obtain ⟨S', hext, hr, hshape, hval⟩ := h
    refine ⟨hshape, fun env => ⟨nonzeros env r, ?_, hext.graph.length_nonzeros hr.1, hval env⟩⟩
    rw [(hext.graph.evalTree_eq hr.1).1, hext.graph.values_of_not_isSplit hr.1 hr.2]
  · rename_i e hstep
    simpa only [hstep] using h

/-! ## Every constructor -/

variable {α : Type} [ExactField α] {n : Nat} {S : Set (Expr α)} {x y : Expr α}

theorem gives_unary (hS : IsGraph n S) (hx : Usable S x) (op : UnaryOp) :
    Gives n (unary op x) (op.preservesZero = true ∨ Size.Fits x.shape) x.shape
      fun env i j => op.apply (entry env x i j) := by
  have hfits (hz : op.preservesZero = false) (hlarge : ¬ Size.Fits x.shape) :
      OutOf (op.preservesZero = true ∨ Size.Fits x.shape) .misuse := by
    refine ⟨rfl, ?_⟩
    rintro (h | h)
    · exact Bool.false_ne_true (hz.symm.trans h)
    · exact hlarge h
  refine .of_grows ((grows_unary hS hx hfits).mono ?_)
  rintro n' S' r - ⟨hr, hp, hval⟩
  refine ⟨hr, ?_, hval inferInstance⟩
  rw [shape, hp, unaryPattern]
  split
  · rfl
  · exact Pattern.shape_dense _ _

theorem gives_binary (hS : IsGraph n S) (hx : Usable S x) (hy : Usable S y) (op : BinaryOp)
    (h : Compatible x y) :
    Gives n (binary op x y) (x.shape = y.shape ∨ op = .mul ∨ Size.Fits (binaryShape x y))
      (binaryShape x y)
      fun env i j => op.apply (spreadEntry env x i j) (spreadEntry env y i j) := by
  have hfits (hne : x.shape ≠ y.shape) (hop : op ≠ .mul) (hlarge : ¬ Size.Fits (binaryShape x y)) :
      OutOf (x.shape = y.shape ∨ op = .mul ∨ Size.Fits (binaryShape x y)) .misuse := by
    refine ⟨rfl, ?_⟩
    rintro (h | h | h)
    · exact hne h
    · exact hop h
    · exact hlarge h
  refine .of_grows ((grows_binary hS hx hy op (fun hne => absurd h hne) hfits).mono ?_)
  rintro n' S' r - ⟨hr, hshape, hval⟩
  refine ⟨hr, hshape, ?_⟩
  rw [← hshape]
  exact hval inferInstance

theorem binary_of_not_compatible (op : BinaryOp) (h : ¬ Compatible x y) (n : Nat) :
    binary op x y n = .error (.shapeMismatch op.name (.shapes x.shape y.shape)) := by
  show (align op x y n >>= fun (a, n') => (liftM (binaryNode op a) : Build (Expr α)) n') = _
  rw [align_of_not_compatible op h n]
  rfl

theorem dot_of_shape_ne (h : x.shape ≠ y.shape) (n : Nat) :
    dot x y n = .error (.shapeMismatch "inner_prod" (.shapes x.shape y.shape)) := by
  unfold dot
  rw [if_pos h]
  rfl

theorem gives_dot (hS : IsGraph n S) (hx : Usable S x) (hy : Usable S y) (h : x.shape = y.shape) :
    Gives n (dot x y) True (1, 1)
      fun env _ _ => gridSum x.shape fun i j => entry env x i j * entry env y i j := by
  refine .of_grows ((grows_dot hS hx hy fun hne => absurd h hne).mono ?_)
  rintro n' S' r - ⟨hr, hp, hval⟩
  refine ⟨hr, congrArg Pattern.shape hp, fun env i hi j hj => ?_⟩
  obtain ⟨u, hu, hval⟩ := hval inferInstance
  obtain rfl := Nat.lt_one_iff.1 hi
  obtain rfl := Nat.lt_one_iff.1 hj
  rw [entry_scalar hp (hval env), total_eq_gridSum, (Pattern.shape_of_union hu).1]
  · rfl
  · intro r c hrc
    rw [Pattern.mem_triplets_union hu, not_or] at hrc
    rw [entry, Pattern.entry_of_not_mem hrc.1, zero_mul]

theorem gives_sum (hS : IsGraph n S) (hx : Usable S x) :
    Gives n x.sum True (1, 1) fun env _ _ => gridSum x.shape (entry env x) := by
  refine .of_grows ((grows_sum hS hx).mono ?_)
  rintro n' S' r - ⟨hr, hp, hval⟩
  refine ⟨hr, congrArg Pattern.shape hp, fun env i hi j hj => ?_⟩
  obtain rfl := Nat.lt_one_iff.1 hi
  obtain rfl := Nat.lt_one_iff.1 hj
  rw [entry_scalar hp (hval inferInstance env), total_eq_gridSum]
  · rfl
  · exact fun r c hrc => Pattern.entry_of_not_mem hrc

theorem gives_transpose (hS : IsGraph n S) (hx : Usable S x) :
    Gives n x.transpose (x.shape.1 < Size.listLimit) x.shape.swap
      fun env i j => entry env x j i := by
  refine .of_grows ((grows_flips hS hx fun hlarge => ⟨rfl, hlarge⟩).mono ?_)
  rintro n' S' r - ⟨hr, hflips⟩
  exact ⟨hr, hflips.shape, fun env i _ j _ => hflips.entry env i j⟩

theorem project_of_shape_ne {target : Pattern} (h : x.shape ≠ target.shape) (n : Nat) :
    x.project target n = .error (.shapeMismatch "project" (.onto x.shape target.shape)) := by
  unfold project
  rw [if_pos h]
  rfl

theorem gives_project (hS : IsGraph n S) (hx : Usable S x) {target : Pattern}
    (h : x.shape = target.shape) :
    Gives n (x.project target) True target.shape
      fun env i j => if (i, j) ∈ target.triplets then entry env x i j else 0 := by
  refine .of_grows ((grows_project hS hx fun hne => absurd h hne).mono ?_)
  rintro n' S' r - ⟨hr, hp, hval⟩
  exact ⟨hr, congrArg Pattern.shape hp, fun env i _ j _ => entry_of_nonzeros hp (hval env) i j⟩

/-- What the constructors give for the operands `x` and `y`, with `n` identities drawn: the
operation on the dense values, a 1x1 operand counting at every place. -/
structure PreservesMeaning (n : Nat) (x y : Expr α) : Prop where
  unary : ∀ op : UnaryOp, Gives n (Expr.unary op x) (op.preservesZero = true ∨ Size.Fits x.shape)
    x.shape fun env i j => op.apply (entry env x i j)
  binary : Compatible x y → ∀ op : BinaryOp, Gives n (Expr.binary op x y)
    (x.shape = y.shape ∨ op = .mul ∨ Size.Fits (binaryShape x y)) (binaryShape x y)
    fun env i j => op.apply (spreadEntry env x i j) (spreadEntry env y i j)
  binary_refused : ¬ Compatible x y → ∀ op : BinaryOp,
    Expr.binary op x y n = .error (.shapeMismatch op.name (.shapes x.shape y.shape))
  dot : x.shape = y.shape → Gives n (Expr.dot x y) True (1, 1)
    fun env _ _ => gridSum x.shape fun i j => entry env x i j * entry env y i j
  dot_refused : x.shape ≠ y.shape →
    Expr.dot x y n = .error (.shapeMismatch "inner_prod" (.shapes x.shape y.shape))
  sum : Gives n x.sum True (1, 1) fun env _ _ => gridSum x.shape (entry env x)
  transpose : Gives n x.transpose (x.shape.1 < Size.listLimit) x.shape.swap
    fun env i j => entry env x j i
  project : ∀ target : Pattern, x.shape = target.shape →
    Gives n (x.project target) True target.shape
    fun env i j => if (i, j) ∈ target.triplets then entry env x i j else 0
  project_refused : ∀ target : Pattern, x.shape ≠ target.shape →
    x.project target n = .error (.shapeMismatch "project" (.onto x.shape target.shape))

/-- Simplification at construction preserves meaning. -/
theorem constructors_correct {G : List (Expr α)} (hG : Built n G) (hx : x ∈ G) (hy : y ∈ G) :
    PreservesMeaning n x y := by
  obtain ⟨hS, hsplit⟩ := hG.isGraph
  have hx : Usable (nodesOf G) x := ⟨mem_nodesOf hx, hsplit x hx⟩
  have hy : Usable (nodesOf G) y := ⟨mem_nodesOf hy, hsplit y hy⟩
  exact {
    unary := gives_unary hS hx
    binary := fun h op => gives_binary hS hx hy op h
    binary_refused := fun h op => binary_of_not_compatible op h n
    dot := gives_dot hS hx hy
    dot_refused := fun h => dot_of_shape_ne h n
    sum := gives_sum hS hx
    transpose := gives_transpose hS hx
    project := fun _ h => gives_project hS hx h
    project_refused := fun _ h => project_of_shape_ne h n }

/-- A column of symbols and a number. -/
theorem constructors_correct_column :
    let x : Expr Rat := .node 0 (.symbol "x") [] (.column 2) []
    let y : Expr Rat := .node 1 (.constant [3]) [] .scalar []
    PreservesMeaning 2 x y := by
  intro x y
  have hx : Built 1 [x] := .symbol "x" _ .start
  have hG : Built 2 [y, x] := .make (.constant [3] .scalar) hx (by simp [Construction.operands]) rfl
  exact constructors_correct hG (by simp) (by simp)

end DiffGraph
