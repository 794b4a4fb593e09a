import Mathlib
import DiffGraph.Collocation.Basis
import DiffGraph.Proofs.Derivative.Rules

/-!
# Columns

Under a fixed assignment an expression of one column stands for a function of the
row (`HasColumn`). Operations on columns and numbers act row by row, and a linear
combination without its zero coefficients is the whole combination
(`grows_combine`).
-/

namespace DiffGraph

open Expr

variable {α : Type} [ExactField α] {env : Nat → Nat → α} {refused : GraphError → Prop} {n m : Nat}
  {S S' : Set (Expr α)} {x y : Expr α} {v w : Nat → α}

/-- `x` is a column of the graph with `m` rows and the entries `v`. -/
structure HasColumn (env : Nat → Nat → α) (S : Set (Expr α)) (x : Expr α) (m : Nat) (v : Nat → α) :
    Prop where
  usable : Usable S x
  shape : x.shape = (m, 1)
  entry : ∀ i < m, entry env x i 0 = v i

namespace HasColumn

theorem mono (h : HasColumn env S x m v) (hsub : S ⊆ S') : HasColumn env S' x m v :=
  { h with usable := h.usable.mono hsub }

theorem congr (h : HasColumn env S x m v) (hvw : ∀ i < m, v i = w i) : HasColumn env S x m w :=
  { h with entry := fun i hi => (h.entry i hi).trans (hvw i hi) }

theorem nrows (h : HasColumn env S x m v) : x.pattern.nrows = m :=
  congrArg Prod.fst h.shape

theorem ncols (h : HasColumn env S x m v) : x.pattern.ncols = 1 :=
  congrArg Prod.snd h.shape

theorem gather_entry (h : HasColumn env S x m v) {p : Pattern} (hp : p.shape = (m, 1)) :
    p.gather (Expr.entry env x) = p.gather fun i _ => v i := by
  have hrows : p.nrows = m := congrArg Prod.fst hp
  have hcols : p.ncols = 1 := congrArg Prod.snd hp
  refine Pattern.gather_congr fun i j hij => ?_
  obtain ⟨hi, hj⟩ := Pattern.lt_of_mem_triplets hij
  obtain rfl : j = 0 := by omega
  exact h.entry i (hrows ▸ hi)

end HasColumn

/-! ## Numbers and zeros -/

theorem grows_number (env : Nat → Nat → α) (hS : IsGraph n S) (a : α) :
    Grows refused n S (liftM (scalar a)) fun S' r => HasColumn env S' r 1 fun _ => a := by
  have hlen : [a].length = Pattern.scalar.nnz := rfl
  refine (grows_constant hS hlen).mono ?_
  rintro n' S' r - ⟨hr, hp, hval⟩
  refine ⟨hr, by rw [Expr.shape, hp]; rfl, fun i hi => ?_⟩
  obtain rfl : i = 0 := by omega
  rw [Expr.entry, hp, hval]
  rfl

theorem grows_zeros (env : Nat → Nat → α) (hS : IsGraph n S) (m : Nat) :
    Grows refused n S (liftM (zeros m 1)) fun S' r => HasColumn env S' r m fun _ => 0 := by
  have hlen : ([] : List α).length = (Pattern.empty m 1).nnz := by simp
  refine (grows_constant hS hlen).mono ?_
  rintro n' S' r - ⟨hr, hp, hval⟩
  refine ⟨hr, by rw [Expr.shape, hp, Pattern.shape_empty], fun i hi => ?_⟩
  rw [Expr.entry, hp, Pattern.entry_of_not_mem Pattern.not_mem_triplets_empty]

/-! ## Operations -/

theorem grows_binary_columns (hS : IsGraph n S) (op : BinaryOp) (hx : HasColumn env S x m v)
    (hy : HasColumn env S y m w) :
    Grows refused n S (binary op x y) fun S' r =>
      HasColumn env S' r m fun i => op.apply (v i) (w i) := by
  refine (grows_binary_same hS hx.usable hy.usable op hx.shape hy.shape).mono ?_
  rintro n' S' r - ⟨hr, hs, hval⟩
  refine ⟨hr, hs, fun i hi => ?_⟩
  rw [hval env i hi 0 Nat.one_pos, hx.entry i hi, hy.entry i hi]

theorem spreadEntry_number {a : α} (hx : HasColumn env S x 1 fun _ => a) (i : Nat) :
    spreadEntry env x i 0 = a := by
  rw [spreadEntry, if_pos hx.shape, hx.entry 0 Nat.one_pos]

theorem grows_binary_number (hS : IsGraph n S) (op : BinaryOp) {a : α} (hx : HasColumn env S x m v)
    (hy : HasColumn env S y 1 fun _ => a)
    (hfits : op ≠ .mul → ¬ Size.Fits (m, 1) → refused .misuse) :
    Grows refused n S (binary op x y) fun S' r =>
      HasColumn env S' r m fun i => op.apply (v i) a := by
  refine (grows_binary_spreads hS hx.usable hy.usable op (.inl hx.shape) (.inr hy.shape)
    (.inl hx.shape) fun _ => hfits).mono ?_
  rintro n' S' r - ⟨hr, hs, hval⟩
  refine ⟨hr, hs, fun i hi => ?_⟩
  rw [hval env i hi 0 Nat.one_pos, spreadEntry_of_shape env hx.shape hi Nat.one_pos, hx.entry i hi,
    spreadEntry_number hy]

theorem grows_number_mul (hS : IsGraph n S) {a : α} (hx : HasColumn env S x 1 fun _ => a)
    (hy : HasColumn env S y m v) :
    Grows refused n S (binary .mul x y) fun S' r => HasColumn env S' r m fun i => a * v i := by
  refine (grows_binary_spreads hS hx.usable hy.usable .mul (.inr hx.shape) (.inl hy.shape)
    (.inr hy.shape) fun _ hne => absurd rfl hne).mono ?_
  rintro n' S' r - ⟨hr, hs, hval⟩
  refine ⟨hr, hs, fun i hi => ?_⟩
  rw [hval env i hi 0 Nat.one_pos, spreadEntry_of_shape env hy.shape hi Nat.one_pos, hy.entry i hi,
    spreadEntry_number hx]
  rfl

/-! ## Linear combinations -/

theorem grows_addAll (hS : IsGraph n S) {xs : List (Expr α)} {vs : List (Nat → α)}
    (hx : HasColumn env S x m v) (hxs : List.Forall₂ (fun x v => HasColumn env S x m v) xs vs) :
    Grows refused n S (xs.foldlM (fun total x => binary .add total x) x) fun S' r =>
      HasColumn env S' r m fun i => v i + (vs.map fun v => v i).sum := by
  induction xs generalizing n S x v vs with
  | nil =>
    obtain rfl := List.forall₂_nil_left_iff.1 hxs
    exact .pure hS (by simpa using hx)
  | cons y xs ih =>
    cases hxs with
    | @cons _ w _ vs hy hrest =>
      rw [List.foldlM_cons]
      refine .bind (grows_binary_columns hS .add hx hy) fun n₁ S₁ z h₁ hz => ?_
      refine (ih h₁.graph hz (hrest.imp fun x v h => h.mono h₁.subset)).mono ?_
      rintro n' S' r - hr
      refine hr.congr fun i _ => ?_
      rw [List.map_cons, List.sum_cons, ← add_assoc]
      rfl

theorem sum_filter_ne_zero (pairs : List (α × (Nat → α))) (i : Nat) :
    ((pairs.filter fun p => !(p.1 == 0)).map fun p => p.2 i * p.1).sum =
      (pairs.map fun p => p.1 * p.2 i).sum := by
  induction pairs with
  | nil => rfl
  | cons p pairs ih =>
    rw [List.filter_cons, List.map_cons, List.sum_cons, ← ih]
    split
    · rw [List.map_cons, List.sum_cons, mul_comm]
    · rename_i hc
      have hzero : p.1 = 0 := ExactField.eq_of_beq p.1 0 (by simpa using hc)
      rw [hzero, zero_mul, zero_add]

theorem forall₂_zip_same {β γ δ : Type} {R : β → γ → Prop} {xs : List β} {ys : List γ}
    (cs : List δ) (h : List.Forall₂ R xs ys) :
    List.Forall₂ (fun (p : δ × β) (q : δ × γ) => p.1 = q.1 ∧ R p.2 q.2) (cs.zip xs)
      (cs.zip ys) := by
  induction h generalizing cs with
  | nil => simp
  | cons hxy _ ih =>
    cases cs with
    | nil => exact .nil
    | cons c cs => exact .cons ⟨rfl, hxy⟩ (ih cs)

/-- The combination of columns with all coefficients. -/
theorem grows_combine (hS : IsGraph n S) {xs : List (Expr α)} {vs : List (Nat → α)}
    (coefficients : List α) (hxs : List.Forall₂ (fun x v => HasColumn env S x m v) xs vs) :
    Grows refused n S (Basis.combine coefficients xs m) fun S' r =>
      HasColumn env S' r m fun i =>
        ((coefficients.zip vs).map fun (c, v) => c * v i).sum := by
  have hused : List.Forall₂ (fun (p : α × Expr α) (q : α × (Nat → α)) =>
      p.1 = q.1 ∧ HasColumn env S p.2 m q.2) ((coefficients.zip xs).filter fun p => !(p.1 == 0))
      ((coefficients.zip vs).filter fun q => !(q.1 == 0)) :=
    List.rel_filter (fun p q hpq => iff_of_eq (congrArg (fun c => (!(c == 0)) = true) hpq.1))
      (forall₂_zip_same coefficients hxs)
  unfold Basis.combine
  dsimp only
  refine .bind (Grows.mapM_forall₂ (P := fun S' (q : α × (Nat → α)) (p : α × Expr α) =>
      p.1 = q.1 ∧ HasColumn env S' p.2 m q.2)
    (Q := fun S' q r => HasColumn env S' r m fun i => q.2 i * q.1) hS hused.flip ?_
    (fun _ _ _ _ hsub h => ⟨h.1, h.2.mono hsub⟩) fun _ _ _ _ hsub h => h.mono hsub) ?_
  · rintro ⟨c, v⟩ ⟨c', x⟩ n₁ S₁ h₁ ⟨rfl, hx⟩
    refine .bind (grows_number env h₁.graph c') fun n₂ S₂ a h₂ ha => ?_
    exact grows_binary_number h₂.graph .mul (hx.mono h₂.subset) ha fun hne => absurd rfl hne
  · intro n₁ S₁ scaled h₁ hscaled
    have hsum (i : Nat) : (((coefficients.zip vs).filter fun q => !(q.1 == 0)).map fun q =>
        q.2 i * q.1).sum = ((coefficients.zip vs).map fun (c, v) => c * v i).sum :=
      sum_filter_ne_zero _ i
    generalize ((coefficients.zip vs).filter fun q => !(q.1 == 0)) = used at hscaled hsum
    cases hscaled with
    | nil => exact (grows_zeros env h₁.graph m).mono fun _ _ _ _ h => h.congr fun i _ => hsum i
    | @cons q r used rest hr hrest =>
      have hcolumns : List.Forall₂ (fun x v => HasColumn env S₁ x m v) rest
          (used.map fun q i => q.2 i * q.1) := List.forall₂_map_right_iff.2 hrest.flip
      refine (grows_addAll h₁.graph hr hcolumns).mono ?_
      rintro n' S' z - hz
      refine hz.congr fun i _ => ?_
      rw [← hsum, List.map_map, List.map_cons, List.sum_cons]
      rfl

end DiffGraph
