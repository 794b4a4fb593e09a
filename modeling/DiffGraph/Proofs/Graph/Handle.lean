import Mathlib
import DiffGraph.Proofs.Failure
import DiffGraph.Proofs.Graph.Built
import DiffGraph.Proofs.Graph.Vertical

/-!
# Graphs with splits at hand

`Built` keeps splits to their references. But whoever has a reference can take the split out of it
and go on with that. What the constructors make of such an operand is no `IsGraph` any more, but its
nodes still fit together (`BuiltWithHandles.isDag`), because a split stands for its first result
wherever they ask for a pattern.

`Adds n S step Q`: a run of the step on a dag adds nodes under new identities, and `Q` holds of the
larger dag and the result.
-/

namespace DiffGraph

open Expr

/-- If it succeeds, the step adds nodes to the dag and its result satisfies `Q`. -/
def Adds {α β : Type} (n : Nat) (S : Set (Expr α)) (step : Build β) (Q : Set (Expr α) → β → Prop) :
    Prop :=
  ∀ r n', step n = .ok (r, n') → ∃ S', IsDagBelow n' S' ∧ S ⊆ S' ∧ Q S' r

section Rules

variable {α β γ : Type} {n : Nat} {S : Set (Expr α)} {step : Build β}
  {P Q : Set (Expr α) → β → Prop}

namespace Adds

theorem pure (hS : IsDagBelow n S) {r : β} (h : Q S r) : Adds n S (pure r) Q := by
  rintro _ _ ⟨⟩
  exact ⟨S, hS, subset_rfl, h⟩

theorem refused (e : GraphError) : Adds n S (throw e) Q := nofun

theorem bind {f : β → Build γ} {R : Set (Expr α) → γ → Prop} (h : Adds n S step Q)
    (hf : ∀ n' S' r, IsDagBelow n' S' → S ⊆ S' → Q S' r → Adds n' S' (f r) R) :
    Adds n S (step >>= f) R := by
  intro r n' hrun
  obtain ⟨b, n₁, hb, hr⟩ := ok_of_step_bind hrun
  obtain ⟨S₁, h₁, hsub, hQ⟩ := h b n₁ hb
  obtain ⟨S', h', hsub', hR⟩ := hf n₁ S₁ b h₁ hsub hQ r n' hr
  exact ⟨S', h', hsub.trans hsub', hR⟩

theorem mono (h : Adds n S step P) (hPQ : ∀ S' r, S ⊆ S' → P S' r → Q S' r) :
    Adds n S step Q := fun r n' hrun =>
  (h r n' hrun).imp fun S' ⟨h', hsub, hP⟩ => ⟨h', hsub, hPQ S' r hsub hP⟩

theorem lift (hS : IsDagBelow n S) {result : Except GraphError β}
    (h : ∀ r, result = .ok r → Q S r) : Adds n S (liftM result) Q := by
  cases result with
  | ok r => exact pure hS (h r rfl)
  | error e => exact refused e

theorem mapM {f : γ → Build (Expr α)} {xs : List γ} (hS : IsDagBelow n S)
    (hf : ∀ x ∈ xs, ∀ n' S', IsDagBelow n' S' → S ⊆ S' →
      Adds n' S' (f x) fun S'' r => r ∈ S'') :
    Adds n S (xs.mapM f) fun S' rs => ∀ r ∈ rs, r ∈ S' := by
  induction xs generalizing n S with
  | nil => exact pure hS (by simp)
  | cons x xs ih =>
    rw [List.mapM_cons]
    refine bind (hf x (by simp) n S hS subset_rfl) fun n₁ S₁ r h₁ hsub hr => ?_
    refine bind (ih h₁ fun y hy n' S' h' hsub' =>
      hf y (by simp [hy]) n' S' h' (hsub.trans hsub')) fun n₂ S₂ rs h₂ hsub₂ hrs => ?_
    exact pure h₂ (List.forall_mem_cons.2 ⟨hsub₂ hr, hrs⟩)

theorem fresh (hS : IsDagBelow n S) {op : Op α} {deps : List (Expr α)} {p : Pattern}
    (hwf : ∀ id, (node id op deps p []).WellFormed) (hdeps : ∀ d ∈ deps, d ∈ S) :
    Adds n S (liftM (fresh op deps p)) fun S' r => r ∈ S' ∧ r.pattern = p := by
  rintro _ _ ⟨⟩
  exact ⟨_, hS.insert rfl (hwf n) hdeps, Set.subset_insert _ _, Set.mem_insert _ _, rfl⟩

end Adds

end Rules

variable {α : Type} {n : Nat} {S : Set (Expr α)} {x y : Expr α} {axis : Axis}
  {parts : List (Expr α)}

theorem adds_constant (hS : IsDagBelow n S) {nz : List α} {p : Pattern} (h : nz.length = p.nnz) :
    Adds n S (liftM (constant nz p)) fun S' r => r ∈ S' ∧ r.pattern = p :=
  .fresh hS (fun id => .constant id h) (by simp)

variable [Scalar α]

/-! ## Moving nonzeros -/

theorem adds_onto (hS : IsDagBelow n S) (hx : x ∈ S) {target : Pattern}
    (hshape : x.shape = target.shape) :
    Adds n S (liftM (x.onto target)) fun S' r => r ∈ S' ∧ r.pattern = target := by
  unfold onto
  split
  · rename_i hp
    exact .pure hS ⟨hx, hp⟩
  · dsimp only
    split
    · exact adds_constant hS (by simp [projectList])
    · exact .fresh hS (fun id => .project id rfl hshape) (by simpa using hx)

theorem adds_project (hS : IsDagBelow n S) (hx : x ∈ S) (target : Pattern) :
    Adds n S (x.project target) fun S' r => r ∈ S' := by
  unfold project
  split
  · exact .refused _
  · rename_i hshape
    exact (adds_onto hS hx (not_not.1 hshape)).mono fun _ _ _ h => h.1

theorem adds_densify (hS : IsDagBelow n S) (hx : x ∈ S) : Adds n S x.densify fun S' r =>
    r ∈ S' ∧ r.pattern = .dense x.pattern.nrows x.pattern.ncols := by
  unfold densify
  refine .bind (Q := fun _ p => p = .dense x.pattern.nrows x.pattern.ncols) (.lift hS ?_) ?_
  · intro p hp
    rw [Pattern.denseChecked_eq] at hp
    split at hp <;> cases hp
    rfl
  · rintro n' S' p hS' hsub rfl
    exact adds_onto hS' (hsub hx) (by simp [shape, Pattern.shape])

theorem adds_transpose (hS : IsDagBelow n S) (hx : x ∈ S) :
    Adds n S x.transpose fun S' r => r ∈ S' := by
  unfold transpose
  split
  · rename_i y hy
    obtain ⟨-, hdeps⟩ := exists_of_transposed? hy
    exact .pure hS (hS.closed x hx y (by simp [hdeps]))
  · refine .bind (Q := fun _ p => p = x.pattern.transpose) (.lift hS ?_) ?_
    · intro p hp
      unfold Pattern.transposeChecked Size.checkLength at hp
      split at hp <;> cases hp
      rfl
    · rintro n' S' p hS' hsub rfl
      dsimp only
      split
      · exact (adds_constant hS' (by simp [permuteList])).mono fun _ _ _ h => h.1
      · exact (Adds.fresh hS' (fun id => .transpose id rfl rfl)
          (by simpa using hsub hx)).mono fun _ _ _ h => h.1

/-! ## Elementwise operations -/

theorem adds_unaryNode (hS : IsDagBelow n S) (hx : x ∈ S) {op : UnaryOp}
    (hd : op.preservesZero = true ∨ x.pattern = .dense x.pattern.nrows x.pattern.ncols) :
    Adds n S (liftM (unaryNode op x)) fun S' r => r ∈ S' := by
  unfold unaryNode
  split
  · rename_i nz hnz
    exact (adds_constant hS ((List.length_map _).trans (hS.length_of_constant? hx hnz))).mono
      fun _ _ _ h => h.1
  · rename_i y _ hy
    exact .pure hS (hS.closed x hx y (mem_deps_of_negated? hy))
  · exact (Adds.fresh hS (fun id => .unary id rfl hd) (by simpa using hx)).mono
      fun _ _ _ h => h.1

theorem adds_unary (hS : IsDagBelow n S) (hx : x ∈ S) (op : UnaryOp) :
    Adds n S (unary op x) fun S' r => r ∈ S' := by
  unfold unary
  split
  · rename_i hz
    exact adds_unaryNode hS hx (.inl hz)
  · refine .bind (adds_densify hS hx) fun n' S' y hS' _ ⟨hy, hp⟩ => ?_
    exact adds_unaryNode hS' hy (.inr (by simp [hp]))

theorem adds_onto_union (hS : IsDagBelow n S) (hx : x ∈ S) (hy : y ∈ S) {β : Type}
    {f : Expr α → Expr α → Build β} {Q : Set (Expr α) → β → Prop}
    (hf : ∀ n' S' a b, IsDagBelow n' S' → a ∈ S' → b ∈ S' → a.pattern = b.pattern →
      Adds n' S' (f a b) Q) :
    Adds n S (do
      let union ← x.pattern.union y.pattern
      let a ← x.onto union
      let b ← y.onto union
      f a b) Q := by
  refine .bind (Q := fun _ p => p.shape = x.shape ∧ p.shape = y.shape)
    (.lift hS fun p hp => Pattern.shape_of_union hp) fun n₁ S₁ p h₁ hsub₁ ⟨hpx, hpy⟩ => ?_
  refine .bind (adds_onto h₁ (hsub₁ hx) hpx.symm) fun n₂ S₂ a h₂ hsub₂ ⟨ha, hap⟩ => ?_
  refine .bind (adds_onto h₂ (hsub₂ (hsub₁ hy)) hpy.symm) fun n₃ S₃ b h₃ hsub₃ ⟨hb, hbp⟩ => ?_
  exact hf n₃ S₃ a b h₃ (hsub₃ ha) hb (hap.trans hbp.symm)

theorem adds_unless (hS : IsDagBelow n S) (hx : x ∈ S) (keep : Prop) [Decidable keep] {β : Type}
    {f : Expr α → Build β} {Q : Set (Expr α) → β → Prop}
    (hf : ∀ n' S' z, IsDagBelow n' S' → S ⊆ S' → z ∈ S' → z.shape = x.shape →
      (keep ∨ z.pattern = .dense z.pattern.nrows z.pattern.ncols) → Adds n' S' (f z) Q) :
    Adds n S (if keep then f x else do
      let z ← x.densify
      f z) Q := by
  split
  · rename_i hk
    exact hf n S x hS subset_rfl hx rfl (.inl hk)
  · refine .bind (adds_densify hS hx) fun n' S' z hS' hsub ⟨hz, hp⟩ => ?_
    refine hf n' S' z hS' hsub hz ?_ (.inr (by simp [hp]))
    rw [shape, hp]
    exact Pattern.shape_dense _ _

theorem adds_align (hS : IsDagBelow n S) (hx : x ∈ S) (hy : y ∈ S) (op : BinaryOp) :
    Adds n S (align op x y) fun S' a => a.left ∈ S' ∧ a.right ∈ S' ∧ a.Fits op := by
  unfold align
  split
  · exact adds_onto_union hS hx hy fun n' S' a b h' ha hb hab => .pure h' ⟨ha, hb, hab⟩
  rename_i hshape
  split
  · rename_i hsx
    have hsx : x.shape = (1, 1) := Pattern.isScalar_iff.1 hsx
    have hsy : y.shape ≠ (1, 1) := fun hsy => hshape (hsx.trans hsy.symm)
    refine adds_unless hS hy (op = .mul) fun n₁ S₁ z h₁ hsub hz hzs hzp => ?_
    refine .bind (adds_densify h₁ (hsub hx)) fun n₂ S₂ a h₂ hsub₂ ⟨ha, hap⟩ => ?_
    exact .pure h₂ ⟨ha, hsub₂ hz, pattern_of_single hsx hap, hzs ▸ hsy, hzp⟩
  · rename_i hsx
    have hsx : x.shape ≠ (1, 1) := fun h => hsx (Pattern.isScalar_iff.2 h)
    split
    swap
    · exact .refused _
    rename_i hsy
    have hsy : y.shape = (1, 1) := Pattern.isScalar_iff.1 hsy
    refine adds_unless hS hx (op = .mul ∨ op = .div) fun n₁ S₁ z h₁ hsub hz hzs hzp => ?_
    refine .bind (adds_densify h₁ (hsub hy)) fun n₂ S₂ b h₂ hsub₂ ⟨hb, hbp⟩ => ?_
    exact .pure h₂ ⟨hsub₂ hz, hb, pattern_of_single hsy hbp, hzs ▸ hsx, or_assoc.1 hzp⟩

theorem adds_binaryNode (hS : IsDagBelow n S) {op : BinaryOp} {a : Aligned α} (hl : a.left ∈ S)
    (hr : a.right ∈ S) (h : a.Fits op) :
    Adds n S (liftM (binaryNode op a)) fun S' r => r ∈ S' := by
  have hmem {z : Expr α} (hz : z = a.left ∨ z = a.right) : z ∈ S := by
    rcases hz with rfl | rfl
    · exact hl
    · exact hr
  unfold binaryNode
  split
  · exact (adds_constant hS (by simp)).mono fun _ _ _ h => h.1
  · split
    · rename_i z hz
      exact .pure hS (hmem (simplify_operand (.inl hz)))
    · rename_i z hz
      exact adds_unaryNode hS (hmem (simplify_operand (.inr hz))) (.inl rfl)
    · exact (adds_constant hS (by simp)).mono fun _ _ _ h => h.1
    · exact (Adds.fresh hS (fun id => .binary id rfl h)
        fun d hd => hmem (List.mem_pair.1 hd)).mono fun _ _ _ h => h.1

theorem adds_binary (hS : IsDagBelow n S) (hx : x ∈ S) (hy : y ∈ S) (op : BinaryOp) :
    Adds n S (binary op x y) fun S' r => r ∈ S' :=
  .bind (adds_align hS hx hy op) fun _ _ _ hS' _ ⟨hl, hr, h⟩ => adds_binaryNode hS' hl hr h

theorem adds_dot (hS : IsDagBelow n S) (hx : x ∈ S) (hy : y ∈ S) :
    Adds n S (dot x y) fun S' r => r ∈ S' := by
  unfold dot
  split
  · exact .refused _
  refine adds_onto_union hS hx hy fun n' S' a b h' ha hb hab => ?_
  split
  · exact (adds_constant h' rfl).mono fun _ _ _ h => h.1
  · split
    · exact (adds_constant h' rfl).mono fun _ _ _ h => h.1
    · refine (Adds.fresh h' (fun id => .innerProduct id hab) fun d hd => ?_).mono
        fun _ _ _ h => h.1
      rcases List.mem_pair.1 hd with rfl | rfl
      · exact ha
      · exact hb

theorem adds_sum (hS : IsDagBelow n S) (hx : x ∈ S) : Adds n S x.sum fun S' r => r ∈ S' :=
  .bind (adds_constant hS (by simp)) fun _ _ _ hS' hsub ⟨ho, _⟩ => adds_dot hS' (hsub hx) ho

/-! ## Splits and joins -/

omit [Scalar α] in
theorem adds_splitInto (hS : IsDagBelow n S) (hx : x ∈ S) {ps : List Pattern}
    (hjoins : Pattern.Joins axis ps x.pattern) :
    Adds n S (liftM (splitInto axis x ps)) fun S' rs => ∀ r ∈ rs, r ∈ S' := by
  unfold splitInto
  split
  · exact .pure hS (by simp)
  · exact .pure hS (by simpa using hx)
  · rename_i p ps hne
    have hps : ps ≠ [] := fun h => hne h
    set q : Expr α :=
      node n (.split axis (Offsets.ofSizes ((p :: ps).map Pattern.nnz))) [x] p ps with hq
    have hinsert : IsDagBelow (n + 1) (insert q S) :=
      hS.insert rfl (.split n hps rfl hjoins) (by simpa [hq, deps] using hx)
    have hcount : q.resultCount ≠ 1 := by simp [hq, resultCount, patterns, hps]
    intro rs n' hrun
    have hresults : Adds (n + 1) (insert q S) (liftM q.results) fun S' rs =>
        ∀ r ∈ rs, r ∈ S' := by
      rw [results_eq hcount, liftM_mapM]
      refine .mapM hinsert fun pi hpi n' S' h' hsub => ?_
      exact (Adds.fresh h' (fun id => .output id rfl (List.mem_zipIdx_iff_getElem?.1 hpi))
        (by simpa using hsub (Set.mem_insert _ _))).mono fun _ _ _ h => h.1
    obtain ⟨S', h', hsub, hrs⟩ := hresults rs n' hrun
    exact ⟨S', h', (Set.subset_insert _ _).trans hsub, hrs⟩

omit [Scalar α] in
theorem adds_horzsplit (hS : IsDagBelow n S) (hx : x ∈ S) (offsets : List Nat) :
    Adds n S (x.horzsplit offsets) fun S' rs => ∀ r ∈ rs, r ∈ S' :=
  .bind (Q := fun _ ps => Pattern.Joins .horizontal ps x.pattern)
    (.lift hS fun _ hps => (Pattern.joins_of_horzsplit hps).1)
    fun _ _ _ hS' hsub hps => adds_splitInto hS' (hsub hx) hps

theorem adds_vertsplit (hS : IsDagBelow n S) (hx : x ∈ S) (offsets : List Nat) :
    Adds n S (x.vertsplit offsets) fun S' rs => ∀ r ∈ rs, r ∈ S' := by
  unfold vertsplit
  split
  · rename_i hcol
    have hcol : x.pattern.ncols = 1 := by simpa [Pattern.isSingleColumn] using hcol
    exact .bind (Q := fun _ ps => Pattern.Joins .vertical ps x.pattern)
      (.lift hS fun _ hps => (Pattern.joins_of_vertsplit hcol hps).1)
      fun _ _ _ hS' hsub hps => adds_splitInto hS' (hsub hx) hps
  · refine .bind (adds_transpose hS hx) fun n₁ S₁ t h₁ _ ht => ?_
    refine .bind (adds_horzsplit h₁ ht offsets) fun n₂ S₂ ps h₂ _ hps => ?_
    exact .mapM h₂ fun y hy n' S' h' hsub => adds_transpose h' (hsub (hps y hy))

omit [Scalar α] in
theorem adds_diagsplit (hS : IsDagBelow n S) (hx : x ∈ S) (rows cols : List Nat) :
    Adds n S (x.diagsplit rows cols) fun S' rs => ∀ r ∈ rs, r ∈ S' := by
  unfold diagsplit
  refine .bind (Q := fun _ ps => x.pattern.diagsplit rows cols = .ok ps)
    (.lift hS fun _ hps => hps) fun n' S' ps h' hsub hps => ?_
  dsimp only
  split
  · exact .refused _
  · rename_i hcover
    exact adds_splitInto h' (hsub hx) (Pattern.joins_of_diagsplit hps (not_not.1 hcover)).1

omit [Scalar α] in
theorem adds_joinNode (hS : IsDagBelow n S) (hparts : ∀ x ∈ parts, x ∈ S) {p : Pattern}
    (hjoins : parts ≠ [] → Pattern.Joins axis (parts.map Expr.pattern) p) :
    Adds n S (liftM (joinNode axis parts p)) fun S' r => r ∈ S' := by
  unfold joinNode
  split
  · exact (adds_constant hS (by simp)).mono fun _ _ _ h => h.1
  · exact .pure hS (hparts _ (by simp))
  · rename_i hnil hsingle
    have hjoins := hjoins hnil
    split
    · rename_i nzs hnzs
      have hlen : nzs.map List.length = (parts.map Expr.pattern).map Pattern.nnz := by
        rw [List.map_map]
        exact map_length_of_mapM_constant? hS.toIsDag hparts hnzs
      exact (adds_constant hS (by rw [List.length_flatten, hlen, hjoins.nnz_eq])).mono
        fun _ _ _ h => h.1
    · have hcount : 2 ≤ parts.length := by
        rcases parts with _ | ⟨x, _ | ⟨y, rest⟩⟩
        · exact absurd rfl hnil
        · exact absurd rfl (hsingle x)
        · simp
      exact (Adds.fresh hS (fun id => .join id hcount hjoins) hparts).mono fun _ _ _ h => h.1

omit [Scalar α] in
theorem adds_whole? (hS : IsDagBelow n S) (hparts : ∀ x ∈ parts, x ∈ S)
    (h : whole? axis parts = some x) : x ∈ S := by
  obtain ⟨q, p, ps, id, rfl, hq, -⟩ := whole?_producer hS.toIsDag hparts h
  exact hS.closed _ hq x (List.mem_singleton_self x)

omit [Scalar α] in
theorem adds_horzcat (hS : IsDagBelow n S) (hparts : ∀ x ∈ parts, x ∈ S) :
    Adds n S (horzcat parts) fun S' r => r ∈ S' := by
  unfold horzcat
  split
  · rename_i x hx
    exact .pure hS (adds_whole? hS hparts hx)
  · exact .bind (Q := fun _ p => Pattern.Joins .horizontal (parts.map Expr.pattern) p)
      (.lift hS fun p hp => Pattern.joins_of_horzcat hp)
      fun _ _ _ hS' hsub hp => adds_joinNode hS' (fun y hy => hsub (hparts y hy)) fun _ => hp

theorem adds_vertcat (hS : IsDagBelow n S) (hparts : ∀ x ∈ parts, x ∈ S) :
    Adds n S (vertcat parts) fun S' r => r ∈ S' := by
  unfold vertcat
  split
  · rename_i x hx
    exact .pure hS (adds_whole? hS hparts hx)
  split
  · rename_i hcols
    have hcols : ∀ x ∈ parts, x.pattern.ncols = 1 := by
      simpa [Pattern.isSingleColumn] using hcols
    exact .bind (Q := fun _ p => parts ≠ [] →
        Pattern.Joins .vertical (parts.map Expr.pattern) p)
      (.lift hS fun p hp hne => Pattern.joins_of_vertcat (by simpa using hne)
        (by simpa using hcols) hp)
      fun _ _ _ hS' hsub hp => adds_joinNode hS' (fun y hy => hsub (hparts y hy)) hp
  · refine .bind (Adds.mapM hS fun y hy n' S' h' hsub => adds_transpose h' (hsub (hparts y hy)))
      fun n₁ S₁ rows h₁ _ hrows => ?_
    exact .bind (adds_horzcat h₁ hrows) fun n₂ S₂ t h₂ _ ht => adds_transpose h₂ ht

omit [Scalar α] in
theorem adds_diagcat (hS : IsDagBelow n S) (hparts : ∀ x ∈ parts, x ∈ S) :
    Adds n S (diagcat parts) fun S' r => r ∈ S' := by
  unfold diagcat
  split
  · rename_i x hx
    exact .pure hS (adds_whole? hS hparts hx)
  · exact .bind (Q := fun _ p => Pattern.Joins .diagonal (parts.map Expr.pattern) p)
      (.lift hS fun p hp => Pattern.joins_of_diagcatChecked hp)
      fun _ _ _ hS' hsub hp => adds_joinNode hS' (fun y hy => hsub (hparts y hy)) fun _ => hp

/-! ## What is built -/

/-- Every constructor adds nodes to the dag of its operands. -/
theorem Construction.adds_run (hS : IsDagBelow n S) (c : Construction α)
    (hc : ∀ x ∈ c.operands, x ∈ S) : Adds n S c.run fun S' rs => ∀ r ∈ rs, r ∈ S' := by
  have single {step : Build (Expr α)} (h : Adds n S step fun S' r => r ∈ S') :
      Adds n S (do return [← step]) fun S' rs => ∀ r ∈ rs, r ∈ S' :=
    .bind h fun _ _ _ hS' _ hr => .pure hS' (by simpa using hr)
  cases c with
  | constant nz p =>
    refine single ?_
    unfold constantChecked
    split
    · exact .refused _
    · rename_i hlen
      exact (adds_constant hS (not_not.1 hlen)).mono fun _ _ _ h => h.1
  | unary op x => exact single (adds_unary hS (hc x (by simp [operands])) op)
  | binary op x y =>
    exact single (adds_binary hS (hc x (by simp [operands])) (hc y (by simp [operands])) op)
  | dot x y => exact single (adds_dot hS (hc x (by simp [operands])) (hc y (by simp [operands])))
  | sum x => exact single (adds_sum hS (hc x (by simp [operands])))
  | transpose x => exact single (adds_transpose hS (hc x (by simp [operands])))
  | project x target => exact single (adds_project hS (hc x (by simp [operands])) target)
  | join axis parts =>
    refine single ?_
    cases axis with
    | horizontal => exact adds_horzcat hS hc
    | vertical => exact adds_vertcat hS hc
    | diagonal => exact adds_diagcat hS hc
  | split axis x rows cols =>
    cases axis with
    | horizontal => exact adds_horzsplit hS (hc x (by simp [operands])) cols
    | vertical => exact adds_vertsplit hS (hc x (by simp [operands])) rows
    | diagonal => exact adds_diagsplit hS (hc x (by simp [operands])) rows cols

/-- `Built` with every part of an expression at hand, splits among them. -/
inductive BuiltWithHandles : Nat → List (Expr α) → Prop
  | start : BuiltWithHandles 0 []
  | skip {n m : Nat} {G : List (Expr α)} : BuiltWithHandles n G → n ≤ m → BuiltWithHandles m G
  | symbol {n : Nat} {G : List (Expr α)} (name : String) (p : Pattern) : BuiltWithHandles n G →
      BuiltWithHandles (n + 1) (.node n (.symbol name) [] p [] :: G)
  | make {n n' : Nat} {G es : List (Expr α)} (c : Construction α) : BuiltWithHandles n G →
      (∀ x ∈ c.operands, x ∈ G) → c.run n = .ok (es, n') → BuiltWithHandles n' (es ++ G)
  | inner {n : Nat} {G : List (Expr α)} {e x : Expr α} : BuiltWithHandles n G → e ∈ G →
      e.Reaches x → BuiltWithHandles n (x :: G)

theorem Built.withHandles {G : List (Expr α)} (h : Built n G) : BuiltWithHandles n G := by
  induction h with
  | start => exact .start
  | skip _ hnm ih => exact ih.skip hnm
  | symbol name p _ ih => exact ih.symbol name p
  | make c _ hops hrun ih => exact ih.make c hops hrun
  | inner _ he hreach _ ih => exact ih.inner he hreach

namespace BuiltWithHandles

theorem isDagBelow {G : List (Expr α)} (h : BuiltWithHandles n G) : IsDagBelow n (nodesOf G) := by
  induction h with
  | start => exact IsDagBelow.nodesOf (.empty 0) (by simp)
  | skip _ hnm ih => exact ih.mono hnm
  | symbol name p _ ih =>
    refine (ih.insert rfl (.symbol _ name p) (by simp [deps])).nodesOf ?_
    exact List.forall_mem_cons.2 ⟨Set.mem_insert _ _, fun e he => .inr (mem_nodesOf he)⟩
  | make c _ hops hrun ih =>
    obtain ⟨S', hS', hsub, hes⟩ := c.adds_run ih (fun x hx => mem_nodesOf (hops x hx)) _ _ hrun
    refine hS'.nodesOf fun e he => ?_
    rcases List.mem_append.1 he with he | he
    · exact hes e he
    · exact hsub (mem_nodesOf he)
  | inner _ he hreach ih =>
    refine ih.nodesOf (List.forall_mem_cons.2 ⟨?_, fun e he => mem_nodesOf he⟩)
    exact hreach.mem ih.closed (mem_nodesOf he)

/-- What the constructors build fits together, whatever they are applied to. -/
theorem isDag {G : List (Expr α)} (h : BuiltWithHandles n G) : IsDag (nodesOf G) :=
  h.isDagBelow.toIsDag

end BuiltWithHandles

end DiffGraph
