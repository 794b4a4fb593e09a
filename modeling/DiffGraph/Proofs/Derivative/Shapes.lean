import Mathlib
import DiffGraph.Proofs.Call.Rebuild
import DiffGraph.Proofs.Derivative.Forward
import DiffGraph.Proofs.Derivative.Rules

/-!
# Shapes of derivatives

Over any numbers an operation gives the shape that its operands call for
(`grows_binary_shape`), and the tangents of a node have the shapes of its results
(`grows_tangent_shapes`). So the forward derivative function can be built and evaluated
wherever the memory suffices (`Function.exists_forward`).
-/

namespace DiffGraph

open Expr

/-- `x` may be an operand and has the shape `s`. -/
def HasShape {α : Type} (S : Set (Expr α)) (x : Expr α) (s : Nat × Nat) : Prop :=
  Usable S x ∧ x.shape = s

variable {α : Type} {refused : GraphError → Prop} {n : Nat} {S S' : Set (Expr α)}
  {x y out dx e : Expr α} {s : Nat × Nat}

theorem HasShape.mono (h : HasShape S x s) (hsub : S ⊆ S') : HasShape S' x s :=
  ⟨h.1.mono hsub, h.2⟩

theorem HasShape.spreads (h : HasShape S x s) : Spreads x s :=
  .inl h.2

variable [Scalar α]

/-! ## Operations -/

theorem grows_scalar_shape (hS : IsGraph n S) (a : α) :
    Grows refused n S (liftM (scalar a)) fun S' r => HasShape S' r (1, 1) := by
  have hlen : [a].length = Pattern.scalar.nnz := rfl
  refine (grows_constant hS hlen).mono fun n' S' r _ hr => ⟨hr.1, ?_⟩
  rw [shape, hr.2.1]
  rfl

theorem grows_unary_shape (hS : IsGraph n S) (op : UnaryOp) (hx : HasShape S x s)
    (hfits : ¬ Size.Fits s → refused .misuse) :
    Grows refused n S (unary op x) fun S' r => HasShape S' r s := by
  obtain ⟨hx, rfl⟩ := hx
  refine (grows_unary hS hx fun _ => hfits).mono fun n' S' r _ hr => ⟨hr.1, ?_⟩
  rw [shape, hr.2.1, unaryPattern]
  split
  · rfl
  · exact Pattern.shape_dense _ _

theorem grows_neg_shape (hS : IsGraph n S) (hx : HasShape S x s) :
    Grows refused n S (liftM (neg x)) fun S' r => HasShape S' r s :=
  (grows_unaryNode hS hx.1 (.inl rfl)).mono fun _ _ _ _ hr =>
    ⟨hr.1, (congrArg Pattern.shape hr.2.1).trans hx.2⟩

theorem grows_binary_shape (hS : IsGraph n S) (op : BinaryOp) (hx : Usable S x) (hy : Usable S y)
    (hsx : Spreads x s) (hsy : Spreads y s) (h : x.shape = s ∨ y.shape = s)
    (hfits : x.shape ≠ y.shape → op ≠ .mul → ¬ Size.Fits s → refused .misuse) :
    Grows refused n S (binary op x y) fun S' r => HasShape S' r s := by
  obtain ⟨hcomp, hshape⟩ := compatible_of_spreads hsx hsy h
  exact (grows_binary hS hx hy op (fun hne => absurd hcomp hne) (hshape ▸ hfits)).mono
    fun _ _ _ _ hr => ⟨hr.1, hr.2.1.trans hshape⟩

theorem grows_binary_shapes (hS : IsGraph n S) (op : BinaryOp) (hx : HasShape S x s)
    (hy : HasShape S y s) : Grows refused n S (binary op x y) fun S' r => HasShape S' r s :=
  grows_binary_shape hS op hx.1 hy.1 hx.spreads hy.spreads (.inl hx.2)
    fun hne => absurd (hx.2.trans hy.2.symm) hne

/-! ## Tangents -/

theorem grows_unaryTangent_shape (hS : IsGraph n S) (op : UnaryOp) (hx : HasShape S x s)
    (hout : HasShape S out s) (hdx : HasShape S dx s) (hfits : ¬ Size.Fits s → refused .misuse) :
    Grows refused n S (unaryTangent op x out dx) fun S' r => HasShape S' r s := by
  cases op with
  | neg => exact grows_neg_shape hS hdx
  | sin =>
    refine .bind (grows_unary_shape hS .cos hx hfits) fun n₁ S₁ c h₁ hc => ?_
    exact grows_binary_shapes h₁.graph .mul (hdx.mono h₁.subset) hc
  | cos =>
    refine .bind (grows_unary_shape hS .sin hx hfits) fun n₁ S₁ c h₁ hc => ?_
    refine .bind (grows_binary_shapes h₁.graph .mul (hdx.mono h₁.subset) hc)
      fun n₂ S₂ y h₂ hy => ?_
    exact grows_neg_shape h₂.graph hy
  | exp => exact grows_binary_shapes hS .mul hdx hout
  | log => exact grows_binary_shapes hS .div hdx hx

theorem grows_binaryTangent_shape {a b da db : Expr α} (hS : IsGraph n S) (op : BinaryOp)
    (ha : Usable S a) (hb : Usable S b) (hda : HasShape S da a.shape) (hdb : HasShape S db b.shape)
    (hcomp : Compatible a b) (hout : HasShape S out (binaryShape a b))
    (hfits : ¬ Size.Fits (binaryShape a b) → refused .misuse) :
    Grows refused n S (binaryTangent op a b out da db) fun S' r =>
      HasShape S' r (binaryShape a b) := by
  obtain ⟨hpa, hpb, hpab⟩ := hcomp.spreads
  generalize binaryShape a b = s at *
  have hpda : Spreads da s := by rwa [Spreads, hda.2]
  have hpdb : Spreads db s := by rwa [Spreads, hdb.2]
  have hfits' {x y : Expr α} {op : BinaryOp} :
      x.shape ≠ y.shape → op ≠ .mul → ¬ Size.Fits s → refused .misuse := fun _ _ => hfits
  have hsum (op : BinaryOp) :=
    grows_binary_shape hS op hda.1 hdb.1 hpda hpdb (hda.2 ▸ hdb.2 ▸ hpab) hfits'
  cases op with
  | add => exact hsum .add
  | sub => exact hsum .sub
  | mul =>
    refine .bind (grows_binary_shape hS .mul hda.1 hb hpda hpb (hda.2 ▸ hpab) hfits')
      fun n₁ S₁ u h₁ hu => ?_
    refine .bind (grows_binary_shape h₁.graph .mul (ha.mono h₁.subset) (hdb.1.mono h₁.subset)
      hpa hpdb (hdb.2 ▸ hpab) hfits') fun n₂ S₂ v h₂ hv => ?_
    exact grows_binary_shapes h₂.graph .add (hu.mono h₂.subset) hv
  | div =>
    refine .bind (grows_binary_shape hS .mul hout.1 hdb.1 hout.spreads hpdb (.inl hout.2) hfits')
      fun n₁ S₁ u h₁ hu => ?_
    refine .bind (grows_binary_shape h₁.graph .sub (hda.1.mono h₁.subset) hu.1 hpda hu.spreads
      (.inr hu.2) hfits') fun n₂ S₂ v h₂ hv => ?_
    exact grows_binary_shape h₂.graph .div hv.1 (hb.mono (h₁.trans h₂).subset) hv.spreads hpb
      (.inl hv.2) hfits'

theorem grows_rebuildDraft_shapes (hS : IsGraph n S) (he : e ∈ S) (ho : e.isOperation = true)
    {seeds : List (Expr α)}
    (hseeds : List.Forall₂ (fun d D => Usable S D ∧ D.pattern = d.pattern) e.deps seeds)
    (hm : ¬ e.FitsMemory → refused .misuse) :
    Grows refused n S (e.rebuildDraft seeds) fun S' rs => rs.length = e.resultCount ∧
      ∀ (i : Nat) r, rs[i]? = some r → HasShape S' r (sourcePattern (e, i)).shape := by
  have hus (D : Expr α) (hD : D ∈ seeds) : Usable S D := by
    obtain ⟨i, hi⟩ := List.mem_iff_getElem?.1 hD
    obtain ⟨d, -, hd⟩ := exists_of_forall₂ hseeds hi
    exact hd.1
  refine (grows_draft hS (hS.wellFormed e he) ho hus
    (map_eq_of_forall₂ hseeds fun d D h => h.2.symm).symm (fun h => hm fun hm => h hm.shape)
    (fun h => hm fun hm => h hm.operands) fun h => hm fun hm => h hm.results).mono ?_
  rintro n' S' rs - ⟨hlen, hrs⟩
  refine ⟨hlen, fun i r hr => ⟨(hrs i r hr).1, (hrs i r hr).2.1.trans ?_⟩⟩
  rw [sourcePattern_onOperands]

omit [Scalar α] in
theorem grows_single_shape (hcount : e.resultCount = 1) {step : Build (Expr α)}
    (h : Grows refused n S step fun S' r => HasShape S' r e.shape) :
    Grows refused n S (do pure [← step]) fun S' rs => rs.length = e.resultCount ∧
      ∀ (i : Nat) r, rs[i]? = some r → HasShape S' r (sourcePattern (e, i)).shape := by
  refine grows_single (P := fun S' i r => HasShape S' r (sourcePattern (e, i)).shape) hcount ?_
  rw [sourcePattern_zero]
  exact h

theorem grows_tangentDraft_shapes (hS : IsGraph n S) (he : e ∈ S) (ho : e.isOperation = true)
    {outputs seeds : List (Expr α)} (houtputs : e.op.isSplit = false → outputs = [e])
    (hseeds : List.Forall₂ (fun d D => Usable S D ∧ D.pattern = d.pattern) e.deps seeds)
    (hm : ¬ e.FitsMemory → refused .misuse) :
    Grows refused n S (e.tangentDraft outputs seeds) fun S' rs => rs.length = e.resultCount ∧
      ∀ (i : Nat) r, rs[i]? = some r → HasShape S' r (sourcePattern (e, i)).shape := by
  have hus (d : Expr α) (hd : d ∈ e.deps) : Usable S d :=
    ⟨hS.closed e he d hd, hS.proper e he (not_isOutput_of_isOperation ho) d hd⟩
  have hmoved := grows_rebuildDraft_shapes hS he ho hseeds hm
  have hfits (h : ¬ Size.Fits e.shape) : refused .misuse := hm fun hm => h hm.shape
  have hself (hsplit : e.op.isSplit = false) : Usable S e := ⟨he, hsplit⟩
  cases hS.wellFormed e he with
  | symbol => cases ho
  | output => cases ho
  | constant =>
    exact grows_single_shape rfl ((grows_zerosLike hS _).mono fun _ _ _ _ hr => ⟨hr.1, hr.2.1⟩)
  | unary id pattern =>
    obtain rfl := houtputs rfl
    obtain ⟨D, rfl, hD, hDp⟩ := exists_singleton_of_forall₂ hseeds
    have hshape := congrArg Pattern.shape pattern
    exact grows_single_shape rfl (grows_unaryTangent_shape hS _ ⟨hus _ (by simp [deps]), hshape⟩
      ⟨hself rfl, rfl⟩ ⟨hD, (congrArg Pattern.shape hDp).trans hshape⟩ hfits)
  | binary id pattern fits =>
    obtain rfl := houtputs rfl
    obtain ⟨D, D', rfl, ⟨hD, hDp⟩, hD', hDp'⟩ := exists_pair_of_forall₂ hseeds
    obtain ⟨hcomp, hshape⟩ := fits.compatible
    rw [pattern] at hshape
    refine grows_single_shape rfl ((grows_binaryTangent_shape hS _ (hus _ (by simp [deps]))
      (hus _ (by simp [deps])) ⟨hD, congrArg Pattern.shape hDp⟩ ⟨hD', congrArg Pattern.shape hDp'⟩
      hcomp ⟨hself rfl, hshape⟩ (hshape ▸ hfits)).mono fun _ _ _ _ hr => ?_)
    exact ⟨hr.1, hr.2.trans hshape.symm⟩
  | innerProduct id patterns =>
    rename_i a b
    obtain ⟨D, D', rfl, ⟨hD, hDp⟩, hD', hDp'⟩ := exists_pair_of_forall₂ hseeds
    have hdot {n' : Nat} {G : Set (Expr α)} {u v : Expr α} (hG : IsGraph n' G) (hu : Usable G u)
        (hv : Usable G v) (huv : u.pattern = v.pattern) :
        Grows refused n' G (dot u v) fun S' r => HasShape S' r (1, 1) :=
      (grows_dot hG hu hv fun hne => absurd (congrArg Pattern.shape huv) hne).mono
        fun _ _ _ _ hr => ⟨hr.1, congrArg Pattern.shape hr.2.1⟩
    have ha := hus a (by simp [deps])
    have hb := hus b (by simp [deps])
    have hsum : Grows refused n S (do
        let left ← dot D b
        binary .add left (← dot a D')) fun S' r => HasShape S' r (1, 1) := by
      refine .bind (hdot hS hD hb (hDp.trans patterns)) fun n₁ S₁ u h₁ hu => ?_
      refine .bind (hdot h₁.graph (ha.mono h₁.subset) (hD'.mono h₁.subset)
        (patterns.trans hDp'.symm)) fun n₂ S₂ v h₂ hv => ?_
      exact grows_binary_shapes h₂.graph .add (hu.mono h₂.subset) hv
    have h : Grows refused n S _ _ :=
      grows_single_shape (e := node id .innerProduct [a, b] .scalar []) rfl hsum
    simp only [bind_assoc] at h
    exact h
  | transpose => exact hmoved
  | project => exact hmoved
  | join => exact hmoved
  | split => exact hmoved

/-- Tangents of operands of their shapes have the shapes of the results. -/
theorem grows_tangent_shapes (hS : IsGraph n S) (he : e ∈ S) (ho : e.isOperation = true)
    {outputs seeds : List (Expr α)} (houtputs : e.op.isSplit = false → outputs = [e])
    (hseeds : List.Forall₂ (fun d D => HasShape S D d.shape) e.deps seeds)
    (hm : ¬ e.FitsMemory → refused .misuse) :
    Grows refused n S (e.tangent outputs seeds) fun S' rs => rs.length = e.resultCount ∧
      ∀ (i : Nat) r, rs[i]? = some r → HasShape S' r (sourcePattern (e, i)).shape := by
  rw [tangent_eq ho]
  refine .bind (grows_alignedArgs hS hseeds) ?_
  rintro n₁ S₁ ss h₁ ⟨hlen, hss⟩
  have haligned : List.Forall₂ (fun d D => Usable S₁ D ∧ D.pattern = d.pattern) e.deps ss :=
    forall₂_of_getElem? hlen.symm fun i d D hd hD =>
      let ⟨_, _, hus, hp, _⟩ := hss i d D hd hD
      ⟨hus, hp⟩
  refine .bind (grows_tangentDraft_shapes h₁.graph (h₁.subset he) ho houtputs haligned hm) ?_
  rintro n₂ S₂ rs h₂ ⟨hlen', hrs⟩
  refine (grows_alignedResults h₂.graph hlen' hrs).mono ?_
  rintro n₃ S₃ rs' - ⟨hlen'', hrs'⟩
  refine ⟨hlen'', fun i x hx => ?_⟩
  obtain ⟨r, -, hus, hp, -⟩ := hrs' i x hx
  exact ⟨hus, congrArg Pattern.shape hp⟩

/-! ## Forward derivatives -/

namespace Function

variable {f : Function α} {slot : Expr α × Nat → Nat}

theorem propagates_shapes (h : f.Layout S slot) (hS : IsGraph n S) :
    f.Propagates S (OutOf f.FitsMemory) fun _ _ => True where
  congr _ _ := trivial
  tangent := by
    intro n' S' ins outputs seeds hS' hsub hmem houtputs hseeds
    obtain ⟨hnode, hop⟩ := h.node hmem
    have hdeps (d : Expr α) (hd : d ∈ ins.node.deps) : d ∈ S := hS.closed _ hnode d hd
    have hshapes := ((List.forall₂_and_left _ _).2 ⟨hdeps, hseeds⟩).imp fun d x hx =>
      (⟨(hx.2.usable x rfl).1, (hx.2.usable x rfl).2.trans
        (congrArg Pattern.shape (hS.pattern_eq_source hx.1)).symm⟩ : HasShape S' x d.shape)
    refine (grows_tangent_shapes hS' (hsub hnode) hop houtputs hshapes
      fun hlarge => ⟨rfl, fun hm => hlarge (hm.node h hmem)⟩).mono ?_
    rintro n₁ S₁ rs - ⟨hlen, hrs⟩
    refine ⟨hlen, fun i x hx => ⟨fun y hy => ?_, trivial⟩⟩
    obtain rfl := Option.some.inj hy
    exact hrs i x hx
  skip _ _ _ := trivial

/-- The forward derivative function of a function that fits into the memory has an output of the
right length for every output and direction. -/
theorem exists_forward (hS : IsGraph n S) (h : f.Compiled S) (hm : f.FitsMemory) {k : Nat}
    (hk : k < Size.listLimit) :
    ∃ g n', f.forward k n = .ok (g, n') ∧ n ≤ n' ∧
      ∀ (point : List (List α)) (directions : List (List (List α))),
      point.map List.length = f.inputs.map nnz → directions.length = k →
      (∀ vs ∈ directions, vs.map List.length = f.inputs.map nnz) →
      ∃ outs : List (List (List α)), g.evaluate (point ++ directions.flatten) = .ok outs.flatten ∧
        outs.length = k ∧ ∀ out ∈ outs, out.map List.length = f.outputs.map nnz := by
  obtain ⟨hgraph, slot, hlayout⟩ := h.exists_layout hS
  have hspec := derivativeOf_spec (k := k) hgraph
    (fun x hx => ⟨(hlayout.input x hx).1, (hlayout.input x hx).2.1⟩) hlayout.symbols
    f.exists_forwardSeeds (fun n' S' seeds hadd hp => grows_sensitivities
      (V := fun _ _ _ => True) hlayout hgraph (fun _ => propagates_shapes hlayout hgraph)
      hadd.graph hadd.subset fun xs hxs => ⟨fun x hx => hadd.graph.usable_of_isSymbol
        (hadd.mem x (List.mem_flatten_of_mem hxs hx)).1
        (hadd.mem x (List.mem_flatten_of_mem hxs hx)).2.1, hp xs hxs, fun _ _ _ _ _ => trivial⟩)
    s!"fwd{k}_{f.name}"
  rw [forward_eq]
  split at hspec
  · exact absurd ⟨hk, hm⟩ hspec.2
  · rename_i g n₂ hg
    obtain ⟨n₁, S₁, S₂, seeds, outs, hadd, hext, -, houts, -, heval⟩ := hspec
    refine ⟨g, n₂, hg, Nat.le_trans hadd.le hext.le, fun point directions hpoint hcount hlens => ?_⟩
    have hnnz : (f.inputs.map pattern).map Pattern.nnz = f.inputs.map nnz := List.map_map
    obtain ⟨hlen, env, -, hrun⟩ := heval point directions hpoint hcount (hnnz ▸ hlens)
    refine ⟨outs.map (List.map (nonzeros env)), by rw [hrun, List.map_flatten], ?_, ?_⟩
    · rw [List.length_map, ← houts.length_eq, hlen, hcount]
    · intro out hout
      obtain ⟨os, hos, rfl⟩ := List.mem_map.1 hout
      obtain ⟨i, hi⟩ := List.mem_iff_getElem?.1 hos
      obtain ⟨xs, -, hxs⟩ := exists_of_forall₂ houts hi
      rw [List.map_map]
      refine (map_eq_of_forall₂ hxs fun o r hr => ?_).symm
      rw [Function.comp_apply, hext.graph.length_nonzeros hr.1.1]
      exact congrArg Pattern.nnz hr.2.1.symm

end Function

end DiffGraph
