import Mathlib
import DiffGraph.Proofs.Derivative.Dual
import DiffGraph.Proofs.Graph.Split

/-!
# Tangents

`IsTangent R s D`: the entries of the expression `D` are the derivatives of the
result `s`, under all assignments of values and derivatives that `R` relates. What
`tangent` builds from tangents of the operands are tangents of the results
(`grows_tangent`), with one lemma for each kind of node.
-/

namespace DiffGraph

open Element Expr

/-! ## Bringing expressions onto patterns -/

section Align

variable {α : Type} [Scalar α] {refused : GraphError → Prop} {n : Nat} {S : Set (Expr α)}

theorem grows_projectAll (hS : IsGraph n S) {pairs : List (Expr α × Pattern)}
    (h : ∀ xp ∈ pairs, Usable S xp.1 ∧ xp.1.shape = xp.2.shape) :
    Grows refused n S (pairs.mapM fun (x, p) => x.project p) fun S' rs =>
      List.Forall₂ (fun xp r => Usable S' r ∧ r.pattern = xp.2 ∧
        ∀ env : Nat → Nat → α, nonzeros env r = xp.2.gather (entry env xp.1)) pairs rs := by
  refine Grows.mapM (P := fun S' (xp : Expr α × Pattern) r => Usable S' r ∧ r.pattern = xp.2 ∧
    ∀ env : Nat → Nat → α, nonzeros env r = xp.2.gather (entry env xp.1)) hS ?_ ?_
  · rintro ⟨x, p⟩ hxp n' S' hext
    obtain ⟨hx, hshape⟩ := h _ hxp
    exact grows_project hext.graph (hx.mono hext.subset) fun hne => absurd hshape hne
  · exact fun S' S'' xp r hsub hr => ⟨hr.1.mono hsub, hr.2⟩

omit [Scalar α] in
theorem grows_blockOffsets (hS : IsGraph n S) (ps : List Pattern)
    (hrows : ¬ (ps.map Pattern.nrows).sum < Size.wordLimit → refused .misuse) :
    Grows refused n S (liftM (blockOffsets ps)) fun _ offsets =>
      offsets = (Offsets.ofSizes (ps.map Pattern.nrows),
        Offsets.ofSizes (ps.map Pattern.ncols)) := by
  unfold blockOffsets
  refine .lift hS ?_ ?_
  · intro o ho
    unfold Pattern.checkRows Size.checkWord at ho
    split at ho <;> cases ho
    rfl
  · intro e he
    unfold Pattern.checkRows Size.checkWord at he
    split at he <;> cases he
    exact hrows ‹_›

theorem alignArgs_eq {e : Expr α} {args : List (Expr α)} (h : args.length = e.deps.length) :
    e.alignArgs args = (args.zip (e.deps.map pattern)).mapM fun (x, p) => x.project p := by
  have hpairs : args.zip (e.deps.map pattern) =
      args.zipIdx.map fun xi => (xi.1, (e.deps[xi.2]?.map pattern).getD e.pattern) := by
    refine List.ext_getElem (by simp [h]) fun i h₁ _ => ?_
    have hi : i < e.deps.length := by
      simp only [List.length_zip, List.length_map] at h₁
      omega
    simp [List.getElem?_eq_getElem hi]
  unfold alignArgs
  rw [if_neg (by simp [h]), hpairs, List.mapM_map]
  rfl

theorem grows_alignedArgs {e : Expr α} {args : List (Expr α)} (hS : IsGraph n S)
    (hargs : List.Forall₂ (fun d a => Usable S a ∧ a.shape = d.shape) e.deps args) :
    Grows refused n S (e.alignArgs args) fun S' xs => xs.length = e.deps.length ∧
      ∀ (i : Nat) d x, e.deps[i]? = some d → xs[i]? = some x → ∃ a, args[i]? = some a ∧
        Usable S' x ∧ x.pattern = d.pattern ∧
          ∀ env : Nat → Nat → α, nonzeros env x = d.pattern.gather (entry env a) := by
  rw [alignArgs_eq hargs.length_eq.symm]
  refine (grows_projectAll hS ?_).mono ?_
  · rintro ⟨a, q⟩ haq
    obtain ⟨i, hi⟩ := List.mem_iff_getElem?.1 haq
    obtain ⟨ha, hq⟩ := List.getElem?_zip_eq_some.1 hi
    obtain ⟨d, hd, hus, hshape⟩ := exists_of_forall₂ hargs ha
    rw [List.getElem?_map, hd] at hq
    exact ⟨hus, hshape.trans (congrArg Pattern.shape (Option.some.inj hq))⟩
  · intro n' S' xs _ hall
    refine ⟨?_, fun i d x hd hx => ?_⟩
    · rw [← hall.length_eq, List.length_zip, List.length_map, hargs.length_eq, Nat.min_self]
    · obtain ⟨⟨a, q⟩, haq, hr⟩ := exists_of_forall₂ hall hx
      obtain ⟨ha, hq⟩ := List.getElem?_zip_eq_some.1 haq
      rw [List.getElem?_map, hd] at hq
      obtain rfl := Option.some.inj hq
      exact ⟨a, ha, hr⟩

theorem grows_zerosLike (hS : IsGraph n S) (p : Pattern) :
    Grows refused n S (liftM (zerosLike p : Fresh (Expr α))) fun S' r =>
      Usable S' r ∧ r.shape = p.shape ∧
        ∀ (env : Nat → Nat → α) (i j : Nat), entry env r i j = 0 := by
  refine (grows_constant hS (by simp)).mono ?_
  rintro n' S' r - ⟨hr, hp, -⟩
  refine ⟨hr, by rw [shape, hp, Pattern.shape_empty]; rfl, fun env i j => ?_⟩
  rw [entry, hp, Pattern.entry_of_not_mem Pattern.not_mem_triplets_empty]

omit [Scalar α] in
theorem eq_sourcePattern {e : Expr α} {i : Nat} {q : Pattern} (hq : e.patterns[i]? = some q) :
    q = sourcePattern (e, i) := by
  unfold sourcePattern
  rw [hq]
  rfl

theorem grows_alignedResults {e : Expr α} {rs : List (Expr α)} (hS : IsGraph n S)
    (hlen : rs.length = e.resultCount)
    (hrs : ∀ (i : Nat) r, rs[i]? = some r →
      Usable S r ∧ r.shape = (sourcePattern (e, i)).shape) :
    Grows refused n S (e.alignResults rs) fun S' xs => xs.length = e.resultCount ∧
      ∀ (i : Nat) x, xs[i]? = some x → ∃ r, rs[i]? = some r ∧ Usable S' x ∧
        x.pattern = sourcePattern (e, i) ∧
          ∀ env : Nat → Nat → α, nonzeros env x = (sourcePattern (e, i)).gather (entry env r) := by
  refine (grows_projectAll hS ?_).mono ?_
  · rintro ⟨r, q⟩ hrq
    obtain ⟨i, hi⟩ := List.mem_iff_getElem?.1 hrq
    obtain ⟨hr, hq⟩ := List.getElem?_zip_eq_some.1 hi
    exact ⟨(hrs i r hr).1, (hrs i r hr).2.trans (congrArg Pattern.shape (eq_sourcePattern hq)).symm⟩
  · intro n' S' xs _ hall
    refine ⟨?_, fun i x hx => ?_⟩
    · rw [← hall.length_eq, List.length_zip, hlen, resultCount, Nat.min_self]
    · obtain ⟨⟨r, q⟩, hrq, hx⟩ := exists_of_forall₂ hall hx
      obtain ⟨hr, hq⟩ := List.getElem?_zip_eq_some.1 hrq
      obtain rfl := eq_sourcePattern hq
      exact ⟨r, hr, hx⟩

omit [Scalar α] in
theorem grows_single {e : Expr α} {P : Set (Expr α) → Nat → Expr α → Prop}
    (hcount : e.resultCount = 1) {step : Build (Expr α)} (h : Grows refused n S step (P · 0)) :
    Grows refused n S (do pure [← step]) fun S' rs => rs.length = e.resultCount ∧
      ∀ (i : Nat) r, rs[i]? = some r → P S' i r := by
  refine .bind h fun n' S' r hext hr => .pure hext.graph ⟨hcount.symm, fun i r' hr' => ?_⟩
  cases i with
  | zero =>
    obtain rfl := Option.some.inj hr'
    exact hr
  | succ i => cases hr'

end Align

theorem exists_singleton_of_forall₂ {β γ : Type} {P : β → γ → Prop} {x : β} {ys : List γ}
    (h : List.Forall₂ P [x] ys) : ∃ y, ys = [y] ∧ P x y := by
  cases h with
  | cons hxy hrest =>
    cases hrest
    exact ⟨_, rfl, hxy⟩

theorem exists_pair_of_forall₂ {β γ : Type} {P : β → γ → Prop} {x x' : β} {ys : List γ}
    (h : List.Forall₂ P [x, x'] ys) : ∃ y y', ys = [y, y'] ∧ P x y ∧ P x' y' := by
  cases h with
  | cons hxy hrest =>
    obtain ⟨y', rfl, hxy'⟩ := exists_singleton_of_forall₂ hrest
    exact ⟨_, _, rfl, hxy, hxy'⟩

/-! ## Tangents -/

/-- The results of `tangent` before they are brought onto the patterns of the node's results. -/
def Expr.tangentDraft {α : Type} [Scalar α] (e : Expr α) (outputs seeds : List (Expr α)) :
    Build (List (Expr α)) := do
  match e.op with
  | .symbol _ | .output _ | .constant _ => do pure [← zerosLike e.pattern]
  | .unary op => do
    pure [← unaryTangent op (← operand e.deps 0) (← operand outputs 0) (← operand seeds 0)]
  | .binary op _ => do
    pure [← binaryTangent op (← operand e.deps 0) (← operand e.deps 1) (← operand outputs 0)
      (← operand seeds 0) (← operand seeds 1)]
  | .innerProduct => do
    let left ← dot (← operand seeds 0) (← operand e.deps 1)
    pure [← binary .add left (← dot (← operand e.deps 0) (← operand seeds 1))]
  | .transpose _ => do pure [← (← operand seeds 0).transpose]
  | .project _ => do pure [← (← operand seeds 0).project e.pattern]
  | .join axis => do pure [← joinAlong axis seeds]
  | .split axis _ => e.splitLike axis (← operand seeds 0)

variable {α : Type} [ExactField α] {refused : GraphError → Prop} {n : Nat} {S : Set (Expr α)}
  {R : (Nat → Nat → α) → (Nat → Nat → α) → Prop} {e x : Expr α}

/-- The entries of `D` are the derivatives of the result `s`, wherever `R` relates the assignments
of values and derivatives. -/
def IsTangent (R : (Nat → Nat → α) → (Nat → Nat → α) → Prop) (s : Expr α × Nat) (D : Expr α) :
    Prop :=
  D.shape = (sourcePattern s).shape ∧
    ∀ env tan, R env tan → ∀ r c, entry env D r c = sourceTangent env tan s r c

/-- Like `IsTangent`, at the places of the result's pattern. -/
def IsDraft (R : (Nat → Nat → α) → (Nat → Nat → α) → Prop) (s : Expr α × Nat) (D : Expr α) :
    Prop :=
  D.shape = (sourcePattern s).shape ∧ ∀ env tan, R env tan →
    ∀ r c, (r, c) ∈ (sourcePattern s).triplets → entry env D r c = sourceTangent env tan s r c

theorem IsDraft.isTangent {s : Expr α × Nat} {D D' : Expr α} (h : IsDraft R s D)
    (hp : D'.pattern = sourcePattern s)
    (hval : ∀ env : Nat → Nat → α, nonzeros env D' = (sourcePattern s).gather (entry env D)) :
    IsTangent R s D' := by
  refine ⟨congrArg Pattern.shape hp, fun env tan hR r c => ?_⟩
  rw [entry_of_nonzeros hp (hval env)]
  split
  · rename_i hrc
    exact h.2 env tan hR r c hrc
  · rename_i hrc
    exact (sourceTangent_of_not_mem hrc env tan).symm

theorem IsTangent.isDraft {s : Expr α × Nat} {D : Expr α} (h : IsTangent R s D) : IsDraft R s D :=
  ⟨h.1, fun env tan hR r c _ => h.2 env tan hR r c⟩

theorem IsTangent.entry_eq (hS : IsGraph n S) (hx : x ∈ S) {D : Expr α}
    (h : IsTangent R x.source D) {env tan : Nat → Nat → α} (hR : R env tan) (r c : Nat) :
    entry env D r c = tangentEntry env tan x r c := by
  rw [h.2 env tan hR, hS.tangentEntry_eq_source hx]

theorem IsTangent.spreadEntry_eq (hS : IsGraph n S) (hx : x ∈ S) {D : Expr α}
    (h : IsTangent R x.source D) {env tan : Nat → Nat → α} (hR : R env tan) (r c : Nat) :
    spreadEntry env D r c = spreadTangent env tan x r c := by
  have hshape : D.shape = x.shape :=
    h.1.trans (congrArg Pattern.shape (hS.pattern_eq_source hx)).symm
  unfold spreadEntry spreadTangent spreadEntry
  rw [hshape]
  split <;> exact h.entry_eq hS hx hR _ _

theorem IsTangent.nonzeros_eq (hS : IsGraph n S) (hx : x ∈ S) {D : Expr α} (hD : D ∈ S)
    (hp : D.pattern = x.pattern) (h : IsTangent R x.source D) {env tan : Nat → Nat → α}
    (hR : R env tan) : nonzeros env D = Dual.derivs (nonzeros (dualEnv env tan) x) := by
  rw [hS.nonzeros_eq_gather hD, hp, hS.derivs_nonzeros hx]
  exact Pattern.gather_congr fun r c _ => h.entry_eq hS hx hR r c

/-! ## Every kind of node -/

theorem isDraft_zero {D : Expr α} (hshape : D.shape = e.shape)
    (h : ∀ env tan, R env tan → ∀ r c, (r, c) ∈ e.pattern.triplets →
      entry env D r c = tangentEntry env tan e r c) : IsDraft R (e, 0) D := by
  refine ⟨by rw [sourcePattern_zero]; exact hshape, fun env tan hR r c hrc => ?_⟩
  rw [sourcePattern_zero] at hrc
  rw [sourceTangent_zero, h env tan hR r c hrc]

omit [ExactField α] in
theorem Expr.Aligned.Fits.compatible {a : Aligned α} {op : BinaryOp} (h : a.Fits op) :
    Compatible a.left a.right ∧ a.pattern.shape = binaryShape a.left a.right := by
  obtain ⟨x, y, broadcast⟩ := a
  unfold Compatible binaryShape
  cases broadcast with
  | none =>
    have hs : x.shape = y.shape := congrArg Pattern.shape h
    refine ⟨.inl hs, ?_⟩
    split
    · exact hs
    · rfl
  | left =>
    have hs : x.shape = (1, 1) := congrArg Pattern.shape h.1
    exact ⟨.inr (.inl hs), (if_pos hs).symm⟩
  | right =>
    have hs : y.shape = (1, 1) := congrArg Pattern.shape h.1
    exact ⟨.inr (.inr hs), (if_neg h.2.1).symm⟩

/-- `D` is a tangent of the operand `x` on its pattern. -/
structure TangentOf (R : (Nat → Nat → α) → (Nat → Nat → α) → Prop) (S : Set (Expr α))
    (x D : Expr α) : Prop where
  mem : x ∈ S
  usable : Usable S D
  pattern : D.pattern = x.pattern
  tangent : IsTangent R x.source D

theorem TangentOf.nonzeros_eq (hS : IsGraph n S) {D : Expr α} (h : TangentOf R S x D)
    {env tan : Nat → Nat → α} (hR : R env tan) :
    nonzeros env D = Dual.derivs (nonzeros (dualEnv env tan) x) :=
  h.tangent.nonzeros_eq hS h.mem h.usable.1 h.pattern hR

theorem TangentOf.shape {D : Expr α} (h : TangentOf R S x D) : D.shape = x.shape :=
  congrArg Pattern.shape h.pattern

section Nodes

variable {id : Nat} {p : Pattern} {y D D' : Expr α}

theorem draft_constant (hS : IsGraph n S) {nz : List α} (he : node id (.constant nz) [] p [] ∈ S) :
    Grows refused n S (liftM (zerosLike p : Fresh (Expr α))) fun S' r =>
      Usable S' r ∧ IsDraft R (node id (.constant nz) [] p [], 0) r := by
  refine (grows_zerosLike hS p).mono ?_
  rintro n' S' r - ⟨hr, hshape, hval⟩
  refine ⟨hr, isDraft_zero hshape fun env tan _ i j _ => ?_⟩
  rw [hval, hS.tangentEntry_constant he]

theorem draft_unary (hS : IsGraph n S) {op : UnaryOp} (he : node id (.unary op) [x] p [] ∈ S)
    (hD : TangentOf R S x D) (hfits : ¬ Size.Fits p.shape → refused .misuse) :
    Grows refused n S (unaryTangent op x (node id (.unary op) [x] p []) D) fun S' r =>
      Usable S' r ∧ IsDraft R (node id (.unary op) [x] p [], 0) r := by
  have hx : Usable S x := ⟨hS.closed _ he x (List.mem_singleton_self x),
    hS.proper _ he rfl x (List.mem_singleton_self x)⟩
  have hxs : x.shape = p.shape := by
    cases hS.wellFormed _ he with
    | unary _ pattern _ => exact congrArg Pattern.shape pattern
  refine (grows_unaryTangent hS hx ⟨he, rfl⟩ hD.usable op hxs rfl (hD.shape.trans hxs)
    hfits).mono ?_
  rintro n' S' r - ⟨hr, hshape, hval⟩
  refine ⟨hr, isDraft_zero hshape fun env tan hR i j hij => ?_⟩
  obtain ⟨hi, hj⟩ := Pattern.lt_of_mem_triplets hij
  rw [hval env i hi j hj (hS.entry_unary he hij), hD.tangent.entry_eq hS hx.1 hR,
    hS.tangentEntry_unary he hij]

theorem draft_binary (hS : IsGraph n S) {op : BinaryOp} {broadcast : Broadcast}
    (he : node id (.binary op broadcast) [x, y] p [] ∈ S) (hD : TangentOf R S x D)
    (hD' : TangentOf R S y D') (hfits : ¬ Size.Fits p.shape → refused .misuse) :
    Grows refused n S
        (binaryTangent op x y (node id (.binary op broadcast) [x, y] p []) D D') fun S' r =>
      Usable S' r ∧ IsDraft R (node id (.binary op broadcast) [x, y] p [], 0) r := by
  have hx : Usable S x := ⟨hS.closed _ he x (by simp [deps]), hS.proper _ he rfl x (by simp [deps])⟩
  have hy : Usable S y := ⟨hS.closed _ he y (by simp [deps]), hS.proper _ he rfl y (by simp [deps])⟩
  obtain ⟨hcomp, hps⟩ : Compatible x y ∧ p.shape = binaryShape x y := by
    cases hS.wellFormed _ he with
    | binary _ pattern fits => exact ⟨fits.compatible.1, pattern ▸ fits.compatible.2⟩
  refine (grows_binaryTangent hS hx hy ⟨he, rfl⟩ hD.usable hD'.usable op hcomp hps hD.shape
    hD'.shape (hps ▸ hfits)).mono ?_
  rintro n' S' r - ⟨hr, hshape, hval⟩
  refine ⟨hr, isDraft_zero (hshape.trans hps.symm) fun env tan hR i j hij => ?_⟩
  obtain ⟨hi, hj⟩ : i < p.shape.1 ∧ j < p.shape.2 := Pattern.lt_of_mem_triplets hij
  rw [hps] at hi hj
  rw [hval env i hi j hj (hS.entry_binary he hij), hD.tangent.spreadEntry_eq hS hx.1 hR,
    hD'.tangent.spreadEntry_eq hS hy.1 hR, hS.tangentEntry_binary he hij]

theorem draft_innerProduct (hS : IsGraph n S) (he : node id .innerProduct [x, y] p [] ∈ S)
    (hD : TangentOf R S x D) (hD' : TangentOf R S y D') :
    Grows refused n S (do
        let left ← dot D y
        binary .add left (← dot x D')) fun S' r =>
      Usable S' r ∧ IsDraft R (node id .innerProduct [x, y] p [], 0) r := by
  have hx : Usable S x := ⟨hS.closed _ he x (by simp [deps]), hS.proper _ he rfl x (by simp [deps])⟩
  have hy : Usable S y := ⟨hS.closed _ he y (by simp [deps]), hS.proper _ he rfl y (by simp [deps])⟩
  obtain ⟨hxy, rfl⟩ : x.pattern = y.pattern ∧ p = .scalar := by
    cases hS.wellFormed _ he with
    | innerProduct _ patterns => exact ⟨patterns, rfl⟩
  have hunion (u : Pattern) (h : x.pattern.union x.pattern = .ok u) : u = x.pattern :=
    Except.ok.inj (h.symm.trans (Pattern.union_self _))
  refine .bind (grows_dot hS hD.usable hy fun hne => absurd
    (hD.shape.trans (congrArg Pattern.shape hxy)) hne) ?_
  rintro n₁ S₁ u h₁ ⟨hu, hup, huv⟩
  refine .bind (grows_dot h₁.graph (hx.mono h₁.subset) (hD'.usable.mono h₁.subset) fun hne => absurd
    ((congrArg Pattern.shape hxy).trans hD'.shape.symm) hne) ?_
  rintro n₂ S₂ v h₂ ⟨hv, hvp, hvv⟩
  refine (grows_binary_same (s := (1, 1)) h₂.graph (hu.mono h₂.subset) hv .add
    (congrArg Pattern.shape hup) (congrArg Pattern.shape hvp)).mono ?_
  rintro n₃ S₃ r - ⟨hr, hshape, hval⟩
  refine ⟨hr, isDraft_zero hshape fun env tan hR i j hij => ?_⟩
  obtain ⟨rfl, rfl⟩ : i = 0 ∧ j = 0 := by simpa [Expr.pattern, Pattern.triplets_scalar] using hij
  obtain ⟨q, hq, huv⟩ := huv inferInstance
  obtain ⟨q', hq', hvv⟩ := hvv inferInstance
  rw [hD.pattern, ← hxy] at hq
  rw [hD'.pattern, ← hxy] at hq'
  obtain rfl := hunion q hq
  obtain rfl := hunion q' hq'
  rw [hval env 0 Nat.one_pos 0 Nat.one_pos, entry_scalar hup (huv env), entry_scalar hvp (hvv env),
    hS.tangentEntry_innerProduct he]
  refine congrArg₂ (· + ·) (congrArg (total _) ?_) (congrArg (total _) ?_)
  · funext r c
    rw [hD.tangent.entry_eq hS hx.1 hR]
  · funext r c
    rw [hD'.tangent.entry_eq hS hy.1 hR]

theorem draft_transpose (hS : IsGraph n S) {mapping : List Nat}
    (he : node id (.transpose mapping) [x] p [] ∈ S) (hD : TangentOf R S x D)
    (hfits : ¬ Size.Fits p.shape → refused .misuse) :
    Grows refused n S D.transpose fun S' r =>
      Usable S' r ∧ IsDraft R (node id (.transpose mapping) [x] p [], 0) r := by
  have hx : x ∈ S := hS.closed _ he x (List.mem_singleton_self x)
  obtain rfl : x.pattern.transpose = p := by
    cases hS.wellFormed _ he with
    | transpose _ numbers pattern => exact pattern
  have hrows : x.pattern.transpose.shape.2 = x.pattern.nrows := by
    rw [Pattern.shape_transpose]
  have hlarge (h : ¬ D.pattern.nrows < Size.listLimit) : refused .misuse := by
    rw [hD.pattern, ← hrows] at h
    exact hfits fun hfit => h hfit.1
  refine (grows_transpose hS hD.usable hlarge).mono ?_
  rw [hD.pattern]
  rintro n' S' r - ⟨hr, hrp, hval⟩
  refine ⟨hr, isDraft_zero (congrArg Pattern.shape hrp) fun env tan hR i j hij => ?_⟩
  rw [entry_of_nonzeros hrp (hval env), hS.tangentEntry_transpose he,
    hD.tangent.entry_eq hS hx hR]
  exact if_pos hij

theorem draft_project (hS : IsGraph n S) {mapping : List (Option Nat)}
    (he : node id (.project mapping) [x] p [] ∈ S) (hD : TangentOf R S x D) :
    Grows refused n S (D.project p) fun S' r =>
      Usable S' r ∧ IsDraft R (node id (.project mapping) [x] p [], 0) r := by
  have hx : x ∈ S := hS.closed _ he x (List.mem_singleton_self x)
  have hshape : x.shape = p.shape := by
    cases hS.wellFormed _ he with
    | project _ numbers shape => exact shape
  refine (grows_project hS hD.usable fun hne => absurd (hD.shape.trans hshape) hne).mono ?_
  rintro n' S' r - ⟨hr, hrp, hval⟩
  refine ⟨hr, isDraft_zero (congrArg Pattern.shape hrp) fun env tan hR i j hij => ?_⟩
  rw [entry_of_nonzeros hrp (hval env), hS.tangentEntry_project he, hD.tangent.entry_eq hS hx hR]

theorem isDraft_of_result {s : Expr α × Nat} (hp : D.pattern = sourcePattern s)
    (h : ∀ env tan, R env tan → nonzeros env D = Dual.derivs (result (dualEnv env tan) s))
    (hlen : ∀ env : Nat → Nat → Dual α, (result env s).length = (sourcePattern s).nnz) :
    IsDraft R s D := by
  refine ⟨congrArg Pattern.shape hp, fun env tan hR r c hrc => ?_⟩
  rw [entry, hp, h env tan hR]
  exact Pattern.entry_map (hlen _) (.inl hrc)

theorem draft_join (hS : IsGraph n S) {axis : Axis} {parts seeds : List (Expr α)}
    (he : node id (.join axis) parts p [] ∈ S) (hseeds : List.Forall₂ (TangentOf R S) parts seeds)
    (hrows : ¬ (parts.map fun d => d.pattern.nrows).sum < Size.wordLimit → refused .misuse) :
    Grows refused n S (joinAlong axis seeds) fun S' r =>
      Usable S' r ∧ IsDraft R (node id (.join axis) parts p [], 0) r := by
  obtain ⟨hcount, hjoins⟩ : 2 ≤ parts.length ∧ Pattern.Joins axis (parts.map Expr.pattern) p := by
    cases hS.wellFormed _ he with
    | join _ count joins => exact ⟨count, joins⟩
  have hpatterns : seeds.map Expr.pattern = parts.map Expr.pattern :=
    (map_eq_of_forall₂ hseeds fun d D h => h.pattern.symm).symm
  have hne : seeds ≠ [] := by
    rintro rfl
    simp [List.forall₂_nil_right_iff.1 hseeds] at hcount
  have hus (D : Expr α) (hD : D ∈ seeds) : Usable S D := by
    obtain ⟨i, hi⟩ := List.mem_iff_getElem?.1 hD
    obtain ⟨d, -, hd⟩ := exists_of_forall₂ hseeds hi
    exact hd.usable
  refine (grows_joinAlong hS hus hne hjoins ?_ (by simpa [Function.comp_def] using hrows)).mono ?_
  · rw [← hpatterns, List.map_map]
    rfl
  · rintro n' S' r - ⟨hr, hrj, hval⟩
    have hrp : r.pattern = p := by
      refine hrj.unique (hpatterns ▸ hjoins) ?_
      simpa using hne
    have hsp := sourcePattern_zero (node id (.join axis) parts p [])
    refine ⟨hr, isDraft_of_result (hrp.trans hsp.symm) ?_ ?_⟩
    · intro env tan hR
      rw [hval, ← nonzeros_eq_result, hS.nonzeros_join he, Dual.derivs, List.map_flatten,
        List.map_map, ← map_eq_of_forall₂ hseeds fun d D h => (h.nonzeros_eq hS hR).symm]
      rfl
    · exact fun env => hS.length_result he Nat.one_pos

theorem draft_split (hS : IsGraph n S) {axis : Axis} {offsets : List Nat} {ps : List Pattern}
    (he : node id (.split axis offsets) [x] p ps ∈ S) (hD : TangentOf R S x D)
    (hrows : ¬ ((p :: ps).map Pattern.nrows).sum < Size.wordLimit → refused .misuse) :
    Grows refused n S (splitLike (node id (.split axis offsets) [x] p ps) axis D) fun S' rs =>
      rs.length = (p :: ps).length ∧ ∀ (i : Nat) r, rs[i]? = some r →
        Usable S' r ∧ IsDraft R (node id (.split axis offsets) [x] p ps, i) r := by
  have hjoins : Pattern.Joins axis (p :: ps) x.pattern := by
    cases hS.wellFormed _ he with
    | split _ count table joins => exact joins
  unfold splitLike
  refine .bind (grows_blockOffsets hS (p :: ps) hrows) ?_
  rintro n₁ S₁ _ h₁ rfl
  refine (grows_splitAlong h₁.graph (hD.usable.mono h₁.subset) (hD.pattern ▸ hjoins)).mono ?_
  rintro n₂ S₂ rs - ⟨hus, hpat, hval⟩
  refine ⟨by simpa using congrArg List.length hpat, fun i r hr => ?_⟩
  have hrp : (p :: ps)[i]? = some r.pattern := by
    rw [← hpat, List.getElem?_map, hr]
    rfl
  have hi : i < (node id (.split axis offsets) [x] p ps).resultCount :=
    (List.getElem?_eq_some_iff.1 hrp).1
  have hsp : sourcePattern (node id (.split axis offsets) [x] p ps, i) = r.pattern := by
    unfold sourcePattern
    exact congrArg (·.getD default) hrp
  refine ⟨hus r (List.mem_of_getElem? hr), isDraft_of_result hsp.symm ?_ ?_⟩
  · intro env tan hR
    have hri : (rs.map (nonzeros env))[i]? = some (nonzeros env r) := by
      rw [List.getElem?_map, hr]
      rfl
    rw [hval env, hD.nonzeros_eq hS hR, Dual.derivs, chunks_map, ← hS.values_split he,
      List.getElem?_map, hS.getElem?_values he hi] at hri
    exact (Option.some.inj hri).symm
  · exact fun env => hS.length_result he hi

end Nodes

/-! ## The tangents of a node -/

omit [ExactField α] in
theorem tangent_eq {α : Type} [Scalar α] {e : Expr α} (ho : e.isOperation = true)
    (outputs seeds : List (Expr α)) :
    e.tangent outputs seeds = (do
      let seeds ← e.alignArgs seeds
      let results ← e.tangentDraft outputs seeds
      e.alignResults results) := by
  obtain ⟨id, op, deps, p, ps⟩ := e
  cases op with
  | symbol => cases ho
  | output => cases ho
  | _ => simp only [tangent, tangentDraft, Expr.op, bind_assoc, pure_bind]

theorem grows_alignArgs (hS : IsGraph n S) (he : e ∈ S) {seeds : List (Expr α)}
    (hseeds : List.Forall₂ (fun d s => Usable S s ∧ IsTangent R d.source s) e.deps seeds) :
    Grows refused n S (e.alignArgs seeds) fun S' ss =>
      List.Forall₂ (TangentOf R S') e.deps ss := by
  have hdeps (d : Expr α) (hd : d ∈ e.deps) : d ∈ S := hS.closed e he d hd
  have hshapes := ((List.forall₂_and_left _ _).2 ⟨hdeps, hseeds⟩).imp fun d s hs =>
    (⟨hs.2.1, hs.2.2.1.trans (congrArg Pattern.shape (hS.pattern_eq_source hs.1)).symm⟩ :
      Usable S s ∧ s.shape = d.shape)
  refine (grows_alignedArgs hS hshapes).mono ?_
  rintro n' S' ss hext ⟨hlen, hss⟩
  refine forall₂_of_getElem? hlen.symm fun i d x hd hx => ?_
  obtain ⟨s, hs, hus, hp, hval⟩ := hss i d x hd hx
  obtain ⟨d', hd', -, htan⟩ := exists_of_forall₂ hseeds hs
  obtain rfl := Option.some.inj (hd.symm.trans hd')
  have hdS := hdeps d (List.mem_of_getElem? hd)
  have hsource := hS.pattern_eq_source hdS
  exact ⟨hext.subset hdS, hus, hp,
    htan.isDraft.isTangent (hp.trans hsource) fun env => hsource ▸ hval env⟩

theorem grows_alignResults (hS : IsGraph n S) {rs : List (Expr α)}
    (hlen : rs.length = e.resultCount)
    (hrs : ∀ (i : Nat) r, rs[i]? = some r → Usable S r ∧ IsDraft R (e, i) r) :
    Grows refused n S (e.alignResults rs) fun S' rs' =>
      rs'.length = e.resultCount ∧ ∀ (i : Nat) r, rs'[i]? = some r →
        Usable S' r ∧ IsTangent R (e, i) r := by
  refine (grows_alignedResults hS hlen fun i r hr => ⟨(hrs i r hr).1, (hrs i r hr).2.1⟩).mono ?_
  rintro n' S' rs' - ⟨hlen', hall⟩
  refine ⟨hlen', fun i x hx => ?_⟩
  obtain ⟨r, hr, hus, hp, hval⟩ := hall i x hx
  exact ⟨hus, (hrs i r hr).2.isTangent hp hval⟩

/-- Drafts of the results, from tangents of the operands on their patterns: by the kind of the
node. -/
theorem grows_tangentDraft (hS : IsGraph n S) (he : e ∈ S) (ho : e.isOperation = true)
    {outputs seeds : List (Expr α)} (houtputs : e.op.isSplit = false → outputs = [e])
    (hseeds : List.Forall₂ (TangentOf R S) e.deps seeds)
    (hfits : ¬ Size.Fits e.shape → refused .misuse)
    (hdeps : ¬ (e.deps.map fun d => d.pattern.nrows).sum < Size.wordLimit → refused .misuse)
    (hresults : ¬ (e.patterns.map Pattern.nrows).sum < Size.wordLimit → refused .misuse) :
    Grows refused n S (e.tangentDraft outputs seeds) fun S' rs => rs.length = e.resultCount ∧
      ∀ (i : Nat) r, rs[i]? = some r → Usable S' r ∧ IsDraft R (e, i) r := by
  cases hS.wellFormed e he with
  | symbol => cases ho
  | output => cases ho
  | constant id length => exact grows_single rfl (draft_constant hS he)
  | unary id pattern dense =>
    obtain rfl := houtputs rfl
    obtain ⟨D, rfl, hD⟩ := exists_singleton_of_forall₂ hseeds
    exact grows_single rfl (draft_unary hS he hD hfits)
  | binary id pattern fits =>
    obtain rfl := houtputs rfl
    obtain ⟨D, D', rfl, hD, hD'⟩ := exists_pair_of_forall₂ hseeds
    exact grows_single rfl (draft_binary hS he hD hD' hfits)
  | innerProduct id patterns =>
    rename_i x y
    obtain ⟨D, D', rfl, hD, hD'⟩ := exists_pair_of_forall₂ hseeds
    have h : Grows refused n S _ _ :=
      grows_single (e := node id .innerProduct [x, y] .scalar [])
        (P := fun S' i r => Usable S' r ∧ IsDraft R (_, i) r) rfl
        (draft_innerProduct hS he hD hD')
    simp only [bind_assoc] at h
    exact h
  | transpose id numbers pattern =>
    obtain ⟨D, rfl, hD⟩ := exists_singleton_of_forall₂ hseeds
    exact grows_single rfl (draft_transpose hS he hD hfits)
  | project id numbers shape =>
    obtain ⟨D, rfl, hD⟩ := exists_singleton_of_forall₂ hseeds
    exact grows_single rfl (draft_project hS he hD)
  | join id count joins => exact grows_single rfl (draft_join hS he hseeds hdeps)
  | split id count table joins =>
    obtain ⟨D, rfl, hD⟩ := exists_singleton_of_forall₂ hseeds
    exact draft_split hS he hD hresults

/-- From tangents of the operands a node gives tangents of its results. -/
theorem grows_tangent (hS : IsGraph n S) (he : e ∈ S) (ho : e.isOperation = true)
    {outputs seeds : List (Expr α)} (houtputs : e.op.isSplit = false → outputs = [e])
    (hseeds : List.Forall₂ (fun d s => Usable S s ∧ IsTangent R d.source s) e.deps seeds)
    (hfits : ¬ Size.Fits e.shape → refused .misuse)
    (hdeps : ¬ (e.deps.map fun d => d.pattern.nrows).sum < Size.wordLimit → refused .misuse)
    (hresults : ¬ (e.patterns.map Pattern.nrows).sum < Size.wordLimit → refused .misuse) :
    Grows refused n S (e.tangent outputs seeds) fun S' rs => rs.length = e.resultCount ∧
      ∀ (i : Nat) r, rs[i]? = some r → Usable S' r ∧ IsTangent R (e, i) r := by
  rw [tangent_eq ho]
  refine .bind (grows_alignArgs hS he hseeds) ?_
  intro n₁ S₁ ss h₁ hss
  refine .bind (grows_tangentDraft h₁.graph (h₁.subset he) ho houtputs hss hfits hdeps hresults) ?_
  rintro n₂ S₂ rs h₂ ⟨hlen, hrs⟩
  exact grows_alignResults h₂.graph hlen hrs

end DiffGraph
