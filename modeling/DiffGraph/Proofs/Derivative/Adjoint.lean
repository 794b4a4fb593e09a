import Mathlib
import DiffGraph.Proofs.Derivative.Pairing
import DiffGraph.Proofs.Derivative.Tangent

/-!
# Adjoints

What the adjoints of the results of a node contribute to those of its operands
(`grows_adjoint`, with one lemma for each kind of node): whatever the derivatives
of the operands, their inner product with the contributions is that of the
derivatives of the results with their adjoints (`Transposes`).
-/

namespace DiffGraph

open Element Expr

/-! ## The rules -/

section Rules

variable {α : Type} [ExactField α]

/-- The derivative of a unary operation is multiplication by a number. -/
theorem UnaryOp.deriv_mul_comm (op : UnaryOp) (x s t : α) :
    (op.apply (⟨x, s⟩ : Dual α)).deriv * t = s * (op.apply (⟨x, t⟩ : Dual α)).deriv := by
  cases op with
  | neg =>
    show -s * t = s * -t
    ring
  | sin =>
    show s * Scalar.cos x * t = s * (t * Scalar.cos x)
    ring
  | cos =>
    show -s * Scalar.sin x * t = s * (-t * Scalar.sin x)
    ring
  | exp =>
    show Scalar.exp x * s * t = s * (Scalar.exp x * t)
    ring
  | log =>
    show s / x * t = s * (t / x)
    ring

/-- What the adjoint `s` of a binary operation on `a` and `b` with value `out` contributes. -/
def BinaryOp.adjoint (op : BinaryOp) (a b out s : α) : α × α :=
  match op with
  | .add => (s, s)
  | .sub => (s, -s)
  | .mul => (s * b, s * a)
  | .div => (s / b, -(s * out / b))

theorem BinaryOp.adjoint_mul (op : BinaryOp) (a b da db s : α) :
    (op.adjoint a b (op.apply a b) s).1 * da + (op.adjoint a b (op.apply a b) s).2 * db =
      s * (op.apply (⟨a, da⟩ : Dual α) ⟨b, db⟩).deriv := by
  cases op with
  | add =>
    show s * da + s * db = s * (da + db)
    ring
  | sub =>
    show s * da + -s * db = s * (da - db)
    ring
  | mul =>
    show s * b * da + s * a * db = s * (a * db + da * b)
    ring
  | div =>
    show s / b * da + -(s * (a / b) / b) * db = s * ((da * b - a * db) / (b * b))
    rw [← quotient_rule]
    ring

theorem BinaryOp.adjoint_zero (op : BinaryOp) (a b out : α) : op.adjoint a b out 0 = (0, 0) := by
  cases op with
  | add => rfl
  | sub => exact congrArg (Prod.mk 0) neg_zero
  | mul => exact Prod.ext (zero_mul _) (zero_mul _)
  | div =>
    refine Prod.ext (zero_div b) ?_
    show -(0 * out / b) = 0
    rw [zero_mul, zero_div, neg_zero]

end Rules

variable {α : Type} [ExactField α] {refused : GraphError → Prop} {n : Nat} {S S' : Set (Expr α)}
  {e x y : Expr α}

/-! ## Inner products at a node -/

/-- The inner product of the adjoints of expressions with the derivatives of these. -/
def pairings (xs : List (Expr α)) (cs : Adjoints α) (env tan : Nat → Nat → α) : α :=
  (List.zipWith (fun x c => pairing env x.pattern c (tangentEntry env tan x)) xs cs).sum

/-- The inner product of the adjoints of the results with the derivatives of the results. -/
def Expr.resultPairing (e : Expr α) (seeds : Adjoints α) (env tan : Nat → Nat → α) : α :=
  (seeds.zipIdx.map fun (c, i) =>
    pairing env (sourcePattern (e, i)) c (sourceTangent env tan (e, i))).sum

/-- Adjoints, or nothing, on the patterns. -/
def OnPatterns (S : Set (Expr α)) (ps : List Pattern) (cs : Adjoints α) : Prop :=
  List.Forall₂ (fun p c => ∀ x ∈ c, Usable S x ∧ x.pattern = p) ps cs

/-- Adjoints of the operands that the adjoints of the results amount to. -/
structure Transposes (S : Set (Expr α)) (e : Expr α) (seeds sens : Adjoints α) : Prop where
  operands : OnPatterns S (e.deps.map Expr.pattern) sens
  products : ∀ env tan, pairings e.deps sens env tan = e.resultPairing seeds env tan

theorem resultPairing_single (e s : Expr α) (env tan : Nat → Nat → α) :
    e.resultPairing [some s] env tan =
      total e.pattern fun i j => entry env s i j * tangentEntry env tan e i j := by
  show pairing env (sourcePattern (e, 0)) (some s) (sourceTangent env tan (e, 0)) + 0 = _
  rw [add_zero, sourcePattern_zero, pairing]
  refine total_congr fun i j _ => ?_
  rw [sourceTangent_zero]
  rfl

/-- An expression that has the inner product `v` with the derivatives of the operand `d`. -/
structure Contributes (S : Set (Expr α)) (d c : Expr α)
    (v : (Nat → Nat → α) → (Nat → Nat → α) → α) : Prop where
  usable : Usable S c
  shape : c.shape = d.shape
  product : ∀ env tan, pairing env d.pattern (some c) (tangentEntry env tan d) = v env tan

variable {d c : Expr α} {v w : (Nat → Nat → α) → (Nat → Nat → α) → α} {step step' : Build (Expr α)}
  {seeds sens : Adjoints α}

theorem Contributes.mono (h : Contributes S d c v) (hsub : S ⊆ S') : Contributes S' d c v :=
  { h with usable := h.usable.mono hsub }

theorem grows_accumulate_none (hS : IsGraph n S) (h : Contributes S d c v) :
    Grows refused n S (accumulate none c d.pattern) fun S' x =>
      Contributes S' d x v ∧ x.pattern = d.pattern := by
  refine (grows_accumulate hS (by simp) h.usable h.shape).mono ?_
  rintro n' S' x - ⟨hx, hp, hval⟩
  refine ⟨⟨hx, congrArg Pattern.shape hp, fun env tan => ?_⟩, hp⟩
  rw [pairing_accumulate hp (hval inferInstance env), pairing_none, zero_add]
  exact h.product env tan

theorem grows_addAt {i : Nat} (hi : sens[i]? = some none)
    (h : Grows refused n S step fun S' c => Contributes S' d c v) :
    Grows refused n S (addAt sens i step d.pattern) fun S' sens' =>
      ∃ x, sens' = sens.set i (some x) ∧ Contributes S' d x v ∧ x.pattern = d.pattern := by
  unfold addAt
  rw [hi]
  refine .bind h fun n₁ S₁ c h₁ hc => ?_
  refine .bind (grows_accumulate_none h₁.graph hc) fun n₂ S₂ x h₂ hx => ?_
  exact .pure h₂.graph ⟨x, rfl, hx⟩

theorem grows_addAt_single (hdeps : e.deps = [x])
    (h : Grows refused n S step fun S' c => Contributes S' x c (e.resultPairing seeds)) :
    Grows refused n S (addAt [none] 0 step x.pattern) fun S' sens =>
      Transposes S' e seeds sens := by
  refine (grows_addAt rfl h).mono ?_
  rintro n' S' sens - ⟨c, rfl, hc, hp⟩
  refine ⟨?_, fun env tan => ?_⟩
  · rw [hdeps]
    refine .cons (fun c' hc' => ?_) .nil
    obtain rfl := Option.some.inj hc'
    exact ⟨hc.usable, hp⟩
  · rw [pairings, hdeps, ← hc.product]
    exact add_zero _

theorem grows_addAt_pair (hdeps : e.deps = [x, y])
    (hx : Grows refused n S step fun S' c => Contributes S' x c v)
    (hy : ∀ n' S', Extends n S n' S' → Grows refused n' S' step' fun S'' c => Contributes S'' y c w)
    (hvw : ∀ env tan, v env tan + w env tan = e.resultPairing seeds env tan) :
    Grows refused n S (do
        addAt (← addAt [none, none] 0 step x.pattern) 1 step' y.pattern) fun S' sens =>
      Transposes S' e seeds sens := by
  refine .bind (grows_addAt rfl hx) ?_
  rintro n₁ S₁ sens h₁ ⟨c, rfl, hc, hcp⟩
  refine (grows_addAt rfl (hy n₁ S₁ h₁)).mono ?_
  rintro n₂ S₂ sens h₂ ⟨c', rfl, hc', hcp'⟩
  refine ⟨?_, fun env tan => ?_⟩
  · rw [hdeps]
    refine .cons (fun z hz => ?_) (.cons (fun z hz => ?_) .nil)
    · obtain rfl := Option.some.inj hz
      exact ⟨hc.usable.mono h₂.subset, hcp⟩
    · obtain rfl := Option.some.inj hz
      exact ⟨hc'.usable, hcp'⟩
  · rw [pairings, hdeps, ← hvw, ← hc.product, ← hc'.product]
    exact congrArg _ (add_zero _)

/-! ## Binary operations -/

/-- A contribution at every place, added up if the operand is a number. -/
def addUp (number : Prop) [Decidable number] (c : Expr α) : Build (Expr α) :=
  if number then c.sum else pure c

theorem grows_addUp (hS : IsGraph n S) (hc : Usable S c) {s : Nat × Nat} (hcs : c.shape = s)
    (number : Prop) [Decidable number] (hx : if number then x.pattern = .scalar else x.shape = s)
    {M : (Nat → Nat → α) → Nat → Nat → α}
    (hval : ∀ env : Nat → Nat → α, ∀ i < s.1, ∀ j < s.2, entry env c i j = M env i j) :
    Grows refused n S (addUp number c) fun S' r =>
      Contributes S' x r fun env tan =>
        gridSum s fun i j => M env i j * spreadTangent env tan x i j := by
  unfold addUp
  split
  · rename_i h
    rw [if_pos h] at hx
    have hxs : x.shape = (1, 1) := congrArg Pattern.shape hx
    refine (grows_sum hS hc).mono ?_
    rintro n' S' r - ⟨hr, hp, hrv⟩
    refine ⟨hr, (congrArg Pattern.shape hp).trans hxs.symm, fun env tan => ?_⟩
    have htotal : entry env r 0 0 = gridSum s (entry env c) := by
      rw [entry_scalar hp (hrv inferInstance env), ← hcs]
      exact total_eq_gridSum fun i j hij => Pattern.entry_of_not_mem hij
    have hspread (i j : Nat) : spreadTangent env tan x i j = tangentEntry env tan x 0 0 :=
      congrArg Dual.deriv (if_pos hxs)
    rw [hx, pairing, total_scalar]
    show entry env r 0 0 * tangentEntry env tan x 0 0 = _
    simp only [htotal, hspread, ← gridSum_mul]
    exact congrArg (· * _) (gridSum_congr (hval env))
  · rename_i h
    rw [if_neg h] at hx
    refine .pure hS ⟨hc, hcs.trans hx.symm, fun env tan => ?_⟩
    have hzero (i j : Nat) (hij : (i, j) ∉ x.pattern.triplets) :
        entry env c i j * tangentEntry env tan x i j = 0 := by
      rw [tangentEntry_of_not_mem hij, mul_zero]
    refine (total_eq_gridSum hzero).trans ?_
    rw [show x.pattern.shape = s from hx]
    refine gridSum_congr fun i hi j hj => ?_
    rw [hval env i hi j hj]
    exact congrArg _ (congrArg Dual.deriv (spreadEntry_of_shape _ hx hi hj)).symm

/-- The contributions of a binary operation before they are added up for numbers. -/
def binaryRule (op : BinaryOp) (a b out seed : Expr α) : Build (Expr α × Expr α) := do
  match op with
  | .add => pure (seed, seed)
  | .sub => do pure (seed, ← neg seed)
  | .mul => do pure (← binary .mul seed b, ← binary .mul seed a)
  | .div => do pure (← binary .div seed b, ← neg (← binary .div (← binary .mul seed out) b))

theorem binaryAdjoint_eq (op : BinaryOp) (broadcast : Broadcast) (a b out seed : Expr α) :
    binaryAdjoint op broadcast a b out seed = (do
      let cs ← binaryRule op a b out seed
      let ca ← addUp (broadcast = .left) cs.1
      let cb ← addUp (broadcast = .right) cs.2
      pure (ca, cb)) := by
  cases op <;> cases broadcast <;> simp [binaryAdjoint, binaryRule, addUp]

def adjointAt (op : BinaryOp) (a b out seed : Expr α) (env : Nat → Nat → α) (i j : Nat) : α × α :=
  op.adjoint (spreadEntry env a i j) (spreadEntry env b i j) (entry env out i j)
    (entry env seed i j)

theorem grows_binaryRule {a b out seed : Expr α} (hS : IsGraph n S) (ha : Usable S a)
    (hb : Usable S b) (hout : Usable S out) (hseed : Usable S seed) (op : BinaryOp) {s : Nat × Nat}
    (hsa : Spreads a s) (hsb : Spreads b s) (hso : out.shape = s) (hss : seed.shape = s)
    (hfits : ¬ Size.Fits s → refused .misuse) :
    Grows refused n S (binaryRule op a b out seed) fun S' cs =>
      (Usable S' cs.1 ∧ cs.1.shape = s) ∧ (Usable S' cs.2 ∧ cs.2.shape = s) ∧
        ∀ env : Nat → Nat → α, ∀ i < s.1, ∀ j < s.2,
          (entry env cs.1 i j, entry env cs.2 i j) = adjointAt op a b out seed env i j := by
  have hfits' {x y : Expr α} {op : BinaryOp} :
      x.shape ≠ y.shape → op ≠ .mul → ¬ Size.Fits s → refused .misuse := fun _ _ => hfits
  unfold binaryRule
  cases op with
  | add => exact .pure hS ⟨⟨hseed, hss⟩, ⟨hseed, hss⟩, fun env i _ j _ => rfl⟩
  | sub =>
    refine .bind (grows_neg hS hseed) ?_
    rintro n₁ S₁ c h₁ ⟨hc, hcp, hcv⟩
    refine .pure h₁.graph ⟨⟨hseed.mono h₁.subset, hss⟩,
      ⟨hc, (congrArg Pattern.shape hcp).trans hss⟩, fun env i _ j _ => ?_⟩
    exact congrArg (Prod.mk _) (hcv env i j)
  | mul =>
    refine .bind (grows_binary_spreads hS hseed hb .mul (.inl hss) hsb (.inl hss) hfits') ?_
    rintro n₁ S₁ u h₁ ⟨hu, hus, huv⟩
    refine .bind (grows_binary_spreads h₁.graph (hseed.mono h₁.subset) (ha.mono h₁.subset) .mul
      (.inl hss) hsa (.inl hss) hfits') ?_
    rintro n₂ S₂ v h₂ ⟨hv, hvs, hvv⟩
    refine .pure h₂.graph ⟨⟨hu.mono h₂.subset, hus⟩, ⟨hv, hvs⟩, fun env i hi j hj => ?_⟩
    rw [huv env i hi j hj, hvv env i hi j hj, spreadEntry_of_shape env hss hi hj]
    rfl
  | div =>
    refine .bind (grows_binary_spreads hS hseed hb .div (.inl hss) hsb (.inl hss) hfits') ?_
    rintro n₁ S₁ u h₁ ⟨hu, hus, huv⟩
    refine .bind (grows_binary_same h₁.graph (hseed.mono h₁.subset) (hout.mono h₁.subset) .mul hss
      hso) ?_
    rintro n₂ S₂ m h₂ ⟨hm, hms, hmv⟩
    refine .bind (grows_binary_spreads h₂.graph hm (hb.mono (h₁.trans h₂).subset) .div (.inl hms)
      hsb (.inl hms) hfits') ?_
    rintro n₃ S₃ v h₃ ⟨hv, hvs, hvv⟩
    refine .bind (grows_neg h₃.graph hv) ?_
    rintro n₄ S₄ r h₄ ⟨hr, hrp, hrv⟩
    refine .pure h₄.graph ⟨⟨hu.mono (h₂.trans (h₃.trans h₄)).subset, hus⟩,
      ⟨hr, (congrArg Pattern.shape hrp).trans hvs⟩, fun env i hi j hj => ?_⟩
    rw [huv env i hi j hj, hrv, hvv env i hi j hj, spreadEntry_of_shape env hms hi hj,
      hmv env i hi j hj, spreadEntry_of_shape env hss hi hj]
    rfl

omit [ExactField α] in
/-- An operand of a binary node is a number if it is broadcast and has the shape of the result
otherwise. -/
theorem Expr.Aligned.Fits.operand_shapes {a : Aligned α} {op : BinaryOp} (h : a.Fits op) :
    (if a.broadcast = .left then a.left.pattern = .scalar else a.left.shape = a.pattern.shape) ∧
      if a.broadcast = .right then a.right.pattern = .scalar
      else a.right.shape = a.pattern.shape := by
  obtain ⟨x, y, broadcast⟩ := a
  cases broadcast with
  | none => exact ⟨rfl, congrArg Pattern.shape (show x.pattern = y.pattern from h).symm⟩
  | left => exact ⟨h.1, rfl⟩
  | right => exact ⟨rfl, h.1⟩

theorem grows_binaryAdjoint {a b out seed : Expr α} {broadcast : Broadcast} (hS : IsGraph n S)
    (ha : Usable S a) (hb : Usable S b) (hout : Usable S out) (hseed : Usable S seed)
    (op : BinaryOp) (hfit : (⟨a, b, broadcast⟩ : Aligned α).Fits op) {s : Nat × Nat}
    (hso : out.shape = s) (hss : seed.shape = s)
    (hps : (⟨a, b, broadcast⟩ : Aligned α).pattern.shape = s)
    (hfits : ¬ Size.Fits s → refused .misuse) :
    Grows refused n S (binaryAdjoint op broadcast a b out seed) fun S' cs =>
      Contributes S' a cs.1 (fun env tan => gridSum s fun i j =>
        (adjointAt op a b out seed env i j).1 * spreadTangent env tan a i j) ∧
      Contributes S' b cs.2 fun env tan => gridSum s fun i j =>
        (adjointAt op a b out seed env i j).2 * spreadTangent env tan b i j := by
  obtain ⟨hcomp, hbs⟩ := hfit.compatible
  obtain ⟨hsa, hsb⟩ : Spreads a s ∧ Spreads b s := by
    obtain ⟨hsa, hsb, -⟩ := hcomp.spreads
    rw [← hbs, hps] at hsa hsb
    exact ⟨hsa, hsb⟩
  obtain ⟨hxa, hxb⟩ := hfit.operand_shapes
  rw [hps] at hxa hxb
  rw [binaryAdjoint_eq]
  refine .bind (grows_binaryRule hS ha hb hout hseed op hsa hsb hso hss hfits) ?_
  rintro n₁ S₁ ⟨ca, cb⟩ h₁ ⟨⟨hca, hcas⟩, ⟨hcb, hcbs⟩, hval⟩
  refine .bind (grows_addUp h₁.graph hca hcas (broadcast = .left) hxa
    fun env i hi j hj => congrArg Prod.fst (hval env i hi j hj)) ?_
  intro n₂ S₂ ra h₂ hra
  refine .bind (grows_addUp h₂.graph (hcb.mono h₂.subset) hcbs (broadcast = .right) hxb
    fun env i hi j hj => congrArg Prod.snd (hval env i hi j hj)) ?_
  intro n₃ S₃ rb h₃ hrb
  exact .pure h₃.graph ⟨hra.mono h₃.subset, hrb⟩

/-! ## Every kind of node -/

section Nodes

variable {id : Nat} {p : Pattern} {seed : Expr α}

theorem adjoint_constant (hS : IsGraph n S) {nz : List α}
    (he : node id (.constant nz) [] p [] ∈ S) :
    Transposes S (node id (.constant nz) [] p []) [some seed] [] := by
  refine ⟨.nil, fun env tan => ?_⟩
  rw [resultPairing_single]
  refine (total_eq_zero fun i j _ => ?_).symm
  rw [hS.tangentEntry_constant he, mul_zero]

theorem adjoint_unary (hS : IsGraph n S) {op : UnaryOp} (he : node id (.unary op) [x] p [] ∈ S)
    (hseed : Usable S seed) (hp : seed.pattern = p)
    (hfits : ¬ Size.Fits p.shape → refused .misuse) :
    Grows refused n S (do
        let c ← unaryTangent op x (node id (.unary op) [x] p []) seed
        addAt [none] 0 (pure c) x.pattern) fun S' sens =>
      Transposes S' (node id (.unary op) [x] p []) [some seed] sens := by
  have hx : Usable S x := ⟨hS.closed _ he x (List.mem_singleton_self x),
    hS.proper _ he rfl x (List.mem_singleton_self x)⟩
  obtain hxp : x.pattern = p := by
    cases hS.wellFormed _ he with
    | unary _ pattern _ => exact pattern
  have hxs : x.shape = p.shape := congrArg Pattern.shape hxp
  refine .bind (grows_unaryTangent hS hx ⟨he, rfl⟩ hseed op hxs rfl (congrArg Pattern.shape hp)
    hfits) ?_
  rintro n₁ S₁ c h₁ ⟨hc, hcs, hcv⟩
  refine grows_addAt_single rfl (.pure h₁.graph ⟨hc, hcs.trans hxs.symm, fun env tan => ?_⟩)
  rw [resultPairing_single, hxp]
  refine total_congr fun i j hij => ?_
  obtain ⟨hi, hj⟩ := Pattern.lt_of_mem_triplets hij
  show entry env c i j * tangentEntry env tan x i j = _
  rw [hcv env i hi j hj (hS.entry_unary he hij), hS.tangentEntry_unary he hij]
  exact op.deriv_mul_comm _ _ _

theorem adjoint_binary (hS : IsGraph n S) {op : BinaryOp} {broadcast : Broadcast}
    (he : node id (.binary op broadcast) [x, y] p [] ∈ S) (hseed : Usable S seed)
    (hp : seed.pattern = p) (hfits : ¬ Size.Fits p.shape → refused .misuse) :
    Grows refused n S (do
        let (ca, cb) ←
          binaryAdjoint op broadcast x y (node id (.binary op broadcast) [x, y] p []) seed
        addAt (← addAt [none, none] 0 (pure ca) x.pattern) 1 (pure cb) y.pattern) fun S' sens =>
      Transposes S' (node id (.binary op broadcast) [x, y] p []) [some seed] sens := by
  have hx : Usable S x := ⟨hS.closed _ he x (by simp [deps]), hS.proper _ he rfl x (by simp [deps])⟩
  have hy : Usable S y := ⟨hS.closed _ he y (by simp [deps]), hS.proper _ he rfl y (by simp [deps])⟩
  obtain ⟨hfit, hps⟩ : (⟨x, y, broadcast⟩ : Aligned α).Fits op ∧
      (⟨x, y, broadcast⟩ : Aligned α).pattern = p := by
    cases hS.wellFormed _ he with
    | binary _ pattern fits => exact ⟨fits, pattern⟩
  refine .bind (grows_binaryAdjoint hS hx hy ⟨he, rfl⟩ hseed op hfit rfl
    (congrArg Pattern.shape hp) (congrArg Pattern.shape hps) hfits) ?_
  rintro n₁ S₁ ⟨ca, cb⟩ h₁ ⟨hca, hcb⟩
  refine grows_addAt_pair rfl (.pure h₁.graph hca)
    (fun n₂ S₂ h₂ => .pure h₂.graph (hcb.mono h₂.subset)) fun env tan => ?_
  rw [resultPairing_single, ← gridSum_add]
  have hzero (i j : Nat) (hij : (i, j) ∉ p.triplets) : entry env seed i j = 0 :=
    Pattern.entry_of_not_mem (hp ▸ hij)
  refine Eq.trans (gridSum_congr fun i _ j _ => ?_)
    (total_eq_gridSum fun i j hij => mul_eq_zero_of_left (hzero i j hij) _).symm
  unfold adjointAt
  by_cases hij : (i, j) ∈ p.triplets
  · rw [hS.entry_binary he hij, hS.tangentEntry_binary he hij]
    exact op.adjoint_mul _ _ _ _ _
  · rw [hzero i j hij, BinaryOp.adjoint_zero]
    simp only [zero_mul, add_zero]

theorem adjoint_innerProduct (hS : IsGraph n S) (he : node id .innerProduct [x, y] p [] ∈ S)
    (hseed : Usable S seed) (hp : seed.pattern = p) :
    Grows refused n S (do
        addAt (← addAt [none, none] 0 (binary .mul seed y) x.pattern) 1 (binary .mul seed x)
          y.pattern) fun S' sens =>
      Transposes S' (node id .innerProduct [x, y] p []) [some seed] sens := by
  have hx : Usable S x := ⟨hS.closed _ he x (by simp [deps]), hS.proper _ he rfl x (by simp [deps])⟩
  have hy : Usable S y := ⟨hS.closed _ he y (by simp [deps]), hS.proper _ he rfl y (by simp [deps])⟩
  obtain ⟨hxy, rfl⟩ : x.pattern = y.pattern ∧ p = .scalar := by
    cases hS.wellFormed _ he with
    | innerProduct _ patterns => exact ⟨patterns, rfl⟩
  have hss : seed.shape = (1, 1) := congrArg Pattern.shape hp
  -- what the multiple of one factor contributes to the other
  have grows_factor {n' : Nat} {S' : Set (Expr α)} (hext : Extends n S n' S') {d c : Expr α}
      (hc : Usable S c) (hdc : d.pattern = c.pattern) :
      Grows refused n' S' (binary .mul seed c) fun S'' r => Contributes S'' d r fun env tan =>
        entry env seed 0 0 *
          total d.pattern fun i j => entry env c i j * tangentEntry env tan d i j := by
    refine (grows_binary_spreads hext.graph (hseed.mono hext.subset) (hc.mono hext.subset) .mul
      (.inr hss) (.inl rfl) (.inr rfl) fun _ hne => absurd rfl hne).mono ?_
    rintro n'' S'' r - ⟨hr, hrs, hrv⟩
    have hds : d.shape = c.shape := congrArg Pattern.shape hdc
    refine ⟨hr, hrs.trans hds.symm, fun env tan => ?_⟩
    rw [mul_total]
    refine total_congr fun i j hij => ?_
    obtain ⟨hi, hj⟩ : i < c.shape.1 ∧ j < c.shape.2 := hds ▸ Pattern.lt_of_mem_triplets hij
    show entry env r i j * _ = _
    rw [hrv env i hi j hj, spreadEntry_of_shape env rfl hi hj, spreadEntry, if_pos hss]
    exact mul_assoc _ _ _
  refine grows_addAt_pair rfl (grows_factor (.refl hS) hy hxy)
    (fun n' S' hext => grows_factor hext hx hxy.symm) fun env tan => ?_
  rw [resultPairing_single]
  refine Eq.trans ?_ (total_scalar (α := α)).symm
  rw [hS.tangentEntry_innerProduct he, mul_add, ← hxy]
  congr 3
  funext i j
  exact mul_comm _ _

theorem adjoint_transpose (hS : IsGraph n S) {mapping : List Nat}
    (he : node id (.transpose mapping) [x] p [] ∈ S) (hseed : Usable S seed)
    (hp : seed.pattern = p) (hfits : ¬ Size.Fits x.shape → refused .misuse) :
    Grows refused n S (addAt [none] 0 seed.transpose x.pattern) fun S' sens =>
      Transposes S' (node id (.transpose mapping) [x] p []) [some seed] sens := by
  obtain rfl : x.pattern.transpose = p := by
    cases hS.wellFormed _ he with
    | transpose _ numbers pattern => exact pattern
  have hrows : x.pattern.transpose.nrows = x.pattern.ncols :=
    congrArg Prod.fst (Pattern.shape_transpose x.pattern)
  have hlarge (h : ¬ seed.pattern.nrows < Size.listLimit) : refused .misuse := by
    rw [hp, hrows] at h
    exact hfits fun hfit => h hfit.1
  refine grows_addAt_single rfl ((grows_transpose hS hseed hlarge).mono ?_)
  rw [hp]
  rintro n' S' r - ⟨hr, hrp, hrv⟩
  have hrs : r.shape = x.shape := by
    rw [shape, hrp, Pattern.shape_transpose, hrows]
    exact congrArg (·, x.pattern.ncols) (congrArg Prod.snd (Pattern.shape_transpose x.pattern))
  refine ⟨hr, hrs, fun env tan => ?_⟩
  have hentry (i j : Nat) : entry env r i j = entry env seed j i := by
    rw [entry_of_nonzeros hrp (hrv env)]
    split
    · rfl
    · rename_i hij
      refine (Pattern.entry_of_not_mem fun hji => hij ?_).symm
      exact Pattern.mem_triplets_transpose.2 (hp ▸ hji)
  rw [resultPairing_single]
  calc total x.pattern (fun i j => entry env r i j * tangentEntry env tan x i j)
      = total x.pattern fun i j => entry env seed j i * tangentEntry env tan x i j :=
        total_congr fun i j _ => congrArg (· * _) (hentry i j)
    _ = total x.pattern.transpose fun j i => entry env seed j i * tangentEntry env tan x i j :=
        (total_transpose _ _).symm
    _ = _ := total_congr fun j i _ => by rw [hS.tangentEntry_transpose he]

theorem adjoint_project (hS : IsGraph n S) {mapping : List (Option Nat)}
    (he : node id (.project mapping) [x] p [] ∈ S) (hseed : Usable S seed)
    (hp : seed.pattern = p) :
    Grows refused n S (addAt [none] 0 (seed.project x.pattern) x.pattern) fun S' sens =>
      Transposes S' (node id (.project mapping) [x] p []) [some seed] sens := by
  have hshape : x.shape = p.shape := by
    cases hS.wellFormed _ he with
    | project _ numbers shape => exact shape
  have hss : seed.shape = x.shape := (congrArg Pattern.shape hp).trans hshape.symm
  refine grows_addAt_single rfl
    ((grows_project hS hseed fun hne => absurd hss hne).mono ?_)
  rintro n' S' r - ⟨hr, hrp, hrv⟩
  refine ⟨hr, congrArg Pattern.shape hrp, fun env tan => ?_⟩
  have hseedz (i j : Nat) (hij : (i, j) ∉ p.triplets) : entry env seed i j = 0 :=
    Pattern.entry_of_not_mem (hp ▸ hij)
  rw [resultPairing_single]
  calc total x.pattern (fun i j => entry env r i j * tangentEntry env tan x i j)
      = total x.pattern fun i j => entry env seed i j * tangentEntry env tan x i j :=
        total_congr fun i j hij => by rw [entry_of_nonzeros hrp (hrv env), if_pos hij]
    _ = total p fun i j => entry env seed i j * tangentEntry env tan x i j :=
        total_eq_total hshape
          (fun i j hij => mul_eq_zero_of_right _ (tangentEntry_of_not_mem hij))
          fun i j hij => mul_eq_zero_of_left (hseedz i j hij) _
    _ = _ := total_congr fun i j hij => by rw [hS.tangentEntry_project he, if_pos hij]

theorem grows_accumulate_pieces (hS : IsGraph n S) {ds pieces : List (Expr α)}
    (hp : List.Forall₂ (fun d c => c.pattern = d.pattern) ds pieces) (hds : ∀ d ∈ ds, d ∈ S)
    (hus : ∀ c ∈ pieces, Usable S c) :
    Grows refused n S ((((ds.map fun _ => none).zip pieces).zip ds).mapM
        fun (((t, c), d) : (Option (Expr α) × Expr α) × Expr α) => do
          return some (← accumulate t c d.pattern)) fun S' cs =>
      OnPatterns S' (ds.map Expr.pattern) cs ∧ ∀ env tan : Nat → Nat → α,
        pairings ds cs env tan =
          (List.zipWith sumProducts (pieces.map (nonzeros env))
            (ds.map fun d => Dual.derivs (nonzeros (dualEnv env tan) d))).sum := by
  induction hp generalizing n S with
  | nil => exact .pure hS ⟨.nil, fun _ _ => rfl⟩
  | @cons d c ds pieces hdc _ ih =>
    rw [List.map_cons, List.zip_cons_cons, List.zip_cons_cons, List.mapM_cons]
    obtain ⟨hd, hds⟩ := List.forall_mem_cons.1 hds
    obtain ⟨hc, hus⟩ := List.forall_mem_cons.1 hus
    have hcontr : Contributes S d c fun env tan =>
        sumProducts (nonzeros env c) (Dual.derivs (nonzeros (dualEnv env tan) d)) := by
      refine ⟨hc, congrArg Pattern.shape hdc, fun env tan => ?_⟩
      rw [hS.derivs_nonzeros hd, ← hdc, pairing_some hS hc.1]
    refine .bind (.bind (grows_accumulate_none hS hcontr) fun n₁ S₁ x h₁ hx =>
      .pure (Q := fun S₁ r => ∃ x, r = some x ∧ Contributes S₁ d x _ ∧ x.pattern = d.pattern)
        h₁.graph ⟨x, rfl, hx⟩) ?_
    rintro n₁ S₁ _ h₁ ⟨x, rfl, hx, hxp⟩
    refine .bind (ih h₁.graph (fun d' hd' => h₁.subset (hds d' hd'))
      fun c' hc' => (hus c' hc').mono h₁.subset) ?_
    rintro n₂ S₂ cs h₂ ⟨hcs, hsum⟩
    refine .pure h₂.graph ⟨.cons (fun z hz => ?_) hcs, fun env tan => ?_⟩
    · obtain rfl := Option.some.inj hz
      exact ⟨hx.usable.mono h₂.subset, hxp⟩
    · rw [pairings, List.zipWith_cons_cons, List.sum_cons, ← pairings, hsum, hx.product]
      rfl

theorem adjoint_join (hS : IsGraph n S) {axis : Axis} {parts : List (Expr α)}
    (he : node id (.join axis) parts p [] ∈ S) (hseed : Usable S seed) (hp : seed.pattern = p)
    (hrows : ¬ (parts.map fun d => d.pattern.nrows).sum < Size.wordLimit → refused .misuse) :
    Grows refused n S (do
        let (rows, cols) ← blockOffsets (parts.map pattern)
        let pieces ← splitAlong axis seed rows cols
        let changed ← (((parts.map fun _ => none).zip pieces).zip parts).mapM
          fun ((t, c), d) => do return some (← accumulate t c d.pattern)
        return changed ++ (parts.map fun _ => none).drop changed.length) fun S' sens =>
      Transposes S' (node id (.join axis) parts p []) [some seed] sens := by
  have hjoins : Pattern.Joins axis (parts.map Expr.pattern) seed.pattern := by
    cases hS.wellFormed _ he with
    | join _ count joins => exact hp ▸ joins
  have hparts (d : Expr α) (hd : d ∈ parts) : d ∈ S := hS.closed _ he d hd
  refine .bind (grows_blockOffsets hS _ (by simpa [Function.comp_def] using hrows)) ?_
  rintro n₁ S₁ _ h₁ rfl
  refine .bind (grows_splitAlong h₁.graph (hseed.mono h₁.subset) hjoins) ?_
  rintro n₂ S₂ pieces h₂ ⟨hus, hpat, hval⟩
  have hpieces : List.Forall₂ (fun d c => c.pattern = d.pattern) parts pieces := by
    have heq : List.Forall₂ (· = ·) (pieces.map pattern) (parts.map pattern) :=
      hpat ▸ List.forall₂_refl _
    exact (List.forall₂_map_left_iff.1 (List.forall₂_map_right_iff.1 heq)).flip
  refine .bind (grows_accumulate_pieces h₂.graph hpieces
    (fun d hd => (h₁.trans h₂).subset (hparts d hd)) hus) ?_
  rintro n₃ S₃ cs h₃ ⟨hcs, hsum⟩
  have hdrop : (parts.map fun _ => (none : Option (Expr α))).drop cs.length = [] := by
    rw [List.drop_of_length_le]
    rw [List.length_map, ← hcs.length_eq, List.length_map]
  rw [hdrop, List.append_nil]
  refine .pure h₃.graph ⟨hcs, fun env tan => ?_⟩
  have hseedlen : (nonzeros env seed).length = ((parts.map pattern).map Pattern.nnz).sum :=
    (hS.length_nonzeros hseed.1).trans hjoins.nnz_eq
  have hlens : (pieces.map (nonzeros env)).map List.length =
      (parts.map fun d => Dual.derivs (nonzeros (dualEnv env tan) d)).map List.length := by
    rw [hval, map_length_chunks hseedlen.ge, List.map_map, List.map_map]
    refine List.map_congr_left fun d hd => ?_
    exact (hS.length_nonzeros (hparts d hd)).symm.trans (List.length_map _).symm
  have hflat : (parts.map fun d => Dual.derivs (nonzeros (dualEnv env tan) d)).flatten =
      Dual.derivs (nonzeros (dualEnv env tan) (node id (.join axis) parts p [])) := by
    rw [hS.nonzeros_join he, Dual.derivs, List.map_flatten, List.map_map]
    rfl
  rw [resultPairing_single]
  calc pairings parts cs env tan
      = _ := hsum env tan
    _ = _ := (sumProducts_flatten hlens).symm
    _ = sumProducts (nonzeros env seed)
          (Dual.derivs (nonzeros (dualEnv env tan) (node id (.join axis) parts p []))) := by
        rw [hflat, hval, flatten_chunks, List.take_of_length_le hseedlen.le]
    _ = sumProducts (nonzeros env seed)
          (seed.pattern.gather (tangentEntry env tan (node id (.join axis) parts p []))) := by
        rw [hS.derivs_nonzeros he, hp]
        rfl
    _ = pairing env seed.pattern (some seed) _ := (pairing_some hS hseed.1 _).symm
    _ = _ := by
        rw [hp]
        rfl

theorem grows_partAdjoints (hS : IsGraph n S) (ps : List Pattern)
    (hseeds : OnPatterns S ps seeds) :
    Grows refused n S ((seeds.zip ps).mapM fun (seed, p) =>
        match seed with
        | some s => s.project p
        | none => (zerosLike p : Build (Expr α))) fun S' parts =>
      List.Forall₂ (fun (cp : Option (Expr α) × Pattern) r => Usable S' r ∧ r.shape = cp.2.shape ∧
        ∀ env : Nat → Nat → α, entry env r = partialEntry env cp.1) (seeds.zip ps) parts := by
  refine Grows.mapM (P := fun S' (cp : Option (Expr α) × Pattern) r => Usable S' r ∧
    r.shape = cp.2.shape ∧ ∀ env : Nat → Nat → α, entry env r = partialEntry env cp.1) hS ?_ ?_
  · rintro ⟨c, p⟩ hcp n' S' hext
    cases c with
    | none =>
      refine (grows_zerosLike hext.graph p).mono ?_
      rintro n'' S'' r - ⟨hr, hrs, hrv⟩
      exact ⟨hr, hrs, fun env => funext fun i => funext fun j => hrv env i j⟩
    | some s =>
      obtain ⟨hs, hsp⟩ : Usable S s ∧ s.pattern = p := by
        obtain ⟨i, hi⟩ := List.mem_iff_getElem?.1 hcp
        obtain ⟨hc, hp⟩ := List.getElem?_zip_eq_some.1 hi
        obtain ⟨p', hp', hcs⟩ := exists_of_forall₂ hseeds hc
        obtain rfl := Option.some.inj (hp.symm.trans hp')
        exact hcs s rfl
      refine (grows_project hext.graph (hs.mono hext.subset)
        fun hne => absurd (congrArg Pattern.shape hsp) hne).mono ?_
      rintro n'' S'' r - ⟨hr, hrp, hrv⟩
      refine ⟨hr, congrArg Pattern.shape hrp, fun env => funext fun i => funext fun j => ?_⟩
      rw [entry_of_nonzeros hrp (hrv env)]
      split
      · rfl
      · rename_i hij
        exact (Pattern.entry_of_not_mem (hsp ▸ hij)).symm
  · exact fun S' S'' cp r hsub hr => ⟨hr.1.mono hsub, hr.2⟩

theorem resultPairing_eq (hS : IsGraph n S) (he : e ∈ S) (hseeds : OnPatterns S' e.patterns seeds)
    (env tan : Nat → Nat → α) :
    e.resultPairing seeds env tan =
      (List.zipWith sumProducts
        (List.zipWith (fun p c => p.gather (partialEntry env c)) e.patterns seeds)
        ((values (dualEnv env tan) e).map Dual.derivs)).sum := by
  have hlen : e.patterns.length = seeds.length := hseeds.length_eq
  have hvalues : (values (dualEnv env tan) e).length = seeds.length := by
    rw [← hlen]
    simpa using congrArg List.length
      (hS.length_values he : (values (dualEnv env tan) e).map List.length = _)
  refine congrArg List.sum (List.ext_getElem (by simp [hlen, hvalues]) fun i h₁ _ => ?_)
  have hi : i < e.patterns.length := by
    rw [hlen]
    simpa using h₁
  have hp : sourcePattern (e, i) = e.patterns[i] := by
    rw [sourcePattern, List.getElem?_eq_getElem hi]
    rfl
  have hiv : i < (values (dualEnv env tan) e).length := hvalues.trans hlen.symm ▸ hi
  have hv : result (dualEnv env tan) (e, i) = (values (dualEnv env tan) e)[i] := by
    rw [result, List.getElem?_eq_getElem hiv]
    rfl
  simp only [List.getElem_map, List.getElem_zipIdx, List.getElem_zipWith, Nat.zero_add]
  rw [← hp, ← hv, hS.derivs_result he hi, sumProducts_gather]
  rfl

theorem adjoint_split (hS : IsGraph n S) {axis : Axis} {offsets : List Nat} {ps : List Pattern}
    (he : node id (.split axis offsets) [x] p ps ∈ S) (hseeds : OnPatterns S (p :: ps) seeds)
    (hrows : ¬ ((p :: ps).map Pattern.nrows).sum < Size.wordLimit → refused .misuse) :
    Grows refused n S (do
        let joined ← splitAdjoint (node id (.split axis offsets) [x] p ps) axis seeds
        addAt [none] 0 (pure joined) x.pattern) fun S' sens =>
      Transposes S' (node id (.split axis offsets) [x] p ps) seeds sens := by
  have hx : x ∈ S := hS.closed _ he x (List.mem_singleton_self x)
  obtain ⟨hcount, hjoins⟩ : ps ≠ [] ∧ Pattern.Joins axis (p :: ps) x.pattern := by
    cases hS.wellFormed _ he with
    | split _ count table joins => exact ⟨count, joins⟩
  have hlen : (p :: ps).length = seeds.length := hseeds.length_eq
  unfold splitAdjoint
  rw [bind_assoc]
  refine .bind (grows_partAdjoints hS (p :: ps) hseeds) ?_
  intro n₁ S₁ parts h₁ hparts
  have hshapes : parts.map Expr.shape = (p :: ps).map Pattern.shape := by
    have hzip := congrArg (List.map Pattern.shape) (List.map_snd_zip hlen.le)
    rw [List.map_map] at hzip
    exact (map_eq_of_forall₂ hparts fun cp r hr => hr.2.1.symm).symm.trans hzip
  have hentries (env : Nat → Nat → α) : parts.map (entry env) = seeds.map (partialEntry env) := by
    have hzip := congrArg (List.map (partialEntry env)) (List.map_fst_zip hlen.ge)
    rw [List.map_map] at hzip
    exact (map_eq_of_forall₂ hparts fun cp r hr => (hr.2.2 env).symm).symm.trans hzip
  have hus (r : Expr α) (hr : r ∈ parts) : Usable S₁ r := by
    obtain ⟨i, hi⟩ := List.mem_iff_getElem?.1 hr
    obtain ⟨cp, -, hcp⟩ := exists_of_forall₂ hparts hi
    exact hcp.1
  have hne : parts ≠ [] := by
    rintro rfl
    simp at hshapes
  refine .bind (grows_joinAlong h₁.graph hus hne hjoins hshapes hrows) ?_
  rintro n₂ S₂ r h₂ ⟨hr, hrjoins, hrv⟩
  have hparted : (parts.map pattern).map Pattern.shape = (p :: ps).map Pattern.shape :=
    List.map_map.trans hshapes
  have hrs : r.shape = x.shape := hrjoins.shape_eq hjoins (by simpa using hne) hparted
  refine grows_addAt_single rfl (.pure h₂.graph ⟨hr, hrs, fun env tan => ?_⟩)
  have hjoined : x.pattern.gather (entry env r) =
      (List.zipWith (fun p c => p.gather (partialEntry env c)) (p :: ps) seeds).flatten := by
    have hlens : (parts.map (nonzeros env)).map List.length =
        (parts.map pattern).map Pattern.nnz := by
      rw [List.map_map, List.map_map]
      exact List.map_congr_left fun part hpart => h₁.graph.length_nonzeros (hus part hpart).1
    have hgather := hjoins.gather_entry_flatten hrjoins hparted.symm hlens
    rw [← hrv, List.zip_map', List.zipWith_map_right] at hgather
    have hmap := congrArg (List.zipWith Pattern.gather (p :: ps)) (hentries env)
    rw [List.zipWith_map_right, List.zipWith_map_right] at hmap
    exact hgather.trans (congrArg List.flatten hmap)
  have hdual : x.pattern.gather (tangentEntry env tan x) =
      ((values (dualEnv env tan) (node id (.split axis offsets) [x] p ps)).map
        Dual.derivs).flatten := by
    have hall : (nonzeros (dualEnv env tan) x).length ≤ ((p :: ps).map Pattern.nnz).sum :=
      ((hS.length_nonzeros hx).trans hjoins.nnz_eq).le
    rw [← hS.derivs_nonzeros hx, hS.values_split he, ← List.take_of_length_le hall,
      ← flatten_chunks, Dual.derivs, List.map_flatten, flatten_chunks,
      List.take_of_length_le hall]
    rfl
  have hlens : (List.zipWith (fun p c => p.gather (partialEntry env c)) (p :: ps) seeds).map
      List.length = ((values (dualEnv env tan) (node id (.split axis offsets) [x] p ps)).map
        Dual.derivs).map List.length := by
    have hparts : (List.zipWith (fun p c => p.gather (partialEntry env c)) (p :: ps) seeds).map
        List.length = ((p :: ps).zip seeds).map fun pc => pc.1.nnz := by
      rw [List.map_zipWith, ← List.map_uncurry_zip_eq_zipWith]
      exact List.map_congr_left fun pc _ => Pattern.length_gather _
    have hvalues : ((values (dualEnv env tan) (node id (.split axis offsets) [x] p ps)).map
        Dual.derivs).map List.length = (p :: ps).map Pattern.nnz := by
      rw [List.map_map]
      refine Eq.trans (List.map_congr_left fun v _ => ?_) (hS.length_values he)
      exact List.length_map _
    have hzip := congrArg (List.map Pattern.nnz) (List.map_fst_zip hlen.le)
    rw [List.map_map] at hzip
    exact hparts.trans (hzip.trans hvalues.symm)
  calc pairing env x.pattern (some r) (tangentEntry env tan x)
      = sumProducts (x.pattern.gather (entry env r)) (x.pattern.gather (tangentEntry env tan x)) :=
        (sumProducts_gather _ _ _).symm
    _ = _ := congrArg₂ sumProducts hjoined hdual
    _ = _ := sumProducts_flatten hlens
    _ = _ := (resultPairing_eq hS he hseeds env tan).symm

end Nodes

/-! ## The adjoints of a node -/

theorem transposes_none (h : ∀ c ∈ seeds, c = none) :
    Transposes S e seeds (e.deps.map fun _ => none) := by
  refine ⟨?_, fun env tan => ?_⟩
  · refine List.forall₂_map_left_iff.2 (List.forall₂_map_right_iff.2 ?_)
    exact List.forall₂_same.2 fun d _ x hx => absurd hx (by simp)
  · have hoperands : pairings e.deps (e.deps.map fun _ => none) env tan = 0 := by
      rw [pairings, List.zipWith_map_right, List.zipWith_self]
      refine List.sum_eq_zero fun v hv => ?_
      obtain ⟨d, -, rfl⟩ := List.mem_map.1 hv
      exact pairing_none
    have hresults : e.resultPairing seeds env tan = 0 := by
      refine List.sum_eq_zero fun v hv => ?_
      obtain ⟨⟨c, i⟩, hci, rfl⟩ := List.mem_map.1 hv
      obtain rfl := h c (List.fst_mem_of_mem_zipIdx hci)
      exact pairing_none
    rw [hoperands, hresults]

/-- The contributions of a result that is the only one of its node: by the kind of the node. -/
theorem grows_adjointOf (hS : IsGraph n S) (he : e ∈ S) (ho : e.isOperation = true)
    (hsplit : e.op.isSplit = false) {seed : Expr α} (hseed : Usable S seed)
    (hp : seed.pattern = e.pattern) (hfits : ¬ Size.Fits e.shape → refused .misuse)
    (hoperands : ∀ d ∈ e.deps, ¬ Size.Fits d.shape → refused .misuse)
    (hdeps : ¬ (e.deps.map fun d => d.pattern.nrows).sum < Size.wordLimit → refused .misuse) :
    Grows refused n S (e.adjointOf [e] seed (e.deps.map fun _ => none)) fun S' sens =>
      Transposes S' e [some seed] sens := by
  cases hS.wellFormed e he with
  | symbol => cases ho
  | output => cases ho
  | split => cases hsplit
  | constant id length => exact .pure hS (adjoint_constant hS he)
  | unary id pattern dense => exact adjoint_unary hS he hseed hp hfits
  | binary id pattern fits => exact adjoint_binary hS he hseed hp hfits
  | innerProduct id patterns => exact adjoint_innerProduct hS he hseed hp
  | transpose id numbers pattern =>
    exact adjoint_transpose hS he hseed hp (hoperands _ (List.mem_singleton_self _))
  | project id numbers shape => exact adjoint_project hS he hseed hp
  | join id count joins => exact adjoint_join hS he hseed hp hdeps

theorem adjoint_eq (hsplit : e.op.isSplit = false) (outputs : List (Expr α))
    (seed : Option (Expr α)) (sens : Adjoints α) :
    e.adjoint outputs [seed] sens =
      match seed with
      | some s => do return ([none], ← e.adjointOf outputs s sens)
      | none => return ([none], sens) := by
  obtain ⟨id, op, deps, p, ps⟩ := e
  cases op with
  | split => cases hsplit
  | _ => cases seed <;> rfl

/-- Adjoints of the results, on their patterns, amount to adjoints of the operands. -/
theorem grows_adjoint (hS : IsGraph n S) (he : e ∈ S) (ho : e.isOperation = true)
    {outputs : List (Expr α)} (houtputs : e.op.isSplit = false → outputs = [e])
    (hseeds : OnPatterns S e.patterns seeds) (hfits : ¬ Size.Fits e.shape → refused .misuse)
    (hoperands : ∀ d ∈ e.deps, ¬ Size.Fits d.shape → refused .misuse)
    (hdeps : ¬ (e.deps.map fun d => d.pattern.nrows).sum < Size.wordLimit → refused .misuse)
    (hresults : ¬ (e.patterns.map Pattern.nrows).sum < Size.wordLimit → refused .misuse) :
    Grows refused n S (e.adjoint outputs seeds (e.deps.map fun _ => none)) fun S' r =>
      Transposes S' e seeds r.2 := by
  cases hsplit : e.op.isSplit with
  | true =>
    cases hS.wellFormed e he with
    | split id count table joins =>
      unfold adjoint
      simp only [Expr.op]
      split
      · rename_i hnone
        refine .pure hS (transposes_none fun c hc => ?_)
        exact Option.isNone_iff_eq_none.1 (List.all_eq_true.1 hnone c hc)
      · have h (left : Adjoints α) : Grows refused n S _
            fun S' (r : Adjoints α × Adjoints α) => Transposes S' _ seeds r.2 :=
          .bind (adjoint_split hS he hseeds hresults) fun n₁ S₁ sens h₁ hsens =>
            .pure (r := (left, sens)) h₁.graph hsens
        simp only [bind_assoc] at h
        exact h _
    | _ => cases hsplit
  | false =>
    have hp := (hS.wellFormed e he).patterns_eq hsplit
    rw [hp] at hseeds
    obtain ⟨seed, rfl, hseed⟩ := exists_singleton_of_forall₂ hseeds
    rw [adjoint_eq hsplit, houtputs hsplit]
    cases seed with
    | none => exact .pure hS (transposes_none (by simp))
    | some s =>
      obtain ⟨hs, hsp⟩ := hseed s rfl
      refine .bind (grows_adjointOf hS he ho hsplit hs hsp hfits hoperands hdeps) ?_
      exact fun n₁ S₁ sens h₁ hsens => .pure h₁.graph hsens

end DiffGraph
