import Mathlib
import DiffGraph.Proofs.Derivative.Tangent

/-!
# Rebuilt nodes

`rebuild` applies the operation of a node to other operands of the same patterns.
What it builds, however it is simplified on the way, has the values of the node
itself on the new operands (`Expr.onOperands`): one lemma for each kind of node
(`Mirrors`), and the projection onto the patterns of the results
(`grows_rebuild`).
-/

namespace DiffGraph

open Element Expr

variable {α : Type} [Scalar α] {refused : GraphError → Prop} {m n : Nat}
  {G S : Set (Expr α)} {e x y : Expr α}

/-! ## Copies of results -/

/-- `D` has the shape of the result `s`, and in exact arithmetic its entries at the places of its
pattern. -/
def Mirrors (s : Expr α × Nat) (D : Expr α) : Prop :=
  D.shape = (sourcePattern s).shape ∧ (Exact α → ∀ env : Nat → Nat → α, ∀ r c,
    (r, c) ∈ (sourcePattern s).triplets → entry env D r c = sourceEntry env s r c)

theorem mirrors_zero {D : Expr α} (hshape : D.shape = e.shape)
    (h : Exact α → ∀ env : Nat → Nat → α, ∀ r c, (r, c) ∈ e.pattern.triplets →
      entry env D r c = entry env e r c) : Mirrors (e, 0) D := by
  refine ⟨by rw [sourcePattern_zero]; exact hshape, fun hex env r c hrc => ?_⟩
  rw [sourcePattern_zero] at hrc
  rw [h hex env r c hrc, entry, nonzeros_eq_result, sourceEntry, sourcePattern_zero]

theorem mirrors_of_result {s : Expr α × Nat} {D : Expr α} (hp : D.pattern = sourcePattern s)
    (h : Exact α → ∀ env : Nat → Nat → α, nonzeros env D = result env s) : Mirrors s D := by
  refine ⟨congrArg Pattern.shape hp, fun hex env r c _ => ?_⟩
  rw [entry, hp, h hex, sourceEntry]

theorem Mirrors.nonzeros_eq {s : Expr α × Nat} {D D' : Expr α} (h : Mirrors s D) (hex : Exact α)
    {env : Nat → Nat → α} (hval : nonzeros env D' = (sourcePattern s).gather (entry env D))
    (hlen : (result env s).length = (sourcePattern s).nnz) :
    nonzeros env D' = result env s := by
  rw [hval, ← Pattern.gather_entry hlen]
  exact Pattern.gather_congr fun r c hrc => h.2 hex env r c hrc

/-! ## Every kind of node -/

section Nodes

variable {id : Nat} {p : Pattern}

theorem mirrors_constant (hG : IsGraph m G) (hS : IsGraph n S) {nz : List α}
    (he : node id (.constant nz) [] p [] ∈ G) :
    Grows refused n S (liftM (constant nz p)) fun S' r =>
      Usable S' r ∧ Mirrors (node id (.constant nz) [] p [], 0) r := by
  have hlen : nz.length = p.nnz := by
    cases hG.wellFormed _ he with
    | constant _ length => exact length
  refine (grows_constant hS hlen).mono ?_
  rintro n' S' r - ⟨hr, hp, hval⟩
  have hsp := sourcePattern_zero (node id (.constant nz) [] p [])
  refine ⟨hr, mirrors_of_result (hp.trans hsp.symm) fun _ env => ?_⟩
  rw [hval, ← nonzeros_eq_result, hG.nonzeros_constant he]
  exact (List.map_id nz).symm

theorem mirrors_unary (hG : IsGraph m G) (hS : IsGraph n S) {op : UnaryOp}
    (he : node id (.unary op) [x] p [] ∈ G) (hx : Usable S x)
    (hfits : ¬ Size.Fits p.shape → refused .misuse) :
    Grows refused n S (unary op x) fun S' r =>
      Usable S' r ∧ Mirrors (node id (.unary op) [x] p [], 0) r := by
  obtain rfl : x.pattern = p := by
    cases hG.wellFormed _ he with
    | unary _ pattern _ => exact pattern
  refine (grows_unary hS hx fun _ => hfits).mono ?_
  rintro n' S' r - ⟨hr, hp, hval⟩
  refine ⟨hr, mirrors_zero ?_ fun hex env i j hij => ?_⟩
  · rw [shape, hp, unaryPattern]
    split
    · rfl
    · exact Pattern.shape_dense _ _
  · obtain ⟨hi, hj⟩ := Pattern.lt_of_mem_triplets hij
    rw [hval hex env i hi j hj, hG.entry_unary he hij]
    rfl

theorem mirrors_binary (hG : IsGraph m G) (hS : IsGraph n S) {op : BinaryOp}
    {broadcast : Broadcast} (he : node id (.binary op broadcast) [x, y] p [] ∈ G)
    (hx : Usable S x) (hy : Usable S y) (hfits : ¬ Size.Fits p.shape → refused .misuse) :
    Grows refused n S (binary op x y) fun S' r =>
      Usable S' r ∧ Mirrors (node id (.binary op broadcast) [x, y] p [], 0) r := by
  obtain ⟨hcomp, hps⟩ : Compatible x y ∧ p.shape = binaryShape x y := by
    cases hG.wellFormed _ he with
    | binary _ pattern fits => exact ⟨fits.compatible.1, pattern ▸ fits.compatible.2⟩
  refine (grows_binary hS hx hy op (fun hne => absurd hcomp hne) fun _ _ => hps ▸ hfits).mono ?_
  rintro n' S' r - ⟨hr, hshape, hval⟩
  have hrp : r.pattern.shape = p.shape := hshape.trans hps.symm
  refine ⟨hr, mirrors_zero hrp fun hex env i j hij => ?_⟩
  obtain ⟨hi, hj⟩ : i < p.shape.1 ∧ j < p.shape.2 := Pattern.lt_of_mem_triplets hij
  rw [← hrp] at hi hj
  rw [hval hex env i hi j hj, hG.entry_binary he hij]
  rfl

theorem mirrors_innerProduct (hG : IsGraph m G) (hS : IsGraph n S)
    (he : node id .innerProduct [x, y] p [] ∈ G) (hx : Usable S x) (hy : Usable S y) :
    Grows refused n S (dot x y) fun S' r =>
      Usable S' r ∧ Mirrors (node id .innerProduct [x, y] p [], 0) r := by
  obtain ⟨hxy, rfl⟩ : x.pattern = y.pattern ∧ p = .scalar := by
    cases hG.wellFormed _ he with
    | innerProduct _ patterns => exact ⟨patterns, rfl⟩
  refine (grows_dot hS hx hy fun hne => absurd (congrArg Pattern.shape hxy) hne).mono ?_
  rintro n' S' r hext ⟨hr, hrp, hval⟩
  have hsp := sourcePattern_zero (node id .innerProduct [x, y] .scalar [])
  refine ⟨hr, mirrors_of_result (hrp.trans hsp.symm) fun hex env => ?_⟩
  obtain ⟨u, hu, hval⟩ := hval hex
  rw [← hxy] at hu
  obtain rfl : x.pattern = u := Except.ok.inj ((Pattern.union_self _).symm.trans hu)
  rw [hval, ← nonzeros_eq_result, hG.nonzeros_innerProduct he, hS.nonzeros_eq_gather hx.1,
    hS.nonzeros_eq_gather hy.1, ← hxy, zip_gather, List.foldl_map, total, Pattern.gather,
    List.foldl_map]
  rfl

theorem mirrors_transpose (hG : IsGraph m G) (hS : IsGraph n S) {mapping : List Nat}
    (he : node id (.transpose mapping) [x] p [] ∈ G) (hx : Usable S x)
    (hfits : ¬ Size.Fits p.shape → refused .misuse) :
    Grows refused n S x.transpose fun S' r =>
      Usable S' r ∧ Mirrors (node id (.transpose mapping) [x] p [], 0) r := by
  obtain rfl : x.pattern.transpose = p := by
    cases hG.wellFormed _ he with
    | transpose _ numbers pattern => exact pattern
  have hrows : x.pattern.transpose.shape.2 = x.pattern.nrows := by
    rw [Pattern.shape_transpose]
  refine (grows_transpose hS hx fun h => hfits fun hfit => h (hrows ▸ hfit.1)).mono ?_
  rintro n' S' r - ⟨hr, hrp, hval⟩
  refine ⟨hr, mirrors_zero (congrArg Pattern.shape hrp) fun hex env i j hij => ?_⟩
  rw [entry_of_nonzeros hrp (hval env), hG.entry_transpose he]
  exact if_pos hij

theorem mirrors_project (hG : IsGraph m G) (hS : IsGraph n S) {mapping : List (Option Nat)}
    (he : node id (.project mapping) [x] p [] ∈ G) (hx : Usable S x) :
    Grows refused n S (x.project p) fun S' r =>
      Usable S' r ∧ Mirrors (node id (.project mapping) [x] p [], 0) r := by
  have hshape : x.shape = p.shape := by
    cases hG.wellFormed _ he with
    | project _ numbers shape => exact shape
  refine (grows_project hS hx fun hne => absurd hshape hne).mono ?_
  rintro n' S' r - ⟨hr, hrp, hval⟩
  refine ⟨hr, mirrors_zero (congrArg Pattern.shape hrp) fun hex env i j hij => ?_⟩
  rw [entry_of_nonzeros hrp (hval env), hG.entry_project he]

theorem mirrors_join (hG : IsGraph m G) (hS : IsGraph n S) {axis : Axis} {parts : List (Expr α)}
    (he : node id (.join axis) parts p [] ∈ G) (hparts : ∀ d ∈ parts, Usable S d)
    (hrows : ¬ (parts.map fun d => d.pattern.nrows).sum < Size.wordLimit → refused .misuse) :
    Grows refused n S (joinAlong axis parts) fun S' r =>
      Usable S' r ∧ Mirrors (node id (.join axis) parts p [], 0) r := by
  obtain ⟨hcount, hjoins⟩ : 2 ≤ parts.length ∧ Pattern.Joins axis (parts.map Expr.pattern) p := by
    cases hG.wellFormed _ he with
    | join _ count joins => exact ⟨count, joins⟩
  have hne : parts ≠ [] := by
    rintro rfl
    simp at hcount
  refine (grows_joinAlong hS hparts hne hjoins List.map_map.symm
    (by simpa [Function.comp_def] using hrows)).mono ?_
  rintro n' S' r - ⟨hr, hrj, hval⟩
  have hrp : r.pattern = p := hrj.unique hjoins (by simpa using hne)
  have hsp := sourcePattern_zero (node id (.join axis) parts p [])
  refine ⟨hr, mirrors_of_result (hrp.trans hsp.symm) fun hex env => ?_⟩
  rw [hval, ← nonzeros_eq_result, hG.nonzeros_join he]

theorem mirrors_split (hG : IsGraph m G) (hS : IsGraph n S) {axis : Axis} {offsets : List Nat}
    {ps : List Pattern} (he : node id (.split axis offsets) [x] p ps ∈ G) (hx : Usable S x)
    (hrows : ¬ ((p :: ps).map Pattern.nrows).sum < Size.wordLimit → refused .misuse) :
    Grows refused n S (splitLike (node id (.split axis offsets) [x] p ps) axis x) fun S' rs =>
      rs.length = (p :: ps).length ∧ ∀ (i : Nat) r, rs[i]? = some r →
        Usable S' r ∧ Mirrors (node id (.split axis offsets) [x] p ps, i) r := by
  have hjoins : Pattern.Joins axis (p :: ps) x.pattern := by
    cases hG.wellFormed _ he with
    | split _ count table joins => exact joins
  unfold splitLike
  refine .bind (grows_blockOffsets hS (p :: ps) hrows) ?_
  rintro n₁ S₁ _ h₁ rfl
  refine (grows_splitAlong h₁.graph (hx.mono h₁.subset) hjoins).mono ?_
  rintro n₂ S₂ rs - ⟨hus, hpat, hval⟩
  refine ⟨by simpa using congrArg List.length hpat, fun i r hr => ?_⟩
  have hrp : (p :: ps)[i]? = some r.pattern := by
    rw [← hpat, List.getElem?_map, hr]
    rfl
  have hi : i < (node id (.split axis offsets) [x] p ps).resultCount :=
    (List.getElem?_eq_some_iff.1 hrp).1
  have hsp : sourcePattern (node id (.split axis offsets) [x] p ps, i) = r.pattern := by
    unfold sourcePattern
    exact congrArg (·.getD default) hrp
  refine ⟨hus r (List.mem_of_getElem? hr), mirrors_of_result hsp.symm fun _ env => ?_⟩
  have hri : (rs.map (nonzeros env))[i]? = some (nonzeros env r) := by
    rw [List.getElem?_map, hr]
    rfl
  rw [hval env, ← hG.values_split he, hG.getElem?_values he hi] at hri
  exact (Option.some.inj hri).symm

end Nodes

/-! ## The results of a node -/

/-- The results of `rebuild` before they are brought onto the patterns of the node's results. -/
def Expr.rebuildDraft {α : Type} [Scalar α] (e : Expr α) (args : List (Expr α)) :
    Build (List (Expr α)) := do
  match e.op with
  | .symbol _ | .output _ =>
    match args with
    | x :: _ => pure [x]
    | [] => throw (.argumentCount 1 0)
  | .constant nz => do pure [← constant nz e.pattern]
  | .unary op => do pure [← unary op (← operand args 0)]
  | .binary op _ => do pure [← binary op (← operand args 0) (← operand args 1)]
  | .innerProduct => do pure [← dot (← operand args 0) (← operand args 1)]
  | .transpose _ => do pure [← (← operand args 0).transpose]
  | .project _ => do pure [← (← operand args 0).project e.pattern]
  | .join axis => do pure [← joinAlong axis args]
  | .split axis _ => e.splitLike axis (← operand args 0)

theorem rebuild_eq (ho : e.isOperation = true)
    (args : List (Expr α)) :
    e.rebuild args = (do
      let args ← e.alignArgs args
      let results ← e.rebuildDraft args
      e.alignResults results) := by
  obtain ⟨id, op, deps, p, ps⟩ := e
  cases op with
  | symbol => cases ho
  | output => cases ho
  | _ => simp only [rebuild, rebuildDraft, Expr.op, bind_assoc, pure_bind]

theorem grows_rebuildDraft (hG : IsGraph m G) (he : e ∈ G) (ho : e.isOperation = true)
    (hS : IsGraph n S) (hargs : ∀ d ∈ e.deps, Usable S d)
    (hfits : ¬ Size.Fits e.shape → refused .misuse)
    (hdeps : ¬ (e.deps.map fun d => d.pattern.nrows).sum < Size.wordLimit → refused .misuse)
    (hresults : ¬ (e.patterns.map Pattern.nrows).sum < Size.wordLimit → refused .misuse) :
    Grows refused n S (e.rebuildDraft e.deps) fun S' rs => rs.length = e.resultCount ∧
      ∀ (i : Nat) r, rs[i]? = some r → Usable S' r ∧ Mirrors (e, i) r := by
  cases hG.wellFormed e he with
  | symbol => cases ho
  | output => cases ho
  | constant id length => exact grows_single rfl (mirrors_constant hG hS he)
  | unary id pattern dense =>
    exact grows_single rfl (mirrors_unary hG hS he (hargs _ (by simp [deps])) hfits)
  | binary id pattern fits =>
    exact grows_single rfl (mirrors_binary hG hS he (hargs _ (by simp [deps]))
      (hargs _ (by simp [deps])) hfits)
  | innerProduct id patterns =>
    exact grows_single rfl (mirrors_innerProduct hG hS he (hargs _ (by simp [deps]))
      (hargs _ (by simp [deps])))
  | transpose id numbers pattern =>
    exact grows_single rfl (mirrors_transpose hG hS he (hargs _ (by simp [deps])) hfits)
  | project id numbers shape =>
    exact grows_single rfl (mirrors_project hG hS he (hargs _ (by simp [deps])))
  | join id count joins => exact grows_single rfl (mirrors_join hG hS he hargs hdeps)
  | split id count table joins => exact mirrors_split hG hS he (hargs _ (by simp [deps])) hresults

/-! ## Other operands -/

namespace Expr

omit [Scalar α]

def onOperands (e : Expr α) (id : Nat) (args : List (Expr α)) : Expr α :=
  .node id e.op args e.pattern (e.patterns.drop 1)

theorem patterns_onOperands (e : Expr α) (id : Nat) (args : List (Expr α)) :
    (e.onOperands id args).patterns = e.patterns := by
  cases e
  rfl

/-- Whether operands are in line with each other depends on their patterns only. -/
theorem Aligned.Fits.congr {op : BinaryOp} {broadcast : Broadcast} {a b : Expr α}
    (h : (⟨x, y, broadcast⟩ : Aligned α).Fits op) (ha : a.pattern = x.pattern)
    (hb : b.pattern = y.pattern) : (⟨a, b, broadcast⟩ : Aligned α).Fits op ∧
      (⟨a, b, broadcast⟩ : Aligned α).pattern = (⟨x, y, broadcast⟩ : Aligned α).pattern := by
  cases broadcast with
  | none => exact ⟨ha.trans (h.trans hb.symm), ha⟩
  | left =>
    unfold Aligned.Fits shape at h ⊢
    exact ⟨by simpa [ha, hb] using h, hb⟩
  | right =>
    unfold Aligned.Fits shape at h ⊢
    exact ⟨by simpa [ha, hb] using h, ha⟩

theorem WellFormed.onOperands (h : e.WellFormed) (ho : e.isOperation = true) (id : Nat)
    {args : List (Expr α)} (hargs : args.map pattern = e.deps.map pattern) :
    (e.onOperands id args).WellFormed := by
  cases h with
  | symbol => cases ho
  | output => cases ho
  | constant _ length =>
    obtain rfl : args = [] := List.map_eq_nil_iff.1 hargs
    exact .constant id length
  | unary _ pattern dense =>
    obtain ⟨a, rfl, ha⟩ := List.map_eq_singleton_iff.1 hargs
    exact .unary id (ha.trans pattern) dense
  | binary _ pattern fits =>
    obtain ⟨a, rest, rfl, ha, hrest⟩ := List.map_eq_cons_iff.1 hargs
    obtain ⟨b, rfl, hb⟩ := List.map_eq_singleton_iff.1 hrest
    obtain ⟨hfits, hpattern⟩ := fits.congr ha hb
    exact .binary id (hpattern.trans pattern) hfits
  | innerProduct _ patterns =>
    obtain ⟨a, rest, rfl, ha, hrest⟩ := List.map_eq_cons_iff.1 hargs
    obtain ⟨b, rfl, hb⟩ := List.map_eq_singleton_iff.1 hrest
    exact .innerProduct id (ha.trans (patterns.trans hb.symm))
  | transpose _ numbers pattern =>
    obtain ⟨a, rfl, ha⟩ := List.map_eq_singleton_iff.1 hargs
    exact .transpose id (ha ▸ numbers) (ha ▸ pattern)
  | project _ numbers shape =>
    obtain ⟨a, rfl, ha⟩ := List.map_eq_singleton_iff.1 hargs
    exact .project id (ha ▸ numbers) ((congrArg Pattern.shape ha).trans shape)
  | join _ count joins =>
    have hlen := congrArg List.length hargs
    rw [List.length_map, List.length_map] at hlen
    exact .join id (hlen ▸ count) (hargs ▸ joins)
  | split _ count table joins =>
    obtain ⟨a, rfl, ha⟩ := List.map_eq_singleton_iff.1 hargs
    exact .split id count table (ha ▸ joins)

end Expr

/-- A rebuilt node depends on its own operands only through their patterns. -/
theorem rebuild_onOperands (ho : e.isOperation = true) (id : Nat) {args : List (Expr α)}
    (hargs : args.map Expr.pattern = e.deps.map Expr.pattern) :
    e.rebuild args = (e.onOperands id args).rebuild args := by
  have hlen : args.length = e.deps.length := by simpa using congrArg List.length hargs
  have halign : e.alignArgs args = (e.onOperands id args).alignArgs args := by
    rw [alignArgs_eq hlen, ← hargs]
    exact (alignArgs_eq (e := e.onOperands id args) rfl).symm
  rw [rebuild_eq ho, rebuild_eq (e := e.onOperands id args) ho, halign]
  cases e
  rfl

theorem alignArgs_deps (e : Expr α) : e.alignArgs e.deps = pure e.deps := by
  rw [alignArgs_eq rfl]
  generalize e.deps = xs
  induction xs with
  | nil => rfl
  | cons x xs ih =>
    have hself : x.project x.pattern = pure x := by
      unfold project onto
      simp [shape]
      rfl
    rw [List.map_cons, List.zip_cons_cons, List.mapM_cons, ih]
    dsimp only
    rw [hself]
    rfl

/-- Copies of the results, brought onto their patterns, have their buffers. -/
theorem grows_mirrors (hG : IsGraph m G) (he : e ∈ G) (hS : IsGraph n S) {rs : List (Expr α)}
    (hlen : rs.length = e.resultCount)
    (hrs : ∀ (i : Nat) r, rs[i]? = some r → Usable S r ∧ Mirrors (e, i) r) :
    Grows refused n S (e.alignResults rs) fun S' rs' =>
      rs'.length = e.resultCount ∧ ∀ (i : Nat) r, rs'[i]? = some r → Usable S' r ∧
        r.pattern = sourcePattern (e, i) ∧ (Exact α → ∀ env : Nat → Nat → α,
          nonzeros env r = result env (e, i)) := by
  refine (grows_alignedResults hS hlen fun i r hr => ⟨(hrs i r hr).1, (hrs i r hr).2.1⟩).mono ?_
  rintro n' S' rs' - ⟨hlen', hall⟩
  refine ⟨hlen', fun i x hx => ?_⟩
  obtain ⟨r, hr, hus, hp, hval⟩ := hall i x hx
  have hi : i < e.resultCount := hlen ▸ (List.getElem?_eq_some_iff.1 hr).1
  exact ⟨hus, hp, fun hex env =>
    (hrs i r hr).2.nonzeros_eq hex (hval env) (hG.length_result he hi)⟩

section OnOperands

variable {args : List (Expr α)}

omit [Scalar α] in
theorem sourcePattern_onOperands (e : Expr α) (id : Nat) (args : List (Expr α)) (i : Nat) :
    sourcePattern (e.onOperands id args, i) = sourcePattern (e, i) := by
  rw [sourcePattern, sourcePattern, patterns_onOperands]

omit [Scalar α] in
/-- The node on other operands as a node of a larger graph, which `rebuild` never adds. -/
theorem isGraph_onOperands (hS : IsGraph n S) (hwf : e.WellFormed) (ho : e.isOperation = true)
    (hargs : ∀ a ∈ args, Usable S a) (hp : args.map Expr.pattern = e.deps.map Expr.pattern) :
    IsGraph (n + 1) (insert (e.onOperands n args) S) :=
  hS.insert rfl (hwf.onOperands ho n hp) (fun d hd => (hargs d hd).1)
    fun _ d hd => (hargs d hd).2

theorem rebuildDraft_onOperands (e : Expr α) (id : Nat) (args : List (Expr α)) :
    (e.onOperands id args).rebuildDraft args = e.rebuildDraft args := by
  cases e
  rfl

theorem grows_draft (hS : IsGraph n S) (hwf : e.WellFormed) (ho : e.isOperation = true)
    (hargs : ∀ a ∈ args, Usable S a) (hp : args.map Expr.pattern = e.deps.map Expr.pattern)
    (hfits : ¬ Size.Fits e.shape → refused .misuse)
    (hdeps : ¬ (e.deps.map fun d => d.pattern.nrows).sum < Size.wordLimit → refused .misuse)
    (hresults : ¬ (e.patterns.map Pattern.nrows).sum < Size.wordLimit → refused .misuse) :
    Grows refused n S (e.rebuildDraft args) fun S' rs => rs.length = e.resultCount ∧
      ∀ (i : Nat) r, rs[i]? = some r → Usable S' r ∧ Mirrors (e.onOperands n args, i) r := by
  have hpatterns : (e.onOperands n args).patterns = e.patterns := patterns_onOperands e n args
  have hrows : (args.map fun d => d.pattern.nrows) = e.deps.map fun d => d.pattern.nrows := by
    simpa [Function.comp_def] using congrArg (List.map Pattern.nrows) hp
  have hcount : (e.onOperands n args).resultCount = e.resultCount := congrArg List.length hpatterns
  rw [← rebuildDraft_onOperands e n, ← hcount]
  exact grows_rebuildDraft (isGraph_onOperands hS hwf ho hargs hp) (Set.mem_insert _ _) ho hS hargs
    hfits (hrows ▸ hdeps) (hpatterns ▸ hresults)

/-- A node is rebuilt on operands with the patterns of its own: the results have their patterns,
and in exact arithmetic the values of its operation on the new operands. -/
theorem grows_rebuild (hS : IsGraph n S) (hwf : e.WellFormed) (ho : e.isOperation = true)
    (hargs : ∀ a ∈ args, Usable S a) (hp : args.map Expr.pattern = e.deps.map Expr.pattern)
    (hfits : ¬ Size.Fits e.shape → refused .misuse)
    (hdeps : ¬ (e.deps.map fun d => d.pattern.nrows).sum < Size.wordLimit → refused .misuse)
    (hresults : ¬ (e.patterns.map Pattern.nrows).sum < Size.wordLimit → refused .misuse) :
    Grows refused n S (e.rebuild args) fun S' rs => rs.length = e.resultCount ∧
      ∀ (i : Nat) r, rs[i]? = some r → Usable S' r ∧ r.pattern = sourcePattern (e, i) ∧
        (Exact α → ∀ env : Nat → Nat → α,
          (compute e (args.map (nonzeros env)))[i]? = some (nonzeros env r)) := by
  set copy := e.onOperands n args with hcopy
  have hG := isGraph_onOperands hS hwf ho hargs hp
  have hmem : copy ∈ insert copy S := Set.mem_insert _ _
  have hcount : copy.resultCount = e.resultCount := congrArg List.length (patterns_onOperands ..)
  have halign : copy.alignArgs args = pure args := alignArgs_deps copy
  rw [rebuild_onOperands ho n hp, rebuild_eq (e := copy) ho, halign, pure_bind,
    rebuildDraft_onOperands]
  refine .bind (grows_draft hS hwf ho hargs hp hfits hdeps hresults) ?_
  rintro n₁ S₁ rs h₁ ⟨hlen, hrs⟩
  refine (grows_mirrors hG hmem h₁.graph (hlen.trans hcount.symm) hrs).mono ?_
  rintro n₂ S₂ rs' - ⟨hlen', hrs'⟩
  refine ⟨hlen'.trans hcount, fun i r hr => ?_⟩
  obtain ⟨hus, hrp, hval⟩ := hrs' i r hr
  refine ⟨hus, hrp.trans (sourcePattern_onOperands e n args i), fun hex env => ?_⟩
  have hi : i < copy.resultCount := hlen' ▸ (List.getElem?_eq_some_iff.1 hr).1
  have hvalues : values env copy = compute e (args.map (nonzeros env)) := by
    rw [hG.values_eq_compute hmem ho]
    cases e
    rfl
  rw [← hvalues, hG.getElem?_values hmem hi, hval hex]

end OnOperands

end DiffGraph
