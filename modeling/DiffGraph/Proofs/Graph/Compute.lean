import Mathlib
import DiffGraph.Expr.Evaluate
import DiffGraph.Proofs.Graph.Node

/-!
# The results of one node

`compute` gives the results of a node from the buffers of its operands as plain
list functions, for elements that are plain values. On a well-formed node and
buffers of the right lengths this is what evaluation returns
(`WellFormed.evaluate_eq`).
-/

namespace DiffGraph

namespace Element

variable {α T : Type} [Element Id α T]

def ofNumber (x : α) : T :=
  Id.run (Element.ofScalar x)

def apply₁ (op : UnaryOp) (x : T) : T :=
  Id.run (Element.unary (m := Id) op x)

def apply₂ (op : BinaryOp) (x y : T) : T :=
  Id.run (Element.binary (m := Id) op x y)

variable [Scalar α]

/-- The element of a buffer with the given number; zero behind its end. -/
def nth (xs : List T) (k : Nat) : T :=
  xs[k]?.getD (ofNumber (0 : α))

theorem getElem?_eq_nth {xs : List T} {k : Nat} (h : k < xs.length) : xs[k]? = some (nth xs k) := by
  rw [nth, List.getElem?_eq_getElem h]
  rfl

theorem map_nth_range (xs : List T) {n : Nat} (h : xs.length = n) :
    (List.range n).map (nth xs) = xs := by
  refine List.ext_getElem? fun k => ?_
  rcases Nat.lt_or_ge k n with hk | hk
  · rw [List.getElem?_map, List.getElem?_range hk, Option.map_some, getElem?_eq_nth (h ▸ hk)]
  · simp [hk, h]

end Element

open Element

theorem mapM_eq_some_map {β γ : Type} {f : β → Option γ} {g : β → γ} {xs : List β}
    (h : ∀ x ∈ xs, f x = some (g x)) : xs.mapM f = some (xs.map g) := by
  induction xs with
  | nil => rfl
  | cons x xs ih =>
    rw [List.mapM_cons, h x (by simp), ih fun y hy => h y (by simp [hy])]
    rfl

namespace Expr

variable {α T : Type} [Scalar α] [Element Id α T]

/-- The results of an operation for the buffers of its operands. -/
def compute (e : Expr α) (args : List (List T)) : List (List T) :=
  let x := args[0]?.getD []
  let y := args[1]?.getD []
  match e.op with
  | .symbol _ | .output _ => []
  | .constant nz => [nz.map ofNumber]
  | .unary op => [x.map (apply₁ op)]
  | .binary op broadcast =>
    [(List.range e.nnz).map fun k =>
      apply₂ op (nth x (broadcast.operands k).1) (nth y (broadcast.operands k).2)]
  | .innerProduct =>
    [[(x.zip y).foldl (fun total (a, b) => apply₂ .add total (apply₂ .mul a b))
      (ofNumber (0 : α))]]
  | .transpose mapping => [mapping.map (nth x)]
  | .project mapping => [mapping.map fun k => k.elim (ofNumber (0 : α)) (nth x)]
  | .join _ => [args.flatten]
  | .split _ offsets => (Offsets.blocks offsets).map fun (a, b) => slice x a b

theorem fitted_of_length {n : Nat} {xs : List T} (h : xs.length = n) :
    (fitted n xs : Id (List T)) = pure xs := by
  subst h
  simp [fitted]

theorem spread_false {n : Nat} {xs : List T} (h : xs.length = n) :
    spread false n xs = some xs := by
  subst h
  simp [spread]

theorem spread_true {n : Nat} {xs : List T} (h : xs.length = 1) :
    spread true n xs = some (List.replicate n (nth xs 0)) := by
  obtain ⟨x, rfl⟩ := List.length_eq_one_iff.1 h
  cases n <;> simp [spread, nth]

theorem pairwise_eq {op : BinaryOp} {n : Nat} {xs ys : List T} (hx : xs.length = n)
    (hy : ys.length = n) :
    (pairwise op xs ys : Id (List T)) =
      pure ((List.range n).map fun k => apply₂ op (nth xs k) (nth ys k)) := by
  have hzip : xs.zip ys = (List.range n).map fun k => (nth xs k, nth ys k) := by
    conv_lhs => rw [← map_nth_range xs hx, ← map_nth_range ys hy]
    rw [List.zip_map']
  unfold pairwise
  rw [hzip]
  refine (List.mapM_pure (m := Id)).trans (congrArg pure ?_)
  rw [List.map_map]
  rfl

theorem picked_eq {mapping : List Nat} {xs : List T} (h : ∀ k ∈ mapping, k < xs.length) :
    picked mapping xs = some (mapping.map (nth xs)) :=
  mapM_eq_some_map fun k hk => by simpa using getElem?_eq_nth (h k hk)

theorem pickedWhere_eq {mapping : List (Option Nat)} {xs : List T}
    (h : ∀ k, some k ∈ mapping → k < xs.length) :
    pickedWhere mapping xs = some (mapping.map fun k => k.map (nth xs)) := by
  refine mapM_eq_some_map fun k hk => ?_
  cases k with
  | none => rfl
  | some k => simp [getElem?_eq_nth (h k hk)]

theorem mapM_elim_zeroElement (ys : List (Option T)) :
    (ys.mapM (fun y => (y.elim zeroElement pure : Id T)) : Id (List T)) =
      pure (ys.map (·.getD (ofNumber (0 : α)))) := by
  have helim : (fun y : Option T => (y.elim zeroElement pure : Id T)) =
      fun y => pure (y.getD (ofNumber (0 : α))) := by
    funext y
    cases y <;> rfl
  rw [helim]
  exact List.mapM_pure

theorem dotProduct_eq (xs ys : List T) :
    (dotProduct xs ys : Id T) = pure ((xs.zip ys).foldl
      (fun total (a, b) => apply₂ .add total (apply₂ .mul a b)) (ofNumber (0 : α))) :=
  List.idRun_foldlM

theorem splitResults_eq {sizes : List Nat} {x : List T} {args : List (List T)}
    {want : Nat → Bool} (h : sizes.sum = x.length) :
    splitResults (Offsets.ofSizes sizes) sizes.length (x :: args) want =
      some (((Offsets.blocks (Offsets.ofSizes sizes)).map fun (a, b) => slice x a b).zipIdx.map
        fun (r, i) => if want i then some r else none) := by
  set blocks := Offsets.blocks (Offsets.ofSizes sizes) with hblocks
  have hlen : blocks.length = sizes.length := Offsets.length_blocks_sizesFrom 0 sizes
  have cut (i : Nat) (hi : i ∈ List.range sizes.length) :
      (if want i then do
          return some (← slice? x (← (Offsets.ofSizes sizes)[i]?)
            (← (Offsets.ofSizes sizes)[i + 1]?))
        else some none : Option (Option (List T))) =
      some (if want i then (blocks[i]?).map fun (a, b) => slice x a b else none) := by
    obtain ⟨n, hn⟩ : ∃ n, sizes[i]? = some n := ⟨_, List.getElem?_eq_getElem (List.mem_range.1 hi)⟩
    have hb := Offsets.getElem?_blocks_ofSizes hn
    have hfits := h ▸ Offsets.sum_take_add_le hn
    have hpair : (Offsets.ofSizes sizes)[i]? = some (sizes.take i).sum ∧
        (Offsets.ofSizes sizes)[i + 1]? = some ((sizes.take i).sum + n) := by
      rw [Offsets.blocks, List.getElem?_zip_eq_some] at hb
      simpa using hb
    rw [hblocks, hb, hpair.1, hpair.2]
    split
    · simp [slice?, hfits]
    · rfl
  refine (mapM_eq_some_map cut).trans (congrArg some (List.ext_getElem? fun i => ?_))
  rcases Nat.lt_or_ge i sizes.length with hi | hi
  · have : blocks[i]? = some blocks[i] := List.getElem?_eq_getElem (hlen ▸ hi)
    simp [List.getElem?_range hi, this]
  · simp [hi, hlen]

theorem evaluate_of_firstResult {e : Expr α} (hs : e.op.isSplit = false) {args : List (List T)}
    {r : List T} (h : firstResult (m := Id) e.op e.nnz args = some (pure r)) (want : Nat → Bool) :
    (e.evaluate args want : ExceptT GraphError Id _) =
      pure (([r].zipIdx).map fun (r, i) => if want i then some r else none) := by
  unfold evaluate
  split
  · rename_i hop
    simp [hop, Op.isSplit] at hs
  · rw [h]
    cases hw : want 0 <;> simp [hw]

theorem firstResult_binary (op : BinaryOp) (broadcast : Broadcast) {n : Nat} {xs ys us vs : List T}
    (hx : spread (broadcast == .left) n xs = some us)
    (hy : spread (broadcast == .right) n ys = some vs) :
    firstResult (m := Id) (.binary op broadcast) n [xs, ys] = some (pairwise op us vs) := by
  simp [firstResult, hx, hy]

theorem firstResult_of_fits {op : BinaryOp} {broadcast : Broadcast} {x y : Expr α}
    {xs ys : List T} (h : (⟨x, y, broadcast⟩ : Aligned α).Fits op) (hx : xs.length = x.nnz)
    (hy : ys.length = y.nnz) :
    firstResult (m := Id) (.binary op broadcast) (⟨x, y, broadcast⟩ : Aligned α).pattern.nnz
        [xs, ys] =
      some (pure ((List.range (⟨x, y, broadcast⟩ : Aligned α).pattern.nnz).map fun k =>
        apply₂ op (nth xs (broadcast.operands k).1) (nth ys (broadcast.operands k).2))) := by
  have at_replicate {n k : Nat} (v : T) (hk : k ∈ List.range n) :
      nth (α := α) (List.replicate n v) k = v := by
    simp [nth, List.mem_range.1 hk]
  cases broadcast with
  | none =>
    have hyn : y.nnz = x.nnz := congrArg Pattern.nnz (h : x.pattern = y.pattern).symm
    refine (firstResult_binary op .none (spread_false hx) (spread_false (hy.trans hyn))).trans ?_
    rw [pairwise_eq hx (hy.trans hyn)]
    rfl
  | left =>
    have hx1 : xs.length = 1 := hx.trans (congrArg Pattern.nnz h.1)
    refine (firstResult_binary op .left (spread_true hx1) (spread_false hy)).trans ?_
    rw [pairwise_eq List.length_replicate hy]
    refine congrArg (some ∘ pure) (List.map_congr_left fun k hk => ?_)
    rw [at_replicate _ hk]
    rfl
  | right =>
    have hy1 : ys.length = 1 := hy.trans (congrArg Pattern.nnz h.1)
    refine (firstResult_binary op .right (spread_false hx) (spread_true hy1)).trans ?_
    rw [pairwise_eq hx List.length_replicate]
    refine congrArg (some ∘ pure) (List.map_congr_left fun k hk => ?_)
    rw [at_replicate _ hk]
    rfl

/-- Evaluating a well-formed operation on buffers of the right lengths. -/
theorem WellFormed.evaluate_eq {e : Expr α} (h : e.WellFormed) (ho : e.isOperation = true)
    {args : List (List T)} (hargs : args.map List.length = e.deps.map nnz) (want : Nat → Bool) :
    (e.evaluate args want : ExceptT GraphError Id _) =
      pure ((compute e args).zipIdx.map fun (r, i) => if want i then some r else none) := by
  cases h with
  | symbol => simp [isOperation, op, Op.isReference] at ho
  | output => simp [isOperation, op, Op.isReference] at ho
  | @constant id nz p length =>
    have hmap : (nz.mapM Element.ofScalar : Id (List T)) = pure (nz.map ofNumber) := List.mapM_pure
    refine evaluate_of_firstResult rfl ?_ want
    show some ((nz.mapM Element.ofScalar : Id (List T)) >>= fitted p.nnz) = _
    rw [hmap, pure_bind, fitted_of_length (by rw [List.length_map, length])]
  | @unary id op x p pattern dense =>
    subst pattern
    obtain ⟨v, rfl, hv⟩ : ∃ v, args = [v] ∧ v.length = x.nnz := by
      simpa [deps, List.map_eq_singleton_iff] using hargs
    have hmap : ((v.take x.nnz).mapM (Element.unary op) : Id (List T)) =
        pure (v.map (apply₁ op)) := by
      rw [List.take_of_length_le hv.le]
      exact List.mapM_pure
    refine evaluate_of_firstResult rfl ?_ want
    show some (((v.take x.nnz).mapM (Element.unary op) : Id (List T)) >>= fitted x.nnz) = _
    rw [hmap, pure_bind, fitted_of_length (by rw [List.length_map, hv])]
    rfl
  | @binary id op broadcast x y p pattern fits =>
    subst pattern
    obtain ⟨v, w, rfl, hv, hw⟩ : ∃ v w, args = [v, w] ∧ v.length = x.nnz ∧ w.length = y.nnz := by
      simpa [deps, List.map_eq_cons_iff] using hargs
    refine evaluate_of_firstResult rfl ?_ want
    exact firstResult_of_fits fits hv hw
  | @innerProduct id x y patterns =>
    obtain ⟨v, w, rfl, hv, hw⟩ : ∃ v w, args = [v, w] ∧ v.length = x.nnz ∧ w.length = y.nnz := by
      simpa [deps, List.map_eq_cons_iff] using hargs
    refine evaluate_of_firstResult rfl ?_ want
    show some ((dotProduct v w : Id T) >>= fun total => pure [total]) = _
    rw [dotProduct_eq]
    rfl
  | @transpose id x mapping p numbers pattern =>
    subst pattern numbers
    obtain ⟨v, rfl, hv⟩ : ∃ v, args = [v] ∧ v.length = x.nnz := by
      simpa [deps, List.map_eq_singleton_iff] using hargs
    have hpicked : picked (x.pattern.transposition.take x.pattern.transpose.nnz) v =
        some (x.pattern.transposition.map (nth v)) := by
      rw [List.take_of_length_le (Pattern.length_transposition _).le]
      exact picked_eq fun k hk => hv ▸ Pattern.lt_nnz_of_mem_transposition hk
    refine evaluate_of_firstResult rfl ?_ want
    show (picked (x.pattern.transposition.take x.pattern.transpose.nnz) v).bind
      (fun y => some (fitted x.pattern.transpose.nnz y : Id (List T))) = _
    rw [hpicked, Option.bind_some, fitted_of_length (by simp)]
    rfl
  | @project id x mapping p numbers shape =>
    subst numbers
    obtain ⟨v, rfl, hv⟩ : ∃ v, args = [v] ∧ v.length = x.nnz := by
      simpa [deps, List.map_eq_singleton_iff] using hargs
    have hpicked : pickedWhere ((x.pattern.projection p).take p.nnz) v =
        some ((x.pattern.projection p).map fun k => k.map (nth v)) := by
      rw [List.take_of_length_le (Pattern.length_projection _ _).le]
      refine pickedWhere_eq fun k hk => ?_
      obtain ⟨e, -, he⟩ := List.mem_map.1 hk
      exact hv ▸ Pattern.lt_nnz_of_nzIndex he
    refine evaluate_of_firstResult rfl ?_ want
    show (pickedWhere ((x.pattern.projection p).take p.nnz) v).bind (fun ys =>
      some ((ys.mapM fun y => (y.elim zeroElement pure : Id T)) >>= fitted p.nnz)) = _
    rw [hpicked, Option.bind_some, mapM_elim_zeroElement, pure_bind, fitted_of_length (by simp),
      List.map_map]
    refine congrArg (some ∘ pure) (List.map_congr_left fun k _ => ?_)
    cases k <;> rfl
  | @join id axis parts p count joins =>
    have hlen : args.flatten.length = p.nnz := by
      rw [List.length_flatten, hargs, joins.nnz_eq, List.map_map]
      rfl
    refine evaluate_of_firstResult rfl ?_ want
    show (if p.nnz < args.flatten.length then none else some (fitted p.nnz args.flatten)) = _
    rw [if_neg (by omega), fitted_of_length hlen]
  | @split id axis offsets x p ps count table joins =>
    subst table
    obtain ⟨v, rfl, hv⟩ : ∃ v, args = [v] ∧ v.length = x.nnz := by
      simpa [deps, List.map_eq_singleton_iff] using hargs
    have hsizes : ((p :: ps).map Pattern.nnz).sum = v.length := joins.nnz_eq.symm.trans hv.symm
    have := @splitResults_eq T _ v [] want hsizes
    rw [List.length_map] at this
    dsimp only [evaluate, op, resultCount, patterns]
    rw [this]
    rfl

theorem WellFormed.map_length_compute {e : Expr α} (h : e.WellFormed) (ho : e.isOperation = true)
    {args : List (List T)} (hargs : args.map List.length = e.deps.map nnz) :
    (compute e args).map List.length = e.patterns.map Pattern.nnz := by
  cases h with
  | symbol => simp [isOperation, op, Op.isReference] at ho
  | output => simp [isOperation, op, Op.isReference] at ho
  | constant id length => simpa [compute, op, patterns] using length
  | @unary id op x p pattern dense =>
    obtain ⟨v, rfl, hv⟩ : ∃ v, args = [v] ∧ v.length = x.nnz := by
      simpa [deps, List.map_eq_singleton_iff] using hargs
    simpa [compute, Expr.op, patterns, ← pattern, nnz] using hv
  | join id count joins =>
    simp only [compute, Expr.op, patterns, List.map_cons, List.map_nil, List.length_flatten]
    rw [hargs, joins.nnz_eq, List.map_map]
    rfl
  | @split id axis offsets x p ps count table joins =>
    subst table
    obtain ⟨v, rfl, hv⟩ : ∃ v, args = [v] ∧ v.length = x.nnz := by
      simpa [deps, List.map_eq_singleton_iff] using hargs
    have hsum : ((p :: ps).map Pattern.nnz).sum ≤ v.length :=
      (joins.nnz_eq.symm.trans hv.symm).le
    exact (congrArg (List.map List.length) (map_slice_blocks v 0 _)).trans (map_length_chunks hsum)
  | transpose id numbers pattern =>
    subst numbers pattern
    simp [compute, op, patterns]
  | project id numbers shape =>
    subst numbers
    simp [compute, op, patterns]
  | _ => simp [compute, op, patterns, nnz, pattern]

end Expr

end DiffGraph
