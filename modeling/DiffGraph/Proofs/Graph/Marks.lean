import Mathlib
import DiffGraph.Expr.Taint
import DiffGraph.Proofs.Graph.Value

/-!
# Marks as elements

Marks are elements on which every operation joins the marks of its operands. A
forward dependency sweep over a node computes just that
(`WellFormed.sweepTaint_eq`), so dependency sweeps are evaluations and obey all
laws of evaluations.
-/

namespace DiffGraph

open Element

/-- Marks can be absent, and they can be joined. -/
class Marking (M : Type) where
  none : M
  join : M → M → M

instance : Marking Taint := ⟨0, (· ||| ·)⟩

/-- Marks in the place of elements over the numbers `α`. -/
def Marked (_α M : Type) : Type := M

/-- Numbers carry no marks, and operations join the marks of their operands. -/
instance {α M : Type} [Marking M] : Element Id α (Marked α M) where
  ofScalar _ := (Marking.none : M)
  unary _ x := x
  binary _ x y := (Marking.join x y : M)

theorem taint_ext {t u : Taint}
    (h : ∀ b, t.toNat.testBit b = true ↔ u.toNat.testBit b = true) : t = u :=
  UInt64.toNat_inj.1 (Nat.eq_of_testBit_eq fun b => Bool.eq_iff_iff.2 (h b))

theorem testBit_foldl_or {b : Nat} (ts : List Taint) (t : Taint) :
    (ts.foldl (· ||| ·) t).toNat.testBit b = true ↔
      t.toNat.testBit b = true ∨ ∃ u ∈ ts, u.toNat.testBit b = true := by
  induction ts generalizing t with
  | nil => simp
  | cons u ts ih =>
    rw [List.foldl_cons, ih, UInt64.toNat_or, Nat.testBit_or, Bool.or_eq_true,
      List.exists_mem_cons_iff, or_assoc]

namespace Expr

variable {α : Type}

/-- The marks at the far ends of the wires to a nonzero, together. -/
def gatherMarks (args : List (List Taint)) (w : List Wire) : Taint :=
  w.foldl (fun acc (i, k) => acc ||| ((args[i]?.bind (·[k]?)).getD 0)) 0

theorem collectTaint_eq (args : List (List Taint)) {ws : List (List Wire)} {n : Nat}
    (h : ws.length = n) :
    collectTaint (args.map List.toArray).toArray ws (List.replicate n 0) =
      ws.map (gatherMarks args) := by
  have hread (i k : Nat) : ((args.map List.toArray).toArray[i]?.bind (·[k]?)).getD 0 =
      (args[i]?.bind (·[k]?)).getD 0 := by
    rw [List.getElem?_toArray, List.getElem?_map]
    cases args[i]? with
    | none => rfl
    | some xs => simp
  subst h
  induction ws with
  | nil => rfl
  | cons w ws ih =>
    rw [List.length_cons, List.replicate_succ, collectTaint, ih, List.map_cons]
    simp only [hread, gatherMarks]

/-- The wires to the nonzeros of a node gather what the node computes. -/
structure Gathers [Scalar α] (e : Expr α) (args : List (List Taint)) (ws : List (List Wire)) :
    Prop where
  wires : wires .forward e.op (args.map List.length) e.nnz = some ws
  length : ws.length = e.nnz
  compute : compute (T := Marked α Taint) e args = [ws.map (gatherMarks args)]

theorem sweepTaint_eq_of_gathers [Scalar α] {e : Expr α} (hs : e.op.isSplit = false)
    (hr : e.op.isReference = false) (hp : e.patterns = [e.pattern]) {args : List (List Taint)}
    {ws : List (List Wire)} (h : e.Gathers args ws) (want : Nat → Bool) :
    e.sweepTaint .forward args
        (e.patterns.zipIdx.map fun (p, i) =>
          if want i then some (List.replicate p.nnz 0) else none) =
      .ok (args, (compute (T := Marked α Taint) e args).zipIdx.map fun (r, i) =>
        if want i then some r else none) := by
  obtain ⟨hws, hlen, hcompute⟩ := h
  have hright : ((compute (T := Marked α Taint) e args).zipIdx.map fun (r, i) =>
      if want i then some r else none) =
        [if want 0 then some (ws.map (gatherMarks args)) else none] := by
    rw [hcompute]
    rfl
  rw [hp]
  refine Eq.trans ?_ (congrArg (fun rs => Except.ok (args, rs)) hright.symm)
  simp only [List.zipIdx_singleton, List.map_cons, List.map_nil]
  unfold sweepTaint
  cases want 0 with
  | false =>
    have hresults : resultWires .forward e.op (args.map List.length) [none] = some [[]] := by
      unfold resultWires
      split <;> simp_all [Op.isReference, Op.isSplit]
    simp [hresults]
  | true =>
    have hresults : resultWires .forward e.op (args.map List.length) [some e.nnz] = some [ws] := by
      unfold resultWires
      split <;> simp_all [Op.isReference, Op.isSplit]
    have hsize : (some (List.replicate e.pattern.nnz (0 : Taint))).map List.length =
        some e.nnz := by
      simp [nnz]
    simp only [if_true, List.map_cons, List.map_nil, hsize, hresults, List.zipWith_cons_cons,
      List.zipWith_nil_left, Option.map_some]
    have hn : e.pattern.nnz = e.nnz := rfl
    rw [hn, collectTaint_eq args hlen]

def markAt (args : List (List Taint)) (i k : Nat) : Taint :=
  (args[i]?.bind (·[k]?)).getD 0

theorem gatherMarks_nil (args : List (List Taint)) : gatherMarks args [] = 0 := rfl

theorem gatherMarks_singleton (args : List (List Taint)) (i k : Nat) :
    gatherMarks args [(i, k)] = markAt args i k :=
  UInt64.zero_or

theorem gatherMarks_pair (args : List (List Taint)) (i k j l : Nat) :
    gatherMarks args [(i, k), (j, l)] = markAt args i k ||| markAt args j l :=
  congrArg (· ||| markAt args j l) UInt64.zero_or

theorem gatherMarks_eq_foldl (args : List (List Taint)) (w : List Wire) :
    gatherMarks args w = (w.map fun (i, k) => markAt args i k).foldl (· ||| ·) 0 := by
  rw [List.foldl_map]
  rfl

theorem map_markAt_range {args : List (List Taint)} {i : Nat} {xs : List Taint}
    (h : args[i]? = some xs) : (List.range xs.length).map (markAt args i) = xs := by
  refine List.ext_getElem (by simp) fun k hk hk' => ?_
  simp [markAt, h, hk']

theorem map_markAt_zipIdx (args : List (List Taint)) :
    (((args.map List.length).zipIdx.flatMap fun (n, i) => (List.range n).map (i, ·)).map
      fun (i, k) => markAt args i k) = args.flatten := by
  have hpart (x : List Taint × Nat) (hx : x ∈ args.zipIdx) :
      (List.range x.1.length).map (markAt args x.2) = x.1 :=
    map_markAt_range (List.mem_zipIdx_iff_getElem?.1 hx)
  rw [List.zipIdx_map, List.flatMap_map, List.map_flatMap]
  simp only [List.map_map]
  refine (List.flatMap_congr hpart).trans ?_
  rw [List.flatMap_def, List.zipIdx_map_fst]

theorem foldl_join_zip {xs ys : List Taint} (h : xs.length = ys.length) (t : Taint) :
    (xs.zip ys).foldl (fun total (x, y) => total ||| (x ||| y)) t =
      ys.foldl (· ||| ·) (xs.foldl (· ||| ·) t) := by
  induction xs generalizing ys t with
  | nil =>
    obtain rfl := List.length_eq_zero_iff.1 h.symm
    rfl
  | cons x xs ih =>
    cases ys with
    | nil => cases h
    | cons y ys =>
      have hswap (zs : List Taint) (u v : Taint) :
          zs.foldl (· ||| ·) (u ||| v) = zs.foldl (· ||| ·) u ||| v := by
        induction zs generalizing u with
        | nil => rfl
        | cons z zs ih =>
          rw [List.foldl_cons, List.foldl_cons, UInt64.or_assoc, UInt64.or_comm v,
            ← UInt64.or_assoc, ih]
      rw [List.zip_cons_cons, List.foldl_cons, ih (by simpa using h), List.foldl_cons,
        List.foldl_cons, ← hswap, UInt64.or_assoc]

/-! ## Splits -/

theorem map_markAt_range' {v : List Taint} {a n : Nat} (h : a + n ≤ v.length) :
    (List.range' a n).map (markAt [v] 0) = slice v a (a + n) := by
  refine List.ext_getElem (by rw [length_slice h]; simp) fun k hk _ => ?_
  rw [List.length_map, List.length_range'] at hk
  have hlt : a + k < v.length := by omega
  simp [markAt, slice, hlt]

theorem splitWires_eq {sizes : List Nat} {i n : Nat} (hn : sizes[i]? = some n) :
    splitWires .forward (Offsets.ofSizes sizes) sizes.sum i n =
      some ((List.range' (sizes.take i).sum n).map fun k => [(0, k)]) := by
  have hb := Offsets.getElem?_blocks_ofSizes hn
  have hpair : (Offsets.ofSizes sizes)[i]? = some (sizes.take i).sum ∧
      (Offsets.ofSizes sizes)[i + 1]? = some ((sizes.take i).sum + n) := by
    rw [Offsets.blocks, List.getElem?_zip_eq_some] at hb
    simpa using hb
  have hfits := Offsets.sum_take_add_le hn
  unfold splitWires
  rw [hpair.1, hpair.2]
  simp only [Option.bind_eq_bind, Option.bind_some, Nat.add_sub_cancel_left, Nat.min_self]
  rw [if_neg (by omega)]
  rfl

theorem sweepTaint_split {e : Expr α} {axis : Axis} {sizes : List Nat}
    (hop : e.op = .split axis (Offsets.ofSizes sizes)) {v : List Taint} (h : sizes.sum = v.length)
    (want : Nat → Bool) :
    e.sweepTaint .forward [v] (sizes.zipIdx.map fun (n, i) =>
        if want i then some (List.replicate n 0) else none) =
      .ok ([v], ((Offsets.blocks (Offsets.ofSizes sizes)).map fun (a, b) => slice v a b).zipIdx.map
        fun (r, i) => if want i then some r else none) := by
  set blanks : List (Option (List Taint)) := sizes.zipIdx.map fun (n, i) =>
    if want i then some (List.replicate n 0) else none with hblanks
  have hblank (i : Nat) : blanks[i]? =
      sizes[i]?.map fun n => if want i then some (List.replicate n 0) else none := by
    simp [hblanks, Function.comp_def]
  -- the wires to every result that is asked for
  let wiresTo (r : Option Nat × Nat) : List (List Wire) :=
    r.1.elim [] fun n => (List.range' (sizes.take r.2).sum n).map fun k => [(0, k)]
  have hwires : resultWires .forward e.op [v.length] (blanks.map (·.map List.length)) =
      some ((blanks.map (·.map List.length)).zipIdx.map wiresTo) := by
    rw [hop]
    refine mapM_eq_some_map fun r hr => ?_
    have hi := List.mem_zipIdx_iff_getElem?.1 hr
    rw [List.getElem?_map, hblank] at hi
    obtain ⟨r, i⟩ := r
    cases hn : sizes[i]? with
    | none => simp [hn] at hi
    | some n =>
      cases hw : want i with
      | false =>
        obtain rfl : none = r := by simpa [hn, hw] using hi
        rfl
      | true =>
        obtain rfl : some n = r := by simpa [hn, hw] using hi
        exact h ▸ splitWires_eq hn
  unfold sweepTaint
  rw [List.map_singleton, hwires]
  refine congrArg (fun rs => Except.ok ([v], rs)) (List.ext_getElem? fun i => ?_)
  rw [List.getElem?_zipWith, List.getElem?_map, List.getElem?_zipIdx, List.getElem?_map, hblank,
    List.getElem?_map, List.getElem?_zipIdx, List.getElem?_map]
  cases hn : sizes[i]? with
  | none =>
    have hcount : (Offsets.blocks (Offsets.ofSizes sizes)).length = sizes.length :=
      Offsets.length_blocks_sizesFrom 0 sizes
    simpa [hcount] using hn
  | some n =>
    rw [Offsets.getElem?_blocks_ofSizes hn]
    cases hw : want i with
    | false => simp [hw]
    | true =>
      have hfits := h ▸ Offsets.sum_take_add_le hn
      have hlen : (wiresTo (some n, i)).length = n := by simp [wiresTo]
      have hgather : (wiresTo (some n, i)).map (gatherMarks [v]) =
          slice v (sizes.take i).sum ((sizes.take i).sum + n) := by
        rw [← map_markAt_range' hfits]
        exact List.map_map.trans (List.map_congr_left fun k _ => gatherMarks_singleton [v] 0 k)
      have hcollect := collectTaint_eq [v] hlen
      rw [hgather] at hcollect
      simpa [hw] using hcollect

/-! ## Wires by the kind of node -/

section Gathers

variable [Scalar α] {x y : Expr α} {p : Pattern} {v w : List Taint}

theorem gathers_constant (id : Nat) {nz : List α} (length : nz.length = p.nnz) :
    Gathers (node id (.constant nz) [] p []) [] (List.replicate p.nnz []) where
  wires := rfl
  length := List.length_replicate
  compute := by
    rw [List.map_replicate, gatherMarks_nil, ← length]
    exact congrArg (fun r => [r]) (List.map_const' ..)

theorem gathers_unary (id : Nat) (op : UnaryOp) (hv : v.length = x.nnz) :
    Gathers (node id (.unary op) [x] x.pattern []) [v]
      ((List.range x.nnz).map fun k => [(0, k)]) where
  wires := by
    show (if Sweep.forward = .forward ∧ v.length ≠ x.nnz then none
      else some ((List.range (min v.length x.nnz)).map fun k => [(0, k)])) = _
    rw [if_neg fun hne => hne.2 hv, hv, Nat.min_self]
  length := by
    simp
    rfl
  compute := by
    show [v.map fun mark => mark] = _
    rw [List.map_map, List.map_id', ← hv]
    exact congrArg (fun r => [r]) ((map_markAt_range rfl).symm.trans
      (List.map_congr_left fun k _ => (gatherMarks_singleton _ _ _).symm))

theorem gathers_binary (id : Nat) {op : BinaryOp} {broadcast : Broadcast}
    (fits : (⟨x, y, broadcast⟩ : Aligned α).Fits op) (hv : v.length = x.nnz)
    (hw : w.length = y.nnz) :
    Gathers (node id (.binary op broadcast) [x, y] (⟨x, y, broadcast⟩ : Aligned α).pattern [])
      [v, w]
      ((List.range (⟨x, y, broadcast⟩ : Aligned α).pattern.nnz).map fun k =>
        [(0, (broadcast.operands k).1), (1, (broadcast.operands k).2)]) where
  wires := mapM_eq_some_map fun k hk => if_pos (by
    rw [hv, hw]
    exact fits.operands_lt (List.mem_range.1 hk))
  length := by
    simp
    rfl
  compute := by
    rw [List.map_map]
    exact congrArg (fun r => [r]) (List.map_congr_left fun k _ =>
      (gatherMarks_pair [v, w] 0 (broadcast.operands k).1 1 (broadcast.operands k).2).symm)

theorem gathers_innerProduct (id : Nat) (h : v.length = w.length) :
    Gathers (node id .innerProduct [x, y] .scalar []) [v, w]
      [(List.range v.length).map (0, ·) ++ (List.range w.length).map (1, ·)] where
  wires := by
    show (if Pattern.scalar.nnz = 0 then none else some [[v.length, w.length].zipIdx.flatMap
      fun (n, i) => (List.range n).map (i, ·)]) = _
    rw [if_neg (by decide)]
    simp
  length := rfl
  compute := by
    refine congrArg (fun m => [[m]]) ((foldl_join_zip h 0).trans ?_)
    rw [gatherMarks_eq_foldl, List.map_append, List.map_map, List.map_map, List.foldl_append]
    exact congrArg₂ (fun xs ys : List Taint => ys.foldl (· ||| ·) (xs.foldl (· ||| ·) 0))
      (map_markAt_range (i := 0) rfl).symm (map_markAt_range (i := 1) rfl).symm

theorem gathers_transpose (id : Nat) (hv : v.length = x.nnz) :
    Gathers (node id (.transpose x.pattern.transposition) [x] x.pattern.transpose []) [v]
      (x.pattern.transposition.map fun k => [(0, k)]) where
  wires := by
    show (x.pattern.transposition.take x.pattern.transpose.nnz).mapM (fun k =>
      if k < v.length then some [(0, k)] else none) = _
    rw [List.take_of_length_le (Pattern.length_transposition _).le]
    exact mapM_eq_some_map fun k hk => if_pos (hv ▸ Pattern.lt_nnz_of_mem_transposition hk)
  length := (List.length_map _).trans (Pattern.length_transposition _)
  compute := by
    rw [List.map_map]
    exact congrArg (fun r => [r]) (List.map_congr_left fun k _ =>
      (gatherMarks_singleton [v] 0 k).symm)

theorem gathers_project (id : Nat) (hv : v.length = x.nnz) :
    Gathers (node id (.project (x.pattern.projection p)) [x] p []) [v]
      ((x.pattern.projection p).map fun k => k.elim [] fun k => [(0, k)]) where
  wires := by
    change ((x.pattern.projection p).take p.nnz).mapM _ = _
    rw [List.take_of_length_le (Pattern.length_projection _ _).le]
    refine mapM_eq_some_map fun k hk => ?_
    cases k with
    | none => rfl
    | some k =>
      obtain ⟨e, -, he⟩ := List.mem_map.1 hk
      exact if_pos (hv ▸ Pattern.lt_nnz_of_nzIndex he)
  length := (List.length_map _).trans (Pattern.length_projection _ _)
  compute := by
    rw [List.map_map]
    refine congrArg (fun r => [r]) (List.map_congr_left fun k _ => ?_)
    cases k with
    | none => rfl
    | some k => exact (gatherMarks_singleton [v] 0 k).symm

theorem gathers_join (id : Nat) {axis : Axis} {parts : List (Expr α)}
    (joins : Pattern.Joins axis (parts.map Expr.pattern) p) {args : List (List Taint)}
    (hargs : args.map List.length = parts.map nnz) :
    Gathers (node id (.join axis) parts p []) args
      (((args.map List.length).zipIdx.flatMap fun (n, i) => (List.range n).map (i, ·)).map
        ([·])) := by
  have hlen : args.flatten.length = p.nnz := by
    rw [List.length_flatten, hargs, joins.nnz_eq, List.map_map]
    rfl
  have hsum : (args.map List.length).sum = p.nnz := List.length_flatten ▸ hlen
  refine ⟨?_, ?_, ?_⟩
  · show (if p.nnz < (args.map List.length).sum then none else some _) = _
    rw [if_neg (by omega)]
    exact congrArg some rfl
  · have := congrArg List.length (map_markAt_zipIdx args)
    rw [List.length_map] at this ⊢
    exact this.trans hlen
  · rw [List.map_map]
    refine congrArg (fun r => [r]) ((map_markAt_zipIdx args).symm.trans ?_)
    exact List.map_congr_left fun w _ => (gatherMarks_singleton args w.1 w.2).symm

end Gathers

/-! ## Sweeps -/

/-- The forward sweep over a well-formed operation computes its marks. -/
theorem WellFormed.sweepTaint_eq [Scalar α] {e : Expr α} (h : e.WellFormed)
    (ho : e.isOperation = true) {args : List (List Taint)}
    (hargs : args.map List.length = e.deps.map nnz) (want : Nat → Bool) :
    e.sweepTaint .forward args
        (e.patterns.zipIdx.map fun (p, i) =>
          if want i then some (List.replicate p.nnz 0) else none) =
      .ok (args, (compute (T := Marked α Taint) e args).zipIdx.map fun (r, i) =>
        if want i then some r else none) := by
  have hone {x : Expr α} (hargs : args.map List.length = [x.nnz]) :
      ∃ v, args = [v] ∧ v.length = x.nnz := by
    simpa [List.map_eq_singleton_iff] using hargs
  have htwo {x y : Expr α} (hargs : args.map List.length = [x.nnz, y.nnz]) :
      ∃ v w, args = [v, w] ∧ v.length = x.nnz ∧ w.length = y.nnz := by
    simpa [List.map_eq_cons_iff] using hargs
  cases h with
  | symbol => simp [isOperation, op, Op.isReference] at ho
  | output => simp [isOperation, op, Op.isReference] at ho
  | constant id length =>
    obtain rfl := List.map_eq_nil_iff.1 hargs
    exact sweepTaint_eq_of_gathers rfl rfl rfl (gathers_constant id length) want
  | unary id pattern =>
    subst pattern
    obtain ⟨v, rfl, hv⟩ := hone hargs
    exact sweepTaint_eq_of_gathers rfl rfl rfl (gathers_unary id _ hv) want
  | binary id pattern fits =>
    subst pattern
    obtain ⟨v, w, rfl, hv, hw⟩ := htwo hargs
    exact sweepTaint_eq_of_gathers rfl rfl rfl (gathers_binary id fits hv hw) want
  | innerProduct id patterns =>
    obtain ⟨v, w, rfl, hv, hw⟩ := htwo hargs
    have hlen : v.length = w.length := hv.trans ((congrArg Pattern.nnz patterns).trans hw.symm)
    exact sweepTaint_eq_of_gathers rfl rfl rfl (gathers_innerProduct id hlen) want
  | transpose id numbers pattern =>
    subst pattern numbers
    obtain ⟨v, rfl, hv⟩ := hone hargs
    exact sweepTaint_eq_of_gathers rfl rfl rfl (gathers_transpose id hv) want
  | project id numbers shape =>
    subst numbers
    obtain ⟨v, rfl, hv⟩ := hone hargs
    exact sweepTaint_eq_of_gathers rfl rfl rfl (gathers_project id hv) want
  | join id count joins =>
    exact sweepTaint_eq_of_gathers rfl rfl rfl (gathers_join id joins hargs) want
  | @split id axis offsets x p ps count table joins =>
    subst table
    obtain ⟨v, rfl, hv⟩ := hone hargs
    have hblank : ((p :: ps).zipIdx.map fun (p, i) =>
        if want i then some (List.replicate p.nnz (0 : Taint)) else none) =
          ((p :: ps).map Pattern.nnz).zipIdx.map fun (n, i) =>
            if want i then some (List.replicate n 0) else none := by
      rw [List.zipIdx_map, List.map_map]
      rfl
    exact (congrArg (sweepTaint .forward _ [v]) hblank).trans
      (sweepTaint_split rfl (joins.nnz_eq.symm.trans hv.symm) want)

end Expr

end DiffGraph
