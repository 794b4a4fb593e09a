import Mathlib
import DiffGraph.Proofs.Graph.Compute
import DiffGraph.Proofs.Source.Statement
import DiffGraph.Source.Generate

/-!
# Running the statements of one node

On arrays that begin with the operands of a well-formed node its statements
assign the results of the node to the arrays given for them, one case for every
kind of node (`run_ofNode_single`, `run_ofNode_split`).
-/

namespace DiffGraph

open Element Expr

namespace Source

variable {α : Type} {m : Memory α} {e : Expr α} {args results : List String} {xs : List (List α)}
  {r : String}

/-- The arrays begin with the given numbers, and none of them is the array `r`. -/
def Operands (m : Memory α) (r : String) : List String → List (List α) → Prop :=
  List.Forall₂ fun a x => a ≠ r ∧ m.Contains (.work a) x

namespace Operands

variable {m' : Memory α} {c : Cell} {i : Option Nat} {k : Nat} {y : α} {x : List α}

/-- Assignments to `r` leave the operands alone. -/
theorem cell (hx : c.array ≠ r ∧ m.Contains (.work c.array) x) (hm' : m'.AgreesOff (.work r) m)
    (hindex : c.index.at i = some k) (hy : x[k]? = some y) : m'.cell i c = some y :=
  (hx.2.congr (hm' (.work c.array) (by simpa using hx.1))).cell hindex hy

theorem exists_single {d : Expr α} (h : Operands m r args xs)
    (hlen : xs.map List.length = [d].map nnz) :
    ∃ a v, args = [a] ∧ xs = [v] ∧ v.length = d.nnz ∧ a ≠ r ∧ m.Contains (.work a) v := by
  obtain ⟨v, rfl, hv⟩ := List.map_eq_singleton_iff.1 hlen
  obtain ⟨a, args, ha, hnil, rfl⟩ := List.forall₂_cons_right_iff.1 h
  obtain rfl := List.forall₂_nil_right_iff.1 hnil
  exact ⟨a, v, rfl, rfl, hv, ha⟩

theorem exists_pair {d d' : Expr α} (h : Operands m r args xs)
    (hlen : xs.map List.length = [d, d'].map nnz) :
    ∃ a b v w, args = [a, b] ∧ xs = [v, w] ∧ v.length = d.nnz ∧ w.length = d'.nnz ∧
      (a ≠ r ∧ m.Contains (.work a) v) ∧ b ≠ r ∧ m.Contains (.work b) w := by
  obtain ⟨v, xs, rfl, hv, hrest⟩ := List.map_eq_cons_iff.1 hlen
  obtain ⟨a, args, ha, hb, rfl⟩ := List.forall₂_cons_right_iff.1 h
  obtain ⟨b, w, rfl, rfl, hw, hb⟩ := exists_single hb hrest
  exact ⟨a, b, v, w, rfl, rfl, hv, hw, ha, hb⟩

end Operands

theorem cutUp_eq {a : String} {offsets : List Nat}
    (hcount : results.length = (Offsets.blocks offsets).length) :
    cutUp (α := α) (some a) offsets results =
      some (((results.zip (Offsets.blocks offsets)).filter fun w => w.1 ≠ "0").map
        fun (r, s, t) => .loop (t - s) ⟨r, .counter⟩ (.cell ⟨a, .shifted s⟩)) := by
  have hzip : results.zip (Offsets.blocks offsets) =
      results.zipIdx.map fun w => (w.1, (Offsets.blocks offsets)[w.2]?.getD (0, 0)) := by
    refine List.ext_getElem? fun i => ?_
    rw [List.getElem?_map, List.getElem?_zipIdx, Nat.zero_add]
    cases hr : results[i]? with
    | none => simp [List.zip, List.getElem?_zipWith, hr]
    | some r =>
      have hi : i < (Offsets.blocks offsets).length :=
        hcount ▸ (List.getElem?_eq_some_iff.1 hr).1
      simp [List.zip, List.getElem?_zipWith, hr, hi]
  rw [hzip, List.filter_map, List.map_map]
  refine mapM_eq_some_map ?_
  rintro ⟨r, i⟩ hri
  have hi : i < (Offsets.blocks offsets).length := by
    have hmem := List.mem_zipIdx_iff_getElem?.1 (List.mem_of_mem_filter hri)
    exact hcount ▸ (List.getElem?_eq_some_iff.1 hmem).1
  have hblock : (Offsets.blocks offsets)[i]? = some (Offsets.blocks offsets)[i] :=
    List.getElem?_eq_getElem hi
  obtain ⟨hs, ht⟩ := List.getElem?_zip_eq_some.1 hblock
  rw [List.getElem?_tail] at ht
  simp only [hs, ht, Function.comp_apply, hblock]
  rfl

variable [Scalar α] [Numeral α] {literal : String → Option α} {pointers : Pointers α}

/-- The numbers of a constant node are read back from their text, as finite numbers are. -/
def ReadsConstants (literal : String → Option α) (e : Expr α) : Prop :=
  ∀ nz, e.op = .constant nz → ∀ x ∈ nz, literal (Numeral.marked x) = some x

/-! ## Kinds of statements -/

theorem run_counterLoop {n : Nat} {value : Value α} {ys : List α} (hn : ys.length = n)
    (hvalue : ∀ (i : Nat) (y : α), ys[i]? = some y → ∀ m' : Memory α,
      m'.AgreesOff (.work r) m → value.eval literal (some i) m' = some y)
    (room : m.HasRoom (.work r) n) :
    runAll literal pointers [.loop n ⟨r, .counter⟩ value] m = some (m.fill (.work r) 0 ys) :=
  runAll_cons (run_loop hn (fun i => by simp [Index.at]) hvalue (by rwa [Nat.zero_add]))

variable (literal pointers) in
theorem run_copies {a : String} {x : List α} {mapping : List (Option Nat)}
    (hx : a ≠ r ∧ m.Contains (.work a) x) (hmapping : ∀ k, some k ∈ mapping → k < x.length)
    (room : m.HasRoom (.work r) mapping.length) :
    ∃ ss, copies (some r) (some a) mapping = some ss ∧ runAll literal pointers ss m =
      some (m.fill (.work r) 0 (mapping.map fun k => k.elim 0 (nth x))) := by
  let value (k : Option Nat) : Value α := k.elim .zero fun k => .cell ⟨a, .fixed k⟩
  refine ⟨((mapping.map value).zipIdx).map fun w => .assign ⟨r, .fixed w.2⟩ w.1, ?_, ?_⟩
  · rw [List.zipIdx_map, List.map_map]
    refine mapM_eq_some_map ?_
    rintro ⟨k, i⟩ -
    cases k <;> rfl
  · refine run_assigns ?_ (.refl m) (by simpa using room)
    rw [List.forall₂_map_left_iff, List.forall₂_map_right_iff, List.forall₂_same]
    intro k hk m' hm'
    cases k with
    | none => rfl
    | some k => exact Operands.cell hx hm' rfl (getElem?_eq_nth (hmapping k hk))

theorem run_appended {parts : List (String × Nat)} {start : Nat}
    (hparts : Operands m r (parts.map Prod.fst) xs)
    (hsizes : xs.map List.length = parts.map Prod.snd)
    (room : m.HasRoom (.work r) (start + xs.flatten.length)) :
    runAll literal pointers (appended r start parts) m =
      some (m.fill (.work r) start xs.flatten) := by
  induction parts generalizing m start xs with
  | nil =>
    obtain rfl := List.forall₂_nil_left_iff.1 hparts
    rfl
  | cons part parts ih =>
    obtain ⟨a, n⟩ := part
    obtain ⟨x, xs, hx, hrest, rfl⟩ := List.forall₂_cons_left_iff.1 hparts
    obtain ⟨hn, htail⟩ := List.cons_eq_cons.1 hsizes
    replace hn : x.length = n := hn
    rw [List.flatten_cons, List.length_append, ← Nat.add_assoc, hn] at room
    have hloop : Statement.run literal pointers
        (.loop n ⟨r, .shifted start⟩ (.cell ⟨a, .counter⟩)) m = some (m.fill (.work r) start x) :=
      run_loop hn (fun _ => rfl) (fun i y hy m' hm' => Operands.cell hx hm' rfl hy)
        (room.mono (Nat.le_add_right _ _))
    have hothers : Operands (m.fill (.work r) start x) r (parts.map Prod.fst) xs :=
      hrest.imp fun b y hy => ⟨hy.1, hy.2.congr (Memory.fill_of_ne (by simpa using hy.1))⟩
    rw [List.flatten_cons, Memory.fill_append, hn, ← ih hothers htail room.fill]
    exact runAll_cons hloop

theorem run_innerProduct {a b : String} {v w : List α} {n : Nat}
    (ha : a ≠ r ∧ m.Contains (.work a) v) (hb : b ≠ r ∧ m.Contains (.work b) w)
    (hn : v.length = n) (hvw : v.length = w.length) (room : m.HasRoom (.work r) 1) :
    runAll literal pointers [.assign ⟨r, .fixed 0⟩ .zero,
        .accumulate n ⟨r, .fixed 0⟩ (.binary .mul ⟨a, .counter⟩ ⟨b, .counter⟩)] m =
      some (m.fill (.work r) 0 [(v.zip w).foldl (fun total (x, y) => total + x * y) 0]) := by
  let products := (v.zip w).map fun (x, y) => x * y
  have hlen : products.length = n := by simp [products, ← hvw, hn]
  have hassign : Statement.run literal pointers (.assign ⟨r, .fixed 0⟩ .zero) m =
      some (m.put (.work r) 0 0) := by
    simp [Statement.run, assigned, Index.at, Value.eval, room.write]
  have hadd : Statement.run literal pointers
      (.accumulate n ⟨r, .fixed 0⟩ (.binary .mul ⟨a, .counter⟩ ⟨b, .counter⟩))
      (m.put (.work r) 0 0) = some (m.put (.work r) 0 (products.foldl (· + ·) 0)) := by
    refine run_accumulate hlen (fun i z hz m' hm' => ?_) room
    obtain ⟨⟨x, y⟩, hpair, rfl⟩ := Option.map_eq_some_iff.1 (List.getElem?_map.symm.trans hz)
    obtain ⟨hx, hy⟩ := List.getElem?_zip_eq_some.1 hpair
    exact eval_binary .mul (Operands.cell ha hm' rfl hx) (Operands.cell hb hm' rfl hy)
  rw [runAll_cons hassign, runAll_cons hadd, List.foldl_map]
  rfl

theorem run_cuts {a : String} {x : List α} {cuts : List (String × Nat × Nat)}
    (hx : m.Contains (.work a) x)
    (hcuts : ∀ w ∈ cuts, w.1 ≠ a ∧ w.2.2 ≤ x.length ∧ m.HasRoom (.work w.1) (w.2.2 - w.2.1)) :
    runAll literal pointers
        (cuts.map fun (r, s, t) => .loop (t - s) ⟨r, .counter⟩ (.cell ⟨a, .shifted s⟩)) m =
      some (m.fillAll (cuts.map fun (r, s, t) => (.work r, slice x s t))) := by
  -- no range is copied to the array that it is cut from, so that the array stays as it is
  refine runAll_fills (P := fun m => m.Contains (.work a) x ∧
    ∀ w ∈ cuts, m.HasRoom (.work w.1) (w.2.2 - w.2.1)) ?_ ⟨hx, fun w hw => (hcuts w hw).2.2⟩
  rintro ⟨r, s, t⟩ hw m ⟨hx, hroom⟩
  obtain ⟨hne, ht, -⟩ := hcuts _ hw
  refine ⟨?_, hx.congr (Memory.fill_of_ne (by simpa using hne.symm)), fun v hv => (hroom v hv).fill⟩
  refine run_loop (length_slice ht) (fun i => by simp [Index.at]) (fun i y hy m' hm' => ?_)
    (by rw [Nat.zero_add]; exact hroom _ hw)
  have hcell : x[s + i]? = some y := by
    have hy : ((x.drop s).take (t - s))[i]? = some y := hy
    rw [List.getElem?_take, List.getElem?_drop] at hy
    exact (Option.ite_none_right_eq_some.1 hy).2
  exact Operands.cell ⟨hne.symm, hx⟩ hm' rfl hcell

/-! ## Nodes -/

omit [Scalar α] [Numeral α] in
theorem ofNode_join {id : Nat} {axis : Axis} {parts : List (Expr α)} {p : Pattern} :
    ofNode (.node id (.join axis) parts p []) args [r] =
      some (appended r 0 (args.zip (parts.map nnz))) := by
  unfold ofNode
  dsimp only [Expr.op, deps]
  cases args.zip (parts.map nnz) <;> rfl

theorem run_joined {parts : List (Expr α)} (hargs : Operands m r args xs)
    (hlen : xs.map List.length = parts.map nnz) (room : m.HasRoom (.work r) (parts.map nnz).sum) :
    runAll literal pointers (appended r 0 (args.zip (parts.map nnz))) m =
      some (m.fill (.work r) 0 xs.flatten) := by
  have hsize : args.length = (parts.map nnz).length :=
    hargs.length_eq.trans (by rw [← hlen, List.length_map])
  refine run_appended ?_ ?_ ?_
  · rwa [List.map_fst_zip hsize.le]
  · rwa [List.map_snd_zip hsize.ge]
  · rwa [Nat.zero_add, List.length_flatten, hlen]

variable (pointers) in
/-- A node with one result. -/
theorem run_ofNode_single (hwf : e.WellFormed) (ho : e.isOperation = true)
    (hs : e.op.isSplit = false) (hargs : Operands m r args xs)
    (hlen : xs.map List.length = e.deps.map nnz) (room : m.HasRoom (.work r) e.nnz)
    (hread : ReadsConstants literal e) :
    ∃ ss v, ofNode e args [r] = some ss ∧ compute e xs = [v] ∧
      runAll literal pointers ss m = some (m.fill (.work r) 0 v) := by
  cases hwf with
  | symbol => simp [isOperation, Expr.op, Op.isReference] at ho
  | output => simp [isOperation, Expr.op, Op.isReference] at ho
  | split => simp [Expr.op, Op.isSplit] at hs
  | @constant id nz p length =>
    refine ⟨(nz.map Value.number).zipIdx.map fun w => .assign ⟨r, .fixed w.2⟩ w.1, nz, ?_,
      congrArg (fun x => [x]) (List.map_id nz), ?_⟩
    · rw [List.zipIdx_map, List.map_map]
      cases nz <;> rfl
    · refine run_assigns ?_ (.refl m) (by rwa [Nat.zero_add, length])
      rw [List.forall₂_map_left_iff, List.forall₂_same]
      exact fun x hx _ _ => hread nz rfl x hx
  | @unary id op x p pattern dense =>
    subst pattern
    obtain ⟨a, v, rfl, rfl, hv, ha⟩ := hargs.exists_single hlen
    refine ⟨_, v.map op.apply, rfl, rfl, run_counterLoop ((List.length_map _).trans hv) ?_ room⟩
    intro i y hy m' hm'
    obtain ⟨x, hx, rfl⟩ := Option.map_eq_some_iff.1 (List.getElem?_map.symm.trans hy)
    exact eval_unary op (Operands.cell ha hm' rfl hx)
  | @binary id op broadcast x y p pattern fits =>
    subst pattern
    obtain ⟨a, b, v, w, rfl, rfl, hv, hw, ha, hb⟩ := hargs.exists_pair hlen
    refine ⟨_, _, rfl, rfl, run_counterLoop (by simp) ?_ room⟩
    intro i z hz m' hm'
    obtain ⟨k, hk, rfl⟩ := Option.map_eq_some_iff.1 (List.getElem?_map.symm.trans hz)
    obtain ⟨hi, rfl⟩ : i < nnz _ ∧ i = k := by simpa [List.getElem?_eq_some_iff] using hk
    obtain ⟨hleft, hright⟩ := fits.operands_lt hi
    refine eval_binary op (Operands.cell ha hm' ?_ (getElem?_eq_nth (hv ▸ hleft)))
      (Operands.cell hb hm' ?_ (getElem?_eq_nth (hw ▸ hright))) <;> cases broadcast <;> rfl
  | @innerProduct id x y patterns =>
    obtain ⟨a, b, v, w, rfl, rfl, hv, hw, ha, hb⟩ := hargs.exists_pair hlen
    have hvw : v.length = w.length :=
      hv.trans ((congrArg Pattern.nnz patterns).trans hw.symm)
    exact ⟨_, _, rfl, rfl, run_innerProduct ha hb hv hvw room⟩
  | @transpose id x mapping p numbers pattern =>
    subst numbers pattern
    obtain ⟨a, v, rfl, rfl, hv, ha⟩ := hargs.exists_single hlen
    have hroom : m.HasRoom (.work r) (x.pattern.transposition.map some).length := by
      rwa [List.length_map, Pattern.length_transposition]
    have hlt (k : Nat) (hk : some k ∈ x.pattern.transposition.map some) : k < v.length := by
      rw [hv]
      exact Pattern.lt_nnz_of_mem_transposition (by simpa using hk)
    obtain ⟨ss, hss, hrun⟩ := run_copies literal pointers ha hlt hroom
    rw [List.map_map] at hrun
    exact ⟨ss, _, hss, rfl, hrun⟩
  | @project id x mapping p numbers shape =>
    subst numbers
    obtain ⟨a, v, rfl, rfl, hv, ha⟩ := hargs.exists_single hlen
    have hroom : m.HasRoom (.work r) (x.pattern.projection p).length := by
      rwa [Pattern.length_projection]
    have hlt (k : Nat) (hk : some k ∈ x.pattern.projection p) : k < v.length := by
      obtain ⟨entry, -, hentry⟩ := List.mem_map.1 hk
      rw [hv]
      exact Pattern.lt_nnz_of_nzIndex hentry
    obtain ⟨ss, hss, hrun⟩ := run_copies literal pointers ha hlt hroom
    exact ⟨ss, _, hss, rfl, hrun⟩
  | @join id axis parts p count joins =>
    refine ⟨_, _, ofNode_join, rfl, run_joined hargs hlen ?_⟩
    have hnnz : p.nnz = (parts.map nnz).sum := by
      rw [joins.nnz_eq, List.map_map]
      rfl
    exact hnnz ▸ room

variable (literal pointers) in
/-- A node with several results; those named `0` are left out. -/
theorem run_ofNode_split (hwf : e.WellFormed) (hs : e.op.isSplit = true)
    (hargs : List.Forall₂ (fun a x => m.Contains (.work a) x) args xs)
    (hlen : xs.map List.length = e.deps.map nnz) (hcount : results.length = e.resultCount)
    (hresults : ∀ (i : Nat) (r : String) (p : Pattern), results[i]? = some r → r ≠ "0" →
      e.patterns[i]? = some p → r ∉ args ∧ m.HasRoom (.work r) p.nnz) :
    ∃ ss, ofNode e args results = some ss ∧ runAll literal pointers ss m =
      some (m.fillAll (((results.zip (compute e xs)).filter fun w => w.1 ≠ "0").map
        fun (r, v) => (.work r, v))) := by
  cases hwf with
  | @split id axis offsets x p ps count table joins =>
    subst table
    obtain ⟨v, rfl, hv⟩ := List.map_eq_singleton_iff.1 hlen
    obtain ⟨a, args, hx, hnil, rfl⟩ := List.forall₂_cons_right_iff.1 hargs
    obtain rfl := List.forall₂_nil_right_iff.1 hnil
    set sizes := (p :: ps).map Pattern.nnz with hsizes
    have hblocks : results.length = (Offsets.blocks (Offsets.ofSizes sizes)).length := by
      rw [Offsets.ofSizes, Offsets.length_blocks_sizesFrom, hcount, hsizes, List.length_map]
      rfl
    refine ⟨_, cutUp_eq hblocks, (run_cuts hx ?_).trans ?_⟩
    · rintro ⟨r, s, t⟩ hw
      obtain ⟨hmem, hname⟩ := List.mem_filter.1 hw
      obtain ⟨i, hi⟩ := List.mem_iff_getElem?.1 hmem
      obtain ⟨hr, hblock⟩ := List.getElem?_zip_eq_some.1 hi
      have hlt : i < (p :: ps).length :=
        Nat.lt_of_lt_of_eq (List.getElem?_eq_some_iff.1 hr).1 hcount
      have hq : (p :: ps)[i]? = some (p :: ps)[i] := List.getElem?_eq_getElem hlt
      have hsize : sizes[i]? = some (p :: ps)[i].nnz := by
        rw [hsizes, List.getElem?_map, hq, Option.map_some]
      have hsum : sizes.sum = v.length := joins.nnz_eq.symm.trans hv.symm
      rw [Offsets.getElem?_blocks_ofSizes hsize] at hblock
      obtain ⟨rfl, rfl⟩ := Prod.mk.inj (Option.some.inj hblock)
      obtain ⟨hfresh, hroom⟩ := hresults i r _ hr (by simpa using hname) hq
      refine ⟨by simpa using hfresh, hsum ▸ Offsets.sum_take_add_le hsize, ?_⟩
      rwa [Nat.add_sub_cancel_left]
    · have hcompute : compute (.node id (.split axis (Offsets.ofSizes sizes)) [x] p ps) [v] =
          (Offsets.blocks (Offsets.ofSizes sizes)).map fun b => slice v b.1 b.2 := rfl
      rw [hcompute, List.zip_map_right, List.filter_map, List.map_map]
      rfl
  | _ => simp [Expr.op, Op.isSplit] at hs

end Source

end DiffGraph
