import Mathlib
import DiffGraph.Proofs.Pattern.Algebra
import DiffGraph.Proofs.Pattern.Compressed

/-!
# Unions and projections as sets

A pattern is the set of its entries, and its operations work on the sorted columns:
the union merges two columns with a place in each (`mergeFrom`), and the number of
an entry is found by halving its column (`search`). On the arrays of patterns these
are the union and the numbers (`union_compressed`, `nzIndex_compressed`). Therefore
unions are unions of sets, numbers are places among the entries in order, and a
buffer that is projected onto a union and back is unchanged (`unions_and_numbers`).
-/

namespace DiffGraph

namespace Compressed

/-- The rows of two lanes from the places `i` and `j` on: the smaller one first, and rows of both
lanes once. -/
def mergeFrom (a b : List Nat) (i j : Nat) : List Nat :=
  match hi : a[i]?, hj : b[j]? with
  | some x, some y =>
    if x = y then x :: mergeFrom a b (i + 1) (j + 1)
    else if x < y then x :: mergeFrom a b (i + 1) j
    else y :: mergeFrom a b i (j + 1)
  | some x, none => x :: mergeFrom a b (i + 1) j
  | none, some y => y :: mergeFrom a b i (j + 1)
  | none, none => []
termination_by (a.length - i) + (b.length - j)
decreasing_by
  all_goals
    simp only [List.getElem?_eq_some_iff] at hi hj
    grind

def union (a b : Compressed) : Compressed :=
  ofLanes a.nrows a.ncols ((List.range a.ncols).map fun c => mergeFrom (a.lane c) (b.lane c) 0 0)

/-- A place of `r` among the rows from place `lo` below `hi`, by halving. -/
def search (rows : List Nat) (r lo hi : Nat) : Option Nat :=
  if lo < hi then
    let mid := lo + (hi - lo) / 2
    match rows[mid]? with
    | none => none
    | some s =>
      if s = r then some mid
      else if s < r then search rows r (mid + 1) hi
      else search rows r lo mid
  else none
termination_by hi - lo

def nzIndex (a : Compressed) (row col : Nat) : Option Nat :=
  if a.ncols ≤ col then none
  else (search (a.lane col) row 0 (a.lane col).length).map (a.colind[col]?.getD 0 + ·)

/-- The entries in the order of the arrays. -/
def triplets (a : Compressed) : List (Nat × Nat) :=
  (List.range a.ncols).flatMap fun c => (a.lane c).map (·, c)

/-- For every entry of `target` its number, if it has one. -/
def projection (a target : Compressed) : List (Option Nat) :=
  target.triplets.map fun (r, c) => a.nzIndex r c

/-! ## Merging -/

variable {a b rows : List Nat} {i j r lo hi : Nat}

theorem mem_drop_iff {x : Nat} (h : a[i]? = some x) : r ∈ a.drop i ↔ r = x ∨ r ∈ a.drop (i + 1) := by
  obtain ⟨hlt, rfl⟩ := List.getElem?_eq_some_iff.1 h
  rw [List.drop_eq_getElem_cons hlt, List.mem_cons]

theorem not_mem_drop (h : a[i]? = none) : r ∉ a.drop i := by
  rw [List.drop_of_length_le (List.getElem?_eq_none_iff.1 h)]
  exact List.not_mem_nil

theorem mem_mergeFrom : r ∈ mergeFrom a b i j ↔ r ∈ a.drop i ∨ r ∈ b.drop j := by
  fun_induction mergeFrom a b i j with
  | case1 i j x hj hi ih =>
    rw [List.mem_cons, ih, mem_drop_iff hi, mem_drop_iff hj]
    tauto
  | case2 i j x y hi hj hne hlt ih =>
    rw [List.mem_cons, ih, mem_drop_iff hi, or_assoc]
  | case3 i j x y hi hj hne hlt ih =>
    rw [List.mem_cons, ih, mem_drop_iff hj]
    tauto
  | case4 i j x hi hj ih =>
    rw [List.mem_cons, ih, mem_drop_iff hi, or_assoc]
  | case5 i j y hi hj ih =>
    rw [List.mem_cons, ih, mem_drop_iff hj]
    tauto
  | case6 i j hi hj =>
    simp [not_mem_drop hi, not_mem_drop hj]

theorem lt_of_mem_drop {x : Nat} (ha : a.Pairwise (· < ·)) (hi : a[i]? = some x)
    (hr : r ∈ a.drop (i + 1)) : x < r := by
  obtain ⟨hlt, rfl⟩ := List.getElem?_eq_some_iff.1 hi
  have hsorted : (a.drop i).Pairwise (· < ·) := ha.sublist (List.drop_sublist i a)
  rw [List.drop_eq_getElem_cons hlt, List.pairwise_cons] at hsorted
  exact hsorted.1 r hr

theorem le_of_mem_drop {x : Nat} (ha : a.Pairwise (· < ·)) (hi : a[i]? = some x)
    (hr : r ∈ a.drop i) : x ≤ r := by
  rcases (mem_drop_iff hi).1 hr with rfl | hr
  · exact le_rfl
  · exact (lt_of_mem_drop ha hi hr).le

theorem pairwise_cons_mergeFrom {x : Nat} (ha : ∀ r ∈ a.drop i, x < r) (hb : ∀ r ∈ b.drop j, x < r)
    (h : (mergeFrom a b i j).Pairwise (· < ·)) : (x :: mergeFrom a b i j).Pairwise (· < ·) :=
  List.pairwise_cons.2 ⟨fun r hr => (mem_mergeFrom.1 hr).elim (ha r) (hb r), h⟩

/-- The row that is taken is smaller than all that are left. -/
theorem pairwise_mergeFrom (ha : a.Pairwise (· < ·)) (hb : b.Pairwise (· < ·)) :
    (mergeFrom a b i j).Pairwise (· < ·) := by
  fun_induction mergeFrom a b i j with
  | case1 i j x hj hi ih =>
    exact pairwise_cons_mergeFrom (fun _ => lt_of_mem_drop ha hi) (fun _ => lt_of_mem_drop hb hj) ih
  | case2 i j x y hi hj hne hlt ih =>
    exact pairwise_cons_mergeFrom (fun _ => lt_of_mem_drop ha hi)
      (fun _ hr => hlt.trans_le (le_of_mem_drop hb hj hr)) ih
  | case3 i j x y hi hj hne hlt ih =>
    have hyx : y < x := by omega
    exact pairwise_cons_mergeFrom (fun _ hr => hyx.trans_le (le_of_mem_drop ha hi hr))
      (fun _ => lt_of_mem_drop hb hj) ih
  | case4 i j x hi hj ih =>
    exact pairwise_cons_mergeFrom (fun _ => lt_of_mem_drop ha hi)
      (fun _ hr => absurd hr (not_mem_drop hj)) ih
  | case5 i j y hi hj ih =>
    exact pairwise_cons_mergeFrom (fun _ hr => absurd hr (not_mem_drop hi))
      (fun _ => lt_of_mem_drop hb hj) ih
  | case6 => exact List.Pairwise.nil

/-! ## Halving -/

theorem place_lt_iff {s k : Nat} (h : rows.Pairwise (· < ·)) (hi : rows[i]? = some s)
    (hk : rows[k]? = some r) : i < k ↔ s < r := by
  obtain ⟨hil, rfl⟩ := List.getElem?_eq_some_iff.1 hi
  obtain ⟨hkl, rfl⟩ := List.getElem?_eq_some_iff.1 hk
  have hplaces := List.pairwise_iff_getElem.1 h
  rcases Nat.lt_trichotomy i k with hlt | rfl | hlt
  · exact iff_of_true hlt (hplaces i k hil hkl hlt)
  · exact iff_of_false (Nat.lt_irrefl i) (Nat.lt_irrefl _)
  · exact iff_of_false (Nat.lt_asymm hlt) (Nat.lt_asymm (hplaces k i hkl hil hlt))

theorem search_eq_some_iff {k : Nat} (h : rows.Pairwise (· < ·)) (hhi : hi ≤ rows.length) :
    search rows r lo hi = some k ↔ lo ≤ k ∧ k < hi ∧ rows[k]? = some r := by
  fun_induction search rows r lo hi with
  | case1 lo hi hlt mid hnone =>
    have hmid : rows.length ≤ mid := List.getElem?_eq_none_iff.1 hnone
    omega
  | case2 lo hi hlt mid hfound =>
    constructor
    · intro hk
      obtain rfl := Option.some.inj hk
      exact ⟨by omega, by omega, hfound⟩
    · rintro ⟨-, -, hk⟩
      have hfirst := place_lt_iff h hfound hk
      have hlast := place_lt_iff h hk hfound
      exact congrArg some (by omega)
  | case3 lo hi hlt mid s hfound hne hless ih =>
    rw [ih hhi]
    refine and_congr_left fun ⟨_, hk⟩ => ?_
    have hbehind := (place_lt_iff h hfound hk).2 hless
    exact iff_of_true hbehind (by omega)
  | case4 lo hi hlt mid s hfound hne hless ih =>
    rw [ih (by omega)]
    refine and_congr_right fun _ => and_congr_left fun hk => ?_
    have hbefore := (place_lt_iff h hk hfound).2 (by omega)
    exact iff_of_true hbefore (by omega)
  | case5 lo hi hle => simp; omega

theorem search_eq_idxOf? (h : rows.Pairwise (· < ·)) :
    search rows r 0 rows.length = rows.idxOf? r := by
  refine Option.ext fun k => ?_
  rw [search_eq_some_iff h le_rfl, idxOf?_eq_some_iff_getElem? (h.imp Nat.ne_of_lt)]
  exact ⟨fun hk => hk.2.2, fun hk => ⟨k.zero_le, (List.getElem?_eq_some_iff.1 hk).1, hk⟩⟩

end Compressed

namespace Pattern

variable {p q s t u : Pattern} {r c k : Nat}

/-! ## On the arrays of patterns -/

theorem mem_column_iff {rows : List Nat} (h : p.columns[c]? = some rows) :
    r ∈ rows ↔ (r, c) ∈ p.triplets := by
  simp [mem_triplets, h]

/-- Merging column by column writes the arrays of the union. -/
theorem union_compressed (h : p.union q = .ok u) :
    p.compressed.union q.compressed = u.compressed := by
  obtain ⟨hp, hq⟩ := shape_of_union h
  have hncols : p.ncols = u.ncols := (congrArg Prod.snd hp).symm
  have hnrows : p.nrows = u.nrows := (congrArg Prod.fst hp).symm
  have hcolumns : ((List.range u.ncols).map fun c =>
      Compressed.mergeFrom (p.compressed.lane c) (q.compressed.lane c) 0 0) = u.columns := by
    refine List.ext_getElem (by simp [ncols]) fun c hlt hc => ?_
    have hcp : c < p.columns.length := Nat.lt_of_lt_of_eq hc hncols.symm
    have hcq : c < q.columns.length := Nat.lt_of_lt_of_eq hc (congrArg Prod.snd hq)
    rw [List.getElem_map, List.getElem_range, lane_compressed (List.getElem?_eq_getElem hcp),
      lane_compressed (List.getElem?_eq_getElem hcq)]
    have hsorted := Compressed.pairwise_mergeFrom (i := 0) (j := 0)
      (p.isColumn _ (List.getElem_mem hcp)).1 (q.isColumn _ (List.getElem_mem hcq)).1
    refine hsorted.eq_of_mem_iff (u.isColumn _ (List.getElem_mem hc)).1 fun {r} => ?_
    rw [Compressed.mem_mergeFrom, List.drop_zero, List.drop_zero,
      mem_column_iff (List.getElem?_eq_getElem hcp), mem_column_iff (List.getElem?_eq_getElem hcq),
      mem_column_iff (List.getElem?_eq_getElem hc), mem_triplets_union h]
  rw [compressed_eq_ofLanes u, ← hcolumns, ← hncols, ← hnrows]
  rfl

theorem nzIndex_compressed (p : Pattern) (r c : Nat) :
    p.compressed.nzIndex r c = p.nzIndex r c := by
  rw [Compressed.nzIndex, nzIndex]
  split
  · rename_i hle
    rw [List.getElem?_eq_none hle]
    rfl
  · rename_i hlt
    have hc : c < p.columns.length := Nat.not_le.1 hlt
    have hcol := List.getElem?_eq_getElem hc
    have hoffset : p.compressed.colind[c]?.getD 0 = p.offset c := by
      show p.colind[c]?.getD 0 = _
      rw [getElem?_colind hc.le]
      rfl
    rw [lane_compressed hcol, Compressed.search_eq_idxOf? (p.isColumn _ (List.getElem_mem hc)).1,
      hoffset, hcol]
    rfl

theorem triplets_compressed (p : Pattern) : p.compressed.triplets = p.triplets := by
  have hcolumns : p.columns.zipIdx = (List.range p.ncols).map fun c => (p.compressed.lane c, c) := by
    refine List.ext_getElem (by simp [ncols]) fun c hlt _ => ?_
    have hc : c < p.columns.length := by simpa using hlt
    simp [lane_compressed (List.getElem?_eq_getElem hc)]
  rw [triplets, hcolumns, List.flatMap_map]
  rfl

theorem projection_compressed (p t : Pattern) :
    p.compressed.projection t.compressed = p.projection t := by
  rw [Compressed.projection, triplets_compressed, projection]
  exact List.map_congr_left fun e _ => nzIndex_compressed p e.1 e.2

/-! ## The set operations -/

theorem union_comm (p q : Pattern) (h : p.shape = q.shape) : p.union q = q.union p := by
  obtain ⟨u, hu⟩ := union_eq_ok_of_shape h
  obtain ⟨v, hv⟩ := union_eq_ok_of_shape h.symm
  have huv : u = v := ext_triplets ((shape_of_union hu).1.trans (shape_of_union hv).2.symm)
    fun r c => by rw [mem_triplets_union hu, mem_triplets_union hv, or_comm]
  rw [hu, hv, huv]

theorem union_assoc (h : p.shape = q.shape) (h' : q.shape = s.shape) :
    (p.union q).bind (·.union s) = (q.union s).bind p.union := by
  obtain ⟨u, hu⟩ := union_eq_ok_of_shape h
  obtain ⟨v, hv⟩ := union_eq_ok_of_shape h'
  obtain ⟨hup, huq⟩ := shape_of_union hu
  obtain ⟨hvq, hvs⟩ := shape_of_union hv
  obtain ⟨w, hw⟩ := union_eq_ok_of_shape (huq.trans h')
  obtain ⟨x, hx⟩ := union_eq_ok_of_shape (h.trans hvq.symm)
  have hwx : w = x :=
    ext_triplets ((shape_of_union hw).1.trans (hup.trans (shape_of_union hx).1.symm)) fun r c => by
      rw [mem_triplets_union hw, mem_triplets_union hu, mem_triplets_union hx,
        mem_triplets_union hv, or_assoc]
  rw [hu, hv]
  exact hw.trans ((congrArg Except.ok hwx).trans hx.symm)

theorem getElem?_projection : (p.projection t)[k]? =
    (t.triplets[k]?).map fun e => p.nzIndex e.1 e.2 := by
  rw [projection, List.getElem?_map]

/-- What is projected onto a pattern with more entries is still there. -/
theorem projectList_back {α : Type} [Scalar α] {v : List α} (hv : v.length = p.nnz)
    (h : ∀ e ∈ p.triplets, e ∈ u.triplets) :
    Expr.projectList (u.projection p) (Expr.projectList (p.projection u) v) = v := by
  rw [projectList_projection]
  calc p.gather (u.entry (Expr.projectList (p.projection u) v))
      = p.gather (p.entry v) := gather_congr fun r c hmem => by
        rw [entry_projectList, if_pos (h (r, c) hmem)]
    _ = v := gather_entry hv

/-- What the union of two patterns is: the pattern of their entries together. Merging writes its
arrays, which pass the check, and a buffer of a part is not changed on the way to it and back. -/
structure UnionOf (p q u : Pattern) : Prop where
  shape : u.shape = p.shape
  entries (r c : Nat) : (r, c) ∈ u.triplets ↔ (r, c) ∈ p.triplets ∨ (r, c) ∈ q.triplets
  commutes : q.union p = .ok u
  written : p.compressed.union q.compressed = u.compressed
  accepted : p.ncols + 1 < Size.wordLimit → u.compressed.check = .ok u
  back {α : Type} [Scalar α] (v : List α) : v.length = p.nnz →
    Expr.projectList (u.projection p) (Expr.projectList (p.projection u) v) = v

/-- What numbers a pattern gives: to its entries their places in order, to no other pair one, and to
a projection the numbers of the entries of its target. Halving the columns finds them. -/
structure NumbersEntries (p : Pattern) : Prop where
  number (r c k : Nat) : p.nzIndex r c = some k ↔ p.triplets[k]? = some (r, c)
  missing (r c : Nat) : p.nzIndex r c = none ↔ (r, c) ∉ p.triplets
  kept (t : Pattern) (k m : Nat) : (p.projection t)[k]? = some (some m) ↔
    ∃ e, t.triplets[k]? = some e ∧ p.triplets[m]? = some e
  dropped (t : Pattern) (k : Nat) : (p.projection t)[k]? = some none ↔
    ∃ e, t.triplets[k]? = some e ∧ e ∉ p.triplets
  listed : p.compressed.triplets = p.triplets
  searched (r c : Nat) : p.compressed.nzIndex r c = p.nzIndex r c
  projected (t : Pattern) : p.compressed.projection t.compressed = p.projection t

theorem unionOf (h : p.union q = .ok u) : UnionOf p q u where
  shape := (shape_of_union h).1
  entries _ _ := mem_triplets_union h
  commutes := by
    obtain ⟨hp, hq⟩ := shape_of_union h
    rw [← union_comm p q (hp.symm.trans hq), h]
  written := union_compressed h
  accepted hword := by
    have hncols : u.ncols = p.ncols := congrArg Prod.snd (shape_of_union h).1
    exact check_compressed (hncols ▸ hword)
  back _ hv := projectList_back hv fun _ he => (mem_triplets_union h).2 (.inl he)

theorem numbersEntries (p : Pattern) : p.NumbersEntries where
  number _ _ _ := nzIndex_eq_some_iff
  missing _ _ := nzIndex_eq_none_iff
  kept t k m := by
    rw [getElem?_projection, Option.map_eq_some_iff]
    exact exists_congr fun e => and_congr_right fun _ => nzIndex_eq_some_iff
  dropped t k := by
    rw [getElem?_projection, Option.map_eq_some_iff]
    exact exists_congr fun e => and_congr_right fun _ => nzIndex_eq_none_iff
  listed := p.triplets_compressed
  searched := p.nzIndex_compressed
  projected := p.projection_compressed

/-- Patterns of one shape have a union, which is the union of their sets of entries, and every
pattern finds its entries. -/
theorem unions_and_numbers :
    (∀ p q : Pattern, p.shape = q.shape → ∃ u, p.union q = .ok u ∧ UnionOf p q u) ∧
      (∀ p : Pattern, p.union p = .ok p) ∧
      (∀ p q s : Pattern, p.shape = q.shape → q.shape = s.shape →
        (p.union q).bind (·.union s) = (q.union s).bind p.union) ∧
      ∀ p : Pattern, p.NumbersEntries :=
  ⟨fun _ _ h => (union_eq_ok_of_shape h).imp fun _ hu => ⟨hu, unionOf hu⟩, union_self,
    fun _ _ _ => union_assoc, numbersEntries⟩

/-- Two patterns with a common entry, and the number of an entry of one in their union. -/
theorem unions_and_numbers_common :
    let p : Pattern := ⟨3, [[0, 2], [1]], by decide⟩
    let q : Pattern := ⟨3, [[1, 2], []], by decide⟩
    ∃ u, p.union q = .ok u ∧ UnionOf p q u ∧ u.triplets = [(0, 0), (1, 0), (2, 0), (1, 1)] ∧
      u.nzIndex 1 1 = some 3 := by
  intro p q
  obtain ⟨u, hu, hset⟩ := unions_and_numbers.1 p q rfl
  have hwhole : p.union q = .ok ⟨3, [[0, 1, 2], [1]], by decide⟩ := rfl
  obtain rfl := Except.ok.inj (hu.symm.trans hwhole)
  exact ⟨_, hu, hset, rfl, rfl⟩

end Pattern

end DiffGraph
