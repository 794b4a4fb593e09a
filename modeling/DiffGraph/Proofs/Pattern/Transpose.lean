import Mathlib
import DiffGraph.Proofs.Pattern.Inverse

/-!
# Transposing by counting

The arrays of a transposed pattern are written by a counting sort: the rows are
counted, the counts are added up to offsets, and then the nonzeros are placed one
by one, in the order of their numbers, each at the next place for its row. An access
outside of an array would stop this (`transposed`); on the arrays of a pattern it
never happens (`transposed_compressed`). While the nonzeros are placed the buckets of
the rows are filled from the front (`Placed`), and in the end they stand one behind
the other (`Placed.eq_flatten`). So transposing gives the swapped entries and a
permutation of their numbers, and transposing twice undoes both (`transposes_back`).
-/

namespace DiffGraph

namespace Compressed

variable {β : Type}

def increase? (counts : List Nat) (i n : Nat) : Option (List Nat) :=
  if i < counts.length then some (counts.modify i (· + n)) else none

def write? (xs : List β) (i : Nat) (x : β) : Option (List β) :=
  if i < xs.length then some (xs.set i x) else none

/-- How often every key below `n` occurs, one place behind the key. -/
def countKeys (n : Nat) (keys : List Nat) : Option (List Nat) :=
  keys.foldlM (fun counts r => increase? counts (r + 1) 1) (List.replicate (n + 1) 0)

/-- Adds up the numbers in place, each to its successor. -/
def addUp (n : Nat) (counts : List Nat) : Option (List Nat) :=
  (List.range n).foldlM (fun counts r => do increase? counts (r + 1) (← counts[r]?)) counts

/-- Writes the value to the next place for its key, and moves on to the place after it. -/
def place? (w : List Nat × List β) (e : Nat × β) : Option (List Nat × List β) := do
  let dest ← w.1[e.1]?
  return (← increase? w.1 e.1 1, ← write? w.2 dest e.2)

/-- The nonzeros, column by column: the row, and the column with the number. -/
def entries (a : Compressed) : List (Nat × Nat × Nat) :=
  (List.range a.ncols).flatMap fun c =>
    ((a.lane c).zipIdx (a.colind[c]?.getD 0)).map fun e => (e.1, c, e.2)

/-- The arrays of the transposed pattern, and for every nonzero its number before transposing. -/
def transposed (a : Compressed) : Option (Compressed × List Nat) := do
  let colind ← addUp a.nrows (← countKeys a.nrows a.row)
  let w ← a.entries.foldlM place? (colind, List.replicate a.row.length (0, 0))
  return (⟨a.ncols, a.nrows, colind, w.2.map Prod.fst⟩, w.2.map Prod.snd)

/-! ## Counting -/

theorem countKeys_eq {n : Nat} {keys : List Nat} (h : ∀ r ∈ keys, r < n) :
    countKeys n keys = some (0 :: (List.range n).map fun r => keys.count r) := by
  induction keys using List.reverseRecOn with
  | nil => simp [countKeys, List.replicate_succ, List.map_const']
  | append_singleton keys r ih =>
    have hr : r < n := h r (by simp)
    have ih := ih fun s hs => h s (by simp [hs])
    unfold countKeys at ih ⊢
    rw [List.foldlM_append, ih]
    have hlt : r + 1 < (0 :: (List.range n).map fun r => keys.count r).length := by simpa using hr
    simp only [List.foldlM_cons, List.foldlM_nil, Option.bind_eq_bind, Option.bind_some, increase?,
      if_pos hlt, Option.pure_def, Option.some.injEq, List.modify_succ_cons, List.cons.injEq,
      true_and]
    refine List.ext_getElem (by simp) fun i h₁ h₂ => ?_
    rw [List.getElem_modify]
    by_cases hi : r = i <;> simp [hi, List.count_append]

theorem length_eq_sum_count {n : Nat} {keys : List Nat} (h : ∀ r ∈ keys, r < n) :
    keys.length = ((List.range n).map fun r => keys.count r).sum := by
  have hcard := Multiset.sum_count_eq_card (s := Finset.range n) (m := keys)
    fun r hr => Finset.mem_range.2 (h r (Multiset.mem_coe.1 hr))
  simp only [Multiset.coe_count, Multiset.coe_card] at hcard
  rw [← hcard]
  rfl

theorem increase?_append (front rest : List Nat) (x n : Nat) :
    increase? (front ++ x :: rest) front.length n = some (front ++ (x + n) :: rest) := by
  have hmodify : (front ++ x :: rest).modify front.length (· + n) = front ++ (x + n) :: rest := by
    induction front with
    | nil => rfl
    | cons y front ih => rw [List.cons_append, List.length_cons, List.modify_succ_cons, ih]; rfl
  rw [increase?, if_pos (by simp), hmodify]

theorem addUp_eq (sizes : List Nat) :
    addUp sizes.length (0 :: sizes) = some (Offsets.ofSizes sizes) := by
  -- before step `i` the first `i` sizes have been added up
  have hrun : ∀ i ≤ sizes.length, (List.range i).foldlM (fun counts r => do
      increase? counts (r + 1) (← counts[r]?)) (0 :: sizes) =
        some (Offsets.ofSizes (sizes.take i) ++ sizes.drop i) := by
    intro i
    induction i with
    | zero => intro _; rfl
    | succ i ih =>
      intro hi
      have hlt : i < sizes.length := hi
      have hlen : (Offsets.ofSizes (sizes.take i)).length = i + 1 := by
        rw [Offsets.length_ofSizes, List.length_take_of_le hlt.le]
      have hlast : (Offsets.ofSizes (sizes.take i) ++ sizes[i] :: sizes.drop (i + 1))[i]? =
          some (sizes.take i).sum := by
        rw [List.getElem?_append_left (by omega), ← Offsets.getLast?_ofSizes,
          List.getLast?_eq_getElem?, hlen]
        rfl
      have htable : Offsets.ofSizes (sizes.take (i + 1)) =
          Offsets.ofSizes (sizes.take i) ++ [(sizes.take i).sum + sizes[i]] := by
        rw [List.take_succ_eq_append_getElem hlt, Offsets.ofSizes, Offsets.sizesFrom_append]
        simp [Offsets.sizesFrom, Offsets.ofSizes]
      rw [List.range_succ, List.foldlM_append, ih hlt.le, List.drop_eq_getElem_cons hlt]
      have hstep := increase?_append (Offsets.ofSizes (sizes.take i)) (sizes.drop (i + 1)) sizes[i]
        (sizes.take i).sum
      rw [hlen] at hstep
      simp only [List.foldlM_cons, List.foldlM_nil, Option.bind_eq_bind, Option.bind_some, hlast,
        hstep, Option.pure_def]
      rw [htable, List.append_assoc, Nat.add_comm sizes[i]]
      rfl
  have h := hrun sizes.length le_rfl
  rwa [List.take_length, List.drop_length, List.append_nil] at h

/-! ## Placing -/

/-- The values under a key, in their order. -/
def bucket (es : List (Nat × β)) (r : Nat) : List β :=
  (es.filter fun e => e.1 = r).map Prod.snd

theorem bucket_append (es es' : List (Nat × β)) (r : Nat) :
    bucket (es ++ es') r = bucket es r ++ bucket es' r := by
  rw [bucket, List.filter_append, List.map_append]
  rfl

theorem bucket_singleton_self (r : Nat) (x : β) : bucket [(r, x)] r = [x] := by
  simp [bucket]

theorem bucket_singleton_of_ne {r r' : Nat} (h : r ≠ r') (x : β) : bucket [(r, x)] r' = [] := by
  simp [bucket, h]

theorem length_bucket (es : List (Nat × β)) (r : Nat) :
    (bucket es r).length = (es.map Prod.fst).count r := by
  rw [bucket, List.length_map, ← List.countP_eq_length_filter, List.count, List.countP_map]
  exact List.countP_congr fun e _ => by simp

def bucketSizes (n : Nat) (es : List (Nat × β)) : List Nat :=
  (List.range n).map fun r => (bucket es r).length

/-- Where the bucket of a key begins. -/
def bucketStart (n : Nat) (es : List (Nat × β)) (r : Nat) : Nat :=
  ((bucketSizes n es).take r).sum

theorem getElem?_bucketSizes {n r : Nat} {es : List (Nat × β)} (h : r < n) :
    (bucketSizes n es)[r]? = some (bucket es r).length := by
  rw [bucketSizes, List.getElem?_map, List.getElem?_range h]
  rfl

theorem bucketStart_add_le {n r r' : Nat} {es : List (Nat × β)} (hrr' : r < r') (h : r < n) :
    bucketStart n es r + (bucket es r).length ≤ bucketStart n es r' := by
  have hsize : ((bucketSizes n es).take r')[r]? = some (bucket es r).length := by
    rw [List.getElem?_take_of_lt hrr', getElem?_bucketSizes h]
  have hle := Offsets.sum_take_add_le hsize
  rwa [List.take_take, min_eq_left hrr'.le] at hle

theorem bucketStart_add_le_sum {n r : Nat} {es : List (Nat × β)} (h : r < n) :
    bucketStart n es r + (bucket es r).length ≤ (bucketSizes n es).sum :=
  Offsets.sum_take_add_le (getElem?_bucketSizes h)

theorem place_ne_place {n r s i j : Nat} {es : List (Nat × β)} (hrs : r ≠ s) (hr : r < n)
    (hs : s < n) (hi : i < (bucket es r).length) (hj : j < (bucket es s).length) :
    bucketStart n es r + i ≠ bucketStart n es s + j := by
  rcases Nat.lt_or_gt_of_ne hrs with hlt | hlt
  · have hend : bucketStart n es r + (bucket es r).length ≤ bucketStart n es s :=
      bucketStart_add_le hlt hr
    omega
  · have hend : bucketStart n es s + (bucket es s).length ≤ bucketStart n es r :=
      bucketStart_add_le hlt hs
    omega

/-- What holds when the entries `seen` of `es` have been placed: the front of every bucket is
written, and the next place of a key is behind it. -/
structure Placed (n : Nat) (es seen : List (Nat × β)) (w : List Nat × List β) : Prop where
  next : ∀ r < n, w.1[r]? = some (bucketStart n es r + (bucket seen r).length)
  length : w.2.length = (bucketSizes n es).sum
  written : ∀ r < n, ∀ (i : Nat) x, (bucket seen r)[i]? = some x →
    w.2[bucketStart n es r + i]? = some x

variable {n : Nat} {es seen rest : List (Nat × β)} {e : Nat × β} {w : List Nat × List β}

theorem length_bucket_lt {r : Nat} {x : β} {seen rest : List (Nat × β)} :
    (bucket seen r).length < (bucket (seen ++ (r, x) :: rest) r).length := by
  rw [bucket_append, List.length_append]
  simp [bucket]

/-- There is room for one more entry, and its place is still free. -/
theorem Placed.step {r : Nat} {x : β} (h : Placed n es seen w) (hes : es = seen ++ (r, x) :: rest)
    (hr : r < n) : ∃ w', place? w (r, x) = some w' ∧ Placed n es (seen ++ [(r, x)]) w' := by
  have hroom : (bucket seen r).length < (bucket es r).length := hes ▸ length_bucket_lt
  obtain ⟨next, values⟩ := w
  have hnext : next[r]? = some (bucketStart n es r + (bucket seen r).length) := h.next r hr
  have hlt : r < next.length := (List.getElem?_eq_some_iff.1 hnext).1
  have hdest : bucketStart n es r + (bucket seen r).length < values.length := by
    have hend : bucketStart n es r + (bucket es r).length ≤ (bucketSizes n es).sum :=
      bucketStart_add_le_sum hr
    have hlen : values.length = (bucketSizes n es).sum := h.length
    omega
  refine ⟨(next.modify r (· + 1), values.set (bucketStart n es r + (bucket seen r).length) x), ?_, ?_⟩
  · simp only [place?, hnext, Option.bind_eq_bind, Option.bind_some, increase?, if_pos hlt, write?,
      if_pos hdest, Option.pure_def]
  · refine ⟨fun s hs => ?_, (List.length_set ..).trans h.length, fun s hs i y hy => ?_⟩
    · rw [List.getElem?_modify, h.next s hs, bucket_append]
      by_cases hrs : r = s
      · subst hrs
        simp [bucket_singleton_self, Nat.add_assoc]
      · simp [hrs, bucket_singleton_of_ne hrs]
    · -- the places of different keys, and of one key, are different
      by_cases hrs : r = s
      · subst hrs
        rw [bucket_append, bucket_singleton_self] at hy
        by_cases hi : i < (bucket seen r).length
        · rw [List.getElem?_append_left hi] at hy
          rw [List.getElem?_set_ne (by omega)]
          exact h.written r hr i y hy
        · rw [List.getElem?_append_right (by omega)] at hy
          obtain ⟨hlast, rfl⟩ := List.getElem?_eq_some_iff.1 hy
          obtain rfl : i = (bucket seen r).length := by
            simp only [List.length_singleton] at hlast
            omega
          rw [List.getElem?_set_self hdest]
          simp
      · rw [bucket_append, bucket_singleton_of_ne hrs, List.append_nil] at hy
        have hi : i < (bucket seen s).length := (List.getElem?_eq_some_iff.1 hy).1
        have hfit : (bucket seen s).length ≤ (bucket es s).length := by
          rw [hes, bucket_append, List.length_append]
          exact Nat.le_add_right _ _
        rw [List.getElem?_set_ne (place_ne_place hrs hr hs hroom (hi.trans_le hfit))]
        exact h.written s hs i y hy

theorem Placed.run (h : Placed n es seen w) (hes : es = seen ++ rest) (hrest : ∀ e ∈ rest, e.1 < n) :
    ∃ w', rest.foldlM place? w = some w' ∧ Placed n es es w' := by
  induction rest generalizing seen w with
  | nil =>
    rw [List.append_nil] at hes
    exact ⟨w, rfl, hes ▸ h⟩
  | cons e rest ih =>
    obtain ⟨w', hw', hplaced⟩ := h.step hes (hrest e List.mem_cons_self)
    obtain ⟨w'', hw'', hall⟩ := ih hplaced (by rw [hes, List.append_assoc]; rfl)
      fun f hf => hrest f (List.mem_cons_of_mem e hf)
    refine ⟨w'', ?_, hall⟩
    rw [List.foldlM_cons, hw']
    exact hw''

/-- Before the first entry no bucket has anything written. -/
theorem Placed.start (n : Nat) (es : List (Nat × β)) (x : β) :
    Placed n es [] (Offsets.ofSizes (bucketSizes n es), List.replicate (bucketSizes n es).sum x)
    where
  next r hr := by
    have hlen : r ≤ (bucketSizes n es).length := by
      rw [bucketSizes, List.length_map, List.length_range]
      exact hr.le
    dsimp only
    rw [Offsets.ofSizes, Offsets.getElem?_sizesFrom hlen, Nat.zero_add]
    rfl
  length := List.length_replicate
  written r _ i y hy := by simp [bucket] at hy

theorem getElem?_flatten {xss : List (List β)} {xs : List β} {r i : Nat} (hr : xss[r]? = some xs)
    (hi : i < xs.length) : xss.flatten[((xss.take r).map List.length).sum + i]? = xs[i]? := by
  obtain ⟨hlt, rfl⟩ := List.getElem?_eq_some_iff.1 hr
  have hsplit : xss.flatten = (xss.take r).flatten ++ (xss[r] ++ (xss.drop (r + 1)).flatten) := by
    rw [← List.flatten_cons, ← List.drop_eq_getElem_cons hlt, ← List.flatten_append,
      List.take_append_drop]
  rw [hsplit, ← List.length_flatten, List.getElem?_append_right (Nat.le_add_right _ _),
    Nat.add_sub_cancel_left, List.getElem?_append_left hi]

/-- The buckets stand one behind the other when all entries are placed. -/
theorem Placed.eq_flatten (h : Placed n es es w) :
    w.2 = ((List.range n).map (bucket es)).flatten := by
  set buckets := (List.range n).map (bucket es)
  have hsizes : buckets.map List.length = bucketSizes n es := List.map_map
  have hlen : w.2.length = buckets.flatten.length := by
    rw [h.length, List.length_flatten, hsizes]
  refine List.ext_getElem? fun k => ?_
  rcases Nat.lt_or_ge k (bucketSizes n es).sum with hk | hk
  · obtain ⟨r, size, hr, hle, hlt⟩ := Offsets.exists_block hk
    have hrn : r < n := by simpa [bucketSizes] using (List.getElem?_eq_some_iff.1 hr).1
    obtain rfl := Option.some.inj ((getElem?_bucketSizes hrn).symm.trans hr)
    obtain ⟨i, rfl⟩ := Nat.exists_eq_add_of_le hle
    have hi : i < (bucket es r).length := by omega
    have hbucket : buckets[r]? = some (bucket es r) := by
      rw [List.getElem?_map, List.getElem?_range hrn]
      rfl
    have hflat := getElem?_flatten hbucket hi
    rw [List.map_take, hsizes] at hflat
    rw [hflat, List.getElem?_eq_getElem hi]
    exact h.written r hrn i _ (List.getElem?_eq_getElem hi)
  · rw [List.getElem?_eq_none (h.length ▸ hk), List.getElem?_eq_none (hlen ▸ h.length ▸ hk)]

/-- The rows, the columns and the numbers of the nonzeros are sorted by rows. -/
theorem transposed_eq {a : Compressed} (hrow : a.row = a.entries.map Prod.fst)
    (hlt : ∀ r ∈ a.row, r < a.nrows) :
    a.transposed = some
      (⟨a.ncols, a.nrows, Offsets.ofSizes (bucketSizes a.nrows a.entries),
        (List.range a.nrows).flatMap fun r => (bucket a.entries r).map Prod.fst⟩,
      (List.range a.nrows).flatMap fun r => (bucket a.entries r).map Prod.snd) := by
  have hcounts : (List.range a.nrows).map (fun r => a.row.count r) =
      bucketSizes a.nrows a.entries :=
    List.map_congr_left fun r _ => by rw [hrow, length_bucket]
  have hlen : (bucketSizes a.nrows a.entries).length = a.nrows := by simp [bucketSizes]
  have hoffsets : addUp a.nrows (0 :: bucketSizes a.nrows a.entries) =
      some (Offsets.ofSizes (bucketSizes a.nrows a.entries)) := by
    have h := addUp_eq (bucketSizes a.nrows a.entries)
    rwa [hlen] at h
  have hsum : a.row.length = (bucketSizes a.nrows a.entries).sum :=
    hcounts ▸ length_eq_sum_count hlt
  obtain ⟨w, hw, hplaced⟩ := (Placed.start a.nrows a.entries (0, 0)).run
    (List.nil_append _).symm fun e he => hlt e.1 (hrow ▸ List.mem_map_of_mem he)
  rw [transposed, countKeys_eq hlt, hcounts]
  simp only [Option.bind_eq_bind, Option.bind_some, hoffsets, hsum, hw, Option.pure_def,
    hplaced.eq_flatten, List.flatMap_def, List.map_flatten, List.map_map]
  rfl

theorem bucket_map {γ : Type} (f : β → γ) (es : List (Nat × β)) (r : Nat) :
    bucket (es.map fun e => (e.1, f e.2)) r = (bucket es r).map f := by
  rw [bucket, bucket, List.filter_map, List.map_map, List.map_map]
  rfl

theorem mem_bucket {r : Nat} {x : β} : x ∈ bucket es r ↔ (r, x) ∈ es := by
  simp [bucket]

end Compressed

namespace Pattern

variable {p : Pattern} {r c k : Nat}

open Compressed

/-! ## The nonzeros by rows -/

theorem triplets_columnBlock_succ {n : Nat} {rows : List Nat} (h : p.columns[n]? = some rows) :
    (p.columnBlock 0 (n + 1)).triplets = (p.columnBlock 0 n).triplets ++ rows.map (·, n) := by
  obtain ⟨hlt, rfl⟩ := List.getElem?_eq_some_iff.1 h
  have hcolumns : (p.columnBlock 0 (n + 1)).columns = (p.columnBlock 0 n).columns ++ [p.columns[n]] :=
    List.take_succ_eq_append_getElem hlt
  rw [triplets_of_columns_append hcolumns, ncols_columnBlock hlt.le]
  simp [shift]

/-- The nonzeros are visited in the order of their numbers. -/
theorem entries_compressed (p : Pattern) :
    p.compressed.entries = p.triplets.zipIdx.map fun e => (e.1.1, e.1.2, e.2) := by
  set visit : Nat → List (Nat × Nat × Nat) := fun c =>
    ((p.compressed.lane c).zipIdx (p.colind[c]?.getD 0)).map fun e => (e.1, c, e.2) with hvisit
  -- after `n` columns the entries of these columns have been visited
  have hrun : ∀ n ≤ p.ncols, (List.range n).flatMap visit =
      (p.columnBlock 0 n).triplets.zipIdx.map fun e => (e.1.1, e.1.2, e.2) := by
    intro n
    induction n with
    | zero => intro _; rfl
    | succ n ih =>
      intro hn
      have hcol : p.columns[n]? = some p.columns[n] := List.getElem?_eq_getElem hn
      have hsize : (p.columnBlock 0 n).triplets.length = ((p.columns.take n).map List.length).sum :=
        length_triplets _
      rw [List.range_succ, List.flatMap_append, ih (Nat.le_of_lt hn), List.flatMap_singleton,
        triplets_columnBlock_succ hcol, List.zipIdx_append, List.map_append, hvisit]
      dsimp only
      rw [lane_compressed hcol, getElem?_colind (Nat.le_of_lt hn), hsize]
      simp [List.zipIdx_map]
  have h := hrun p.ncols le_rfl
  rwa [columnBlock_all] at h

theorem map_fst_triplets (p : Pattern) : p.triplets.map Prod.fst = p.row := by
  rw [triplets, List.map_flatMap, row]
  have hrows : (fun e : List Nat × Nat => (e.1.map (·, e.2)).map Prod.fst) = Prod.fst := by
    funext e
    rw [List.map_map]
    exact List.map_id _
  rw [hrows, List.flatMap_def, List.zipIdx_map_fst]

/-- The nonzeros of a row stand in the columns of the transposed pattern. -/
theorem bucket_triplets (p : Pattern) (r : Nat) : bucket p.triplets r = p.columnsOf r := by
  have hcols : ∀ rows ∈ p.columns, rows.Nodup := fun rows hrows => (p.isColumn rows hrows).nodup
  unfold triplets columnsOf
  generalize p.columns = cols at hcols
  generalize 0 = s
  induction cols generalizing s with
  | nil => rfl
  | cons rows cols ih =>
    have hrow : bucket (rows.map (·, s)) r = if rows.contains r then [s] else [] := by
      have hnodup : rows.Nodup := hcols rows List.mem_cons_self
      have hfilter : (rows.map (·, s)).filter (fun e => e.1 = r) =
          (rows.filter (· = r)).map (·, s) := by
        rw [List.filter_map]
        rfl
      rw [bucket, hfilter, List.map_map, List.filter_eq, hnodup.count, List.contains_eq_mem]
      by_cases hr : r ∈ rows <;> simp [hr]
    rw [List.zipIdx_cons, List.flatMap_cons, bucket_append, hrow,
      ih fun rows hrows => hcols rows (List.mem_cons_of_mem _ hrows), List.filter_cons]
    split <;> rfl

theorem triplets_transpose (p : Pattern) :
    p.transpose.triplets = (List.range p.nrows).flatMap fun r => (p.columnsOf r).map (·, r) := by
  have hrows : (List.range p.nrows).zipIdx = (List.range p.nrows).map fun r => (r, r) := by
    rw [List.zipIdx_eq_zip_range', List.length_range, ← List.range_eq_range', List.zip,
      List.zipWith_self]
  rw [triplets, transpose]
  dsimp only
  rw [List.zipIdx_map, hrows, List.map_map, List.flatMap_map]
  rfl

theorem map_fst_entries (p : Pattern) :
    p.compressed.entries.map (fun e => (e.1, e.2.1)) = p.triplets := by
  rw [entries_compressed, List.map_map]
  exact List.zipIdx_map_fst 0 p.triplets

theorem row_eq_map_entries (p : Pattern) : p.compressed.row = p.compressed.entries.map Prod.fst := by
  show p.row = _
  rw [← map_fst_triplets, ← map_fst_entries, List.map_map]
  rfl

theorem map_fst_bucket (p : Pattern) (r : Nat) :
    (bucket p.compressed.entries r).map Prod.fst = p.columnsOf r := by
  rw [← bucket_map, map_fst_entries, bucket_triplets]

theorem bucketSizes_entries (p : Pattern) :
    bucketSizes p.nrows p.compressed.entries = p.transpose.columns.map List.length := by
  rw [bucketSizes, transpose, List.map_map]
  refine List.map_congr_left fun r _ => ?_
  rw [Function.comp_apply, ← map_fst_bucket, List.length_map]

theorem flatMap_bucket_snd (p : Pattern) : ((List.range p.nrows).flatMap fun r =>
    (bucket p.compressed.entries r).map Prod.snd) = p.transposition := by
  refine List.map_injective_iff.2 (Option.some_injective Nat) ?_
  rw [transposition_eq_map, triplets_transpose, List.map_flatMap, List.map_flatMap]
  refine List.flatMap_congr fun r _ => ?_
  rw [← map_fst_bucket, List.map_map, List.map_map, List.map_map]
  refine List.map_congr_left fun e he => ?_
  have hvisit := mem_bucket.1 he
  rw [entries_compressed, List.mem_map] at hvisit
  obtain ⟨⟨⟨r', c⟩, k⟩, hk, heq⟩ := hvisit
  obtain ⟨rfl, rfl⟩ := Prod.mk.inj heq
  exact (nzIndex_eq_some_iff.2 (List.mem_zipIdx_iff_getElem?.1 hk)).symm

/-- Sorting by rows writes the arrays of the transposed pattern and the numbers before. -/
theorem transposed_compressed (p : Pattern) :
    p.compressed.transposed = some (p.transpose.compressed, p.transposition) := by
  have hlt : ∀ r ∈ p.compressed.row, r < p.compressed.nrows := fun r hr => by
    obtain ⟨rows, hrows, hmem⟩ := List.mem_flatten.1 hr
    exact (p.isColumn rows hrows).2 r hmem
  have hcolind : Offsets.ofSizes (bucketSizes p.nrows p.compressed.entries) = p.transpose.colind :=
    congrArg Offsets.ofSizes p.bucketSizes_entries
  have hrows : ((List.range p.nrows).flatMap fun r =>
      (bucket p.compressed.entries r).map Prod.fst) = p.transpose.row := by
    rw [row, transpose, ← List.flatMap_def]
    exact List.flatMap_congr fun r _ => p.map_fst_bucket r
  have harrays : (⟨p.ncols, p.nrows, p.transpose.colind, p.transpose.row⟩ : Compressed) =
      p.transpose.compressed := by
    rw [compressed, nrows_transpose, ncols_transpose]
  rw [transposed_eq p.row_eq_map_entries hlt, ← harrays, ← hcolind, ← hrows, ← flatMap_bucket_snd]
  rfl

/-! ## Transposing twice -/

theorem transposeChecked_eq (p : Pattern) : p.transposeChecked =
    if p.nrows < Size.listLimit then .ok p.transpose else .error .misuse := by
  rw [transposeChecked, Size.checkLength]
  split <;> rfl

theorem map_getElem?_transposition (p : Pattern) :
    p.transposition.map (p.triplets[·]?) = p.transpose.triplets.map fun e => some e.swap := by
  have hnumbers : (p.transposition.map some).map (·.bind (p.triplets[·]?)) =
      p.transpose.triplets.map fun e => some e.swap := by
    rw [transposition_eq_map, List.map_map]
    refine List.map_congr_left fun e he => ?_
    obtain ⟨c, r⟩ := e
    obtain ⟨k, hk⟩ := List.mem_iff_getElem?.1 (mem_triplets_transpose.1 he)
    show (p.nzIndex r c).bind (p.triplets[·]?) = some (r, c)
    rw [nzIndex_eq_some_iff.2 hk]
    exact hk
  rwa [List.map_map] at hnumbers

theorem getElem?_transposition {m : Nat} : p.transposition[k]? = some m ↔
    ∃ r c, p.transpose.triplets[k]? = some (c, r) ∧ p.triplets[m]? = some (r, c) := by
  have hat := congrArg (·[k]?) p.transposition_eq_map
  simp only [List.getElem?_map] at hat
  constructor
  · intro hm
    rw [hm] at hat
    obtain ⟨⟨c, r⟩, he, hnumber⟩ := Option.map_eq_some_iff.1 hat.symm
    exact ⟨r, c, he, nzIndex_eq_some_iff.1 hnumber⟩
  · rintro ⟨r, c, he, hm⟩
    rw [he, Option.map_some, nzIndex_eq_some_iff.2 hm] at hat
    obtain ⟨m', hm', heq⟩ := Option.map_eq_some_iff.1 hat
    rw [hm', heq]

/-- The numbers after transposing back are the inverse. -/
theorem getElem?_transposition_transpose {m : Nat} :
    p.transpose.transposition[k]? = some m ↔ p.transposition[m]? = some k := by
  rw [getElem?_transposition, getElem?_transposition, transpose_transpose, exists_comm]
  exact exists_congr fun r => exists_congr fun c => and_comm

theorem nodup_transposition (p : Pattern) : p.transposition.Nodup := by
  refine List.Nodup.of_map (p.triplets[·]?) ?_
  rw [map_getElem?_transposition]
  exact p.transpose.nodup_triplets.map ((Option.some_injective _).comp Prod.swap_injective)

theorem transposition_perm (p : Pattern) : p.transposition.Perm (List.range p.nnz) := by
  refine (p.nodup_transposition.subperm fun k hk => ?_).perm_of_length_le ?_
  · exact List.mem_range.2 (lt_nnz_of_mem_transposition hk)
  · rw [List.length_range, length_transposition, nnz_transpose]

/-- What transposing gives: the pattern of the swapped entries, and for each of them the number it
had before. The numbers are a permutation, which transposing again inverts. The arrays written by
counting are these, and they pass the check. -/
structure TransposesBack (p : Pattern) : Prop where
  result : p.transposeChecked =
    if p.nrows < Size.listLimit then .ok p.transpose else .error .misuse
  shape : p.transpose.shape = (p.ncols, p.nrows)
  swapped (r c : Nat) : (c, r) ∈ p.transpose.triplets ↔ (r, c) ∈ p.triplets
  permutes : p.transposition.Perm (List.range p.nnz)
  numbers : p.transposition.map (p.triplets[·]?) =
    p.transpose.triplets.map fun e => some e.swap
  back : p.transpose.transpose = p
  inverse : p.transpose.transposition.map (p.transposition[·]?) = (List.range p.nnz).map some
  written : p.compressed.transposed = some (p.transpose.compressed, p.transposition)
  accepted : p.nrows < Size.listLimit → p.transpose.compressed.check = .ok p.transpose

/-- Transposing is an involution, and so is its permutation of the nonzeros. -/
theorem transposes_back (p : Pattern) : p.TransposesBack where
  result := p.transposeChecked_eq
  shape := p.shape_transpose
  swapped r c := mem_triplets_transpose
  permutes := p.transposition_perm
  numbers := p.map_getElem?_transposition
  back := p.transpose_transpose
  inverse := by
    refine List.ext_getElem? fun k => ?_
    rw [List.getElem?_map, List.getElem?_map]
    rcases Nat.lt_or_ge k p.nnz with hk | hk
    · obtain ⟨m, hm⟩ : ∃ m, p.transpose.transposition[k]? = some m :=
        ⟨_, List.getElem?_eq_getElem (by simpa [transpose_transpose] using hk)⟩
      rw [hm, List.getElem?_range hk, Option.map_some, Option.map_some,
        getElem?_transposition_transpose.1 hm]
    · rw [List.getElem?_eq_none (by simpa [transpose_transpose] using hk),
        List.getElem?_eq_none (by simpa using hk)]
      rfl
  written := p.transposed_compressed
  accepted h := check_compressed (by
    rw [ncols_transpose]
    exact Nat.lt_of_le_of_lt h (by decide))

-- The bucket of row 0 is filled from two columns, the bucket of row 2 stays empty.
example : (⟨3, [[0, 1], [], [0]], by decide⟩ : Pattern).compressed.transposed =
    some (⟨3, 3, [0, 2, 3, 3], [0, 2, 0]⟩, [0, 2, 1]) := rfl

end Pattern

end DiffGraph
