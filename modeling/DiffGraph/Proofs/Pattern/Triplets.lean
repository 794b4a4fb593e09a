import Mathlib
import DiffGraph.Proofs.Pattern.Coloring
import DiffGraph.Proofs.Pattern.Transpose
import DiffGraph.Proofs.Pattern.Union

/-!
# Patterns of entries in any order

A pattern is read from entries in any order, repeated or not. Their rows are put
into a bucket for every column, the buckets are sorted, rows that follow themselves
are dropped, and the columns are written one behind the other (`ofEntries`). The
check accepts what is written, and it is the pattern of the entries
(`check_ofEntries`). This pattern depends on the set of the entries only, and the
entries of a pattern give the pattern back (`ofTriplets_canonical`).
-/

namespace DiffGraph

namespace Compressed

/-- The row of an entry goes behind the rows of its column, if it is inside of the shape. -/
def bucketEntry (nrows ncols : Nat) (columns : List (List Nat)) (e : Nat × Nat) :
    Except GraphError (List (List Nat)) :=
  if nrows ≤ e.1 ∨ ncols ≤ e.2 then .error (.invalidPattern (.outside e.1 e.2 nrows ncols))
  else .ok (columns.modify e.2 (· ++ [e.1]))

/-- Keeps one of equal rows that follow one another. -/
def dropRepeated : List Nat → List Nat
  | [] => []
  | [r] => [r]
  | r :: s :: rest => if r = s then dropRepeated (s :: rest) else r :: dropRepeated (s :: rest)

/-- The arrays of entries in any order. -/
def ofEntries (nrows ncols : Nat) (entries : List (Nat × Nat)) : Except GraphError Compressed := do
  let columns ← entries.foldlM (bucketEntry nrows ncols) (List.replicate ncols [])
  return ofLanes nrows ncols (columns.map fun rows => dropRepeated rows.mergeSort)

/-! ## Columns -/

variable {rows : List Nat} {r : Nat}

theorem mem_dropRepeated : r ∈ dropRepeated rows ↔ r ∈ rows := by
  fun_induction dropRepeated rows with
  | case1 => rfl
  | case2 s => rfl
  | case3 s rest ih =>
    rw [ih]
    simp
  | case4 s t rest hne ih =>
    rw [List.mem_cons, ih]
    exact List.mem_cons.symm

theorem pairwise_dropRepeated (h : rows.Pairwise (· ≤ ·)) :
    (dropRepeated rows).Pairwise (· < ·) := by
  fun_induction dropRepeated rows with
  | case1 => exact List.Pairwise.nil
  | case2 s => exact List.pairwise_singleton _ s
  | case3 s rest ih => exact ih (List.pairwise_cons.1 h).2
  | case4 s t rest hne ih =>
    obtain ⟨hle, hrest⟩ := List.pairwise_cons.1 h
    refine List.pairwise_cons.2 ⟨fun r hr => ?_, ih hrest⟩
    have hst : s < t := Nat.lt_of_le_of_ne (hle t List.mem_cons_self) hne
    rcases List.mem_cons.1 (mem_dropRepeated.1 hr) with rfl | hr
    · exact hst
    · exact hst.trans_le ((List.pairwise_cons.1 hrest).1 r hr)

theorem pairwise_sorted (rows : List Nat) : (dropRepeated rows.mergeSort).Pairwise (· < ·) := by
  have hsorted : rows.mergeSort.Pairwise fun a b => decide (a ≤ b) = true :=
    List.pairwise_mergeSort (fun a b c => by simpa using Nat.le_trans)
      (fun a b => by simpa using Nat.le_total a b) rows
  exact pairwise_dropRepeated (hsorted.imp of_decide_eq_true)

/-! ## Buckets -/

variable {m n : Nat} {entries : List (Nat × Nat)}

theorem bucketEntry_eq {e : Nat × Nat} (seen : List (Nat × Nat)) (h : ¬ (m ≤ e.1 ∨ n ≤ e.2)) :
    bucketEntry m n ((List.range n).map (bucket (seen.map Prod.swap))) e =
      .ok ((List.range n).map (bucket ((seen ++ [e]).map Prod.swap))) := by
  obtain ⟨r, c⟩ := e
  rw [bucketEntry, if_neg h]
  refine congrArg Except.ok (List.ext_getElem (by simp) fun i h₁ h₂ => ?_)
  rw [List.getElem_modify, List.getElem_map, List.getElem_map, List.getElem_range, List.map_append,
    bucket_append]
  by_cases hi : c = i
  · subst hi
    rw [if_pos rfl]
    exact congrArg _ (bucket_singleton_self c r).symm
  · rw [if_neg hi]
    exact ((congrArg _ (bucket_singleton_of_ne hi r)).trans (List.append_nil _)).symm

/-- All entries in the buckets, or the first that lies outside of the shape. -/
theorem foldlM_bucketEntry (m n : Nat) (entries : List (Nat × Nat)) :
    entries.foldlM (bucketEntry m n) (List.replicate n []) =
      match entries.find? fun e => decide (m ≤ e.1 ∨ n ≤ e.2) with
      | some e => .error (.invalidPattern (.outside e.1 e.2 m n))
      | none => .ok ((List.range n).map (bucket (entries.map Prod.swap))) := by
  induction entries using List.reverseRecOn with
  | nil =>
    refine congrArg Except.ok (List.ext_getElem (by simp) fun i h₁ h₂ => ?_)
    simp [bucket]
  | append_singleton seen e ih =>
    rw [List.foldlM_append, ih, List.find?_append]
    cases hseen : seen.find? fun e => decide (m ≤ e.1 ∨ n ≤ e.2) with
    | some e' => rfl
    | none =>
      by_cases he : m ≤ e.1 ∨ n ≤ e.2
      · rw [List.find?_singleton, if_pos (decide_eq_true he)]
        show (bucketEntry m n _ e).bind pure = _
        rw [bucketEntry, if_pos he]
        rfl
      · rw [List.find?_singleton, if_neg (by simpa using he)]
        show (bucketEntry m n _ e).bind pure = _
        rw [bucketEntry_eq seen he]
        rfl

end Compressed

namespace Pattern

variable {m n : Nat} {entries : List (Nat × Nat)}

theorem inside_of_find?_eq_none
    (h : (entries.find? fun e => decide (m ≤ e.1 ∨ n ≤ e.2)) = none) :
    ∀ e ∈ entries, e.1 < m ∧ e.2 < n := fun e he => by
  have hinside := List.find?_eq_none.1 h e he
  simp only [decide_eq_true_eq, not_or] at hinside
  omega

theorem ofTriplets_of_oversize (h : ¬ n < Size.listLimit) :
    ofTriplets m n entries = .error .misuse := by
  rw [ofTriplets, Size.checkLength, if_neg h]
  rfl

theorem ofTriplets_of_outside {e : Nat × Nat} (hn : n < Size.listLimit)
    (h : (entries.find? fun e => decide (m ≤ e.1 ∨ n ≤ e.2)) = some e) :
    ofTriplets m n entries = .error (.invalidPattern (.outside e.1 e.2 m n)) := by
  unfold ofTriplets Size.checkLength
  rw [if_pos hn]
  split
  · rename_i e' he'
    obtain rfl := Option.some.inj (h.symm.trans he')
    rfl
  · rename_i hnone
    cases h.symm.trans hnone

theorem ofTriplets_of_inside (hn : n < Size.listLimit)
    (h : (entries.find? fun e => decide (m ≤ e.1 ∨ n ≤ e.2)) = none) :
    ∃ p, ofTriplets m n entries = .ok p ∧ p.shape = (m, n) ∧
      ∀ r c, (r, c) ∈ p.triplets ↔ (r, c) ∈ entries := by
  have hspec := ofTriplets_spec (inside_of_find?_eq_none h)
  rwa [if_pos hn] at hspec

theorem map_sorted_buckets {p : Pattern} (hncols : p.ncols = n)
    (h : ∀ r c, (r, c) ∈ p.triplets ↔ (r, c) ∈ entries) :
    (((List.range n).map (Compressed.bucket (entries.map Prod.swap))).map fun rows =>
      Compressed.dropRepeated rows.mergeSort) = p.columns := by
  have hlen : p.columns.length = n := hncols
  refine List.ext_getElem (by simp [hlen]) fun c h₁ hc => ?_
  rw [List.getElem_map, List.getElem_map, List.getElem_range]
  have hcolumn := p.isColumn _ (List.getElem_mem hc)
  refine (Compressed.pairwise_sorted _).eq_of_mem_iff hcolumn.1 fun {r} => ?_
  rw [Compressed.mem_dropRepeated, List.mem_mergeSort, Compressed.mem_bucket,
    mem_column_iff (List.getElem?_eq_getElem hc), h]
  simp

/-- The check accepts what sorting the entries writes, and it is the pattern of the entries. -/
theorem check_ofEntries (m n : Nat) (entries : List (Nat × Nat)) :
    (do
      Size.checkLength n
      (← Compressed.ofEntries m n entries).check) = ofTriplets m n entries := by
  by_cases hn : n < Size.listLimit
  · rw [Size.checkLength, if_pos hn, Compressed.ofEntries, Compressed.foldlM_bucketEntry]
    cases hfind : entries.find? fun e => decide (m ≤ e.1 ∨ n ≤ e.2) with
    | some e => exact (ofTriplets_of_outside hn hfind).symm
    | none =>
      obtain ⟨p, hp, hshape, hmem⟩ := ofTriplets_of_inside hn hfind
      obtain ⟨hnrows, hncols⟩ := Prod.mk.inj hshape
      have hword : p.ncols + 1 < Size.wordLimit := by
        rw [hncols]
        exact Nat.lt_of_le_of_lt hn (by decide)
      show (Compressed.ofLanes m n _).check = _
      rw [map_sorted_buckets hncols hmem, hp, ← check_compressed hword, compressed_eq_ofLanes,
        hnrows, hncols]
  · rw [ofTriplets_of_oversize hn, Size.checkLength, if_neg hn]
    rfl

theorem spec_of_ofTriplets {p : Pattern} (h : ofTriplets m n entries = .ok p) :
    (n < Size.listLimit ∧ ∀ e ∈ entries, e.1 < m ∧ e.2 < n) ∧
      p.shape = (m, n) ∧ ∀ r c, (r, c) ∈ p.triplets ↔ (r, c) ∈ entries := by
  by_cases hn : n < Size.listLimit
  · cases hfind : entries.find? fun e => decide (m ≤ e.1 ∨ n ≤ e.2) with
    | some e => cases h.symm.trans (ofTriplets_of_outside hn hfind)
    | none =>
      obtain ⟨q, hq, hspec⟩ := ofTriplets_of_inside hn hfind
      obtain rfl := Except.ok.inj (h.symm.trans hq)
      exact ⟨⟨hn, inside_of_find?_eq_none hfind⟩, hspec⟩
  · cases h.symm.trans (ofTriplets_of_oversize hn)

/-- What entries in any order make. More columns than a list can hold are refused, and so is an
entry outside of the shape, of which the first is reported. Any other entries are the entries of a
pattern, which their set determines. Sorting them column by column writes its arrays. -/
structure MakesPattern (m n : Nat) (entries : List (Nat × Nat)) : Prop where
  oversize : ¬ n < Size.listLimit → ofTriplets m n entries = .error .misuse
  refused : n < Size.listLimit →
    ((∃ e, ofTriplets m n entries = .error e) ↔ ∃ e ∈ entries, m ≤ e.1 ∨ n ≤ e.2)
  reported {e : Nat × Nat} : n < Size.listLimit →
    (entries.find? fun e => decide (m ≤ e.1 ∨ n ≤ e.2)) = some e →
    ofTriplets m n entries = .error (.invalidPattern (.outside e.1 e.2 m n))
  pattern {p : Pattern} : ofTriplets m n entries = .ok p →
    p.shape = (m, n) ∧ ∀ r c, (r, c) ∈ p.triplets ↔ (r, c) ∈ entries
  canonical {p : Pattern} {entries' : List (Nat × Nat)} : ofTriplets m n entries = .ok p →
    (∀ e, e ∈ entries' ↔ e ∈ entries) → ofTriplets m n entries' = .ok p
  written : (do
      Size.checkLength n
      (← Compressed.ofEntries m n entries).check) = ofTriplets m n entries

theorem makesPattern (m n : Nat) (entries : List (Nat × Nat)) : MakesPattern m n entries where
  oversize := ofTriplets_of_oversize
  refused hn := by
    cases hfind : entries.find? fun e => decide (m ≤ e.1 ∨ n ≤ e.2) with
    | some e =>
      have houtside : m ≤ e.1 ∨ n ≤ e.2 := by simpa using List.find?_some hfind
      exact iff_of_true ⟨_, ofTriplets_of_outside hn hfind⟩
        ⟨e, List.mem_of_find?_eq_some hfind, houtside⟩
    | none =>
      obtain ⟨p, hp, -⟩ := ofTriplets_of_inside hn hfind
      have hinside := inside_of_find?_eq_none hfind
      refine iff_of_false (by simp [hp]) ?_
      rintro ⟨e, he, houtside⟩
      have := hinside e he
      omega
  reported := ofTriplets_of_outside
  pattern h := (spec_of_ofTriplets h).2
  canonical {p entries'} h hset := by
    obtain ⟨⟨hn, hinside⟩, hshape, hmem⟩ := spec_of_ofTriplets h
    have hspec := ofTriplets_spec fun e he => hinside e ((hset e).1 he)
    rw [if_pos hn] at hspec
    obtain ⟨q, hq, hshape', hmem'⟩ := hspec
    have hqp : q = p := ext_triplets (hshape'.trans hshape.symm) fun r c => by
      rw [hmem', hmem, hset]
    rw [hq, hqp]
  written := check_ofEntries m n entries

theorem ofTriplets_triplets (p : Pattern) : ofTriplets p.nrows p.ncols p.triplets =
    if p.ncols < Size.listLimit then .ok p else .error .misuse := by
  have hspec := ofTriplets_spec fun e (he : (e.1, e.2) ∈ p.triplets) => lt_of_mem_triplets he
  split
  · rename_i hn
    rw [if_pos hn] at hspec
    obtain ⟨q, hq, hshape, hmem⟩ := hspec
    rw [hq, ext_triplets hshape hmem]
  · rename_i hn
    exact ofTriplets_of_oversize hn

/-- Entries in any order make the one pattern of their set, and every pattern is made of its
entries. -/
theorem ofTriplets_canonical :
    (∀ m n entries, MakesPattern m n entries) ∧
      ∀ p : Pattern, ofTriplets p.nrows p.ncols p.triplets =
        if p.ncols < Size.listLimit then .ok p else .error .misuse :=
  ⟨makesPattern, ofTriplets_triplets⟩

-- Rows that come twice and in the wrong order, and a column without rows.
example : ofTriplets 3 2 [(2, 0), (0, 0), (2, 0)] = .ok ⟨3, [[0, 2], []], by decide⟩ := rfl

end Pattern

end DiffGraph
