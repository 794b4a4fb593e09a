import Mathlib
import DiffGraph.Expr.Permute
import DiffGraph.Proofs.Pattern.Entry

/-!
# Unions, projections and transposes, entry by entry

The nonzeros of a union are those of either pattern. Projecting a buffer keeps
the entries of the target and makes all others zero (`entry_projectList`), and
permuting it for the transposed pattern swaps rows and columns
(`entry_permuteList`).
-/

namespace DiffGraph

namespace Pattern

variable {p q u : Pattern} {r c k : Nat}

/-! ## Regular patterns -/

@[simp] theorem nrows_empty (m n : Nat) : (empty m n).nrows = m := rfl

@[simp] theorem ncols_empty (m n : Nat) : (empty m n).ncols = n := by simp [empty, ncols]

@[simp] theorem shape_empty (m n : Nat) : (empty m n).shape = (m, n) := by simp [shape]

theorem not_mem_triplets_empty {m n : Nat} : (r, c) ∉ (empty m n).triplets := by
  rw [mem_triplets]
  rintro ⟨rows, hc, hr⟩
  obtain rfl : rows = [] := List.eq_of_mem_replicate (List.mem_of_getElem? hc)
  simp at hr

@[simp] theorem nnz_empty (m n : Nat) : (empty m n).nnz = 0 := by
  simp [nnz, empty]

@[simp] theorem nrows_dense (m n : Nat) : (dense m n).nrows = m := rfl

@[simp] theorem ncols_dense (m n : Nat) : (dense m n).ncols = n := by simp [dense, ncols]

@[simp] theorem shape_dense (m n : Nat) : (dense m n).shape = (m, n) := by simp [shape]

@[simp] theorem mem_triplets_dense {m n : Nat} : (r, c) ∈ (dense m n).triplets ↔ r < m ∧ c < n := by
  rw [mem_triplets]
  simp only [dense, List.getElem?_map, Option.map_eq_some_iff, exists_exists_and_eq_and,
    List.getElem?_eq_some_iff]
  simp [and_comm]

@[simp] theorem nnz_dense (m n : Nat) : (dense m n).nnz = m * n := by
  simp [nnz, dense, List.map_const', Nat.mul_comm]

@[simp] theorem shape_scalar : scalar.shape = (1, 1) := rfl

@[simp] theorem nnz_scalar : scalar.nnz = 1 := rfl

theorem triplets_scalar : scalar.triplets = [(0, 0)] := rfl

theorem isScalar_iff : p.isScalar = true ↔ p.shape = (1, 1) := by
  simp [isScalar]

/-! ## Unions -/

theorem union_eq_ok_of_shape (h : p.shape = q.shape) : ∃ u, p.union q = .ok u := by
  unfold union
  split
  · exact ⟨_, rfl⟩
  · exact ⟨_, rfl⟩

theorem shape_of_union (h : p.union q = .ok u) : u.shape = p.shape ∧ u.shape = q.shape := by
  unfold union at h
  split at h
  · rename_i hpq
    obtain rfl := Except.ok.inj h
    exact ⟨rfl, hpq ▸ rfl⟩
  · split at h
    · rename_i hshape
      obtain rfl := Except.ok.inj h
      have hcols : p.columns.length = q.columns.length := congrArg Prod.snd hshape
      rw [← hshape]
      simp [shape, ncols, hcols]
    · cases h

theorem mem_triplets_union (h : p.union q = .ok u) :
    (r, c) ∈ u.triplets ↔ (r, c) ∈ p.triplets ∨ (r, c) ∈ q.triplets := by
  unfold union at h
  split at h
  · rename_i hpq
    obtain rfl := Except.ok.inj h
    rw [hpq, or_self]
  · split at h
    · rename_i hshape
      obtain rfl := Except.ok.inj h
      have hcols : p.columns.length = q.columns.length := congrArg Prod.snd hshape
      simp only [mem_triplets, List.getElem?_zipWith]
      rcases Nat.lt_or_ge c p.columns.length with hc | hc
      · simp [List.getElem?_eq_getElem hc, List.getElem?_eq_getElem (hcols ▸ hc), mem_mergeRows]
      · simp [List.getElem?_eq_none hc, List.getElem?_eq_none (hcols ▸ hc)]
    · cases h

/-! ## Projection -/

section Values

variable {α : Type} [Scalar α]

@[simp] theorem length_projectList (mapping : List (Option Nat)) (v : List α) :
    (Expr.projectList mapping v).length = mapping.length := by
  simp [Expr.projectList]

theorem projectList_projection (p q : Pattern) (v : List α) :
    Expr.projectList (p.projection q) v = q.gather (p.entry v) := by
  simp [Expr.projectList, projection, gather, entry]

/-- What the target lacks is dropped, what the source lacks is zero. -/
theorem entry_projectList (v : List α) :
    q.entry (Expr.projectList (p.projection q) v) r c =
      if (r, c) ∈ q.triplets then p.entry v r c else 0 := by
  rw [projectList_projection, entry_gather]

end Values

/-! ## Transposition -/

theorem mem_triplets_transpose : (c, r) ∈ p.transpose.triplets ↔ (r, c) ∈ p.triplets := by
  rw [mem_triplets, transpose]
  simp only [List.getElem?_map, Option.map_eq_some_iff, exists_exists_and_eq_and]
  constructor
  · rintro ⟨r', hr, hc⟩
    obtain ⟨hlt, rfl⟩ := List.getElem?_eq_some_iff.1 hr
    rw [List.getElem_range] at hc
    exact has_iff.1 (mem_columnsOf.1 hc)
  · intro h
    refine ⟨r, ?_, mem_columnsOf.2 (has_iff.2 h)⟩
    rw [List.getElem?_range (lt_of_mem_triplets h).1]

theorem transpose_transpose (p : Pattern) : p.transpose.transpose = p := by
  refine ext_triplets (by simp [shape, transpose, ncols]) fun r c => ?_
  rw [mem_triplets_transpose, mem_triplets_transpose]

theorem transposition_eq_map (p : Pattern) :
    p.transposition.map some = p.transpose.triplets.map fun (c, r) => p.nzIndex r c := by
  unfold transposition
  rw [List.map_filterMap]
  rw [← List.filterMap_eq_map]
  refine List.filterMap_congr fun e he => ?_
  obtain ⟨c, r⟩ := e
  obtain ⟨k, hk⟩ := List.mem_iff_getElem?.1 (mem_triplets_transpose.1 he)
  simp [nzIndex_eq_some_iff.2 hk]

@[simp] theorem length_transposition (p : Pattern) :
    p.transposition.length = p.transpose.nnz := by
  simpa using congrArg List.length p.transposition_eq_map

theorem lt_nnz_of_mem_transposition (h : k ∈ p.transposition) : k < p.nnz := by
  have : some k ∈ p.transposition.map some := List.mem_map_of_mem h
  rw [transposition_eq_map, List.mem_map] at this
  obtain ⟨⟨c, r⟩, -, hk⟩ := this
  exact lt_nnz_of_nzIndex hk

section Values

variable {α : Type} [Scalar α]

theorem permuteList_transposition (p : Pattern) (v : List α) :
    Expr.permuteList p.transposition v = p.transpose.gather fun c r => p.entry v r c := by
  have : Expr.permuteList p.transposition v =
      (p.transposition.map some).map fun k => (k.bind (v[·]?)).getD 0 := by
    simp [Expr.permuteList]
  rw [this, transposition_eq_map]
  simp [gather, entry]

theorem entry_permuteList (v : List α) :
    p.transpose.entry (Expr.permuteList p.transposition v) c r = p.entry v r c := by
  rw [permuteList_transposition, entry_gather]
  split
  · rfl
  · rename_i h
    exact (entry_of_not_mem fun hm => h (mem_triplets_transpose.2 hm)).symm

end Values

end Pattern

end DiffGraph
