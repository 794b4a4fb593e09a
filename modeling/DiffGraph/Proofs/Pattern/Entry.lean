import Mathlib
import DiffGraph.Pattern.Build

/-!
# Entries of a buffer

A buffer on a pattern gives every entry of the matrix a value: the nonzero with
the entry's number, and zero where the pattern has none (`entry`). Numbers and
positions determine each other (`nzIndex_eq_some_iff`), so a buffer is gathered from
its entries (`gather_entry`).
-/

namespace DiffGraph

theorem IsColumn.nodup {n : Nat} {rows : List Nat} (h : IsColumn n rows) : rows.Nodup :=
  h.1.imp Nat.ne_of_lt

theorem idxOf?_eq_some_iff_getElem? {xs : List Nat} (h : xs.Nodup) {x i : Nat} :
    xs.idxOf? x = some i ↔ xs[i]? = some x := by
  rw [List.idxOf?_eq_some_iff, List.getElem?_eq_some_iff]
  constructor
  · rintro ⟨hi, hx, -⟩
    exact ⟨hi, hx⟩
  · rintro ⟨hi, hx⟩
    refine ⟨hi, hx, fun j hj hjx => ?_⟩
    have := (List.getElem_inj h).1 (hjx.trans hx.symm)
    omega

namespace Pattern

/-- The entries of consecutive columns, by column, by place in the column, and by number. -/
theorem getElem?_flatMap_zipIdx {cols : List (List Nat)} {s k r c : Nat} :
    ((cols.zipIdx s).flatMap fun (rows, c) => rows.map (·, c))[k]? = some (r, c) ↔
      ∃ j rows i, c = s + j ∧ cols[j]? = some rows ∧ rows[i]? = some r ∧
        k = ((cols.take j).map List.length).sum + i := by
  induction cols generalizing s k with
  | nil => simp
  | cons rows cols ih =>
    simp only [List.zipIdx_cons, List.flatMap_cons]
    rcases Nat.lt_or_ge k rows.length with hk | hk
    · rw [List.getElem?_append_left (by simpa using hk)]
      constructor
      · intro h
        simp only [List.getElem?_map, Option.map_eq_some_iff, Prod.mk.injEq] at h
        obtain ⟨r', hr, rfl, rfl⟩ := h
        exact ⟨0, rows, k, rfl, rfl, hr, by simp⟩
      · rintro ⟨j, rows', i, rfl, hj, hi, rfl⟩
        cases j with
        | zero =>
          obtain rfl : rows = rows' := by simpa using hj
          simp [hi]
        | succ j =>
          simp only [List.take_succ_cons, List.map_cons, List.sum_cons] at hk
          omega
    · rw [List.getElem?_append_right (by simpa using hk), ih]
      constructor
      · rintro ⟨j, rows', i, rfl, hj, hi, hkj⟩
        refine ⟨j + 1, rows', i, by omega, by simpa using hj, hi, ?_⟩
        simp only [List.length_map] at hkj
        simp only [List.take_succ_cons, List.map_cons, List.sum_cons]
        omega
      · rintro ⟨j, rows', i, rfl, hj, hi, rfl⟩
        cases j with
        | zero =>
          obtain rfl : rows = rows' := by simpa using hj
          have := (List.getElem?_eq_some_iff.1 hi).1
          simp only [List.take_zero, List.map_nil, List.sum_nil] at hk
          omega
        | succ j =>
          refine ⟨j, rows', i, by omega, by simpa using hj, hi, ?_⟩
          simp only [List.take_succ_cons, List.map_cons, List.sum_cons, List.length_map]
          omega

variable {p q : Pattern} {r c k : Nat}

theorem getElem?_triplets :
    p.triplets[k]? = some (r, c) ↔
      ∃ rows i, p.columns[c]? = some rows ∧ rows[i]? = some r ∧ k = p.offset c + i := by
  rw [triplets, getElem?_flatMap_zipIdx]
  constructor
  · rintro ⟨j, rows, i, rfl, hj, hi, rfl⟩
    exact ⟨rows, i, by simpa using hj, hi, by simp [offset]⟩
  · rintro ⟨rows, i, hc, hi, rfl⟩
    exact ⟨c, rows, i, by simp, hc, hi, rfl⟩

theorem nzIndex_eq_some_iff : p.nzIndex r c = some k ↔ p.triplets[k]? = some (r, c) := by
  rw [getElem?_triplets, nzIndex]
  simp only [Option.bind_eq_some_iff, Option.map_eq_some_iff]
  constructor
  · rintro ⟨rows, hc, i, hi, rfl⟩
    have hrows := p.isColumn rows (List.mem_of_getElem? hc)
    exact ⟨rows, i, hc, (idxOf?_eq_some_iff_getElem? hrows.nodup).1 hi, rfl⟩
  · rintro ⟨rows, i, hc, hi, rfl⟩
    have hrows := p.isColumn rows (List.mem_of_getElem? hc)
    exact ⟨rows, hc, i, (idxOf?_eq_some_iff_getElem? hrows.nodup).2 hi, rfl⟩

theorem nzIndex_eq_none_iff : p.nzIndex r c = none ↔ (r, c) ∉ p.triplets := by
  rw [Option.eq_none_iff_forall_ne_some, List.mem_iff_getElem?]
  simp [nzIndex_eq_some_iff]

theorem nodup_triplets (p : Pattern) : p.triplets.Nodup := by
  refine List.pairwise_iff_getElem.2 fun i j hi hj hij heq => ?_
  have hi : p.triplets[i]? = some (p.triplets[j].1, p.triplets[j].2) :=
    List.getElem?_eq_some_iff.2 ⟨hi, heq⟩
  have hj : p.triplets[j]? = some (p.triplets[j].1, p.triplets[j].2) :=
    List.getElem?_eq_getElem hj
  rw [← nzIndex_eq_some_iff] at hi hj
  exact absurd (Option.some.inj (hi.symm.trans hj)) (Nat.ne_of_lt hij)

theorem lt_nnz_of_nzIndex (h : p.nzIndex r c = some k) : k < p.nnz := by
  rw [← p.length_triplets]
  exact (List.getElem?_eq_some_iff.1 (nzIndex_eq_some_iff.1 h)).1

theorem lt_of_mem_triplets (h : (r, c) ∈ p.triplets) : r < p.nrows ∧ c < p.ncols := by
  obtain ⟨rows, hc, hr⟩ := mem_triplets.1 h
  exact ⟨(p.isColumn rows (List.mem_of_getElem? hc)).2 r hr, (List.getElem?_eq_some_iff.1 hc).1⟩

theorem ext_triplets (hshape : p.shape = q.shape)
    (h : ∀ r c, (r, c) ∈ p.triplets ↔ (r, c) ∈ q.triplets) : p = q := by
  obtain ⟨np, cp, hp⟩ := p
  obtain ⟨nq, cq, hq⟩ := q
  simp only [shape, ncols, Prod.mk.injEq] at hshape
  obtain ⟨rfl, hlen⟩ := hshape
  simp only [mem_triplets] at h
  congr 1
  refine List.ext_getElem hlen fun c h₁ h₂ => ?_
  refine (hp _ (List.getElem_mem h₁)).1.eq_of_mem_iff (hq _ (List.getElem_mem h₂)).1 fun {r} => ?_
  simpa [List.getElem?_eq_getElem h₁, List.getElem?_eq_getElem h₂] using h r c

section Entry

variable {T : Type}

/-- The buffer of a function on entries. -/
def gather (p : Pattern) (M : Nat → Nat → T) : List T :=
  p.triplets.map fun (r, c) => M r c

@[simp] theorem length_gather (M : Nat → Nat → T) : (p.gather M).length = p.nnz := by
  simp [gather]

theorem gather_congr {M N : Nat → Nat → T} (h : ∀ r c, (r, c) ∈ p.triplets → M r c = N r c) :
    p.gather M = p.gather N :=
  List.map_congr_left fun e he => h e.1 e.2 he

variable [Zero T]

/-- The entry of a matrix whose nonzeros are the given buffer. -/
def entry (p : Pattern) (v : List T) (r c : Nat) : T :=
  ((p.nzIndex r c).bind (v[·]?)).getD 0

theorem entry_of_getElem? {v : List T} (h : p.triplets[k]? = some (r, c)) :
    p.entry v r c = v[k]?.getD 0 := by
  rw [entry, nzIndex_eq_some_iff.2 h]
  rfl

theorem entry_of_not_mem {v : List T} (h : (r, c) ∉ p.triplets) : p.entry v r c = 0 := by
  rw [entry, nzIndex_eq_none_iff.2 h]
  rfl

theorem entry_of_not_lt {v : List T} (h : ¬ (r < p.nrows ∧ c < p.ncols)) :
    p.entry v r c = 0 :=
  entry_of_not_mem fun hm => h (lt_of_mem_triplets hm)

theorem entry_map {U : Type} [Zero U] {f : T → U} {v : List T} (hv : v.length = p.nnz)
    (h : (r, c) ∈ p.triplets ∨ f 0 = 0) : p.entry (v.map f) r c = f (p.entry v r c) := by
  by_cases hmem : (r, c) ∈ p.triplets
  · obtain ⟨k, hk⟩ := List.mem_iff_getElem?.1 hmem
    have hlt : k < v.length := by
      rw [hv, ← p.length_triplets]
      exact (List.getElem?_eq_some_iff.1 hk).1
    rw [entry_of_getElem? hk, entry_of_getElem? hk, List.getElem?_map,
      List.getElem?_eq_getElem hlt]
    rfl
  · rw [entry_of_not_mem hmem, entry_of_not_mem hmem, h.resolve_left hmem]

theorem entry_gather (M : Nat → Nat → T) :
    p.entry (p.gather M) r c = if (r, c) ∈ p.triplets then M r c else 0 := by
  split
  · rename_i h
    obtain ⟨k, hk⟩ := List.mem_iff_getElem?.1 h
    rw [entry_of_getElem? hk, gather, List.getElem?_map, hk]
    rfl
  · rename_i h
    exact entry_of_not_mem h

theorem gather_entry {v : List T} (h : v.length = p.nnz) : p.gather (p.entry v) = v := by
  refine List.ext_getElem (by simpa using h.symm) fun k h₁ h₂ => ?_
  obtain ⟨⟨r, c⟩, hrc⟩ : ∃ e, p.triplets[k]? = some e :=
    ⟨_, List.getElem?_eq_getElem (by simpa using h₁)⟩
  have : (p.gather (p.entry v))[k]? = some (p.entry v r c) := by
    rw [gather, List.getElem?_map, hrc]
    rfl
  rw [List.getElem?_eq_getElem h₁, Option.some.injEq] at this
  rw [this, entry_of_getElem? hrc, List.getElem?_eq_getElem h₂]
  rfl

end Entry

end Pattern

end DiffGraph
