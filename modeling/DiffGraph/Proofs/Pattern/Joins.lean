import Mathlib
import DiffGraph.Expr.Basic
import DiffGraph.Pattern.Blocks
import DiffGraph.Proofs.Pattern.Algebra

/-!
# Patterns laid out along an axis

`Joins axis parts whole` says that `whole` consists of the parts side by side, on
top of each other (columns only) or along the diagonal; joining and splitting
both lead to it. In all three cases the nonzeros of the whole are those of the
parts one part after the other, shifted by the corner where the part begins
(`Joins.triplets_cons`), so a buffer of the whole is the buffers of the parts
strung together.
-/

namespace DiffGraph

def Axis.step : Axis → Pattern → Nat × Nat
  | .horizontal, p => (0, p.ncols)
  | .vertical, p => (p.nrows, 0)
  | .diagonal, p => (p.nrows, p.ncols)

/-- Where the part after the given ones begins. -/
def Axis.corner (axis : Axis) (parts : List Pattern) : Nat × Nat :=
  ((parts.map fun p => (axis.step p).1).sum, (parts.map fun p => (axis.step p).2).sum)

namespace Pattern

/-- `whole` is made of the parts along the axis. -/
def Joins : Axis → List Pattern → Pattern → Prop
  | .horizontal, parts, whole =>
    (∀ p ∈ parts, p.nrows = whole.nrows) ∧ whole.columns = parts.flatMap columns
  | .vertical, parts, whole =>
    (∀ p ∈ parts, p.ncols = 1) ∧ whole = parts.foldr above (empty 0 1)
  | .diagonal, parts, whole => whole = parts.foldr diagonally (empty 0 0)

def shift (d e : Nat × Nat) : Nat × Nat :=
  (d.1 + e.1, d.2 + e.2)

variable {p q whole : Pattern} {parts : List Pattern} {axis : Axis}

theorem eq_of_columns_eq (hrows : p.nrows = q.nrows) (hcols : p.columns = q.columns) : p = q := by
  obtain ⟨np, cp, _⟩ := p
  obtain ⟨nq, cq, _⟩ := q
  obtain rfl : np = nq := hrows
  obtain rfl : cp = cq := hcols
  rfl

theorem flatMap_zipIdx_add (cols : List (List Nat)) (s : Nat) :
    (cols.zipIdx s).flatMap (fun (rows, c) => rows.map (·, c)) =
      (cols.zipIdx.flatMap fun (rows, c) => rows.map (·, c)).map (shift (0, s)) := by
  rw [List.zipIdx_eq_map_add, List.flatMap_map, List.map_flatMap]
  congr 1
  funext ⟨rows, c⟩
  simp [shift, Nat.add_comm]

theorem flatMap_zipIdx_map_add (cols : List (List Nat)) (m : Nat) :
    ((cols.map (·.map (m + ·))).zipIdx.flatMap fun (rows, c) => rows.map (·, c)) =
      (cols.zipIdx.flatMap fun (rows, c) => rows.map (·, c)).map (shift (m, 0)) := by
  rw [List.zipIdx_map, List.flatMap_map, List.map_flatMap]
  congr 1
  funext ⟨rows, c⟩
  simp [shift, Function.comp_def]

theorem triplets_of_columns_append {cols : List (List Nat)}
    (h : whole.columns = p.columns ++ cols) :
    whole.triplets =
      p.triplets ++
        (cols.zipIdx.flatMap fun (rows, c) => rows.map (·, c)).map (shift (0, p.ncols)) := by
  rw [triplets, h, List.zipIdx_append, List.flatMap_append, flatMap_zipIdx_add cols]
  simp [triplets, ncols]

theorem triplets_diagonally (p q : Pattern) :
    (diagonally p q).triplets = p.triplets ++ q.triplets.map (shift (p.nrows, p.ncols)) := by
  have hcolumns : (diagonally p q).columns = p.columns ++ q.columns.map (·.map (p.nrows + ·)) := rfl
  rw [triplets_of_columns_append hcolumns, flatMap_zipIdx_map_add, List.map_map]
  congr 2
  funext ⟨r, c⟩
  simp [shift]

theorem exists_columns_of_ncols (h : p.ncols = 1) : ∃ rows, p.columns = [rows] :=
  List.length_eq_one_iff.1 h

theorem triplets_above (hp : p.ncols = 1) (hq : q.ncols = 1) :
    (above p q).triplets = p.triplets ++ q.triplets.map (shift (p.nrows, 0)) := by
  obtain ⟨a, ha⟩ := exists_columns_of_ncols hp
  obtain ⟨b, hb⟩ := exists_columns_of_ncols hq
  simp [triplets, above, ha, hb, shift, Function.comp_def]

theorem ncols_above (hp : p.ncols = 1) (hq : q.ncols = 1) : (above p q).ncols = 1 := by
  have hp : p.columns.length = 1 := hp
  have hq : q.columns.length = 1 := hq
  simp [above, ncols, hp, hq]

namespace Joins

variable {T : Type} [Zero T]

theorem ncols_vertical (h : Joins .vertical parts whole) : whole.ncols = 1 := by
  obtain ⟨hcols, rfl⟩ := h
  induction parts with
  | nil => simp
  | cons p ps ih =>
    exact ncols_above (hcols p (by simp)) (ih fun q hq => hcols q (by simp [hq]))

/-- The first part, and what the other parts make. -/
theorem triplets_cons (h : Joins axis (p :: parts) whole) :
    ∃ rest, Joins axis parts rest ∧
      whole.triplets = p.triplets ++ rest.triplets.map (shift (axis.step p)) := by
  cases axis with
  | horizontal =>
    obtain ⟨hrows, hcols⟩ := h
    have hsame : ∀ q ∈ parts, q.nrows = whole.nrows := fun q hq => hrows q (by simp [hq])
    refine ⟨beside whole.nrows parts hsame, ⟨hsame, rfl⟩, ?_⟩
    rw [List.flatMap_cons] at hcols
    exact triplets_of_columns_append hcols
  | vertical =>
    obtain ⟨hcols, rfl⟩ := h
    have hrest : Joins .vertical parts (parts.foldr above (empty 0 1)) :=
      ⟨fun q hq => hcols q (by simp [hq]), rfl⟩
    exact ⟨_, hrest, triplets_above (hcols p (by simp)) hrest.ncols_vertical⟩
  | diagonal =>
    obtain rfl := h
    exact ⟨_, rfl, triplets_diagonally _ _⟩

theorem eq_of_singleton (h : Joins axis [p] whole) : whole = p := by
  cases axis with
  | horizontal => exact eq_of_columns_eq (h.1 p (by simp)).symm (by simpa using h.2)
  | vertical =>
    obtain ⟨hcols, rfl⟩ := h
    obtain ⟨rows, hrows⟩ := exists_columns_of_ncols (hcols p (by simp))
    exact eq_of_columns_eq rfl (by simp [above, empty, hrows])
  | diagonal =>
    obtain rfl := h
    exact eq_of_columns_eq rfl (by simp [diagonally, empty])

theorem triplets_nil (h : Joins axis [] whole) : whole.triplets = [] := by
  cases axis with
  | horizontal => simp [triplets, h.2]
  | vertical => simp [triplets, h.2, empty]
  | diagonal =>
    obtain rfl : whole = empty 0 0 := h
    rfl

theorem nnz_eq (h : Joins axis parts whole) : whole.nnz = (parts.map nnz).sum := by
  induction parts generalizing whole with
  | nil => simp [← length_triplets, h.triplets_nil]
  | cons p ps ih =>
    obtain ⟨rest, hrest, heq⟩ := h.triplets_cons
    rw [← length_triplets, heq, List.length_append, List.length_map, length_triplets,
      length_triplets, ih hrest, List.map_cons, List.sum_cons]

end Joins

/-! ## Entries of the parts -/

theorem shift_injective (d : Nat × Nat) : Function.Injective (shift d) := by
  rintro ⟨a, b⟩ ⟨a', b'⟩ h
  simp only [shift, Prod.mk.injEq, Nat.add_left_cancel_iff] at h
  exact Prod.ext h.1 h.2

theorem shift_step_not_mem (axis : Axis) (p : Pattern) (e : Nat × Nat) :
    shift (axis.step p) e ∉ p.triplets := by
  intro h
  have := lt_of_mem_triplets h
  cases axis <;> simp only [Axis.step] at this <;> omega

theorem shift_step_ne {r c : Nat} (hr : r < p.nrows) (hc : c < p.ncols) (e : Nat × Nat) :
    shift (axis.step p) e ≠ (r, c) := by
  intro h
  rw [Prod.ext_iff] at h
  cases axis <;> simp only [shift, Axis.step] at h <;> omega

section Entry

variable {T : Type} [Zero T] {rest : Pattern} {v w : List T} {d : Nat × Nat} {r c : Nat}

omit [Zero T] in
theorem gather_of_triplets (h : whole.triplets = p.triplets ++ rest.triplets.map (shift d))
    (M : Nat → Nat → T) :
    whole.gather M = p.gather M ++ rest.gather fun r c => M (d.1 + r) (d.2 + c) := by
  rw [gather, h, List.map_append, List.map_map]
  rfl

theorem entry_append_left (h : whole.triplets = p.triplets ++ rest.triplets.map (shift d))
    (hv : v.length = p.nnz) (hne : ∀ e, shift d e ≠ (r, c)) :
    whole.entry (v ++ w) r c = p.entry v r c := by
  by_cases hm : (r, c) ∈ p.triplets
  · obtain ⟨k, hk⟩ := List.mem_iff_getElem?.1 hm
    have hlt : k < p.triplets.length := (List.getElem?_eq_some_iff.1 hk).1
    have hw : whole.triplets[k]? = some (r, c) := by
      rw [h, List.getElem?_append_left hlt, hk]
    rw [entry_of_getElem? hk, entry_of_getElem? hw,
      List.getElem?_append_left (by simpa [hv] using hlt)]
  · rw [entry_of_not_mem hm, entry_of_not_mem]
    rw [h, List.mem_append, List.mem_map]
    rintro (hp | ⟨e, -, he⟩)
    · exact hm hp
    · exact hne e he

theorem entry_append_right (h : whole.triplets = p.triplets ++ rest.triplets.map (shift d))
    (hv : v.length = p.nnz) (hnm : shift d (r, c) ∉ p.triplets) :
    whole.entry (v ++ w) (d.1 + r) (d.2 + c) = rest.entry w r c := by
  by_cases hm : (r, c) ∈ rest.triplets
  · obtain ⟨k, hk⟩ := List.mem_iff_getElem?.1 hm
    have hw : whole.triplets[p.nnz + k]? = some (d.1 + r, d.2 + c) := by
      rw [h, List.getElem?_append_right (by simp), List.getElem?_map]
      simp [hk, shift]
    rw [entry_of_getElem? hk, entry_of_getElem? hw, List.getElem?_append_right (by simp [hv])]
    simp [hv]
  · rw [entry_of_not_mem hm, entry_of_not_mem]
    rw [h, List.mem_append, List.mem_map]
    rintro (hp | ⟨e, he, hshift⟩)
    · exact hnm hp
    · obtain rfl : e = (r, c) := shift_injective d hshift
      exact hm he

/-- Two wholes whose parts have the same shapes: the entries of the one on the pattern of the other
are those of its parts on the other's parts. -/
theorem Joins.gather_entry_flatten {whole' : Pattern} {parts' : List Pattern}
    (h : Joins axis parts whole) (h' : Joins axis parts' whole')
    (hshape : parts.map shape = parts'.map shape) {vs : List (List T)}
    (hlen : vs.map List.length = parts'.map nnz) :
    whole.gather (whole'.entry vs.flatten) =
      (List.zipWith (fun p (q, v) => p.gather (q.entry v)) parts (parts'.zip vs)).flatten := by
  induction parts generalizing whole whole' parts' vs with
  | nil =>
    rw [gather, h.triplets_nil]
    rfl
  | cons p ps ih =>
    obtain ⟨q, qs, rfl⟩ : ∃ q qs, parts' = q :: qs := by
      cases parts' with
      | nil => simp at hshape
      | cons q qs => exact ⟨q, qs, rfl⟩
    obtain ⟨v, vs, rfl⟩ : ∃ v us, vs = v :: us := by
      cases vs with
      | nil => simp at hlen
      | cons v vs => exact ⟨v, vs, rfl⟩
    obtain ⟨hpq, hshape⟩ := List.cons.inj hshape
    obtain ⟨hv, hlen⟩ := List.cons.inj hlen
    obtain ⟨rest, hrest, heq⟩ := h.triplets_cons
    obtain ⟨rest', hrest', heq'⟩ := h'.triplets_cons
    have hrows : p.nrows = q.nrows := congrArg Prod.fst hpq
    have hcols : p.ncols = q.ncols := congrArg Prod.snd hpq
    have hstep : axis.step p = axis.step q := by
      cases axis <;> simp only [Axis.step, hrows, hcols]
    have hfirst : p.gather (whole'.entry (v :: vs).flatten) = p.gather (q.entry v) := by
      refine gather_congr fun r c hrc => ?_
      obtain ⟨hr, hc⟩ := lt_of_mem_triplets hrc
      rw [List.flatten_cons]
      exact entry_append_left heq' hv (shift_step_ne (hrows ▸ hr) (hcols ▸ hc))
    have hothers : (rest.gather fun r c => whole'.entry (v :: vs).flatten ((axis.step p).1 + r)
        ((axis.step p).2 + c)) = rest.gather (rest'.entry vs.flatten) := by
      refine gather_congr fun r c _ => ?_
      rw [List.flatten_cons, hstep]
      exact entry_append_right heq' hv (shift_step_not_mem axis q _)
    rw [gather_of_triplets heq, hfirst, hothers, ih hrest hrest' hshape hlen, List.zip_cons_cons,
      List.zipWith_cons_cons, List.flatten_cons]

/-- The nonzeros of a part are those of the whole behind its corner. -/
theorem Joins.mem_triplets_iff (h : Joins axis parts whole) {i : Nat} (hp : parts[i]? = some p)
    (hr : r < p.nrows) (hc : c < p.ncols) :
    shift (axis.corner (parts.take i)) (r, c) ∈ whole.triplets ↔ (r, c) ∈ p.triplets := by
  induction parts generalizing whole i with
  | nil => simp at hp
  | cons q ps ih =>
    obtain ⟨rest, hrest, heq⟩ := h.triplets_cons
    rw [heq, List.mem_append]
    cases i with
    | zero =>
      obtain rfl : q = p := by simpa using hp
      have hcorner : shift (axis.corner []) (r, c) = (r, c) := by simp [shift, Axis.corner]
      rw [List.take_zero, hcorner, List.mem_map]
      refine ⟨fun hm => hm.resolve_right ?_, .inl⟩
      rintro ⟨e, -, he⟩
      exact shift_step_ne hr hc e he
    | succ i =>
      have hcorner : shift (axis.corner ((q :: ps).take (i + 1))) (r, c) =
          shift (axis.step q) (shift (axis.corner (ps.take i)) (r, c)) := by
        simp [shift, Axis.corner, Nat.add_assoc]
      rw [hcorner, List.mem_map_of_injective (shift_injective _), ih hrest (by simpa using hp)]
      exact ⟨fun hm => hm.resolve_left (shift_step_not_mem axis q _), .inr⟩

theorem Joins.exists_part (h : Joins axis parts whole) {e : Nat × Nat} (he : e ∈ whole.triplets) :
    ∃ (i : Nat) (p : Pattern) (e' : Nat × Nat), parts[i]? = some p ∧ e' ∈ p.triplets ∧
      e = shift (axis.corner (parts.take i)) e' := by
  induction parts generalizing whole e with
  | nil => simp [h.triplets_nil] at he
  | cons q ps ih =>
    obtain ⟨rest, hrest, heq⟩ := h.triplets_cons
    rw [heq, List.mem_append, List.mem_map] at he
    rcases he with he | ⟨e', he', rfl⟩
    · exact ⟨0, q, e, rfl, he, by simp [shift, Axis.corner]⟩
    · obtain ⟨i, p, e'', hp, he'', rfl⟩ := ih hrest he'
      exact ⟨i + 1, p, e'', by simpa using hp, he'', by simp [shift, Axis.corner, Nat.add_assoc]⟩

end Entry

end Pattern

end DiffGraph
