import Mathlib
import DiffGraph.Proofs.Pattern.Splits

/-!
# Matrices laid out along an axis

`Axis.layout` is what stands at a place of matrices put side by side, on top of
each other or along the diagonal, for matrices of any sizes. Where parts make up
a pattern, the nonzeros and the entries of the whole are the layout of those of
its parts (`Joins.mem_triplets_iff_layout`, `Joins.entry_eq_layout`). The layout
of transposed matrices along the other axis is the transposed layout
(`Axis.layout_flip`), which is how rows of matrices are split and joined.
-/

namespace DiffGraph

/-- A matrix as a part of another one: its shape, and what stands at its places. -/
structure Block (T : Type) where
  shape : Nat × Nat
  place : Nat → Nat → T

def Block.flip {T : Type} (b : Block T) : Block T where
  shape := b.shape.swap
  place := fun r c => b.place c r

namespace Axis

variable {T : Type} {d : T} {axis : Axis} {b : Block T} {bs : List (Block T)} {r c : Nat}

/-- How far a part of the given shape moves the parts after it. -/
def stride : Axis → Nat × Nat → Nat × Nat
  | .horizontal, shape => (0, shape.2)
  | .vertical, shape => (shape.1, 0)
  | .diagonal, shape => shape

/-- What stands at a place of blocks laid out along the axis; `d` stands outside of them. -/
def layout (axis : Axis) (d : T) : List (Block T) → Nat → Nat → T
  | [], _, _ => d
  | b :: bs, r, c =>
    if r < b.shape.1 ∧ c < b.shape.2 then b.place r c
    else if (axis.stride b.shape).1 ≤ r ∧ (axis.stride b.shape).2 ≤ c then
      layout axis d bs (r - (axis.stride b.shape).1) (c - (axis.stride b.shape).2)
    else d

/-- Parts of these shapes go together along the axis. -/
def Fit : Axis → List (Nat × Nat) → Prop
  | .horizontal, shapes => ∃ m, ∀ s ∈ shapes, s.1 = m
  | .vertical, shapes => ∃ k, ∀ s ∈ shapes, s.2 = k
  | .diagonal, _ => True

/-- Parts of these shapes fill a matrix of the given shape. -/
def Spans : Axis → List (Nat × Nat) → Nat × Nat → Prop
  | .horizontal, shapes, whole =>
    (∀ s ∈ shapes, s.1 = whole.1) ∧ whole.2 = (shapes.map Prod.snd).sum
  | .vertical, shapes, whole =>
    (∀ s ∈ shapes, s.2 = whole.2) ∧ whole.1 = (shapes.map Prod.fst).sum
  | .diagonal, shapes, whole =>
    whole.1 = (shapes.map Prod.fst).sum ∧ whole.2 = (shapes.map Prod.snd).sum

/-- Where the part after parts of these shapes begins. -/
def origin (axis : Axis) (shapes : List (Nat × Nat)) : Nat × Nat :=
  ((shapes.map fun s => (axis.stride s).1).sum, (shapes.map fun s => (axis.stride s).2).sum)

def flip : Axis → Axis
  | .horizontal => .vertical
  | .vertical => .horizontal
  | .diagonal => .diagonal

theorem step_eq_stride (axis : Axis) (p : Pattern) : axis.step p = axis.stride p.shape := by
  cases axis <;> rfl

/-- A place lies in the first block, behind it, or in no block. -/
theorem place_cases (axis : Axis) (shape : Nat × Nat) (r c : Nat) :
    (r < shape.1 ∧ c < shape.2) ∨
      (∃ r' c', r = (axis.stride shape).1 + r' ∧ c = (axis.stride shape).2 + c') ∨
        (¬ (r < shape.1 ∧ c < shape.2) ∧
          ¬ ((axis.stride shape).1 ≤ r ∧ (axis.stride shape).2 ≤ c)) := by
  by_cases hin : r < shape.1 ∧ c < shape.2
  · exact .inl hin
  · by_cases hle : (axis.stride shape).1 ≤ r ∧ (axis.stride shape).2 ≤ c
    · exact .inr (.inl ⟨_, _, (Nat.add_sub_cancel' hle.1).symm, (Nat.add_sub_cancel' hle.2).symm⟩)
    · exact .inr (.inr ⟨hin, hle⟩)

theorem layout_of_lt (hr : r < b.shape.1) (hc : c < b.shape.2) :
    axis.layout d (b :: bs) r c = b.place r c :=
  if_pos ⟨hr, hc⟩

theorem layout_stride_add :
    axis.layout d (b :: bs) ((axis.stride b.shape).1 + r) ((axis.stride b.shape).2 + c) =
      axis.layout d bs r c := by
  have houtside : ¬ ((axis.stride b.shape).1 + r < b.shape.1 ∧
      (axis.stride b.shape).2 + c < b.shape.2) := by
    cases axis <;> simp only [stride] <;> omega
  rw [layout, if_neg houtside, if_pos ⟨Nat.le_add_right _ _, Nat.le_add_right _ _⟩,
    Nat.add_sub_cancel_left, Nat.add_sub_cancel_left]

theorem layout_of_outside (h : ¬ (r < b.shape.1 ∧ c < b.shape.2))
    (h' : ¬ ((axis.stride b.shape).1 ≤ r ∧ (axis.stride b.shape).2 ≤ c)) :
    axis.layout d (b :: bs) r c = d := by
  rw [layout, if_neg h, if_neg h']

theorem layout_origin_add (axis : Axis) (d : T) {i : Nat} (hb : bs[i]? = some b)
    (hr : r < b.shape.1) (hc : c < b.shape.2) :
    axis.layout d bs ((axis.origin ((bs.map Block.shape).take i)).1 + r)
      ((axis.origin ((bs.map Block.shape).take i)).2 + c) = b.place r c := by
  induction bs generalizing i with
  | nil => simp at hb
  | cons b₀ bs ih =>
    cases i with
    | zero =>
      obtain rfl : b₀ = b := by simpa using hb
      simpa [origin] using layout_of_lt hr hc
    | succ i =>
      have hrest := ih (i := i) (by simpa using hb)
      simp only [origin, List.map_cons, List.take_succ_cons, List.sum_cons, Nat.add_assoc]
      rw [layout_stride_add]
      exact hrest

theorem origin_horizontal (shapes : List (Nat × Nat)) :
    horizontal.origin shapes = (0, (shapes.map Prod.snd).sum) := by
  simp [origin, stride]

theorem origin_vertical (shapes : List (Nat × Nat)) :
    vertical.origin shapes = ((shapes.map Prod.fst).sum, 0) := by
  simp [origin, stride]

theorem origin_diagonal (shapes : List (Nat × Nat)) :
    diagonal.origin shapes = ((shapes.map Prod.fst).sum, (shapes.map Prod.snd).sum) :=
  rfl

theorem stride_flip (axis : Axis) (shape : Nat × Nat) :
    axis.flip.stride shape.swap = (axis.stride shape).swap := by
  cases axis <;> rfl

theorem layout_flip (axis : Axis) (d : T) (bs : List (Block T)) (r c : Nat) :
    axis.flip.layout d (bs.map Block.flip) r c = axis.layout d bs c r := by
  induction bs generalizing r c with
  | nil => rfl
  | cons b bs ih =>
    have hstride : axis.flip.stride b.flip.shape = (axis.stride b.shape).swap :=
      stride_flip axis b.shape
    rw [List.map_cons, layout, layout, hstride, ih]
    simp only [Block.flip, Prod.fst_swap, Prod.snd_swap, and_comm]

theorem spans_flip {shapes : List (Nat × Nat)} {whole : Nat × Nat} (h : axis.Spans shapes whole) :
    axis.flip.Spans (shapes.map Prod.swap) whole.swap := by
  cases axis with
  | horizontal => exact ⟨List.forall_mem_map.2 h.1, by rw [List.map_map]; exact h.2⟩
  | vertical => exact ⟨List.forall_mem_map.2 h.1, by rw [List.map_map]; exact h.2⟩
  | diagonal => exact ⟨by rw [List.map_map]; exact h.2, by rw [List.map_map]; exact h.1⟩

theorem Spans.unique {shapes : List (Nat × Nat)} {whole whole' : Nat × Nat}
    (h : axis.Spans shapes whole) (h' : axis.Spans shapes whole') (hne : shapes ≠ []) :
    whole = whole' := by
  obtain ⟨s, ss, rfl⟩ := List.exists_cons_of_ne_nil hne
  have hs : s ∈ s :: ss := List.mem_cons_self
  cases axis with
  | horizontal => exact Prod.ext ((h.1 s hs).symm.trans (h'.1 s hs)) (h.2.trans h'.2.symm)
  | vertical => exact Prod.ext (h.2.trans h'.2.symm) ((h.1 s hs).symm.trans (h'.1 s hs))
  | diagonal => exact Prod.ext (h.1.trans h'.1.symm) (h.2.trans h'.2.symm)

end Axis

namespace Pattern

variable {T : Type} [Zero T] {p whole : Pattern} {parts : List Pattern} {axis : Axis}

def support (p : Pattern) : Block Prop where
  shape := p.shape
  place r c := (r, c) ∈ p.triplets

def matrix (p : Pattern) (v : List T) : Block T where
  shape := p.shape
  place := p.entry v

namespace Joins

theorem spans (h : Joins axis parts whole) : axis.Spans (parts.map shape) whole.shape := by
  cases axis with
  | horizontal =>
    refine ⟨fun s hs => ?_, ?_⟩
    · obtain ⟨p, hp, rfl⟩ := List.mem_map.1 hs
      exact h.1 p hp
    · rw [List.map_map]
      exact h.ncols_horizontal
  | vertical =>
    refine ⟨fun s hs => ?_, ?_⟩
    · obtain ⟨p, hp, rfl⟩ := List.mem_map.1 hs
      exact (h.1 p hp).trans h.ncols_vertical.symm
    · rw [List.map_map]
      exact h.nrows_vertical
  | diagonal =>
    refine ⟨?_, ?_⟩
    · rw [List.map_map]
      exact h.nrows_diagonal
    · rw [List.map_map]
      exact h.ncols_diagonal

theorem mem_triplets_iff_layout (h : Joins axis parts whole) {r c : Nat} :
    (r, c) ∈ whole.triplets ↔ axis.layout False (parts.map support) r c := by
  induction parts generalizing whole r c with
  | nil => simp [h.triplets_nil, Axis.layout]
  | cons p ps ih =>
    obtain ⟨rest, hrest, heq⟩ := h.triplets_cons
    rw [axis.step_eq_stride] at heq
    rw [heq, List.mem_append, List.map_cons]
    rcases axis.place_cases p.support.shape r c with hin | ⟨r', c', rfl, rfl⟩ | ⟨hout, hnle⟩
    · rw [Axis.layout_of_lt hin.1 hin.2]
      refine or_iff_left fun hmem => ?_
      obtain ⟨e, -, he⟩ := List.mem_map.1 hmem
      exact shift_step_ne hin.1 hin.2 e (axis.step_eq_stride p ▸ he)
    · have hnot : shift (axis.stride p.shape) (r', c') ∉ p.triplets :=
        axis.step_eq_stride p ▸ shift_step_not_mem axis p (r', c')
      have hshifted : shift (axis.stride p.shape) (r', c') ∈
          rest.triplets.map (shift (axis.stride p.shape)) ↔ (r', c') ∈ rest.triplets :=
        List.mem_map_of_injective (shift_injective _)
      rw [Axis.layout_stride_add, ← ih hrest]
      exact (or_iff_right hnot).trans hshifted
    · rw [Axis.layout_of_outside hout hnle]
      refine iff_of_false ?_ id
      rintro (hmem | hmem)
      · exact hout (lt_of_mem_triplets hmem)
      · obtain ⟨e, -, he⟩ := List.mem_map.1 hmem
        obtain ⟨rfl, rfl⟩ := Prod.mk.inj he
        exact hnle ⟨Nat.le_add_right _ _, Nat.le_add_right _ _⟩

theorem entry_eq_layout (h : Joins axis parts whole) {vs : List (List T)}
    (hlen : vs.map List.length = parts.map nnz) {r c : Nat} :
    whole.entry vs.flatten r c = axis.layout 0 (List.zipWith matrix parts vs) r c := by
  induction parts generalizing whole vs r c with
  | nil => exact entry_of_not_mem (by simp [h.triplets_nil])
  | cons p ps ih =>
    obtain ⟨rest, hrest, heq⟩ := h.triplets_cons
    cases vs with
    | nil => simp at hlen
    | cons v vs =>
      obtain ⟨hv, hlen⟩ := List.cons.inj hlen
      rw [List.flatten_cons, List.zipWith_cons_cons]
      rcases axis.place_cases (p.matrix v).shape r c with hin | ⟨r', c', rfl, rfl⟩ | ⟨hout, hnle⟩
      · rw [Axis.layout_of_lt hin.1 hin.2]
        exact entry_append_left heq hv (shift_step_ne hin.1 hin.2)
      · have hentry := entry_append_right heq hv (w := vs.flatten)
          (shift_step_not_mem axis p (r', c'))
        rw [Axis.layout_stride_add, ← ih hrest hlen, ← hentry, axis.step_eq_stride]
        rfl
      · rw [Axis.layout_of_outside hout hnle]
        refine entry_of_not_mem fun hmem => ?_
        have hlayout := h.mem_triplets_iff_layout.1 hmem
        rwa [List.map_cons, Axis.layout_of_outside (b := p.support) hout hnle] at hlayout

end Joins

end Pattern

end DiffGraph
