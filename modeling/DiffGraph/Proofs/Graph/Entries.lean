import Mathlib
import DiffGraph.Dual
import DiffGraph.Proofs.Graph.Elementwise

/-!
# The entries of a node

What every operation does to the entries of its operands, for elements of any
type whose zero is the number zero (`ExactZero`): one lemma for each kind of
node. The lemmas hold of numbers and of dual numbers alike.
-/

namespace DiffGraph

open Element Expr

/-- The number zero is the zero of the elements. -/
class ExactZero (α T : Type) [Scalar α] [Zero T] [Element Id α T] : Prop where
  ofNumber_zero : (ofNumber (0 : α) : T) = 0

instance {α : Type} [Scalar α] : ExactZero α α := ⟨rfl⟩

instance {α : Type} [Scalar α] : ExactZero α (Dual α) := ⟨rfl⟩

variable {α T : Type} [Scalar α] [Scalar T] [Element Id α T] [ExactZero α T] {n : Nat}
  {S : Set (Expr α)} {env : Nat → Nat → T} {id r c : Nat} {x y : Expr α} {p : Pattern}

theorem nth_eq_getD (xs : List T) (k : Nat) : nth xs k = xs[k]?.getD 0 := by
  rw [nth, ExactZero.ofNumber_zero]

theorem nth_operand {k i : Nat}
    (h : x.pattern = .scalar ∧ i = 0 ∨ x.pattern.triplets[k]? = some (r, c) ∧ i = k) :
    nth (nonzeros env x) i = spreadEntry env x r c := by
  rcases h with ⟨hp, rfl⟩ | ⟨hk, rfl⟩
  · have hs : x.shape = (1, 1) := congrArg Pattern.shape hp
    rw [nth_eq_getD, spreadEntry, if_pos hs, entry, hp]
    exact (Pattern.entry_of_getElem? (by rw [Pattern.triplets_scalar]; rfl)).symm
  · obtain ⟨hr, hc⟩ := lt_of_getElem?_triplets hk
    rw [nth_eq_getD, spreadEntry_of_lt env hr hc, entry, Pattern.entry_of_getElem? hk]

namespace IsGraph

omit [Scalar T] [ExactZero α T] in
theorem nonzeros_eq_of_compute (hS : IsGraph n S) {e : Expr α} (he : e ∈ S)
    (ho : e.isOperation = true) {v : List T} (h : compute e (e.deps.map (nonzeros env)) = [v]) :
    nonzeros env e = v := by
  rw [nonzeros, hS.values_eq_compute he ho, h]
  rfl

omit [Scalar T] [ExactZero α T] in
theorem nonzeros_constant (hS : IsGraph n S) {nz : List α}
    (he : node id (.constant nz) [] p [] ∈ S) :
    nonzeros env (node id (.constant nz) [] p []) = nz.map ofNumber :=
  hS.nonzeros_eq_of_compute he rfl rfl

omit [ExactZero α T] in
theorem entry_unary (hS : IsGraph n S) {op : UnaryOp} (he : node id (.unary op) [x] p [] ∈ S)
    (hrc : (r, c) ∈ p.triplets) :
    entry env (node id (.unary op) [x] p []) r c = apply₁ op (entry env x r c) := by
  have hx : x ∈ S := hS.closed _ he x (List.mem_singleton_self x)
  have hval : nonzeros env (node id (.unary op) [x] p []) = (nonzeros env x).map (apply₁ op) :=
    hS.nonzeros_eq_of_compute he rfl rfl
  cases hS.wellFormed _ he with
  | unary _ pattern _ =>
    subst pattern
    rw [entry, hval]
    exact Pattern.entry_map (hS.length_nonzeros hx) (.inl hrc)

theorem entry_binary (hS : IsGraph n S) {op : BinaryOp} {broadcast : Broadcast}
    (he : node id (.binary op broadcast) [x, y] p [] ∈ S) (hrc : (r, c) ∈ p.triplets) :
    entry env (node id (.binary op broadcast) [x, y] p []) r c =
      apply₂ op (spreadEntry env x r c) (spreadEntry env y r c) := by
  obtain ⟨k, hk⟩ := List.mem_iff_getElem?.1 hrc
  have hlt : k < p.nnz := by
    rw [← p.length_triplets]
    exact (List.getElem?_eq_some_iff.1 hk).1
  have hval : nonzeros env (node id (.binary op broadcast) [x, y] p []) =
      (List.range p.nnz).map fun k => apply₂ op (nth (nonzeros env x) (broadcast.operands k).1)
        (nth (nonzeros env y) (broadcast.operands k).2) :=
    hS.nonzeros_eq_of_compute he rfl rfl
  cases hS.wellFormed _ he with
  | binary _ pattern fits =>
    have hoperands :
        nth (nonzeros env x) (broadcast.operands k).1 = spreadEntry env x r c ∧
          nth (nonzeros env y) (broadcast.operands k).2 = spreadEntry env y r c := by
      cases broadcast with
      | none =>
        have hxp : x.pattern = p := pattern
        have hyp : y.pattern = p := fits.symm.trans pattern
        exact ⟨nth_operand (.inr ⟨hxp ▸ hk, rfl⟩), nth_operand (.inr ⟨hyp ▸ hk, rfl⟩)⟩
      | left =>
        have hyp : y.pattern = p := pattern
        exact ⟨nth_operand (k := k) (.inl ⟨fits.1, rfl⟩),
          nth_operand (.inr ⟨hyp ▸ hk, rfl⟩)⟩
      | right =>
        have hxp : x.pattern = p := pattern
        exact ⟨nth_operand (.inr ⟨hxp ▸ hk, rfl⟩),
          nth_operand (k := k) (.inl ⟨fits.1, rfl⟩)⟩
    rw [entry, hval]
    refine (Pattern.entry_of_getElem? hk).trans ?_
    rw [List.getElem?_map, List.getElem?_range hlt, Option.map_some, Option.getD_some,
      hoperands.1, hoperands.2]

theorem entry_transpose (hS : IsGraph n S) {mapping : List Nat}
    (he : node id (.transpose mapping) [x] p [] ∈ S) (r c : Nat) :
    entry env (node id (.transpose mapping) [x] p []) r c = entry env x c r := by
  have hval : nonzeros env (node id (.transpose mapping) [x] p []) =
      mapping.map (nth (nonzeros env x)) := hS.nonzeros_eq_of_compute he rfl rfl
  cases hS.wellFormed _ he with
  | transpose _ numbers pattern =>
    subst numbers pattern
    rw [entry, hval, List.map_congr_left fun k _ => nth_eq_getD _ k]
    exact Pattern.entry_permuteList _

theorem entry_project (hS : IsGraph n S) {mapping : List (Option Nat)}
    (he : node id (.project mapping) [x] p [] ∈ S) (r c : Nat) :
    entry env (node id (.project mapping) [x] p []) r c =
      if (r, c) ∈ p.triplets then entry env x r c else 0 := by
  have hval : nonzeros env (node id (.project mapping) [x] p []) =
      mapping.map fun k => k.elim (ofNumber (0 : α)) (nth (nonzeros env x)) :=
    hS.nonzeros_eq_of_compute he rfl rfl
  cases hS.wellFormed _ he with
  | project _ numbers shape =>
    subst numbers
    have hentry (k : Option Nat) : k.elim (ofNumber (0 : α)) (nth (nonzeros env x)) =
        (k.bind fun k => (nonzeros env x)[k]?).getD 0 := by
      cases k with
      | none => exact ExactZero.ofNumber_zero
      | some k => exact nth_eq_getD _ k
    rw [entry, hval, List.map_congr_left fun k _ => hentry k]
    exact Pattern.entry_projectList _

omit [Scalar T] [ExactZero α T] in
theorem nonzeros_innerProduct (hS : IsGraph n S) (he : node id .innerProduct [x, y] p [] ∈ S) :
    nonzeros env (node id .innerProduct [x, y] p []) =
      [((nonzeros env x).zip (nonzeros env y)).foldl
        (fun total ab => apply₂ .add total (apply₂ .mul ab.1 ab.2)) (ofNumber (0 : α))] :=
  hS.nonzeros_eq_of_compute he rfl rfl

omit [Scalar T] [ExactZero α T] in
theorem nonzeros_join (hS : IsGraph n S) {axis : Axis} {parts : List (Expr α)}
    (he : node id (.join axis) parts p [] ∈ S) :
    nonzeros env (node id (.join axis) parts p []) = (parts.map (nonzeros env)).flatten :=
  hS.nonzeros_eq_of_compute he rfl rfl

omit [Scalar T] [ExactZero α T] in
theorem values_split (hS : IsGraph n S) {axis : Axis} {offsets : List Nat} {ps : List Pattern}
    (he : node id (.split axis offsets) [x] p ps ∈ S) :
    values env (node id (.split axis offsets) [x] p ps) =
      chunks ((p :: ps).map Pattern.nnz) (nonzeros env x) := by
  have hval : values env (node id (.split axis offsets) [x] p ps) =
      (Offsets.blocks offsets).map fun ab => slice (nonzeros env x) ab.1 ab.2 :=
    hS.values_eq_compute he rfl
  cases hS.wellFormed _ he with
  | split _ count table joins =>
    subst table
    rw [hval]
    exact map_slice_blocks _ 0 _

end IsGraph

end DiffGraph
