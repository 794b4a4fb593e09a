import Mathlib
import DiffGraph.Proofs.Graph.Entries
import DiffGraph.Proofs.Term.Graph

/-!
# Operations on scalars

Between 1x1 operands with a nonzero the simplifications of the constructors hold
for elements of every type that obeys the laws of arithmetic (`ExactElement`), dual
numbers among them: `binary` has the value of the operation on the values
(`grows_binary_scalar`).
-/

namespace DiffGraph

open Element Expr

variable {α T : Type} [Scalar α] [Element Id α T] {refused : GraphError → Prop} {n : Nat}
  {S : Set (Expr α)} {x y : Expr α} {env : Nat → Nat → T}

def scalarValue (env : Nat → Nat → T) (x : Expr α) : T :=
  nth (nonzeros env x) 0

namespace IsGraph

theorem nonzeros_scalar (hS : IsGraph n S) (hx : x ∈ S) (hp : x.pattern = .scalar) :
    nonzeros env x = [scalarValue env x] := by
  have hlen : (nonzeros env x).length = 1 := by
    rw [hS.length_nonzeros hx, nnz, hp]
    rfl
  obtain ⟨v, hv⟩ := List.length_eq_one_iff.1 hlen
  rw [scalarValue, hv]
  rfl

theorem scalarValue_of_compute (hS : IsGraph n S) (hx : x ∈ S) (ho : x.isOperation = true) {v : T}
    (h : compute x (x.deps.map (nonzeros env)) = [[v]]) : scalarValue env x = v := by
  rw [scalarValue, hS.nonzeros_eq_of_compute hx ho h]
  rfl

theorem exists_of_constant? (hS : IsGraph n S) (hx : x ∈ S) (hp : x.pattern = .scalar)
    {nz : List α} (h : x.constant? = some nz) :
    ∃ a, nz = [a] ∧ ∀ env : Nat → Nat → T, scalarValue env x = ofNumber a := by
  have hlen := hS.isDag.length_of_constant? hx h
  rw [nnz, hp] at hlen
  obtain ⟨a, rfl⟩ := List.length_eq_one_iff.1 hlen
  refine ⟨a, rfl, fun env => ?_⟩
  obtain ⟨id, op, deps, p, ps⟩ := x
  cases op with
  | constant nz =>
    obtain rfl : nz = [a] := by simpa [constant?, Expr.op] using h
    exact hS.scalarValue_of_compute hx rfl rfl
  | _ => simp [constant?, Expr.op] at h

variable [ExactElement α T]

theorem scalarValue_of_isZero (hS : IsGraph n S) (hx : x ∈ S) (hp : x.pattern = .scalar)
    (h : x.isZero = true) : scalarValue env x = ofNumber 0 := by
  unfold isZero at h
  obtain ⟨nz, hnz, hall⟩ := (Option.any_eq_true _ _).1 h
  obtain ⟨a, rfl, ha⟩ := hS.exists_of_constant? (T := T) hx hp hnz
  rw [ha, ExactElement.number_congr (T := T) a 0 (by simpa using hall)]

theorem scalarValue_of_isOne (hS : IsGraph n S) (hx : x ∈ S) (hp : x.pattern = .scalar)
    (h : x.isOne = true) : scalarValue env x = ofNumber 1 := by
  unfold isOne at h
  obtain ⟨nz, hnz, hall⟩ := (Option.any_eq_true _ _).1 h
  obtain ⟨a, rfl, ha⟩ := hS.exists_of_constant? (T := T) hx hp hnz
  rw [ha, ExactElement.number_congr (T := T) a 1 (by simpa using hall)]

end IsGraph

/-- Everything that `x` is built from is a scalar with a nonzero, and has at most two operands. -/
def Expr.OfScalars (x : Expr α) : Prop :=
  ∀ y, x.Reaches y → y.patterns = [.scalar] ∧ y.deps.length ≤ 2

omit [Scalar α] in
theorem Expr.OfScalars.pattern (h : x.OfScalars) : x.pattern = .scalar := by
  obtain ⟨id, op, deps, p, ps⟩ := x
  exact (List.cons.inj (h _ (.refl _)).1).1

omit [Scalar α] in
theorem Expr.ofScalars_node {id : Nat} {op : Op α} {deps : List (Expr α)}
    (hdeps : ∀ d ∈ deps, d.OfScalars) (hlen : deps.length ≤ 2) :
    (node id op deps .scalar []).OfScalars := by
  intro y hy
  cases hy with
  | refl => exact ⟨rfl, hlen⟩
  | dep hd hy => exact hdeps _ hd y hy

/-- `x` is a scalar of the graph, made of scalars, with the values that `v` gives. -/
structure IsScalar (S : Set (Expr α)) (x : Expr α) (v : (Nat → Nat → T) → T) : Prop where
  usable : Usable S x
  ofScalars : x.OfScalars
  value : ∀ env, scalarValue env x = v env

theorem IsScalar.pattern {v : (Nat → Nat → T) → T} (h : IsScalar S x v) : x.pattern = .scalar :=
  h.ofScalars.pattern

theorem IsScalar.mono {S' : Set (Expr α)} {v : (Nat → Nat → T) → T} (h : IsScalar S x v)
    (hsub : S ⊆ S') : IsScalar S' x v :=
  { h with usable := h.usable.mono hsub }

theorem grows_scalar (hS : IsGraph n S) (a : α) :
    Grows refused n S (liftM (scalar a)) fun S' r =>
      IsScalar S' r fun _ : Nat → Nat → T => ofNumber a := by
  refine (Grows.fresh hS rfl rfl (fun id => .constant id rfl) (by simp)).mono ?_
  rintro n' S' r hext ⟨hr, id, rfl⟩
  exact ⟨hr, ofScalars_node (by simp) (by simp),
    fun env => hext.graph.scalarValue_of_compute hr.1 rfl rfl⟩

/-! ## Negation and simplification -/

variable [ExactElement α T] {v w : (Nat → Nat → T) → T}

theorem grows_neg_scalar (hS : IsGraph n S) (hx : IsScalar S x v) :
    Grows refused n S (liftM (neg x)) fun S' r =>
      IsScalar S' r fun env => apply₁ .neg (v env) := by
  unfold neg unaryNode
  split
  · rename_i nz hnz
    obtain ⟨a, rfl, ha⟩ := hS.exists_of_constant? (T := T) hx.usable.1 hx.pattern hnz
    rw [hx.pattern]
    refine (grows_scalar (T := T) hS (-a)).mono ?_
    rintro n' S' r - hr
    refine { hr with value := fun env => (hr.value env).trans ?_ }
    rw [← hx.value, ha]
    exact (ExactElement.unary_number .neg a).symm
  · rename_i z _ _ hz
    obtain ⟨id, rfl, hzus⟩ := hS.exists_of_negated? hx.usable.1 hz
    refine .pure hS ⟨hzus, fun y hy => hx.ofScalars y (.dep (List.mem_singleton_self _) hy),
      fun env => ?_⟩
    have hneg : v env = apply₁ .neg (scalarValue env z) := by
      rw [← hx.value]
      refine hS.scalarValue_of_compute hx.usable.1 rfl ?_
      show [(nonzeros env z).map (apply₁ .neg)] = _
      rw [hS.nonzeros_scalar hzus.1 hx.pattern]
      rfl
    rw [hneg, ExactElement.neg_neg]
  · refine (Grows.fresh hS rfl rfl (fun id => .unary id rfl (.inl rfl))
      (by simpa using hx.usable)).mono ?_
    rintro n' S' r hext ⟨hr, id, rfl⟩
    refine ⟨hr, ?_, fun env => hext.graph.scalarValue_of_compute hr.1 rfl ?_⟩
    · rw [hx.pattern]
      exact ofScalars_node (by simpa using hx.ofScalars) (by simp)
    · show [(nonzeros env x).map (apply₁ .neg)] = _
      rw [hS.nonzeros_scalar hx.usable.1 hx.pattern, hx.value]
      rfl

theorem align_scalar (op : BinaryOp) (hx : x.pattern = .scalar) (hy : y.pattern = .scalar) :
    align op x y = pure ⟨x, y, .none⟩ := by
  have hself (z : Expr α) (hz : z.pattern = .scalar) : z.onto .scalar = pure z := if_pos hz
  unfold align shape
  rw [hx, hy, if_pos rfl, Pattern.union_self]
  show (do
    let a ← (liftM (x.onto .scalar) : Build (Expr α))
    let b ← (liftM (y.onto .scalar) : Build (Expr α))
    pure (⟨a, b, .none⟩ : Aligned α)) = _
  rw [hself x hx, hself y hy]
  rfl

theorem simplify_scalar (hS : IsGraph n S) (op : BinaryOp) (hx : IsScalar S x v)
    (hy : IsScalar S y w) :
    match simplify op ⟨x, y, .none⟩ with
    | .operand z => IsScalar S z fun env => apply₂ op (v env) (w env)
    | .negation z => ∃ u, IsScalar S z u ∧ ∀ env, apply₁ .neg (u env) = apply₂ op (v env) (w env)
    | .zero => ∀ env, apply₂ op (v env) (w env) = ofNumber 0
    | .none => True := by
  have zero_left (hz : x.isZero = true) (env : Nat → Nat → T) : v env = ofNumber 0 := by
    rw [← hx.value, hS.scalarValue_of_isZero hx.usable.1 hx.pattern hz]
  have zero_right (hz : y.isZero = true) (env : Nat → Nat → T) : w env = ofNumber 0 := by
    rw [← hy.value, hS.scalarValue_of_isZero hy.usable.1 hy.pattern hz]
  have one_left (hz : x.isOne = true) (env : Nat → Nat → T) : v env = ofNumber 1 := by
    rw [← hx.value, hS.scalarValue_of_isOne hx.usable.1 hx.pattern hz]
  have one_right (hz : y.isOne = true) (env : Nat → Nat → T) : w env = ofNumber 1 := by
    rw [← hy.value, hS.scalarValue_of_isOne hy.usable.1 hy.pattern hz]
  have left (h : ∀ env, apply₂ op (v env) (w env) = v env) :
      IsScalar S x fun env => apply₂ op (v env) (w env) :=
    { hx with value := fun env => (hx.value env).trans (h env).symm }
  have right (h : ∀ env, apply₂ op (v env) (w env) = w env) :
      IsScalar S y fun env => apply₂ op (v env) (w env) :=
    { hy with value := fun env => (hy.value env).trans (h env).symm }
  have hxy : x.pattern = y.pattern := hx.pattern.trans hy.pattern.symm
  cases op with
  | add =>
    simp only [simplify, Aligned.pattern, hxy, decide_true, Bool.and_true]
    split_ifs with h₁ h₂
    · exact right fun env => by rw [zero_left h₁, ExactElement.zero_add]
    · exact left fun env => by rw [zero_right h₂, ExactElement.add_zero]
    · trivial
  | sub =>
    simp only [simplify, Aligned.pattern, hxy, decide_true, Bool.and_true]
    split_ifs with h₁ h₂
    · exact left fun env => by rw [zero_right h₁, ExactElement.sub_zero]
    · exact ⟨w, hy, fun env => by rw [zero_left h₂, ExactElement.zero_sub]⟩
    · trivial
  | mul =>
    simp only [simplify, Aligned.pattern, hxy, decide_true, Bool.and_true]
    split_ifs with h₁ h₂ h₃
    · intro env
      rcases Bool.or_eq_true_iff.1 h₁ with hz | hz
      · rw [zero_left hz, ExactElement.zero_mul]
      · rw [zero_right hz, ExactElement.mul_zero]
    · exact right fun env => by rw [one_left h₂, ExactElement.one_mul]
    · exact left fun env => by rw [one_right h₃, ExactElement.mul_one]
    · trivial
  | div =>
    simp only [simplify, Aligned.pattern, hxy, decide_true, Bool.and_true]
    split_ifs with h₁
    · exact left fun env => by rw [one_right h₁, ExactElement.div_one]
    · trivial

theorem grows_binary_scalar (hS : IsGraph n S) (op : BinaryOp) (hx : IsScalar S x v)
    (hy : IsScalar S y w) :
    Grows refused n S (binary op x y) fun S' r =>
      IsScalar S' r fun env => apply₂ op (v env) (w env) := by
  have hp : (⟨x, y, .none⟩ : Aligned α).pattern = .scalar := hx.pattern
  unfold Expr.binary
  rw [align_scalar op hx.pattern hy.pattern, pure_bind]
  unfold binaryNode
  dsimp only
  rw [hp]
  split
  · rename_i xs ys hxs hys
    obtain ⟨a, rfl, ha⟩ := hS.exists_of_constant? (T := T) hx.usable.1 hx.pattern hxs
    obtain ⟨b, rfl, hb⟩ := hS.exists_of_constant? (T := T) hy.usable.1 hy.pattern hys
    refine (grows_scalar (T := T) hS (op.apply a b)).mono ?_
    rintro n' S' r - hr
    refine { hr with value := fun env => (hr.value env).trans ?_ }
    show ofNumber (op.apply a b) = apply₂ op (v env) (w env)
    rw [← hx.value, ← hy.value, ha, hb, ExactElement.binary_number]
  · have hsimp := simplify_scalar hS op hx hy
    split
    · rename_i z hz
      rw [hz] at hsimp
      exact .pure hS hsimp
    · rename_i z hz
      rw [hz] at hsimp
      obtain ⟨u, hu, hval⟩ := hsimp
      refine (grows_neg_scalar hS hu).mono ?_
      rintro n' S' r - hr
      exact { hr with value := fun env => (hr.value env).trans (hval env) }
    · rename_i hz
      rw [hz] at hsimp
      refine (grows_scalar (T := T) hS 0).mono ?_
      rintro n' S' r - hr
      exact { hr with value := fun env => (hr.value env).trans (hsimp env).symm }
    · have hfits : (⟨x, y, .none⟩ : Aligned α).Fits op := hx.pattern.trans hy.pattern.symm
      refine (Grows.fresh hS rfl rfl (fun id => .binary id hp hfits) ?_).mono ?_
      · rintro d hd
        rcases List.mem_pair.1 hd with rfl | rfl
        · exact hx.usable
        · exact hy.usable
      · rintro n' S' r hext ⟨hr, id, rfl⟩
        refine ⟨hr, ofScalars_node ?_ (by simp), fun env => ?_⟩
        · rintro d hd
          rcases List.mem_pair.1 hd with rfl | rfl
          · exact hx.ofScalars
          · exact hy.ofScalars
        · show _ = apply₂ op (v env) (w env)
          rw [← hx.value, ← hy.value]
          exact hext.graph.scalarValue_of_compute hr.1 rfl rfl

end DiffGraph
