import Mathlib
import DiffGraph.Proofs.Failure
import DiffGraph.Proofs.System.Jacobian

/-!
# Derivatives along directions

Along a combination of two directions an output varies by the same combination
(`Uniform.derivAt_combination`): every operation preserves this. The same holds of
any number of directions (`Uniform.derivAt_finset_sum`). So the derivative of an
output along any direction is that along the direction without some of the argument
nonzeros, together with the derivatives along these alone (`Semantics.derivAt_sum`).
-/

namespace DiffGraph

open Element

namespace System

section Directions

variable {α : Type}

def decorate {T : Type} (args : List (List α)) (F : Nat × Nat → α → T) : List (List T) :=
  args.zipIdx.map fun (a, i) => a.zipIdx.map fun (v, k) => F (i, k) v

theorem map_decorate {T U : Type} (f : T → U) (args : List (List α)) (F : Nat × Nat → α → T) :
    (decorate args F).map (List.map f) = decorate args fun w v => f (F w v) := by
  simp only [decorate, List.map_map, Function.comp_def]

theorem forall_decorate {T : Type} {P : T → Prop} {F : Nat × Nat → α → T} (h : ∀ w v, P (F w v))
    (args : List (List α)) : ∀ xs ∈ decorate args F, ∀ x ∈ xs, P x := by
  intro xs hxs x hx
  obtain ⟨⟨a, i⟩, -, rfl⟩ := List.mem_map.1 hxs
  obtain ⟨⟨v, k⟩, -, rfl⟩ := List.mem_map.1 hx
  exact h (i, k) v

theorem zipWith_seeded [Scalar α] {args derivs : List (List α)}
    (h : (List.zipWith Dual.seeded args derivs).map List.length = args.map List.length) :
    List.zipWith Dual.seeded args derivs =
      seeded args fun w => (nonzeroAt derivs w).getD 0 := by
  refine List.ext_getElem? fun i => ?_
  have hi := congrArg (·[i]?) h
  rw [getElem?_seeded]
  simp only [List.getElem?_map, List.getElem?_zipWith] at hi ⊢
  cases ha : args[i]? with
  | none => rfl
  | some a =>
    cases hd : derivs[i]? with
    | none => simp [ha, hd] at hi
    | some d =>
      have hlen : a.length ≤ d.length := by simpa [ha, hd, Dual.seeded] using hi
      refine congrArg some (List.ext_getElem? fun k => ?_)
      rw [Dual.seeded, List.getElem?_zipWith, List.getElem?_map, List.getElem?_zipIdx]
      rcases Nat.lt_or_ge k a.length with hk | hk
      · have hk' : k < d.length := by omega
        simp [nonzeroAt, hd, List.getElem?_eq_getElem hk, List.getElem?_eq_getElem hk']
      · simp [List.getElem?_eq_none hk]

end Directions

namespace Semantics

variable {α : Type} [ExactField α] {s : System α} {memory : Prop}

/-- Three dual numbers with one value; the derivative of the last one is a combination. -/
structure Combines (a : α) (x y z : Dual α) : Prop where
  left : y.value = x.value
  right : z.value = x.value
  deriv : z.deriv = a * x.deriv + y.deriv

theorem Combines.apply₁ {a : α} {x y z : Dual α} (h : Combines a x y z) (op : UnaryOp) :
    Combines a (apply₁ op x) (apply₁ op y) (apply₁ op z) where
  left := by rw [isElementMap_value.apply₁, isElementMap_value.apply₁, h.left]
  right := by rw [isElementMap_value.apply₁, isElementMap_value.apply₁, h.right]
  deriv := by
    obtain ⟨u, x'⟩ := x
    obtain ⟨v, y'⟩ := y
    obtain ⟨w, z'⟩ := z
    obtain rfl : u = v := h.left.symm
    obtain rfl : u = w := h.right.symm
    obtain rfl : z' = a * x' + y' := h.deriv
    cases op with
    | neg =>
      show -(a * x' + y') = a * -x' + -y'
      ring
    | sin =>
      show (a * x' + y') * Scalar.cos u = a * (x' * Scalar.cos u) + y' * Scalar.cos u
      ring
    | cos =>
      show -(a * x' + y') * Scalar.sin u = a * (-x' * Scalar.sin u) + -y' * Scalar.sin u
      ring
    | exp =>
      show Scalar.exp u * (a * x' + y') = a * (Scalar.exp u * x') + Scalar.exp u * y'
      ring
    | log =>
      show (a * x' + y') / u = a * (x' / u) + y' / u
      ring

theorem Combines.apply₂ {a : α} {x y z x₂ y₂ z₂ : Dual α} (h : Combines a x y z)
    (h₂ : Combines a x₂ y₂ z₂) (op : BinaryOp) :
    Combines a (apply₂ op x x₂) (apply₂ op y y₂) (apply₂ op z z₂) where
  left := by rw [isElementMap_value.apply₂, isElementMap_value.apply₂, h.left, h₂.left]
  right := by rw [isElementMap_value.apply₂, isElementMap_value.apply₂, h.right, h₂.right]
  deriv := by
    obtain ⟨u, x'⟩ := x
    obtain ⟨v, y'⟩ := y
    obtain ⟨w, z'⟩ := z
    obtain ⟨u₂, x₂'⟩ := x₂
    obtain ⟨v₂, y₂'⟩ := y₂
    obtain ⟨w₂, z₂'⟩ := z₂
    obtain rfl : u = v := h.left.symm
    obtain rfl : u = w := h.right.symm
    obtain rfl : z' = a * x' + y' := h.deriv
    obtain rfl : u₂ = v₂ := h₂.left.symm
    obtain rfl : u₂ = w₂ := h₂.right.symm
    obtain rfl : z₂' = a * x₂' + y₂' := h₂.deriv
    cases op with
    | add =>
      show a * x' + y' + (a * x₂' + y₂') = a * (x' + x₂') + (y' + y₂')
      ring
    | sub =>
      show a * x' + y' - (a * x₂' + y₂') = a * (x' - x₂') + (y' - y₂')
      ring
    | mul =>
      show u * (a * x₂' + y₂') + (a * x' + y') * u₂ =
        a * (u * x₂' + x' * u₂) + (u * y₂' + y' * u₂)
      ring
    | div =>
      show ((a * x' + y') * u₂ - u * (a * x₂' + y₂')) / (u₂ * u₂) =
        a * ((x' * u₂ - u * x₂') / (u₂ * u₂)) + (y' * u₂ - u * y₂') / (u₂ * u₂)
      ring

/-- Every operation on dual numbers is linear in their derivatives. -/
theorem isElementProperty_combines (a : α) :
    IsElementProperty (T := Dual α × Dual α × Dual α) fun t => Combines a t.1 t.2.1 t.2.2 where
  ofNumber x := by
    refine ⟨rfl, rfl, ?_⟩
    show (0 : α) = a * 0 + 0
    ring
  apply₁ op _ h := h.apply₁ op
  apply₂ op _ _ h h₂ := h.apply₂ h₂ op

end Semantics

end System

open System (derivAt seeded unit decorate forall_decorate map_decorate nonzeroAt nonzeroAt_map)

namespace Uniform

open System.Semantics (Combines isElementProperty_combines)

variable {α : Type} [ExactField α]
  {run : {T : Type} → [Element Id α T] → List (List T) → List (List T)}

theorem derivAt_combination (hrun : Uniform run) (args : List (List α)) (a : α)
    (f g : Nat × Nat → α) (w : Nat × Nat) :
    derivAt (run (seeded args fun v => a * f v + g v)) w =
      a * derivAt (run (seeded args f)) w + derivAt (run (seeded args g)) w := by
  let triples : List (List (Dual α × Dual α × Dual α)) :=
    decorate args fun v x => (⟨x, f v⟩, ⟨x, g v⟩, ⟨x, a * f v + g v⟩)
  have hcombines : ∀ ts ∈ run triples, ∀ t ∈ ts, Combines a t.1 t.2.1 t.2.2 :=
    hrun.forall_run (isElementProperty_combines a) (forall_decorate (fun v x => ⟨rfl, rfl, rfl⟩) args)
  have hproject (π : Dual α × Dual α × Dual α → Dual α) (hπ : IsElementMap π) :
      run (triples.map (List.map π)) = (run triples).map (List.map π) := hrun.map_run hπ triples
  have hf := hproject Prod.fst ⟨fun _ => rfl, fun _ _ => rfl, fun _ _ _ => rfl⟩
  have hg := hproject (fun t => t.2.1) ⟨fun _ => rfl, fun _ _ => rfl, fun _ _ _ => rfl⟩
  have hsum := hproject (fun t => t.2.2) ⟨fun _ => rfl, fun _ _ => rfl, fun _ _ _ => rfl⟩
  rw [map_decorate] at hf hg hsum
  unfold derivAt
  rw [show run (seeded args f) = _ from hf, show run (seeded args g) = _ from hg,
    show run (seeded args fun v => a * f v + g v) = _ from hsum, nonzeroAt_map, nonzeroAt_map,
    nonzeroAt_map]
  cases ht : nonzeroAt (run triples) w with
  | none => simp
  | some t =>
    obtain ⟨ts, hts, ht⟩ := Option.bind_eq_some_iff.1 ht
    exact (hcombines ts (List.mem_of_getElem? hts) t (List.mem_of_getElem? ht)).deriv

theorem derivAt_zero (hrun : Uniform run) (args : List (List α)) (w : Nat × Nat) :
    derivAt (run (seeded args fun _ => 0)) w = 0 := by
  have hdouble := hrun.derivAt_combination args 1 (fun _ => 0) (fun _ => 0) w
  simpa using hdouble

theorem derivAt_finset_sum {ι : Type} (hrun : Uniform run) (args : List (List α)) (D : Finset ι)
    (c : ι → α) (F : ι → Nat × Nat → α) (w : Nat × Nat) :
    derivAt (run (seeded args fun v => ∑ d ∈ D, c d * F d v)) w =
      ∑ d ∈ D, c d * derivAt (run (seeded args (F d))) w := by
  induction D using Finset.cons_induction with
  | empty => simpa using hrun.derivAt_zero args w
  | cons d D hd ih =>
    simp only [Finset.sum_cons]
    rw [hrun.derivAt_combination, ih]

end Uniform

namespace System.Semantics

variable {α : Type} [ExactField α] {s : System α} {memory : Prop}

/-- The derivative along a direction, with some argument nonzeros apart. -/
theorem derivAt_sum (h : s.Semantics memory) (args : List (List α)) (iind k : Nat) (f : Nat → α)
    (g : Nat × Nat → α) (w : Nat × Nat) :
    derivAt (h.run (seeded args fun v => ∑ c ∈ Finset.range k, f c * unit (iind, c) v + g v)) w =
      ∑ c ∈ Finset.range k, f c * derivAt (h.run (seeded args (unit (iind, c)))) w +
        derivAt (h.run (seeded args g)) w := by
  have hsplit := h.uniform_run.derivAt_combination args 1
    (fun v => ∑ c ∈ Finset.range k, f c * unit (iind, c) v) g w
  rw [h.uniform_run.derivAt_finset_sum] at hsplit
  simpa only [one_mul] using hsplit

end System.Semantics

/-! ## Lengths of arguments -/

section Lengths

variable {α T : Type} [Scalar α] [Element Id α T] {args outs : List (List T)}

theorem Function.lengths_of_run {f : Function α}
    (h : (f.run args : ExceptT GraphError Id _) = pure outs) :
    args.map List.length = f.inputs.map Expr.nnz := by
  by_contra hlen
  obtain ⟨e, he, -⟩ := TermFunction.checkCounts_eq_error hlen
  rw [← TermFunction.function_checkLengths_eq] at he
  unfold Function.run at h
  rw [he] at h
  cases h

theorem TermFunction.lengths_of_run {g : TermFunction α}
    (h : (g.run args : ExceptT FunctionError Id _) = pure outs) :
    args.map List.length = g.inputs.map List.length := by
  by_contra hlen
  obtain ⟨e, he, -⟩ := TermFunction.checkCounts_eq_error hlen
  rw [← TermFunction.checkLengths_eq_checkCounts] at he
  unfold TermFunction.run at h
  rw [he] at h
  cases h

end Lengths

namespace System

variable {α : Type} [Scalar α] {s : System α} {memory : Prop}

theorem IsCompiled.lengths_of_eval (hs : s.IsCompiled memory) {args outs : List (List α)}
    (h : s.eval args = .ok outs) : args.map List.length = s.inputs.map Pattern.nnz := by
  cases hs with
  | @function f n S hS hf =>
    exact (Function.lengths_of_run (ok_of_mapError h)).trans f.map_nnz_inputs.symm
  | @terms g n G hG hg =>
    exact (TermFunction.lengths_of_run h).trans (TermFunction.lengths_of_compile hg.compile).1

theorem IsCompiled.lengths_of_evalDual (hs : s.IsCompiled memory) {args outs : List (List (Dual α))}
    (h : s.evalDual args = .ok outs) : args.map List.length = s.inputs.map Pattern.nnz := by
  cases hs with
  | @function f n S hS hf =>
    exact (Function.lengths_of_run (ok_of_mapError h)).trans f.map_nnz_inputs.symm
  | @terms g n G hG hg =>
    exact (TermFunction.lengths_of_run h).trans (TermFunction.lengths_of_compile hg.compile).1

end System

end DiffGraph
