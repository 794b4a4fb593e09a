import Mathlib
import DiffGraph.Proofs.Graph.Compute

/-!
# The value of an expression

`evalTree` evaluates an expression like a tree, every operand anew, under an
assignment of elements to the symbols' nonzeros. In a graph it never fails and
gives one buffer for every result (`IsGraph.evalTree_eq`). A map between element
types that commutes with the operations commutes with evaluation
(`IsElementMap.values_map`).
-/

namespace DiffGraph

open Element

namespace Expr

variable {α T : Type} [Scalar α] [Element Id α T] {env : Nat → Nat → T}

mutual

/-- The results of an expression, every operand evaluated anew; `env id` gives the nonzeros of
the symbol with the identity `id`. -/
def evalTree (env : Nat → Nat → T) : Expr α → Except GraphError (List (List T))
  | .node id op deps pattern others => do
    let args ← evalTrees env deps
    match op with
    | .symbol _ => return [(List.range pattern.nnz).map (env id)]
    | .output i =>
      match args.head?.bind (·[i]?) with
      | some result => return [result]
      | none => throw .misuse
    | op =>
      let results ← ((node id op deps pattern others).evaluate (args.map (·.headD []))
        fun _ => true : ExceptT GraphError Id _)
      return results.map (·.getD [])

def evalTrees (env : Nat → Nat → T) : List (Expr α) → Except GraphError (List (List (List T)))
  | [] => return []
  | e :: es => return (← evalTree env e) :: (← evalTrees env es)

end

/-- The results of an expression that can be evaluated. -/
def values (env : Nat → Nat → T) (e : Expr α) : List (List T) :=
  (evalTree env e).toOption.getD []

def nonzeros (env : Nat → Nat → T) (e : Expr α) : List T :=
  (values env e).headD []

def result (env : Nat → Nat → T) (source : Expr α × Nat) : List T :=
  (values env source.1)[source.2]?.getD []

theorem nonzeros_eq_result (e : Expr α) : nonzeros env e = result env (e, 0) := by
  unfold nonzeros result
  cases values env e <;> rfl

theorem evalTrees_eq {es : List (Expr α)} (h : ∀ e ∈ es, evalTree env e = .ok (values env e)) :
    evalTrees env es = .ok (es.map (values env)) := by
  induction es with
  | nil => rfl
  | cons e es ih =>
    rw [evalTrees, h e (by simp), ih fun d hd => h d (by simp [hd])]
    rfl

theorem values_of_evalTree {e : Expr α} {vs : List (List T)} (h : evalTree env e = .ok vs) :
    values env e = vs := by
  rw [values, h]
  rfl

theorem evalTree_symbol (id : Nat) (name : String) (p : Pattern) :
    evalTree env (.node id (.symbol name) [] p []) = .ok [(List.range p.nnz).map (env id)] := rfl

theorem evalTree_output {id i : Nat} {q : Expr α} {p : Pattern} {vs : List (List T)} {v : List T}
    (h : evalTree env q = .ok vs) (hv : vs[i]? = some v) :
    evalTree env (.node id (.output i) [q] p []) = .ok [v] := by
  simp only [evalTree, evalTrees, h]
  show (match vs[i]? with
    | some result => (pure [result] : Except GraphError _)
    | none => throw GraphError.misuse) = _
  rw [hv]
  rfl

theorem map_getD_zipIdx (rs : List (List T)) :
    (rs.zipIdx.map fun (r, _) => some r).map (·.getD []) = rs := by
  rw [List.map_map]
  exact List.zipIdx_map_fst 0 rs

theorem evalTree_of_isOperation {e : Expr α} (h : e.WellFormed) (ho : e.isOperation = true)
    (hdeps : ∀ d ∈ e.deps, evalTree env d = .ok (values env d))
    (hlen : (e.deps.map (nonzeros env)).map List.length = e.deps.map nnz) :
    evalTree env e = .ok (compute e (e.deps.map (nonzeros env))) := by
  have hrun : evalTree env e = (do
      let args ← evalTrees env e.deps
      let results ← (e.evaluate (args.map (·.headD [])) fun _ => true : ExceptT GraphError Id _)
      return results.map (·.getD [])) := by
    obtain ⟨id, op, deps, p, ps⟩ := e
    cases op <;> first | rfl | simp [isOperation, Expr.op, Op.isReference] at ho
  have heval := congrArg (fun results : Except GraphError (List (Option (List T))) =>
    results.map fun rs => rs.map (·.getD [])) (h.evaluate_eq ho hlen fun _ => true)
  have hheads : (e.deps.map (values env)).map (·.headD []) = e.deps.map (nonzeros env) := by
    rw [List.map_map]
    rfl
  rw [hrun, evalTrees_eq hdeps]
  rw [← hheads] at heval ⊢
  exact heval.trans (congrArg Except.ok (map_getD_zipIdx _))

end Expr

/-! ## Values in a graph -/

namespace IsGraph

open Expr

variable {α T : Type} [Scalar α] [Element Id α T] {env : Nat → Nat → T} {n : Nat}
  {S : Set (Expr α)} {e : Expr α}

theorem length_nonzeros_of_map {e : Expr α}
    (h : (values env e).map List.length = e.patterns.map Pattern.nnz) :
    (nonzeros env e).length = e.nnz := by
  obtain ⟨ps, hps⟩ := e.exists_patterns
  rw [hps, List.map_cons] at h
  obtain ⟨v, vs, hvs, hv, -⟩ := List.map_eq_cons_iff.1 h
  rw [nonzeros, hvs]
  exact hv

/-- Evaluating an expression of a graph never fails and gives one buffer for every result. -/
theorem evalTree_eq (h : IsGraph n S) (he : e ∈ S) :
    evalTree env e = .ok (values env e) ∧
      (values env e).map List.length = e.patterns.map Pattern.nnz := by
  induction e using Expr.induction with
  | step e ih =>
    have hd (d : Expr α) (hde : d ∈ e.deps) := ih d hde (h.closed e he d hde)
    have hwf := h.wellFormed e he
    by_cases ho : e.isOperation = true
    · have hlen : (e.deps.map (nonzeros env)).map List.length = e.deps.map nnz := by
        rw [List.map_map]
        exact List.map_congr_left fun d hde => length_nonzeros_of_map (hd d hde).2
      have heval := evalTree_of_isOperation hwf ho (fun d hde => (hd d hde).1) hlen
      rw [values_of_evalTree heval]
      exact ⟨heval, hwf.map_length_compute ho hlen⟩
    · rcases isSymbol_or_isOutput (by simpa using ho) with hs | hs
      · obtain ⟨id, name, p, rfl⟩ := hwf.exists_of_isSymbol hs
        rw [values_of_evalTree (evalTree_symbol id name p)]
        exact ⟨evalTree_symbol id name p, by simp [patterns]⟩
      · obtain ⟨id, i, q, p, rfl, -, hp⟩ := hwf.exists_of_isOutput hs
        obtain ⟨hq, hlen⟩ := hd q (List.mem_singleton_self q)
        have hi := congrArg (·[i]?) hlen
        simp only [List.getElem?_map, hp, Option.map_some, Option.map_eq_some_iff] at hi
        obtain ⟨v, hv, hvp⟩ := hi
        have heval : evalTree env (node id (.output i) [q] p []) = .ok [v] := evalTree_output hq hv
        rw [values_of_evalTree heval]
        exact ⟨heval, by simp [patterns, hvp]⟩

theorem length_nonzeros (h : IsGraph n S) (he : e ∈ S) : (nonzeros env e).length = e.nnz :=
  length_nonzeros_of_map (h.evalTree_eq he).2

theorem length_values (h : IsGraph n S) (he : e ∈ S) :
    (values env e).map List.length = e.patterns.map Pattern.nnz :=
  (h.evalTree_eq he).2

theorem length_values_eq (h : IsGraph n S) (he : e ∈ S) :
    (values env e).length = e.resultCount := by
  have hlen : (values env e).map List.length = e.patterns.map Pattern.nnz := h.length_values he
  simpa [resultCount] using congrArg List.length hlen

theorem getElem?_values (h : IsGraph n S) (he : e ∈ S) {i : Nat} (hi : i < e.resultCount) :
    (values env e)[i]? = some (result env (e, i)) := by
  have hlen : (values env e).length = e.resultCount := h.length_values_eq he
  rw [← hlen] at hi
  rw [result, List.getElem?_eq_getElem hi]
  rfl

theorem values_of_not_isSplit (h : IsGraph n S) (he : e ∈ S) (hs : e.op.isSplit = false) :
    values env e = [nonzeros env e] := by
  have hlen : (values env e).map List.length = e.patterns.map Pattern.nnz := h.length_values he
  rw [(h.wellFormed e he).patterns_eq hs, List.map_singleton, List.map_eq_singleton_iff] at hlen
  obtain ⟨v, hv, -⟩ := hlen
  rw [nonzeros, hv]
  rfl

theorem map_length_operands (h : IsGraph n S) (he : e ∈ S) :
    (e.deps.map (nonzeros env)).map List.length = e.deps.map nnz := by
  rw [List.map_map]
  exact List.map_congr_left fun d hd => h.length_nonzeros (h.closed e he d hd)

/-- The results of an operation come from the nonzeros of its operands. -/
theorem values_eq_compute (h : IsGraph n S) (he : e ∈ S) (ho : e.isOperation = true) :
    values env e = compute e (e.deps.map (nonzeros env)) :=
  values_of_evalTree (evalTree_of_isOperation (h.wellFormed e he) ho
    (fun d hd => (h.evalTree_eq (h.closed e he d hd)).1) (h.map_length_operands he))

theorem nonzeros_of_isSymbol (h : IsGraph n S) (he : e ∈ S) (hs : e.isSymbol = true) :
    nonzeros env e = (List.range e.nnz).map (env e.id) := by
  obtain ⟨id, name, p, rfl⟩ := (h.wellFormed e he).exists_of_isSymbol hs
  rw [nonzeros, values_of_evalTree (evalTree_symbol id name p)]
  rfl

theorem nonzeros_eq_source (h : IsGraph n S) (he : e ∈ S) :
    nonzeros env e = result env e.source := by
  by_cases ho : e.isOutput = true
  · obtain ⟨id, i, q, p, rfl, -, hp⟩ := (h.wellFormed e he).exists_of_isOutput ho
    obtain ⟨hq, hlen⟩ : evalTree env q = .ok (values env q) ∧
        (values env q).map List.length = q.patterns.map Pattern.nnz :=
      h.evalTree_eq (h.closed _ he q (List.mem_singleton_self q))
    have hi := congrArg (·[i]?) hlen
    simp only [List.getElem?_map, hp, Option.map_some, Option.map_eq_some_iff] at hi
    obtain ⟨v, hv, -⟩ := hi
    rw [nonzeros, values_of_evalTree (evalTree_output hq hv), source, result]
    simp only [Expr.op, Expr.deps, hv]
    rfl
  · rw [source_of_not_isOutput (by simpa using ho), nonzeros_eq_result]

end IsGraph

/-! ## Maps between element types -/

/-- The map commutes with the elements of numbers and with every operation. -/
structure IsElementMap {α T U : Type} [Element Id α T] [Element Id α U] (h : T → U) : Prop where
  ofNumber (x : α) : h (ofNumber x) = ofNumber x
  apply₁ (op : UnaryOp) (x : T) : h (apply₁ op x) = apply₁ op (h x)
  apply₂ (op : BinaryOp) (x y : T) : h (apply₂ op x y) = apply₂ op (h x) (h y)

namespace IsElementMap

open Expr

variable {α T U : Type} [Element Id α T] [Element Id α U] {h : T → U}

theorem foldl_products (hh : IsElementMap h) (pairs : List (T × T)) (start : T) :
    (pairs.map (Prod.map h h)).foldl
        (fun total (a, b) => Element.apply₂ .add total (Element.apply₂ .mul a b))
        (h start) =
      h (pairs.foldl
        (fun total (a, b) => Element.apply₂ .add total (Element.apply₂ .mul a b)) start) := by
  induction pairs generalizing start with
  | nil => rfl
  | cons p pairs ih =>
    simp only [List.map_cons, List.foldl_cons, Prod.map, ← hh.apply₂]
    exact ih _

variable [Scalar α]

theorem nth_map (hh : IsElementMap h) (xs : List T) (k : Nat) :
    nth (xs.map h) k = h (nth xs k) := by
  rw [nth, nth, List.getElem?_map]
  cases xs[k]? with
  | none => exact (hh.ofNumber 0).symm
  | some x => rfl

theorem compute_map (hh : IsElementMap h) (e : Expr α) (args : List (List T)) :
    compute e (args.map (List.map h)) = (compute e args).map (List.map h) := by
  have operand (i : Nat) : (args.map (List.map h))[i]?.getD [] = (args[i]?.getD []).map h := by
    rw [List.getElem?_map]
    cases args[i]? <;> rfl
  unfold compute
  simp only [operand]
  split
  · rfl
  · rfl
  · simp [hh.ofNumber, Function.comp_def]
  · simp [hh.apply₁, Function.comp_def]
  · simp [hh.apply₂, hh.nth_map, Function.comp_def]
  · simp only [List.map_cons, List.map_nil, ← hh.ofNumber, List.zip_map, hh.foldl_products]
  · simp [hh.nth_map, Function.comp_def]
  · rename_i mapping
    simp only [List.map_cons, List.map_nil, List.map_map]
    refine congrArg (fun r => [r]) (List.map_congr_left fun k _ => ?_)
    cases k with
    | none => exact (hh.ofNumber 0).symm
    | some k => exact hh.nth_map _ _
  · simp [List.map_flatten]
  · simp [slice, List.map_drop, List.map_take, Function.comp_def]

theorem values_map (hh : IsElementMap h) {n : Nat} {S : Set (Expr α)} (hS : IsGraph n S)
    {env : Nat → Nat → T} {env' : Nat → Nat → U}
    (henv : ∀ x ∈ S, x.isSymbol = true → ∀ k, env' x.id k = h (env x.id k)) {e : Expr α}
    (he : e ∈ S) : values env' e = (values env e).map (List.map h) := by
  induction e using Expr.induction with
  | step e ih =>
    have nonzeros_map (d : Expr α) (hd : d ∈ e.deps) :
        nonzeros env' d = (nonzeros env d).map h := by
      rw [nonzeros, nonzeros, ih d hd (hS.closed e he d hd)]
      cases values env d <;> rfl
    by_cases ho : e.isOperation = true
    · have hargs : e.deps.map (nonzeros env') = (e.deps.map (nonzeros env)).map (List.map h) := by
        rw [List.map_map]
        exact List.map_congr_left nonzeros_map
      rw [hS.values_eq_compute he ho, hS.values_eq_compute he ho, hargs, hh.compute_map]
    · have hs : e.op.isSplit = false := by
        by_contra hs
        exact ho (isOperation_of_isSplit (by simpa using hs))
      rw [hS.values_of_not_isSplit he hs, hS.values_of_not_isSplit he hs]
      rcases isSymbol_or_isOutput (by simpa using ho) with hsym | hout
      · rw [hS.nonzeros_of_isSymbol he hsym, hS.nonzeros_of_isSymbol he hsym]
        simp [henv e he hsym]
      · rw [hS.nonzeros_eq_source he, hS.nonzeros_eq_source he]
        obtain ⟨id, i, q, p, rfl, -, -⟩ := (hS.wellFormed e he).exists_of_isOutput hout
        have hq := ih q (List.mem_singleton_self q) (hS.closed _ he q (List.mem_singleton_self q))
        simp only [source, Expr.op, Expr.deps, result, hq, List.getElem?_map]
        cases (values env q)[i]? <;> rfl

theorem nonzeros_map (hh : IsElementMap h) {n : Nat} {S : Set (Expr α)} (hS : IsGraph n S)
    {env : Nat → Nat → T} {env' : Nat → Nat → U}
    (henv : ∀ x ∈ S, x.isSymbol = true → ∀ k, env' x.id k = h (env x.id k)) {e : Expr α}
    (he : e ∈ S) : nonzeros env' e = (nonzeros env e).map h := by
  rw [nonzeros, nonzeros, hh.values_map hS henv he]
  cases values env e <;> rfl

end IsElementMap

/-- Only what the symbols of a graph are assigned matters to its values. -/
theorem Expr.nonzeros_congr {α T : Type} [Scalar α] [Element Id α T] {n : Nat}
    {S : Set (Expr α)} (hS : IsGraph n S) {env env' : Nat → Nat → T}
    (henv : ∀ x ∈ S, x.isSymbol = true → env' x.id = env x.id) {e : Expr α} (he : e ∈ S) :
    nonzeros env' e = nonzeros env e := by
  have hid : IsElementMap (α := α) fun x : T => x :=
    ⟨fun _ => rfl, fun _ _ => rfl, fun _ _ _ => rfl⟩
  exact (hid.nonzeros_map hS (fun x hx hsym k => congrFun (henv x hx hsym) k) he).trans
    (List.map_id _)

end DiffGraph
