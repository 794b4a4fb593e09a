import Mathlib
import DiffGraph.Proofs.Derivative.Rules

/-!
# Derivatives of entries

Evaluated on dual numbers (`dualEnv`), an expression has its plain values together
with derivatives (`IsGraph.entry_dualEnv`). A result of a node is read through its
pattern like an expression (`sourceEntry`), so that slots and expressions speak of
the same entries.
-/

namespace DiffGraph

open Element Expr

/-! ## Dual numbers -/

section Maps

variable {α : Type}

theorem isElementMap_value [Scalar α] : IsElementMap (α := α) (Dual.value : Dual α → α) where
  ofNumber _ := rfl
  apply₁ op x := Dual.value_apply_unary x op
  apply₂ op x y := Dual.value_apply_binary x y op

/-- Operations on numbers that do not vary give numbers that do not vary. -/
theorem isElementMap_constant [ExactField α] :
    IsElementMap (α := α) (Dual.constant : α → Dual α) where
  ofNumber _ := rfl
  apply₁ op x := by
    cases op with
    | neg => exact congrArg (Dual.mk _) neg_zero.symm
    | sin => exact congrArg (Dual.mk _) (zero_mul _).symm
    | cos => exact congrArg (Dual.mk _) (by simp [Dual.constant])
    | exp => exact congrArg (Dual.mk _) (mul_zero _).symm
    | log => exact congrArg (Dual.mk _) (zero_div _).symm
  apply₂ op x y := by
    cases op with
    | add => exact congrArg (Dual.mk _) (add_zero _).symm
    | sub => exact congrArg (Dual.mk _) (sub_zero _).symm
    | mul => exact congrArg (Dual.mk _) (by simp [Dual.constant])
    | div => exact congrArg (Dual.mk _) (by simp [Dual.constant])

end Maps

section Entries

variable {α : Type} [Scalar α] {n : Nat} {S : Set (Expr α)} {env tan : Nat → Nat → α} {x : Expr α}

def dualEnv (env tan : Nat → Nat → α) : Nat → Nat → Dual α := fun id k => ⟨env id k, tan id k⟩

def tangentEntry (env tan : Nat → Nat → α) (x : Expr α) (r c : Nat) : α :=
  (entry (dualEnv env tan) x r c).deriv

/-- The derivative of an entry of an operand that counts at every place if it is 1x1. -/
def spreadTangent (env tan : Nat → Nat → α) (x : Expr α) (r c : Nat) : α :=
  (spreadEntry (dualEnv env tan) x r c).deriv

theorem IsGraph.entry_dualEnv (hS : IsGraph n S) (hx : x ∈ S) (r c : Nat) :
    entry (dualEnv env tan) x r c = ⟨entry env x r c, tangentEntry env tan x r c⟩ := by
  have hvalues : nonzeros env x = (nonzeros (dualEnv env tan) x).map Dual.value :=
    isElementMap_value.nonzeros_map hS (fun _ _ _ _ => rfl) hx
  have hentry : entry env x r c = (entry (dualEnv env tan) x r c).value := by
    rw [entry, hvalues]
    exact Pattern.entry_map (hS.length_nonzeros hx) (.inr rfl)
  rw [hentry]
  rfl

theorem IsGraph.derivs_nonzeros (hS : IsGraph n S) (hx : x ∈ S) :
    Dual.derivs (nonzeros (dualEnv env tan) x) = x.pattern.gather (tangentEntry env tan x) := by
  rw [hS.nonzeros_eq_gather hx, Dual.derivs, Pattern.gather, Pattern.gather, List.map_map]
  rfl

theorem IsGraph.spreadEntry_dualEnv (hS : IsGraph n S) (hx : x ∈ S) (r c : Nat) :
    spreadEntry (dualEnv env tan) x r c =
      ⟨spreadEntry env x r c, spreadTangent env tan x r c⟩ := by
  unfold spreadTangent spreadEntry
  split <;> rw [hS.entry_dualEnv hx]

end Entries

/-! ## The derivative rules of the nodes -/

section Nodes

variable {α : Type} [ExactField α] {n : Nat} {S : Set (Expr α)} {env tan : Nat → Nat → α}
  {id r c : Nat} {x y : Expr α} {p : Pattern}

theorem tangentEntry_of_not_mem (h : (r, c) ∉ x.pattern.triplets) :
    tangentEntry env tan x r c = 0 := by
  rw [tangentEntry, entry, Pattern.entry_of_not_mem h]
  rfl

namespace IsGraph

theorem tangentEntry_constant (hS : IsGraph n S) {nz : List α}
    (he : node id (.constant nz) [] p [] ∈ S) (r c : Nat) :
    tangentEntry env tan (node id (.constant nz) [] p []) r c = 0 := by
  have hlen : nz.length = p.nnz := by
    cases hS.wellFormed _ he with
    | constant _ length => exact length
  have hentry : p.entry (nz.map Dual.constant) r c = Dual.constant (p.entry nz r c) :=
    Pattern.entry_map hlen (.inr rfl)
  rw [tangentEntry, entry, hS.nonzeros_constant he]
  exact congrArg Dual.deriv hentry

theorem tangentEntry_unary (hS : IsGraph n S) {op : UnaryOp}
    (he : node id (.unary op) [x] p [] ∈ S) (hrc : (r, c) ∈ p.triplets) :
    tangentEntry env tan (node id (.unary op) [x] p []) r c =
      (op.apply (⟨entry env x r c, tangentEntry env tan x r c⟩ : Dual α)).deriv := by
  have hx : x ∈ S := hS.closed _ he x (List.mem_singleton_self x)
  rw [← hS.entry_dualEnv hx, tangentEntry, hS.entry_unary he hrc]
  rfl

theorem tangentEntry_binary (hS : IsGraph n S) {op : BinaryOp} {broadcast : Broadcast}
    (he : node id (.binary op broadcast) [x, y] p [] ∈ S) (hrc : (r, c) ∈ p.triplets) :
    tangentEntry env tan (node id (.binary op broadcast) [x, y] p []) r c =
      (op.apply (⟨spreadEntry env x r c, spreadTangent env tan x r c⟩ : Dual α)
        ⟨spreadEntry env y r c, spreadTangent env tan y r c⟩).deriv := by
  have hx : x ∈ S := hS.closed _ he x (by simp [deps])
  have hy : y ∈ S := hS.closed _ he y (by simp [deps])
  rw [← hS.spreadEntry_dualEnv hx, ← hS.spreadEntry_dualEnv hy, tangentEntry,
    hS.entry_binary he hrc]
  rfl

theorem tangentEntry_transpose (hS : IsGraph n S) {mapping : List Nat}
    (he : node id (.transpose mapping) [x] p [] ∈ S) (r c : Nat) :
    tangentEntry env tan (node id (.transpose mapping) [x] p []) r c =
      tangentEntry env tan x c r := by
  rw [tangentEntry, hS.entry_transpose he]
  rfl

theorem tangentEntry_project (hS : IsGraph n S) {mapping : List (Option Nat)}
    (he : node id (.project mapping) [x] p [] ∈ S) (r c : Nat) :
    tangentEntry env tan (node id (.project mapping) [x] p []) r c =
      if (r, c) ∈ p.triplets then tangentEntry env tan x r c else 0 := by
  rw [tangentEntry, hS.entry_project he]
  split <;> rfl

theorem deriv_foldl_products (pairs : List (Dual α × Dual α)) (start : Dual α) :
    (pairs.foldl (fun total ab => apply₂ .add total (apply₂ .mul ab.1 ab.2)) start).deriv =
      start.deriv + ((pairs.map fun ab => ab.1.deriv * ab.2.value).sum +
        (pairs.map fun ab => ab.1.value * ab.2.deriv).sum) := by
  induction pairs generalizing start with
  | nil => simp
  | cons ab pairs ih =>
    obtain ⟨a, b⟩ := ab
    have hstep : (apply₂ .add start (apply₂ .mul a b)).deriv =
        start.deriv + (a.value * b.deriv + a.deriv * b.value) := rfl
    rw [List.foldl_cons, ih, hstep]
    simp only [List.map_cons, List.sum_cons]
    ring

theorem tangentEntry_innerProduct (hS : IsGraph n S)
    (he : node id .innerProduct [x, y] p [] ∈ S) :
    tangentEntry env tan (node id .innerProduct [x, y] p []) 0 0 =
      total x.pattern (fun r c => tangentEntry env tan x r c * entry env y r c) +
        total x.pattern (fun r c => entry env x r c * tangentEntry env tan y r c) := by
  have hx : x ∈ S := hS.closed _ he x (by simp [deps])
  have hy : y ∈ S := hS.closed _ he y (by simp [deps])
  cases hS.wellFormed _ he with
  | innerProduct _ patterns =>
    have hpairs : (nonzeros (dualEnv env tan) x).zip (nonzeros (dualEnv env tan) y) =
        x.pattern.triplets.map fun e =>
          (entry (dualEnv env tan) x e.1 e.2, entry (dualEnv env tan) y e.1 e.2) := by
      rw [hS.nonzeros_eq_gather hx, hS.nonzeros_eq_gather hy, ← patterns, zip_gather]
    have hval : tangentEntry env tan (node id .innerProduct [x, y] .scalar []) 0 0 =
        (((nonzeros (dualEnv env tan) x).zip (nonzeros (dualEnv env tan) y)).foldl
          (fun (total : Dual α) (ab : Dual α × Dual α) =>
            apply₂ .add total (apply₂ .mul ab.1 ab.2)) (ofNumber (0 : α))).deriv := by
      rw [tangentEntry, entry, hS.nonzeros_innerProduct he]
      rfl
    rw [hval, deriv_foldl_products, hpairs, List.map_map, List.map_map]
    refine (zero_add _).trans ?_
    simp only [total, Pattern.gather, ← List.sum_eq_foldl]
    refine congrArg₂ (· + ·) (congrArg List.sum (List.map_congr_left fun e _ => ?_))
      (congrArg List.sum (List.map_congr_left fun e _ => ?_))
    · simp only [Function.comp_apply, hS.entry_dualEnv hx, hS.entry_dualEnv hy]
    · simp only [Function.comp_apply, hS.entry_dualEnv hx, hS.entry_dualEnv hy]

end IsGraph

end Nodes

/-! ## Results -/

section Results

variable {α : Type} [Scalar α] {n : Nat} {S : Set (Expr α)} {e : Expr α}

def sourcePattern (s : Expr α × Nat) : Pattern :=
  s.1.patterns[s.2]?.getD default

def sourceEntry {T : Type} [Element Id α T] [Zero T] (env : Nat → Nat → T) (s : Expr α × Nat)
    (r c : Nat) : T :=
  (sourcePattern s).entry (result env s) r c

def sourceTangent (env tan : Nat → Nat → α) (s : Expr α × Nat) (r c : Nat) : α :=
  (sourceEntry (dualEnv env tan) s r c).deriv

omit [Scalar α] in
theorem sourcePattern_zero (e : Expr α) : sourcePattern (e, 0) = e.pattern := by
  cases e
  rfl

omit [Scalar α] in
/-- An expression has the pattern of the result that it stands for. -/
theorem IsGraph.pattern_eq_source (hS : IsGraph n S) (he : e ∈ S) :
    e.pattern = sourcePattern e.source := by
  by_cases ho : e.isOutput = true
  · obtain ⟨id, i, q, p, rfl, -, hp⟩ := (hS.wellFormed e he).exists_of_isOutput ho
    simp only [source, Expr.op, Expr.deps, sourcePattern, hp]
    rfl
  · rw [source_of_not_isOutput (by simpa using ho), sourcePattern_zero]

theorem IsGraph.length_result {T : Type} [Element Id α T] {env : Nat → Nat → T} (hS : IsGraph n S)
    (he : e ∈ S) {i : Nat} (hi : i < e.resultCount) :
    (result env (e, i)).length = (sourcePattern (e, i)).nnz := by
  have hlen := congrArg (·[i]?) (hS.length_values he : (values env e).map List.length = _)
  simp only [List.getElem?_map, hS.getElem?_values he hi, List.getElem?_eq_getElem hi] at hlen
  rw [sourcePattern, List.getElem?_eq_getElem hi]
  exact Option.some.inj hlen

theorem IsGraph.derivs_result (hS : IsGraph n S) (he : e ∈ S) {i : Nat} (hi : i < e.resultCount)
    (env tan : Nat → Nat → α) : Dual.derivs (result (dualEnv env tan) (e, i)) =
      (sourcePattern (e, i)).gather (sourceTangent env tan (e, i)) := by
  have hlen : (result (dualEnv env tan) (e, i)).length = _ := hS.length_result he hi
  rw [← Pattern.gather_entry hlen, Dual.derivs, Pattern.gather, Pattern.gather, List.map_map]
  rfl

theorem IsGraph.entry_eq_source {T : Type} [Element Id α T] [Zero T] {env : Nat → Nat → T}
    (hS : IsGraph n S) (he : e ∈ S) (r c : Nat) :
    entry env e r c = sourceEntry env e.source r c := by
  rw [entry, hS.pattern_eq_source he, hS.nonzeros_eq_source he]
  rfl

theorem IsGraph.tangentEntry_eq_source (hS : IsGraph n S) (he : e ∈ S) (env tan : Nat → Nat → α)
    (r c : Nat) : tangentEntry env tan e r c = sourceTangent env tan e.source r c := by
  rw [tangentEntry, hS.entry_eq_source he]
  rfl

theorem sourceTangent_zero (env tan : Nat → Nat → α) (e : Expr α) (r c : Nat) :
    sourceTangent env tan (e, 0) r c = tangentEntry env tan e r c := by
  rw [tangentEntry, entry, nonzeros_eq_result, sourceTangent, sourceEntry, sourcePattern_zero]

theorem sourceTangent_of_not_mem {s : Expr α × Nat} {r c : Nat}
    (h : (r, c) ∉ (sourcePattern s).triplets) (env tan : Nat → Nat → α) :
    sourceTangent env tan s r c = 0 := by
  rw [sourceTangent, sourceEntry, Pattern.entry_of_not_mem h]
  rfl

end Results

/-- Results of operands that do not vary do not vary. -/
theorem IsGraph.sourceTangent_of_operands {α : Type} [ExactField α] {n : Nat} {S : Set (Expr α)}
    {env tan : Nat → Nat → α} {e : Expr α} (hS : IsGraph n S) (he : e ∈ S)
    (ho : e.isOperation = true) (h : ∀ d ∈ e.deps, ∀ r c, tangentEntry env tan d r c = 0) {i : Nat}
    (hi : i < e.resultCount) (r c : Nat) : sourceTangent env tan (e, i) r c = 0 := by
  have hoperand (d : Expr α) (hd : d ∈ e.deps) :
      nonzeros (dualEnv env tan) d = (nonzeros env d).map Dual.constant := by
    have hdS : d ∈ S := hS.closed e he d hd
    rw [hS.nonzeros_eq_gather hdS, hS.nonzeros_eq_gather hdS, Pattern.gather, Pattern.gather,
      List.map_map]
    refine List.map_congr_left fun rc _ => ?_
    show entry (dualEnv env tan) d rc.1 rc.2 = Dual.constant (entry env d rc.1 rc.2)
    rw [hS.entry_dualEnv hdS, h d hd]
    rfl
  have hvalues : values (dualEnv env tan) e = (values env e).map (List.map Dual.constant) := by
    rw [hS.values_eq_compute he ho, hS.values_eq_compute he ho, List.map_congr_left hoperand,
      ← isElementMap_constant.compute_map, List.map_map]
    rfl
  have hresult : result (dualEnv env tan) (e, i) = (result env (e, i)).map Dual.constant := by
    rw [result, result, hvalues, List.getElem?_map]
    cases (values env e)[i]? <;> rfl
  have hentry : sourceEntry (dualEnv env tan) (e, i) r c =
      Dual.constant (sourceEntry env (e, i) r c) := by
    rw [sourceEntry, hresult]
    exact Pattern.entry_map (hS.length_result he hi) (.inr rfl)
  rw [sourceTangent, hentry]
  rfl

end DiffGraph
