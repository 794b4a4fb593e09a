import Mathlib
import DiffGraph.Formula.Build
import DiffGraph.Proofs.Graph.Scalars

/-!
# What formulas over scalars compute

Over scalar symbols the expression that `build` makes of a tree without errors has
the value of the tree (`grows_build`): names stand for the values of the symbols,
and a power is the product of as many factors.
-/

namespace DiffGraph

open DiffGraph.Expr

/-! ## Functions and powers of scalars -/

section Scalars

variable {α : Type} [Scalar α] {refused : GraphError → Prop} {n : Nat} {S : Set (Expr α)}
  {x start : Expr α}

theorem densify_scalar (hx : x.pattern = .scalar) : x.densify = pure x := by
  have hdense : Pattern.denseChecked 1 1 = .ok Pattern.scalar := rfl
  unfold densify
  rw [hx]
  show (do
    let p ← (liftM (Pattern.denseChecked 1 1) : Build Pattern)
    (liftM (x.onto p) : Build (Expr α))) = _
  rw [hdense]
  show (liftM (x.onto .scalar) : Build (Expr α)) = _
  rw [show x.onto .scalar = pure x from if_pos hx]
  rfl

theorem unary_scalar (op : UnaryOp) (hx : x.pattern = .scalar) :
    unary op x = liftM (unaryNode op x) := by
  unfold unary
  rw [densify_scalar hx, ite_self, pure_bind]

variable [Exact α] {v w : (Nat → Nat → α) → α}

theorem grows_unary_scalar (hS : IsGraph n S) (op : UnaryOp) (hx : IsScalar S x v) :
    Grows refused n S (unary op x) fun S' r => IsScalar S' r fun env => op.apply (v env) := by
  rw [unary_scalar op hx.pattern]
  by_cases hop : op = .neg
  · subst hop
    exact grows_neg_scalar hS hx
  cases hnz : x.constant? with
  | some nz =>
    obtain ⟨a, rfl, ha⟩ := hS.exists_of_constant? (T := α) hx.usable.1 hx.pattern hnz
    have hnode : unaryNode op x = scalar (op.apply a) := by
      simp only [unaryNode, hnz, hx.pattern]
      rfl
    rw [hnode]
    refine (grows_scalar (T := α) hS (op.apply a)).mono ?_
    rintro n' S' r - hr
    refine { hr with value := fun env => (hr.value env).trans ?_ }
    rw [← hx.value, ha]
    rfl
  | none =>
    have hnode : unaryNode op x = fresh (.unary op) [x] x.pattern := by
      cases op with
      | neg => exact absurd rfl hop
      | _ => simp only [unaryNode, hnz]
    rw [hnode, hx.pattern]
    refine (Grows.fresh hS rfl rfl (fun id => .unary id hx.pattern (.inr rfl))
      (by simpa using hx.usable)).mono ?_
    rintro n' S' r hext ⟨hr, id, rfl⟩
    refine ⟨hr, ofScalars_node (by simpa using hx.ofScalars) (by simp),
      fun env => hext.graph.scalarValue_of_compute hr.1 rfl ?_⟩
    show [(nonzeros env x).map op.apply] = _
    rw [hS.nonzeros_scalar hx.usable.1 hx.pattern, hx.value]
    rfl

end Scalars

section Powers

variable {α : Type} [ExactNumerals α] {refused : GraphError → Prop} {n : Nat} {S : Set (Expr α)}
  {x start : Expr α} {v w : (Nat → Nat → α) → α}

theorem grows_powerFrom (hS : IsGraph n S) (hx : IsScalar S x v) (hstart : IsScalar S start w)
    (k : Nat) : Grows refused n S (Formula.powerFrom x start k) fun S' r =>
      IsScalar S' r fun env => w env * v env ^ k := by
  induction k generalizing n S start w with
  | zero =>
    refine .pure hS ?_
    simpa using hstart
  | succ k ih =>
    refine .bind (grows_binary_scalar hS .mul hstart hx) fun n' S' r hext hr => ?_
    refine (ih hext.graph (hx.mono hext.subset) hr).mono fun _ _ _ _ h => ?_
    refine { h with value := fun env => (h.value env).trans ?_ }
    show w env * v env * v env ^ k = w env * v env ^ (k + 1)
    rw [pow_succ', mul_assoc]

theorem grows_power (hS : IsGraph n S) (hx : IsScalar S x v) (k : Nat) :
    Grows refused n S (Formula.power x k) fun S' r => IsScalar S' r fun env => v env ^ k := by
  have hones : ones x.pattern = (scalar 1 : Fresh (Expr α)) := by
    rw [hx.pattern]
    rfl
  unfold Formula.power
  rw [hones]
  refine .bind (grows_scalar (T := α) hS 1) fun n' S' r hext hr => ?_
  refine (grows_powerFrom hext.graph (hx.mono hext.subset) hr k).mono fun _ _ _ _ h => ?_
  refine { h with value := fun env => (h.value env).trans ?_ }
  exact one_mul _

end Powers

/-! ## Trees -/

namespace Formula

section Lookup

variable {α : Type} [OrderedScalar α]

/-- The value of the first symbol with the given name. -/
def assigned (symbols : List (Expr α)) (env : Nat → Nat → α) (name : String) : α :=
  ((symbols.find? fun s => s.name? == some name).map fun s => env s.id 0).getD 0

theorem lookup_eq {symbols : List (Expr α)} {name : String}
    (h : ∃ s ∈ symbols, s.name? = some name) :
    ∃ s ∈ symbols, s.name? = some name ∧ lookup symbols name = .ok s ∧
      ∀ env : Nat → Nat → α, assigned symbols env name = env s.id 0 := by
  obtain ⟨s, hs, hname⟩ := h
  have hfound : (symbols.find? fun s => s.name? == some name).isSome = true :=
    List.find?_isSome.2 ⟨s, hs, by simp [hname]⟩
  obtain ⟨s', hs'⟩ := Option.isSome_iff_exists.1 hfound
  refine ⟨s', List.mem_of_find?_eq_some hs', ?_, ?_, fun env => ?_⟩
  · simpa using List.find?_some hs'
  · rw [lookup, hs']
  · rw [assigned, hs']
    rfl

end Lookup

variable {α : Type} [ExactNumerals α] {n : Nat} {S : Set (Expr α)}

/-- The value of a tree in which names have the values `ρ`; entries and errors have none. -/
def Tree.value (ρ : String → α) : Tree α → α
  | .number x => x
  | .name n => ρ n
  | .call f arg => ((function? f).map fun op => op.apply (arg.value ρ)).getD 0
  | .neg t => -t.value ρ
  | .binary op left right => op.apply (left.value ρ) (right.value ρ)
  | .power base n => base.value ρ ^ n
  | .entry .. | .broken _ | .abandoned .. => 0

/-- Every name of the tree is a symbol, every function is known, and there are neither entries nor
errors. -/
def Tree.Resolved (symbols : List (Expr α)) : Tree α → Prop
  | .number _ => True
  | .name n => ∃ s ∈ symbols, s.name? = some n
  | .call f arg => (function? f).isSome = true ∧ arg.Resolved symbols
  | .neg t | .power t _ => t.Resolved symbols
  | .binary _ left right => left.Resolved symbols ∧ right.Resolved symbols
  | .entry .. | .broken _ | .abandoned .. => False

omit [ExactNumerals α] in
theorem grows_onGraph {β : Type} {step : Build β} {Q : Set (Expr α) → β → Prop}
    (h : Grows (fun _ => False) n S step Q) :
    Grows (fun _ => False) n S (onGraph (α := α) step) Q := by
  unfold Grows at h ⊢
  unfold onGraph
  cases hstep : step n with
  | error e =>
    simp only [hstep] at h
  | ok out =>
    simp only [hstep] at h
    exact h

theorem isScalar_symbol (hS : IsGraph n S) {s : Expr α} (hs : s ∈ S) (hsym : s.isSymbol = true)
    (hp : s.pattern = .scalar) : IsScalar S s fun env : Nat → Nat → α => env s.id 0 := by
  obtain ⟨id, name, p, rfl⟩ := (hS.wellFormed s hs).exists_of_isSymbol hsym
  obtain rfl : p = .scalar := hp
  refine ⟨⟨hs, rfl⟩, ofScalars_node (by simp) (by simp), fun env => ?_⟩
  rw [scalarValue, nonzeros, values_of_evalTree (evalTree_symbol id name .scalar)]
  rfl

/-- The expression of a tree over scalar symbols has the value of the tree. -/
theorem grows_build {symbols : List (Expr α)} {t : Tree α} (hS : IsGraph n S)
    (hsymbols : ∀ s ∈ symbols, s ∈ S ∧ s.pattern = .scalar) (ht : t.Resolved symbols) :
    Grows (fun _ => False) n S (build symbols t) fun S' r =>
      IsScalar S' r fun env => t.value (assigned symbols env) := by
  induction t generalizing n S with
  | number x => exact grows_onGraph (grows_scalar (T := α) hS x)
  | name name =>
    obtain ⟨s, hs, hname, hlookup, hval⟩ := lookup_eq ht
    have hsym : s.isSymbol = true := by rw [isSymbol, hname]; rfl
    have hscalar := isScalar_symbol hS (hsymbols s hs).1 hsym (hsymbols s hs).2
    have hbuild : build symbols (.name name) = pure s := by
      rw [build, hlookup]
      rfl
    rw [hbuild]
    exact .pure hS { hscalar with value := fun env => (hscalar.value env).trans (hval env).symm }
  | entry => exact ht.elim
  | call f arg ih =>
    obtain ⟨hf, harg⟩ := ht
    obtain ⟨op, hop⟩ := Option.isSome_iff_exists.1 hf
    refine .bind (ih hS hsymbols harg) fun n' S' r hext hr => ?_
    simp only [hop]
    refine (grows_onGraph (grows_unary_scalar hext.graph op hr)).mono fun _ _ _ _ h => ?_
    refine { h with value := fun env => (h.value env).trans ?_ }
    simp only [Tree.value, hop, Option.map_some, Option.getD_some]
  | neg t ih =>
    refine .bind (ih hS hsymbols ht) fun n' S' r hext hr => ?_
    exact grows_onGraph (grows_neg_scalar hext.graph hr)
  | binary op left right ihl ihr =>
    refine .bind (ihl hS hsymbols ht.1) fun n₁ S₁ x h₁ hx => ?_
    have hsymbols₁ : ∀ s ∈ symbols, s ∈ S₁ ∧ s.pattern = .scalar :=
      fun s hs => ⟨h₁.subset (hsymbols s hs).1, (hsymbols s hs).2⟩
    refine .bind (ihr h₁.graph hsymbols₁ ht.2) fun n₂ S₂ y h₂ hy => ?_
    exact grows_onGraph (grows_binary_scalar h₂.graph op (hx.mono h₂.subset) hy)
  | power base k ih =>
    refine .bind (ih hS hsymbols ht) fun n' S' r hext hr => ?_
    exact grows_onGraph (grows_power hext.graph hr k)
  | broken => exact ht.elim
  | abandoned => exact ht.elim

end Formula

end DiffGraph
