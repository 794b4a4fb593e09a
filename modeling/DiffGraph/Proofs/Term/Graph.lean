import Mathlib
import DiffGraph.Proofs.Derivative.Dual
import DiffGraph.Term.Basic

/-!
# Graphs of scalar expressions

`Term.eval` evaluates a term like a tree. A set of terms is a graph
(`IsTermGraph`) if it is closed under operands and a term is determined by its
identity. `Draws n G step Q`: on a graph, the step adds terms under new
identities, none of them a symbol, and `Q` holds of the larger graph and the
result. The operations on terms fold constants; for elements that obey the laws
of arithmetic (`ExactElement`), numbers and dual numbers among them, the result
still has the value of the operation. Elements for which a folded operation may
only lie below it in some order (`FoldingElement`), as marks do, keep that order
(`draws_applyUnary`, `draws_applyBinary`).
-/

namespace DiffGraph

open Element

/-- Elements that obey the laws of arithmetic which the folding of terms relies on. -/
class ExactElement (α : outParam Type) (T : Type) [Scalar α] [Element Id α T] : Prop where
  number_congr (x y : α) : (x == y) = true → (ofNumber x : T) = ofNumber y
  unary_number (op : UnaryOp) (x : α) : apply₁ op (ofNumber x : T) = ofNumber (op.apply x)
  binary_number (op : BinaryOp) (x y : α) :
    apply₂ op (ofNumber x : T) (ofNumber y) = ofNumber (op.apply x y)
  zero_add (v : T) : apply₂ .add (ofNumber 0) v = v
  add_zero (v : T) : apply₂ .add v (ofNumber 0) = v
  sub_zero (v : T) : apply₂ .sub v (ofNumber 0) = v
  zero_sub (v : T) : apply₂ .sub (ofNumber 0) v = apply₁ .neg v
  zero_mul (v : T) : apply₂ .mul (ofNumber 0) v = ofNumber 0
  mul_zero (v : T) : apply₂ .mul v (ofNumber 0) = ofNumber 0
  one_mul (v : T) : apply₂ .mul (ofNumber 1) v = v
  mul_one (v : T) : apply₂ .mul v (ofNumber 1) = v
  div_one (v : T) : apply₂ .div v (ofNumber 1) = v
  neg_neg (v : T) : apply₁ .neg (apply₁ .neg v) = v

instance {α : Type} [Scalar α] [Exact α] : ExactElement α α where
  number_congr := Exact.eq_of_beq
  unary_number _ _ := rfl
  binary_number _ _ _ := rfl
  zero_add := Exact.zero_add
  add_zero := Exact.add_zero
  sub_zero := Exact.sub_zero
  zero_sub := Exact.zero_sub
  zero_mul := Exact.zero_mul
  mul_zero := Exact.mul_zero
  one_mul := Exact.one_mul
  mul_one := Exact.mul_one
  div_one := Exact.div_one
  neg_neg := Exact.neg_neg

/-- Elements with an order that the operations keep, where a term that is folded lies below the
operation that it replaces. -/
class FoldingElement (α : outParam Type) (T : Type) [Scalar α] [Element Id α T] where
  le : T → T → Prop
  refl (v : T) : le v v
  trans {u v w : T} : le u v → le v w → le u w
  mono₁ (op : UnaryOp) {u v : T} : le u v → le (apply₁ op u) (apply₁ op v)
  mono₂ (op : BinaryOp) {u v x y : T} : le u v → le x y → le (apply₂ op u x) (apply₂ op v y)
  number_congr (x y : α) : (x == y) = true → le (ofNumber y) (ofNumber x)
  unary_number (op : UnaryOp) (x : α) : le (ofNumber (op.apply x)) (apply₁ op (ofNumber x))
  binary_number (op : BinaryOp) (x y : α) :
    le (ofNumber (op.apply x y)) (apply₂ op (ofNumber x) (ofNumber y))
  zero_add (v : T) : le v (apply₂ .add (ofNumber 0) v)
  add_zero (v : T) : le v (apply₂ .add v (ofNumber 0))
  sub_zero (v : T) : le v (apply₂ .sub v (ofNumber 0))
  zero_sub (v : T) : le (apply₁ .neg v) (apply₂ .sub (ofNumber 0) v)
  zero_mul (v : T) : le (ofNumber 0) (apply₂ .mul (ofNumber 0) v)
  mul_zero (v : T) : le (ofNumber 0) (apply₂ .mul v (ofNumber 0))
  one_mul (v : T) : le v (apply₂ .mul (ofNumber 1) v)
  mul_one (v : T) : le v (apply₂ .mul v (ofNumber 1))
  div_one (v : T) : le v (apply₂ .div v (ofNumber 1))
  neg_neg (v : T) : le v (apply₁ .neg (apply₁ .neg v))

/-- Where the laws hold, a folded term is equal to the operation. -/
instance {α T : Type} [Scalar α] [Element Id α T] [ExactElement α T] : FoldingElement α T where
  le := Eq
  refl _ := rfl
  trans := Eq.trans
  mono₁ op _ _ h := congrArg (apply₁ op) h
  mono₂ op _ _ _ _ h h' := congrArg₂ (apply₂ op) h h'
  number_congr x y h := (ExactElement.number_congr x y h).symm
  unary_number op x := (ExactElement.unary_number op x).symm
  binary_number op x y := (ExactElement.binary_number op x y).symm
  zero_add v := (ExactElement.zero_add v).symm
  add_zero v := (ExactElement.add_zero v).symm
  sub_zero v := (ExactElement.sub_zero v).symm
  zero_sub v := (ExactElement.zero_sub v).symm
  zero_mul v := (ExactElement.zero_mul v).symm
  mul_zero v := (ExactElement.mul_zero v).symm
  one_mul v := (ExactElement.one_mul v).symm
  mul_one v := (ExactElement.mul_one v).symm
  div_one v := (ExactElement.div_one v).symm
  neg_neg v := (ExactElement.neg_neg v).symm

theorem Dual.ext {α : Type} {x y : Dual α} (hv : x.value = y.value) (hd : x.deriv = y.deriv) :
    x = y := by
  cases x
  cases y
  exact congrArg₂ Dual.mk hv hd

/-- Folding is sound for derivatives too. -/
instance {α : Type} [ExactField α] : ExactElement α (Dual α) where
  number_congr x y h := congrArg ofNumber (ExactField.eq_of_beq x y h)
  unary_number op x := (isElementMap_constant.apply₁ op x).symm
  binary_number op x y := (isElementMap_constant.apply₂ op x y).symm
  zero_add v := Dual.ext (zero_add v.value) (zero_add v.deriv)
  add_zero v := Dual.ext (add_zero v.value) (add_zero v.deriv)
  sub_zero v := Dual.ext (sub_zero v.value) (sub_zero v.deriv)
  zero_sub v := Dual.ext (zero_sub v.value) (zero_sub v.deriv)
  zero_mul v := by
    refine Dual.ext (zero_mul v.value) ?_
    show 0 * v.deriv + 0 * v.value = 0
    ring
  mul_zero v := by
    refine Dual.ext (mul_zero v.value) ?_
    show v.value * 0 + v.deriv * 0 = 0
    ring
  one_mul v := by
    refine Dual.ext (one_mul v.value) ?_
    show 1 * v.deriv + 0 * v.value = v.deriv
    ring
  mul_one v := by
    refine Dual.ext (mul_one v.value) ?_
    show v.value * 0 + v.deriv * 1 = v.deriv
    ring
  div_one v := by
    refine Dual.ext (div_one v.value) ?_
    show (v.deriv * 1 - v.value * 0) / (1 * 1) = v.deriv
    ring
  neg_neg v := Dual.ext (neg_neg v.value) (neg_neg v.deriv)

namespace Term

variable {α T : Type}

/-! ## Graphs -/

def operands : Term α → List (Term α)
  | constant .. | symbol .. => []
  | unary _ _ x => [x]
  | binary _ _ x y => [x, y]

/-- The value of a term, where `env id` is that of the symbol with the identity `id`. -/
def eval [Element Id α T] (env : Nat → T) : Term α → T
  | constant _ x => ofNumber x
  | symbol id _ => env id
  | unary _ op x => apply₁ op (x.eval env)
  | binary _ op x y => apply₂ op (x.eval env) (y.eval env)

end Term

open Term

/-- A set of terms with identities below `n` that contains what its terms are built from. -/
structure IsTermGraph {α : Type} (n : Nat) (G : Set (Term α)) : Prop where
  closed : ∀ t ∈ G, ∀ x ∈ t.operands, x ∈ G
  unique : ∀ s ∈ G, ∀ t ∈ G, s.id = t.id → s = t
  below : ∀ t ∈ G, t.id < n

section Graphs

variable {α : Type} {n n' n'' : Nat} {G G' G'' : Set (Term α)} {t : Term α}

theorem IsTermGraph.empty (n : Nat) : IsTermGraph n (∅ : Set (Term α)) :=
  ⟨by simp, by simp, by simp⟩

theorem IsTermGraph.insert (h : IsTermGraph n G) (hid : t.id = n) (hops : ∀ x ∈ t.operands, x ∈ G) :
    IsTermGraph (n + 1) (insert t G) where
  closed s hs x hx := by
    rcases Set.mem_insert_iff.1 hs with rfl | hs
    · exact Set.mem_insert_of_mem _ (hops x hx)
    · exact Set.mem_insert_of_mem _ (h.closed s hs x hx)
  unique a ha b hb hab := by
    rcases Set.mem_insert_iff.1 ha with hae | hae <;> rcases Set.mem_insert_iff.1 hb with hbe | hbe
    · exact hae.trans hbe.symm
    · have := h.below b hbe
      subst hae
      omega
    · have := h.below a hae
      subst hbe
      omega
    · exact h.unique a hae b hbe hab
  below s hs := by
    rcases Set.mem_insert_iff.1 hs with rfl | hs
    · omega
    · exact Nat.lt_succ_of_lt (h.below s hs)

/-- Terms added to a graph, no symbols among them. -/
structure ExtendsTerms (n : Nat) (G : Set (Term α)) (n' : Nat) (G' : Set (Term α)) : Prop where
  graph : IsTermGraph n' G'
  subset : G ⊆ G'
  symbols : ∀ t ∈ G', t.isSymbol = true → t ∈ G

theorem ExtendsTerms.refl (hG : IsTermGraph n G) : ExtendsTerms n G n G :=
  ⟨hG, subset_rfl, fun _ h _ => h⟩

theorem ExtendsTerms.trans (h : ExtendsTerms n G n' G') (h' : ExtendsTerms n' G' n'' G'') :
    ExtendsTerms n G n'' G'' :=
  ⟨h'.graph, h.subset.trans h'.subset, fun t ht hs => h.symbols t (h'.symbols t ht hs) hs⟩

end Graphs

/-! ## Steps that add terms -/

/-- The step adds terms to the graph and its result satisfies `Q`. -/
def Draws {α β : Type} (n : Nat) (G : Set (Term α)) (step : Fresh β)
    (Q : Set (Term α) → β → Prop) : Prop :=
  ∃ G', ExtendsTerms n G (step n).2 G' ∧ Q G' (step n).1

namespace Draws

variable {α β γ δ : Type} {n : Nat} {G : Set (Term α)} {step : Fresh β}
  {P Q : Set (Term α) → β → Prop}

theorem pure (hG : IsTermGraph n G) {r : β} (h : Q G r) : Draws n G (pure r) Q :=
  ⟨G, .refl hG, h⟩

theorem bind {f : β → Fresh γ} {R : Set (Term α) → γ → Prop} (h : Draws n G step Q)
    (hf : ∀ n' G' r, ExtendsTerms n G n' G' → Q G' r → Draws n' G' (f r) R) :
    Draws n G (step >>= f) R := by
  obtain ⟨G', hext, hQ⟩ := h
  obtain ⟨G'', hext', hR⟩ := hf _ _ _ hext hQ
  exact ⟨G'', hext.trans hext', hR⟩

theorem mono (h : Draws n G step P) (hPQ : ∀ n' G' r, ExtendsTerms n G n' G' → P G' r → Q G' r) :
    Draws n G step Q := by
  obtain ⟨G', hext, hP⟩ := h
  exact ⟨G', hext, hPQ _ _ _ hext hP⟩

theorem fresh (hG : IsTermGraph n G) {node : Nat → Term α} (hid : ∀ id, (node id).id = id)
    (hsym : ∀ id, (node id).isSymbol = false) (hops : ∀ id, ∀ x ∈ (node id).operands, x ∈ G) :
    Draws n G (do return node (← Fresh.identity)) fun G' t => t ∈ G' ∧ ∃ id, t = node id := by
  refine ⟨insert (node n) G, ⟨hG.insert (hid n) (hops n), Set.subset_insert _ _, ?_⟩,
    Set.mem_insert _ _, n, rfl⟩
  rintro t (rfl | ht) hs
  · rw [hsym n] at hs
    cases hs
  · exact ht

theorem mapM {f : β → Fresh γ} {g : δ → ε} {P : Set (Term α) → β → δ → Prop}
    {Q : Set (Term α) → γ → ε → Prop} {xs : List β} {ys : List δ} (hG : IsTermGraph n G)
    (h : List.Forall₂ (P G) xs ys)
    (hf : ∀ n' G' x y, ExtendsTerms n G n' G' → P G' x y →
      Draws n' G' (f x) fun G'' r => Q G'' r (g y))
    (hP : ∀ G' G'' x y, G' ⊆ G'' → P G' x y → P G'' x y)
    (hQ : ∀ G' G'' r v, G' ⊆ G'' → Q G' r v → Q G'' r v) :
    Draws n G (xs.mapM f) fun G' rs => List.Forall₂ (Q G') rs (ys.map g) := by
  induction xs generalizing n G ys with
  | nil =>
    obtain rfl := List.forall₂_nil_left_iff.1 h
    exact pure hG .nil
  | cons x xs ih =>
    cases h with
    | @cons _ y _ ys hxy hrest =>
      rw [List.mapM_cons, List.map_cons]
      refine bind (hf n G x y (.refl hG) hxy) fun n₁ G₁ r h₁ hr => ?_
      refine bind (ih h₁.graph (hrest.imp fun x y => hP _ _ x y h₁.subset)
        fun n' G' x y h' => hf n' G' x y (h₁.trans h')) fun n₂ G₂ rs h₂ hrs => ?_
      exact pure h₂.graph (.cons (hQ _ _ _ _ h₂.subset hr) hrs)

end Draws

/-! ## Operations on terms -/

section Operations

variable {α T : Type} [Element Id α T] {n : Nat} {G G' : Set (Term α)} {env : Nat → T}
  {x y : Term α} {u v : T}

theorem eval_of_value? {a : α} (h : x.value? = some a) : x.eval env = ofNumber a := by
  cases x with
  | constant id b => rw [show b = a from Option.some.inj h]; rfl
  | _ => cases h

theorem exists_of_negated? (h : x.negated? = some y) : ∃ id, x = .unary id .neg y := by
  unfold negated? at h
  split at h
  · obtain rfl := Option.some.inj h
    exact ⟨_, rfl⟩
  · cases h

variable [Scalar α] [FoldingElement α T]

open FoldingElement

/-- A term of the graph with a value below `v`; where the laws of arithmetic hold, with the value
`v`. -/
def Stands (env : Nat → T) (G : Set (Term α)) (t : Term α) (v : T) : Prop :=
  t ∈ G ∧ le (t.eval env) v

theorem Stands.mono (h : Stands env G x v) (hsub : G ⊆ G') : Stands env G' x v :=
  ⟨hsub h.1, h.2⟩

theorem Stands.trans (h : Stands env G x u) (huv : le u v) : Stands env G x v :=
  ⟨h.1, FoldingElement.trans h.2 huv⟩

theorem draws_newConstant (hG : IsTermGraph n G) (a : α) :
    Draws n G (newConstant a) fun G' t => Stands env G' t (ofNumber a) := by
  refine (Draws.fresh hG (fun _ => rfl) (fun _ => rfl) fun id z hz => by cases hz).mono ?_
  rintro n' G' t - ⟨ht, id, rfl⟩
  exact ⟨ht, refl _⟩

/-- A number below an element, in the place of it. -/
theorem draws_constant_of_le (hG : IsTermGraph n G) {a : α} (h : le (ofNumber a) v) :
    Draws n G (newConstant a) fun G' t => Stands env G' t v :=
  (draws_newConstant hG a).mono fun _ _ _ _ ht => ht.trans h

theorem number_le_eval {a : α} (h : x.isValue a = true) : le (ofNumber a) (x.eval env) := by
  obtain ⟨b, hb, hba⟩ := (Option.any_eq_true _ _).1 h
  rw [eval_of_value? hb]
  exact number_congr b a hba

theorem draws_applyUnary (hG : IsTermGraph n G) (op : UnaryOp) (hx : Stands env G x u) :
    Draws n G (applyUnary op x) fun G' t => Stands env G' t (apply₁ op u) := by
  have hop : le (apply₁ op (x.eval env)) (apply₁ op u) := mono₁ op hx.2
  unfold applyUnary
  split
  · rename_i a ha
    rw [eval_of_value? ha] at hop
    exact draws_constant_of_le hG (FoldingElement.trans (unary_number _ a) hop)
  · rename_i z _ hz
    obtain ⟨id, rfl⟩ := exists_of_negated? hz
    exact .pure hG ⟨hG.closed _ hx.1 z (by simp [operands]),
      FoldingElement.trans (neg_neg _) hop⟩
  · refine (Draws.fresh hG (fun _ => rfl) (fun _ => rfl) fun id z hz => ?_).mono ?_
    · rw [List.mem_singleton.1 hz]
      exact hx.1
    · rintro n' G' t - ⟨ht, id, rfl⟩
      exact ⟨ht, hop⟩

theorem draws_applyBinary (hG : IsTermGraph n G) (op : BinaryOp) (hx : Stands env G x u)
    (hy : Stands env G y v) :
    Draws n G (applyBinary op x y) fun G' t => Stands env G' t (apply₂ op u v) := by
  have hnode : Draws n G (do return binary (← Fresh.identity) op x y) fun G' t =>
      Stands env G' t (apply₂ op u v) := by
    refine (Draws.fresh hG (fun _ => rfl) (fun _ => rfl) fun id z hz => ?_).mono ?_
    · rcases List.mem_pair.1 hz with rfl | rfl
      · exact hx.1
      · exact hy.1
    · rintro n' G' t - ⟨ht, id, rfl⟩
      exact ⟨ht, mono₂ op hx.2 hy.2⟩
  have hleft (op : BinaryOp) {a : α} (ha : x.isValue a = true) :
      le (apply₂ op (ofNumber a) v) (apply₂ op u v) :=
    mono₂ op (FoldingElement.trans (number_le_eval ha) hx.2) (refl v)
  have hright (op : BinaryOp) {a : α} (ha : y.isValue a = true) :
      le (apply₂ op u (ofNumber a)) (apply₂ op u v) :=
    mono₂ op (refl u) (FoldingElement.trans (number_le_eval ha) hy.2)
  unfold applyBinary
  split
  · rename_i a b ha hb
    refine draws_constant_of_le hG (FoldingElement.trans (binary_number op a b) ?_)
    have hvalues : apply₂ op (ofNumber a) (ofNumber b) = apply₂ op (x.eval env) (y.eval env) := by
      rw [eval_of_value? ha, eval_of_value? hb]
    rw [hvalues]
    exact mono₂ op hx.2 hy.2
  · cases op with
    | add =>
      dsimp only
      split
      · rename_i h
        exact .pure hG (hy.trans (FoldingElement.trans (zero_add v) (hleft .add h)))
      · split
        · rename_i h
          exact .pure hG (hx.trans (FoldingElement.trans (add_zero u) (hright .add h)))
        · exact hnode
    | sub =>
      dsimp only
      split
      · rename_i h
        exact .pure hG (hx.trans (FoldingElement.trans (sub_zero u) (hright .sub h)))
      · split
        · rename_i h
          exact (draws_applyUnary hG .neg hy).mono fun _ _ _ _ ht =>
            ht.trans (FoldingElement.trans (zero_sub v) (hleft .sub h))
        · exact hnode
    | mul =>
      dsimp only
      split
      · rename_i h
        rcases Bool.or_eq_true_iff.1 h with h | h
        · exact draws_constant_of_le hG (FoldingElement.trans (zero_mul v) (hleft .mul h))
        · exact draws_constant_of_le hG (FoldingElement.trans (mul_zero u) (hright .mul h))
      · split
        · rename_i h
          exact .pure hG (hy.trans (FoldingElement.trans (one_mul v) (hleft .mul h)))
        · split
          · rename_i h
            exact .pure hG (hx.trans (FoldingElement.trans (mul_one u) (hright .mul h)))
          · exact hnode
    | div =>
      dsimp only
      split
      · rename_i h
        exact .pure hG (hx.trans (FoldingElement.trans (div_one u) (hright .div h)))
      · exact hnode

end Operations

end DiffGraph
