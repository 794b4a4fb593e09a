import Mathlib
import DiffGraph.Proofs.Graph.Product
import DiffGraph.Proofs.Graph.Split

/-!
# Graphs built by constructors

`Built n G`: starting from nothing, symbols and runs of the constructors on
expressions at hand lead to the expressions `G`, with `n` identities drawn. A
split is never at hand itself, only the references to its results are. Every
constructor adds a well-formed node to a graph, so what is built is a graph
(`Built.isGraph`).
-/

namespace DiffGraph

open Expr

variable {α : Type} [Scalar α] {n : Nat} {S : Set (Expr α)} {x : Expr α}

/-! ## Splits and joins of any operands -/

/-- The step gives expressions that may be operands, or fails. -/
def GrowsSome (n : Nat) (S : Set (Expr α)) (step : Build (List (Expr α))) : Prop :=
  Grows (fun _ => True) n S step fun S' rs => ∀ r ∈ rs, Usable S' r

omit [Scalar α] in
theorem usable_of_mapM {f : Expr α → Build (Expr α)} {xs : List (Expr α)} (hS : IsGraph n S)
    (hxs : ∀ x ∈ xs, Usable S x)
    (hf : ∀ n' S' x, IsGraph n' S' → Usable S' x →
      Grows (fun _ => True) n' S' (f x) fun S'' r => Usable S'' r) :
    GrowsSome n S (xs.mapM f) := by
  refine (Grows.mapM (P := fun S' (_ : Expr α) r => Usable S' r) hS ?_ ?_).mono ?_
  · exact fun x hx n' S' hext => hf n' S' x hext.graph ((hxs x hx).mono hext.subset)
  · exact fun S' S'' _ r hsub hr => hr.mono hsub
  · intro n' S' rs _ hall r hr
    obtain ⟨i, hi⟩ := List.mem_iff_getElem?.1 hr
    obtain ⟨-, -, hus⟩ := exists_of_forall₂ hall hi
    exact hus

theorem growsSome_horzsplit (hS : IsGraph n S) (hx : Usable S x) (offsets : List Nat) :
    GrowsSome n S (x.horzsplit offsets) := by
  unfold horzsplit
  refine .bind (Q := fun _ ps => Pattern.Joins .horizontal ps x.pattern)
    (.lift hS (fun ps hps => (Pattern.joins_of_horzsplit hps).1) fun _ _ => trivial) ?_
  intro n' S' ps hext hps
  exact (grows_splitInto hext.graph (hx.mono hext.subset) hps).mono fun _ _ _ _ h => h.1

theorem growsSome_vertsplit (hS : IsGraph n S) (hx : Usable S x) (offsets : List Nat) :
    GrowsSome n S (x.vertsplit offsets) := by
  unfold vertsplit
  split
  · rename_i hcol
    refine .bind (Q := fun _ ps => Pattern.Joins .vertical ps x.pattern)
      (.lift hS (fun ps hps => (Pattern.joins_of_vertsplit
        (by simpa [Pattern.isSingleColumn] using hcol) hps).1) fun _ _ => trivial) ?_
    intro n' S' ps hext hps
    exact (grows_splitInto hext.graph (hx.mono hext.subset) hps).mono fun _ _ _ _ h => h.1
  · refine .bind (grows_transpose hS hx fun _ => trivial) ?_
    rintro n₁ S₁ t h₁ ⟨ht, -⟩
    refine .bind (growsSome_horzsplit h₁.graph ht offsets) ?_
    intro n₂ S₂ ps h₂ hps
    exact usable_of_mapM h₂.graph hps fun n' S' x hS' hx' =>
      (grows_transpose hS' hx' fun _ => trivial).mono fun _ _ _ _ h => h.1

theorem growsSome_diagsplit (hS : IsGraph n S) (hx : Usable S x) (rows cols : List Nat) :
    GrowsSome n S (x.diagsplit rows cols) := by
  unfold diagsplit
  refine .bind (Q := fun _ ps => x.pattern.diagsplit rows cols = .ok ps)
    (.lift hS (fun ps hps => hps) fun _ _ => trivial) ?_
  intro n' S' ps hext hps
  dsimp only
  split
  · trivial
  · rename_i hcover
    have hjoins := (Pattern.joins_of_diagsplit hps (not_not.1 hcover)).1
    exact (grows_splitInto hext.graph (hx.mono hext.subset) hjoins).mono fun _ _ _ _ h => h.1

theorem usable_zerosLike (hS : IsGraph n S) (p : Pattern) :
    Grows (fun _ : GraphError => True) n S (liftM (zerosLike p : Fresh (Expr α))) fun S' r =>
      Usable S' r :=
  (grows_constant hS (by simp)).mono fun _ _ _ _ h => h.1

theorem usable_horzcat (hS : IsGraph n S) {parts : List (Expr α)}
    (hparts : ∀ x ∈ parts, Usable S x) :
    Grows (fun _ => True) n S (horzcat parts) fun S' r => Usable S' r := by
  rcases List.eq_nil_or_concat parts with rfl | ⟨xs, y, rfl⟩
  · exact usable_zerosLike hS _
  · exact (grows_horzcat hS hparts (by simp) fun _ _ => trivial).mono fun _ _ _ _ h => h.1

theorem usable_vertcat (hS : IsGraph n S) {parts : List (Expr α)}
    (hparts : ∀ x ∈ parts, Usable S x) :
    Grows (fun _ => True) n S (vertcat parts) fun S' r => Usable S' r := by
  by_cases hcols : ∀ x ∈ parts, x.pattern.ncols = 1
  · rcases List.eq_nil_or_concat parts with rfl | ⟨xs, y, rfl⟩
    · exact usable_zerosLike hS _
    · exact (grows_vertcat hS hparts (by simp) hcols fun _ _ => trivial).mono fun _ _ _ _ h => h.1
  · unfold vertcat
    split
    · rename_i x hx
      exact .pure hS (whole?_spec hS (fun y hy => (hparts y hy).1) hx).1
    · rw [if_neg (by simpa [Pattern.isSingleColumn] using hcols)]
      refine .bind (usable_of_mapM hS hparts fun n' S' x hS' hx' =>
        (grows_transpose hS' hx' fun _ => trivial).mono fun _ _ _ _ h => h.1) ?_
      intro n₁ S₁ rows h₁ hrows
      refine .bind (usable_horzcat h₁.graph hrows) ?_
      intro n₂ S₂ t h₂ ht
      exact (grows_transpose h₂.graph ht fun _ => trivial).mono fun _ _ _ _ h => h.1

theorem usable_diagcat (hS : IsGraph n S) {parts : List (Expr α)}
    (hparts : ∀ x ∈ parts, Usable S x) :
    Grows (fun _ => True) n S (diagcat parts) fun S' r => Usable S' r := by
  rcases List.eq_nil_or_concat parts with rfl | ⟨xs, y, rfl⟩
  · exact usable_zerosLike hS _
  · exact (grows_diagcat hS hparts (by simp) fun _ _ => trivial).mono fun _ _ _ _ h => h.1

/-! ## Constructions -/

/-- One use of a constructor. -/
inductive Construction (α : Type) where
  | constant (nz : List α) (p : Pattern)
  | unary (op : UnaryOp) (x : Expr α)
  | binary (op : BinaryOp) (x y : Expr α)
  | dot (x y : Expr α)
  | sum (x : Expr α)
  | transpose (x : Expr α)
  | project (x : Expr α) (target : Pattern)
  | join (axis : Axis) (parts : List (Expr α))
  | split (axis : Axis) (x : Expr α) (rows cols : List Nat)

namespace Construction

def operands : Construction α → List (Expr α)
  | constant .. => []
  | unary _ x | sum x | transpose x | project x _ | split _ x _ _ => [x]
  | binary _ x y | dot x y => [x, y]
  | join _ parts => parts

def run : Construction α → Build (List (Expr α))
  | constant nz p => return [← Expr.constantChecked nz p]
  | unary op x => return [← Expr.unary op x]
  | binary op x y => return [← Expr.binary op x y]
  | dot x y => return [← Expr.dot x y]
  | sum x => return [← Expr.sum x]
  | transpose x => return [← Expr.transpose x]
  | project x target => return [← Expr.project x target]
  | join axis parts => return [← Expr.joinAlong axis parts]
  | split axis x rows cols => Expr.splitAlong axis x rows cols

/-- Every constructor adds nodes to the graph of its operands. -/
theorem growsSome_run (hS : IsGraph n S) (c : Construction α) (hc : ∀ x ∈ c.operands, Usable S x) :
    GrowsSome n S c.run := by
  have single {step : Build (Expr α)}
      (h : Grows (fun _ => True) n S step fun S' r => Usable S' r) :
      GrowsSome n S (do return [← step]) :=
    .bind h fun _ _ _ hext hr => .pure hext.graph (by simpa using hr)
  cases c with
  | constant nz p =>
    refine single ?_
    unfold constantChecked
    split
    · trivial
    · rename_i hlen
      exact (grows_constant hS (not_not.1 hlen)).mono fun _ _ _ _ h => h.1
  | unary op x =>
    exact single ((grows_unary hS (hc x (by simp [operands])) fun _ _ => trivial).mono
      fun _ _ _ _ h => h.1)
  | binary op x y =>
    exact single ((grows_binary hS (hc x (by simp [operands])) (hc y (by simp [operands])) op
      (fun _ => trivial) fun _ _ _ => trivial).mono fun _ _ _ _ h => h.1)
  | dot x y =>
    exact single ((grows_dot hS (hc x (by simp [operands])) (hc y (by simp [operands]))
      fun _ => trivial).mono fun _ _ _ _ h => h.1)
  | sum x =>
    exact single ((grows_sum hS (hc x (by simp [operands]))).mono fun _ _ _ _ h => h.1)
  | transpose x =>
    exact single ((grows_transpose hS (hc x (by simp [operands])) fun _ => trivial).mono
      fun _ _ _ _ h => h.1)
  | project x target =>
    exact single ((grows_project hS (hc x (by simp [operands])) fun _ => trivial).mono
      fun _ _ _ _ h => h.1)
  | join axis parts =>
    refine single ?_
    cases axis with
    | horizontal => exact usable_horzcat hS hc
    | vertical => exact usable_vertcat hS hc
    | diagonal => exact usable_diagcat hS hc
  | split axis x rows cols =>
    cases axis with
    | horizontal => exact growsSome_horzsplit hS (hc x (by simp [operands])) cols
    | vertical => exact growsSome_vertsplit hS (hc x (by simp [operands])) rows
    | diagonal => exact growsSome_diagsplit hS (hc x (by simp [operands])) rows cols

end Construction

/-- With `n` identities drawn, the expressions at hand can be built. -/
inductive Built : Nat → List (Expr α) → Prop
  | start : Built 0 []
  | skip {n m : Nat} {G : List (Expr α)} : Built n G → n ≤ m → Built m G
  | symbol {n : Nat} {G : List (Expr α)} (name : String) (p : Pattern) : Built n G →
      Built (n + 1) (.node n (.symbol name) [] p [] :: G)
  | make {n n' : Nat} {G es : List (Expr α)} (c : Construction α) : Built n G →
      (∀ x ∈ c.operands, x ∈ G) → c.run n = .ok (es, n') → Built n' (es ++ G)
  /-- Part of an expression at hand. -/
  | inner {n : Nat} {G : List (Expr α)} {e x : Expr α} : Built n G → e ∈ G → e.Reaches x →
      x.op.isSplit = false → Built n (x :: G)

theorem Built.isGraph {G : List (Expr α)} (h : Built n G) :
    IsGraph n (nodesOf G) ∧ ∀ e ∈ G, e.op.isSplit = false := by
  induction h with
  | start => exact ⟨(IsGraph.empty 0).nodesOf (by simp), by simp⟩
  | skip _ hnm ih => exact ⟨ih.1.mono hnm, ih.2⟩
  | @symbol n G name p _ ih =>
    have hnew : IsGraph (n + 1) (insert (.node n (.symbol name) [] p []) (nodesOf G)) :=
      ih.1.insert rfl (.symbol n name p) (by simp [deps]) (by simp [deps])
    refine ⟨hnew.nodesOf ?_, ?_⟩
    · rintro e he
      rcases List.mem_cons.1 he with rfl | he
      · exact Set.mem_insert _ _
      · exact Set.mem_insert_of_mem _ (mem_nodesOf he)
    · rintro e he
      rcases List.mem_cons.1 he with rfl | he
      · rfl
      · exact ih.2 e he
  | @make n n' G es c _ hops hrun ih =>
    have hgrow := c.growsSome_run ih.1 fun x hx => ⟨mem_nodesOf (hops x hx), ih.2 x (hops x hx)⟩
    unfold GrowsSome Grows at hgrow
    simp only [hrun] at hgrow
    obtain ⟨S', hext, hus⟩ := hgrow
    refine ⟨hext.graph.nodesOf ?_, ?_⟩
    · rintro e he
      rcases List.mem_append.1 he with he | he
      · exact (hus e he).1
      · exact hext.subset (mem_nodesOf he)
    · rintro e he
      rcases List.mem_append.1 he with he | he
      · exact (hus e he).2
      · exact ih.2 e he
  | @inner n G e x _ he hreach hsplit ih =>
    refine ⟨ih.1.nodesOf ?_, ?_⟩
    · rintro y hy
      rcases List.mem_cons.1 hy with rfl | hy
      · exact ⟨e, he, hreach⟩
      · exact mem_nodesOf hy
    · rintro y hy
      rcases List.mem_cons.1 hy with rfl | hy
      · exact hsplit
      · exact ih.2 y hy

end DiffGraph
