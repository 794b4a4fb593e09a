import Mathlib
import DiffGraph.Expr.Elementwise
import DiffGraph.Expr.Split
import DiffGraph.Proofs.Pattern.Splits

/-!
# Well-formed graphs

`WellFormed` says of one node, with one case for every operation, that its
operands, patterns and mappings fit together. A set of nodes is a graph
(`IsGraph`) if it is closed under operands, a node is determined by its identity,
and a node with several results is an operand of references to its results only.
A node built from a graph under a new identity extends it (`IsGraph.insert`).
-/

namespace DiffGraph

namespace Expr

variable {α : Type}

/-- A property that passes from the operands to the node holds of every expression. -/
theorem induction {P : Expr α → Prop}
    (step : ∀ e : Expr α, (∀ d ∈ e.deps, P d) → P e) : ∀ e, P e
  | .node id op deps pattern others => by
    refine step _ fun d hd => ?_
    have : sizeOf d < sizeOf deps := List.sizeOf_lt_of_mem hd
    exact induction step d
termination_by e => sizeOf e
decreasing_by simp only [node.sizeOf_spec]; omega

/-- `x` is part of the expression. -/
inductive Reaches : Expr α → Expr α → Prop
  | refl (e : Expr α) : Reaches e e
  | dep {e d x : Expr α} : d ∈ e.deps → Reaches d x → Reaches e x

theorem Reaches.trans {a b c : Expr α} (hab : a.Reaches b) (hbc : b.Reaches c) : a.Reaches c := by
  induction hab with
  | refl => exact hbc
  | dep hd _ ih => exact .dep hd (ih hbc)

theorem Reaches.of_dep {e d : Expr α} (h : d ∈ e.deps) : e.Reaches d :=
  .dep h (.refl d)

/-- A set that contains the operands of its members contains everything that they are built from. -/
theorem Reaches.mem {T : Set (Expr α)} (closed : ∀ e ∈ T, ∀ d ∈ e.deps, d ∈ T) {e x : Expr α}
    (h : e.Reaches x) (he : e ∈ T) : x ∈ T := by
  induction h with
  | refl => exact he
  | dep hd _ ih => exact ih (closed _ he _ hd)

theorem Reaches.sizeOf_le {a b : Expr α} (h : a.Reaches b) : sizeOf b ≤ sizeOf a := by
  induction h with
  | refl => exact Nat.le_refl _
  | @dep e d x hd _ ih =>
    have hlt : sizeOf d < sizeOf e.deps := List.sizeOf_lt_of_mem hd
    cases e
    simp only [node.sizeOf_spec]
    simp only [deps] at hlt
    omega

def isOutput (e : Expr α) : Bool :=
  match e.op with
  | .output _ => true
  | _ => false

def isOperation (e : Expr α) : Bool :=
  !e.op.isReference

/-- The node and the number of the result that an expression stands for. -/
def source (e : Expr α) : Expr α × Nat :=
  match e.op, e.deps with
  | .output i, q :: _ => (q, i)
  | _, _ => (e, 0)

theorem source_of_not_isOutput {e : Expr α} (h : e.isOutput = false) : e.source = (e, 0) := by
  unfold source
  unfold isOutput at h
  split
  · simp_all
  · rfl

end Expr

/-- The operands of the operation are in line with each other. -/
def Expr.Aligned.Fits {α : Type} (op : BinaryOp) (a : Expr.Aligned α) : Prop :=
  match a.broadcast with
  | .none => a.left.pattern = a.right.pattern
  | .left => a.left.pattern = .scalar ∧ a.right.shape ≠ (1, 1) ∧
      (op = .mul ∨ a.right.pattern = .dense a.right.pattern.nrows a.right.pattern.ncols)
  | .right => a.right.pattern = .scalar ∧ a.left.shape ≠ (1, 1) ∧
      (op = .mul ∨ op = .div ∨
        a.left.pattern = .dense a.left.pattern.nrows a.left.pattern.ncols)

namespace Expr.Aligned

variable {α : Type} {a : Aligned α} {op : BinaryOp}

theorem Fits.operands_lt (h : a.Fits op) {k : Nat} (hk : k < a.pattern.nnz) :
    (a.broadcast.operands k).1 < a.left.nnz ∧ (a.broadcast.operands k).2 < a.right.nnz := by
  obtain ⟨x, y, broadcast⟩ := a
  cases broadcast with
  | none =>
    have h : x.pattern = y.pattern := h
    exact ⟨hk, show k < y.pattern.nnz from h ▸ hk⟩
  | left => exact ⟨show 0 < x.pattern.nnz by rw [h.1]; exact Nat.one_pos, hk⟩
  | right => exact ⟨hk, show 0 < y.pattern.nnz by rw [h.1]; exact Nat.one_pos⟩

theorem Fits.operands_of_pattern (h : a.Fits op) (k : Nat) :
    (a.left.pattern = a.pattern → (a.broadcast.operands k).1 = k) ∧
      (a.right.pattern = a.pattern → (a.broadcast.operands k).2 = k) := by
  obtain ⟨x, y, broadcast⟩ := a
  cases broadcast with
  | none => exact ⟨fun _ => rfl, fun _ => rfl⟩
  | left =>
    refine ⟨fun hx => absurd ?_ h.2.1, fun _ => rfl⟩
    exact (congrArg Pattern.shape (hx.symm.trans h.1) :)
  | right =>
    refine ⟨fun _ => rfl, fun hy => absurd ?_ h.2.1⟩
    exact (congrArg Pattern.shape (hy.symm.trans h.1) :)

end Expr.Aligned

namespace Expr

variable {α : Type}

/-- The operands, patterns and mappings of the node fit together. -/
inductive WellFormed : Expr α → Prop
  | symbol (id : Nat) (name : String) (p : Pattern) :
      WellFormed (.node id (.symbol name) [] p [])
  | constant (id : Nat) {nz : List α} {p : Pattern} (length : nz.length = p.nnz) :
      WellFormed (.node id (.constant nz) [] p [])
  | unary (id : Nat) {op : UnaryOp} {x : Expr α} {p : Pattern} (pattern : x.pattern = p)
      (dense : op.preservesZero = true ∨ p = .dense p.nrows p.ncols) :
      WellFormed (.node id (.unary op) [x] p [])
  | binary (id : Nat) {op : BinaryOp} {broadcast : Broadcast} {x y : Expr α} {p : Pattern}
      (pattern : (⟨x, y, broadcast⟩ : Aligned α).pattern = p)
      (fits : (⟨x, y, broadcast⟩ : Aligned α).Fits op) :
      WellFormed (.node id (.binary op broadcast) [x, y] p [])
  | innerProduct (id : Nat) {x y : Expr α} (patterns : x.pattern = y.pattern) :
      WellFormed (.node id .innerProduct [x, y] .scalar [])
  | transpose (id : Nat) {x : Expr α} {mapping : List Nat} {p : Pattern}
      (numbers : x.pattern.transposition = mapping) (pattern : x.pattern.transpose = p) :
      WellFormed (.node id (.transpose mapping) [x] p [])
  | project (id : Nat) {x : Expr α} {mapping : List (Option Nat)} {p : Pattern}
      (numbers : x.pattern.projection p = mapping) (shape : x.shape = p.shape) :
      WellFormed (.node id (.project mapping) [x] p [])
  | join (id : Nat) {axis : Axis} {parts : List (Expr α)} {p : Pattern}
      (count : 2 ≤ parts.length) (joins : Pattern.Joins axis (parts.map Expr.pattern) p) :
      WellFormed (.node id (.join axis) parts p [])
  | split (id : Nat) {axis : Axis} {offsets : List Nat} {x : Expr α} {p : Pattern}
      {ps : List Pattern} (count : ps ≠ [])
      (table : Offsets.ofSizes ((p :: ps).map Pattern.nnz) = offsets)
      (joins : Pattern.Joins axis (p :: ps) x.pattern) :
      WellFormed (.node id (.split axis offsets) [x] p ps)
  | output (id : Nat) {i : Nat} {q : Expr α} {p : Pattern} (split : q.op.isSplit = true)
      (pattern : q.patterns[i]? = some p) :
      WellFormed (.node id (.output i) [q] p [])

theorem exists_patterns (e : Expr α) : ∃ ps, e.patterns = e.pattern :: ps := by
  cases e
  exact ⟨_, rfl⟩

theorem resultCount_pos (e : Expr α) : 0 < e.resultCount := by
  cases e
  exact Nat.succ_pos _

theorem WellFormed.resultCount_eq {e : Expr α} (h : e.WellFormed) :
    e.resultCount = 1 ↔ e.op.isSplit = false := by
  cases h with
  | split _ count => simp [resultCount, patterns, op, Op.isSplit, count]
  | _ => simp [resultCount, patterns, op, Op.isSplit]

theorem WellFormed.patterns_eq {e : Expr α} (h : e.WellFormed) (hs : e.op.isSplit = false) :
    e.patterns = [e.pattern] := by
  cases h with
  | split => simp [op, Op.isSplit] at hs
  | _ => rfl

theorem WellFormed.exists_of_isOutput {e : Expr α} (h : e.WellFormed) (ho : e.isOutput = true) :
    ∃ id i q p, e = .node id (.output i) [q] p [] ∧ q.op.isSplit = true ∧
      q.patterns[i]? = some p := by
  cases h with
  | output id split pattern => exact ⟨_, _, _, _, rfl, split, pattern⟩
  | _ => simp [isOutput, op] at ho

theorem WellFormed.exists_of_isSymbol {e : Expr α} (h : e.WellFormed) (hs : e.isSymbol = true) :
    ∃ id name p, e = .node id (.symbol name) [] p [] := by
  cases h with
  | symbol => exact ⟨_, _, _, rfl⟩
  | _ => simp [isSymbol, name?, op] at hs

theorem isOperation_of_isSplit {e : Expr α} (h : e.op.isSplit = true) : e.isOperation = true := by
  unfold Op.isSplit at h
  unfold isOperation Op.isReference
  split at h <;> simp_all

theorem isSymbol_or_isOutput {e : Expr α} (h : e.isOperation = false) :
    e.isSymbol = true ∨ e.isOutput = true := by
  unfold isOperation Op.isReference at h
  unfold isSymbol name? isOutput
  split at h <;> simp_all

theorem not_isOutput_of_isOperation {e : Expr α} (h : e.isOperation = true) :
    e.isOutput = false := by
  unfold isOperation Op.isReference at h
  unfold isOutput
  split at h <;> simp_all

end Expr

/-- A set of well-formed nodes that contains what they are built from. Splits may be operands like
any other node. -/
structure IsDag {α : Type} (S : Set (Expr α)) : Prop where
  closed : ∀ e ∈ S, ∀ d ∈ e.deps, d ∈ S
  unique : ∀ a ∈ S, ∀ b ∈ S, a.id = b.id → a = b
  wellFormed : ∀ e ∈ S, e.WellFormed

/-- What an expression stands for: a result of a node that is no reference. -/
theorem IsDag.source_spec {α : Type} {S : Set (Expr α)} (h : IsDag S) {e : Expr α} (he : e ∈ S) :
    e.source.1 ∈ S ∧ e.source.1.isOutput = false ∧ e.source.2 < e.source.1.resultCount := by
  by_cases ho : e.isOutput = true
  · obtain ⟨id, i, q, p, rfl, hsplit, hp⟩ := (h.wellFormed e he).exists_of_isOutput ho
    exact ⟨h.closed _ he q (List.mem_singleton_self q),
      Expr.not_isOutput_of_isOperation (Expr.isOperation_of_isSplit hsplit),
      (List.getElem?_eq_some_iff.1 hp).1⟩
  · have ho : e.isOutput = false := by simpa using ho
    rw [Expr.source_of_not_isOutput ho]
    exact ⟨he, ho, e.resultCount_pos⟩

theorem IsDag.length_of_constant? {α : Type} {S : Set (Expr α)} (h : IsDag S) {e : Expr α}
    (he : e ∈ S) {nz : List α} (hnz : e.constant? = some nz) : nz.length = e.nnz := by
  cases h.wellFormed e he with
  | constant id length =>
    obtain rfl := Option.some.inj hnz
    exact length
  | _ => simp [Expr.constant?, Expr.op] at hnz

structure IsDagBelow {α : Type} (n : Nat) (S : Set (Expr α)) : Prop extends IsDag S where
  below : ∀ e ∈ S, e.id < n

namespace IsDagBelow

variable {α : Type} {n m : Nat} {S : Set (Expr α)} {e : Expr α}

theorem mono (h : IsDagBelow n S) (hnm : n ≤ m) : IsDagBelow m S :=
  { h with below := fun e he => Nat.lt_of_lt_of_le (h.below e he) hnm }

theorem empty (n : Nat) : IsDagBelow n (∅ : Set (Expr α)) :=
  ⟨⟨by simp, by simp, by simp⟩, by simp⟩

theorem insert (h : IsDagBelow n S) (hid : e.id = n) (hwf : e.WellFormed)
    (hdeps : ∀ d ∈ e.deps, d ∈ S) : IsDagBelow (n + 1) (insert e S) where
  closed x hx d hd := by
    rcases Set.mem_insert_iff.1 hx with rfl | hx
    · exact Set.mem_insert_of_mem _ (hdeps d hd)
    · exact Set.mem_insert_of_mem _ (h.closed x hx d hd)
  unique a ha b hb hab := by
    rcases Set.mem_insert_iff.1 ha with hae | hae <;> rcases Set.mem_insert_iff.1 hb with hbe | hbe
    · exact hae.trans hbe.symm
    · have := h.below b hbe
      subst hae
      omega
    · have := h.below a hae
      subst hbe
      omega
    · exact h.unique a hae b hbe hab
  wellFormed x hx := by
    rcases Set.mem_insert_iff.1 hx with rfl | hx
    · exact hwf
    · exact h.wellFormed x hx
  below x hx := by
    rcases Set.mem_insert_iff.1 hx with rfl | hx
    · omega
    · exact Nat.lt_succ_of_lt (h.below x hx)

end IsDagBelow

/-- A set of nodes with identities below `n` that contains what its nodes are built from. -/
structure IsGraph {α : Type} (n : Nat) (S : Set (Expr α)) : Prop where
  closed : ∀ e ∈ S, ∀ d ∈ e.deps, d ∈ S
  unique : ∀ a ∈ S, ∀ b ∈ S, a.id = b.id → a = b
  below : ∀ e ∈ S, e.id < n
  wellFormed : ∀ e ∈ S, e.WellFormed
  /-- A split is an operand of references to its results only. -/
  proper : ∀ e ∈ S, e.isOutput = false → ∀ d ∈ e.deps, d.op.isSplit = false

namespace IsGraph

open Expr

variable {α : Type} {n m : Nat} {S T : Set (Expr α)} {e x : Expr α}

theorem isDagBelow (h : IsGraph n S) : IsDagBelow n S :=
  { h with }

theorem isDag (h : IsGraph n S) : IsDag S :=
  h.isDagBelow.toIsDag

theorem mem_of_reaches (h : IsGraph n S) (he : e ∈ S) (hx : e.Reaches x) : x ∈ S :=
  hx.mem h.closed he

theorem source_spec (h : IsGraph n S) (he : e ∈ S) :
    e.source.1 ∈ S ∧ e.source.1.isOutput = false ∧ e.source.2 < e.source.1.resultCount :=
  h.isDag.source_spec he

theorem mono (h : IsGraph n S) (hnm : n ≤ m) : IsGraph m S :=
  { h with below := fun e he => Nat.lt_of_lt_of_le (h.below e he) hnm }

theorem subset (h : IsGraph n S) (hTS : T ⊆ S) (hT : ∀ e ∈ T, ∀ d ∈ e.deps, d ∈ T) :
    IsGraph n T where
  closed := hT
  unique a ha b hb := h.unique a (hTS ha) b (hTS hb)
  below e he := h.below e (hTS he)
  wellFormed e he := h.wellFormed e (hTS he)
  proper e he := h.proper e (hTS he)

theorem empty (n : Nat) : IsGraph n (∅ : Set (Expr α)) where
  closed := by simp
  unique := by simp
  below := by simp
  wellFormed := by simp
  proper := by simp

theorem insert (h : IsGraph n S) (hid : e.id = n) (hwf : e.WellFormed)
    (hdeps : ∀ d ∈ e.deps, d ∈ S)
    (hproper : e.isOutput = false → ∀ d ∈ e.deps, d.op.isSplit = false) :
    IsGraph (n + 1) (insert e S) :=
  { h.isDagBelow.insert hid hwf hdeps with
    proper := fun x hx => by
      rcases Set.mem_insert_iff.1 hx with rfl | hx
      · exact hproper
      · exact h.proper x hx }

end IsGraph

/-- The nodes that the expressions at hand are built from. -/
def nodesOf {α : Type} (pool : List (Expr α)) : Set (Expr α) :=
  {x | ∃ e ∈ pool, e.Reaches x}

theorem IsGraph.nodesOf {α : Type} {n : Nat} {S : Set (Expr α)} {pool : List (Expr α)}
    (hS : IsGraph n S) (h : ∀ e ∈ pool, e ∈ S) : IsGraph n (nodesOf pool) := by
  refine hS.subset ?_ ?_
  · rintro x ⟨e, he, hreach⟩
    exact hS.mem_of_reaches (h e he) hreach
  · rintro x ⟨e, he, hreach⟩ d hd
    exact ⟨e, he, hreach.trans (.of_dep hd)⟩

theorem nodesOf_subset {α : Type} {S : Set (Expr α)} {pool : List (Expr α)}
    (closed : ∀ e ∈ S, ∀ d ∈ e.deps, d ∈ S) (h : ∀ e ∈ pool, e ∈ S) : nodesOf pool ⊆ S := by
  rintro x ⟨e, he, hreach⟩
  exact hreach.mem closed (h e he)

theorem IsDag.nodesOf {α : Type} {S : Set (Expr α)} (hS : IsDag S) {pool : List (Expr α)}
    (h : ∀ e ∈ pool, e ∈ S) : IsDag (nodesOf pool) := by
  have hsub := nodesOf_subset hS.closed h
  refine ⟨?_, fun a ha b hb => hS.unique a (hsub ha) b (hsub hb),
    fun e he => hS.wellFormed e (hsub he)⟩
  rintro x ⟨e, he, hreach⟩ d hd
  exact ⟨e, he, hreach.trans (.of_dep hd)⟩

theorem IsDagBelow.nodesOf {α : Type} {n : Nat} {S : Set (Expr α)} (hS : IsDagBelow n S)
    {pool : List (Expr α)} (h : ∀ e ∈ pool, e ∈ S) : IsDagBelow n (nodesOf pool) where
  toIsDag := hS.toIsDag.nodesOf h
  below e he := hS.below e (nodesOf_subset hS.closed h he)

theorem mem_nodesOf {α : Type} {pool : List (Expr α)} {e : Expr α} (h : e ∈ pool) :
    e ∈ nodesOf pool :=
  ⟨e, h, .refl e⟩

/-- The operations without operands; all of them are constants. -/
def constantsOf {α : Type} (S : Set (Expr α)) : Set (Expr α) :=
  {e | e ∈ S ∧ e.isOperation = true ∧ e.deps = []}

theorem constantsOf_mono {α : Type} {S S' : Set (Expr α)} (h : S ⊆ S') :
    constantsOf S ⊆ constantsOf S' :=
  fun _ he => ⟨h he.1, he.2⟩

theorem IsGraph.constantsOf {α : Type} {n : Nat} {S : Set (Expr α)} (hS : IsGraph n S) :
    IsGraph n (constantsOf S) :=
  hS.subset (fun _ he => he.1) fun e he d hd => by simp [he.2.2] at hd

end DiffGraph
