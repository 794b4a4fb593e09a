import Mathlib
import DiffGraph.Collocation.Residual
import DiffGraph.Proofs.Collocation.BlockTable
import DiffGraph.Proofs.Collocation.Problem
import DiffGraph.Proofs.Collocation.Transcription
import DiffGraph.Proofs.Derivative.Seeds

/-!
# The unknown vector

The vector of unknowns is cut into columns, the backward and forward states by turns
(`grows_vertsplit_columns`). With the symbols for the initial states this names the states at
all points: forward state `m` starts behind backward state `m - 1`, the first
forward and the last backward state are symbols of their own
(`grows_trajectory`).
-/

namespace DiffGraph

open Expr

/-! ## Columns on top of each other -/

namespace Pattern

theorem above_column (a b : Nat) : above (column a) (column b) = column (a + b) := by
  refine eq_of_columns_eq rfl ?_
  simp [above, column, dense, List.range_add]

theorem joins_columns (sizes : List Nat) :
    Joins .vertical (sizes.map column) (column sizes.sum) := by
  refine ⟨by simp [column], ?_⟩
  induction sizes with
  | nil => rfl
  | cons k ks ih => rw [List.sum_cons, ← above_column, ih, List.map_cons, List.foldr_cons]

theorem entry_column {T : Type} [Zero T] {k i : Nat} (hi : i < k) (v : List T) :
    (column k).entry v i 0 = v[i]?.getD 0 := by
  refine entry_of_getElem? ?_
  simp [triplets, column, dense, hi]

theorem columnChecked_eq (k : Nat) : columnChecked k =
    if Size.Fits (k, 1) then .ok (.column k) else .error .misuse :=
  denseChecked_eq k 1

end Pattern

theorem getElem?_chunks {β : Type} (sizes : List Nat) (items : List β) (i : Nat) :
    (chunks sizes items)[i]? =
      sizes[i]?.map fun k => (items.drop (sizes.take i).sum).take k := by
  induction sizes generalizing items i with
  | nil => rfl
  | cons k ks ih =>
    cases i with
    | zero => simp [chunks]
    | succ i => simp [chunks, ih, List.drop_drop]

variable {α : Type} {n n' : Nat} {S : Set (Expr α)} {x : Expr α} {env : Nat → Nat → α}

/-! ## Columns of a graph -/

theorem grows_vertsplit [Scalar α] {refused : GraphError → Prop} (hS : IsGraph n S)
    (hx : Usable S x) {sizes : List Nat} (hp : x.pattern = .column sizes.sum) :
    Grows refused n S (x.vertsplit (Offsets.ofSizes sizes)) fun S' blocks =>
      (∀ b ∈ blocks, Usable S' b) ∧ blocks.map Expr.pattern = sizes.map Pattern.column ∧
        ∀ env : Nat → Nat → α, blocks.map (nonzeros env) = chunks sizes (nonzeros env x) := by
  have hjoins : Pattern.Joins .vertical (sizes.map Pattern.column) x.pattern :=
    hp ▸ Pattern.joins_columns sizes
  have hsizes (f : Pattern → Nat) (hf : ∀ k, f (.column k) = k) :
      (sizes.map Pattern.column).map f = sizes := by
    rw [List.map_map]
    exact (List.map_congr_left fun k _ => hf k).trans (List.map_id sizes)
  have hsplit : Grows refused n S (splitAlong _ x _ _) _ := grows_splitAlong hS hx hjoins
  rw [splitAlong, hsizes Pattern.nrows fun _ => rfl,
    hsizes Pattern.nnz fun k => by simp [Pattern.column]] at hsplit
  exact hsplit

section Columns

variable [ExactField α]

theorem HasColumn.of_nonzeros (hx : Usable S x) {k : Nat} (hp : x.pattern = .column k)
    {xs : List α} (h : nonzeros env x = xs) : HasColumn env S x k fun i => xs[i]?.getD 0 := by
  refine ⟨hx, by rw [Expr.shape, hp]; simp [Pattern.column], fun i hi => ?_⟩
  rw [Expr.entry, hp, h, Pattern.entry_column hi]

/-- The columns that a dense column is cut into have its entries from their offsets on. -/
theorem grows_vertsplit_columns {refused : GraphError → Prop} (hS : IsGraph n S) (hx : Usable S x)
    {sizes : List Nat} (hp : x.pattern = .column sizes.sum) :
    Grows refused n S (x.vertsplit (Offsets.ofSizes sizes)) fun S' blocks =>
      ∀ (env : Nat → Nat → α) (i k : Nat), sizes[i]? = some k →
        ∃ b, blocks[i]? = some b ∧ HasColumn env S' b k fun r =>
          (nonzeros env x)[(sizes.take i).sum + r]?.getD 0 := by
  refine (grows_vertsplit hS hx hp).mono ?_
  rintro n' S' blocks - ⟨hus, hpatterns, hvalues⟩ env i k hk
  have hpattern : (blocks.map Expr.pattern)[i]? = some (.column k) := by
    rw [hpatterns, List.getElem?_map, hk]
    rfl
  rw [List.getElem?_map, Option.map_eq_some_iff] at hpattern
  obtain ⟨b, hb, hbp⟩ := hpattern
  have hvalue : (blocks.map (nonzeros env))[i]? =
      some (((nonzeros env x).drop (sizes.take i).sum).take k) := by
    rw [hvalues, getElem?_chunks, hk]
    rfl
  rw [List.getElem?_map, hb, Option.map_some, Option.some.injEq] at hvalue
  refine ⟨b, hb, (HasColumn.of_nonzeros (hus b (List.mem_of_getElem? hb)) hbp hvalue).congr
    fun r hr => ?_⟩
  rw [List.getElem?_take_of_lt hr, List.getElem?_drop]

end Columns

/-! ## Steps of the discretisation -/

theorem Grows.mapError {β ε ε' : Type} {refused : ε' → Prop} {wrap : ε → ε'}
    {step : StateT Nat (Except ε) β} {Q : Set (Expr α) → β → Prop}
    (h : Grows (fun e => refused (wrap e)) n S step Q) :
    Grows refused n S (fun n => (step n).mapError wrap) Q := by
  unfold Grows at *
  cases hstep : step n with
  | ok out => simpa only [hstep, Except.mapError] using h
  | error e => simpa only [hstep, Except.mapError] using h

theorem Grows.onGraph {β : Type} {refused : Failure α → Prop} {step : Build β}
    {Q : Set (Expr α) → β → Prop} (h : Grows (fun e => refused (.graph e)) n S step Q) :
    Grows refused n S (Assemble.onGraph step) Q :=
  h.mapError

theorem bind_column {β : Type} (name : String) (k n : Nat) (f : Expr α → Assemble α β) :
    ((Assemble.onGraph do Expr.symbol name (← Pattern.columnChecked k)) >>= f) n =
      if Size.Fits (k, 1) then f (.node n (.symbol name) [] (.column k) []) (n + 1)
      else .error (.graph .misuse) := by
  have hrun : (Assemble.onGraph do
      Expr.symbol name (← Pattern.columnChecked k) : Assemble α (Expr α)) n =
      if Size.Fits (k, 1) then .ok (.node n (.symbol name) [] (.column k) [], n + 1)
      else .error (.graph .misuse) := by
    show Except.mapError Failure.graph ((liftM (Pattern.columnChecked k) : Build Pattern) n >>=
      fun out => (liftM (Expr.symbol name out.1 : Fresh (Expr α)) : Build (Expr α)) out.2) = _
    rw [Pattern.columnChecked_eq]
    split <;> rfl
  show (Assemble.onGraph do
    Expr.symbol name (← Pattern.columnChecked k) : Assemble α (Expr α)) n >>=
      (fun out => f out.1 out.2) = _
  rw [hrun]
  split <;> rfl

def Trajectory.inputs (t : Trajectory α) : List (Expr α) :=
  [t.v, t.x0, t.p, t.rx0, t.rp]

namespace Discretization

def columnSizes (d : Discretization α) : List Nat :=
  [d.unknowns, d.fwd.nx, d.fwd.np, d.bwd.nrx, d.bwd.nrp]

/-- The symbols that are made from the next identities on. -/
def symbolsFrom (d : Discretization α) (n : Nat) : Trajectory α where
  v := .node (n + 4) (.symbol "V") [] (.column d.unknowns) []
  x0 := .node n (.symbol "X0") [] (.column d.fwd.nx) []
  p := .node (n + 1) (.symbol "P") [] (.column d.fwd.np) []
  rx0 := .node (n + 2) (.symbol "RX0") [] (.column d.bwd.nrx) []
  rp := .node (n + 3) (.symbol "RP") [] (.column d.bwd.nrp) []
  table := d.blockTable
  blocks := []

theorem exists_addsSymbols (d : Discretization α) (hS : IsGraph n S) :
    ∃ S', AddsSymbols n S (n + 5) S' (d.symbolsFrom n).inputs := by
  have hadd₁ := AddsSymbols.single hS "X0" (.column d.fwd.nx)
  have hadd₂ := hadd₁.append (.single hadd₁.graph "P" (.column d.fwd.np))
  have hadd₃ := hadd₂.append (.single hadd₂.graph "RX0" (.column d.bwd.nrx))
  have hadd₄ := hadd₃.append (.single hadd₃.graph "RP" (.column d.bwd.nrp))
  have hadd₅ := hadd₄.append (.single hadd₄.graph "V" (.column d.unknowns))
  exact ⟨_, hadd₅.perm List.perm_append_comm⟩

/-- The table of blocks always covers the unknown vector. -/
theorem trajectory_eq [OrderedScalar α] (d : Discretization α) (helements : d.elements ≠ 0)
    (n : Nat) : d.trajectory n =
    if ∀ k ∈ d.columnSizes, Size.Fits (k, 1) then
      ((Assemble.onGraph ((d.symbolsFrom n).v.vertsplit (Offsets.ofSizes d.blockSizes))) >>=
        fun blocks => pure { d.symbolsFrom n with blocks }) (n + 5)
    else .error (.graph .misuse) := by
  unfold trajectory
  dsimp only
  simp only [bind_column]
  rw [covered_blockTable helements, blockOffsets, (blockTable_spec helements).offsets]
  simp only [ne_eq, not_true_eq_false, if_false, columnSizes, List.forall_mem_cons,
    List.not_mem_nil, false_imp_iff, implies_true, and_true]
  split_ifs <;> first | rfl | tauto

section States

variable [ExactField α] (d : Discretization α) (v x0 p rx0 rp : List α)

/-- The collocation problem at the arguments of the residual function. -/
def transcription : Transcription α where
  forward := d.f.outputAt
  backward := d.g.map Function.outputAt
  fwd := d.fwd
  bwd := d.bwd
  elements := d.elements
  degree := d.degree
  t0 := d.t0
  h := d.h
  points := d.points
  x := forwardStates d.fwd.nx d.bwd.nrx v x0
  rx := backwardStates d.fwd.nx d.bwd.nrx d.pointCount v rx0
  p := fun i => p[i]?.getD 0
  rp := fun i => rp[i]?.getD 0

end States

end Discretization

/-- The expressions of the trajectory stand for the states and parameters of a problem. -/
structure Trajectory.Holds [ExactField α] (d : Discretization α) (s : Transcription α)
    (env : Nat → Nat → α) (S : Set (Expr α)) (t : Trajectory α) : Prop where
  p : HasColumn env S t.p d.fwd.np s.p
  rp : HasColumn env S t.rp d.bwd.nrp s.rp
  forward : ∀ m ≤ d.pointCount, ∃ e, Discretization.forwardState t m = pure e ∧
    HasColumn env S e d.fwd.nx (s.x m)
  backward : ∀ m ≤ d.pointCount, ∃ e, Discretization.backwardState t m = pure e ∧
    HasColumn env S e d.bwd.nrx (s.rx m)

theorem Trajectory.Holds.mono [ExactField α] {d : Discretization α} {s : Transcription α}
    {S' : Set (Expr α)} {t : Trajectory α} (h : t.Holds d s env S) (hsub : S ⊆ S') :
    t.Holds d s env S' where
  p := h.p.mono hsub
  rp := h.rp.mono hsub
  forward m hm := (h.forward m hm).imp fun _ he => ⟨he.1, he.2.mono hsub⟩
  backward m hm := (h.backward m hm).imp fun _ he => ⟨he.1, he.2.mono hsub⟩

namespace Discretization

/-- At the arguments of the residual function the trajectory names the states that these give. -/
theorem grows_trajectory [ExactField α] {refused : Failure α → Prop} (d : Discretization α)
    (helements : d.elements ≠ 0) {B : Set (Expr α)}
    (hadd : AddsSymbols n B (n + 5) S (d.symbolsFrom n).inputs)
    {v x0 p rx0 rp : List α} (hargs : [v, x0, p, rx0, rp].map List.length = d.columnSizes) :
    Grows refused (n + 5) S
      ((Assemble.onGraph ((d.symbolsFrom n).v.vertsplit (Offsets.ofSizes d.blockSizes))) >>=
        fun blocks => pure { d.symbolsFrom n with blocks }) fun S' t =>
      t.inputs = (d.symbolsFrom n).inputs ∧ t.Holds d (d.transcription v x0 p rx0 rp)
        (Function.assign t.inputs [v, x0, p, rx0, rp]) S' := by
  set inputs := (d.symbolsFrom n).inputs with hinputs
  have hsizes : [v, x0, p, rx0, rp].map List.length = inputs.map nnz := by
    rw [hargs]
    simp [hinputs, Trajectory.inputs, symbolsFrom, columnSizes, nnz, pattern, Pattern.column]
  have hmem (x : Expr α) (hx : x ∈ inputs) : x ∈ S := (hadd.mem x hx).1
  have hread {t : Nat} {x : Expr α} (hx : inputs[t]? = some x) {a : List α}
      (ha : [v, x0, p, rx0, rp][t]? = some a) :
      nonzeros (Function.assign inputs [v, x0, p, rx0, rp]) x = a :=
    Function.nonzeros_assign hadd.graph hmem hsizes (isLast_of_nodup hadd.nodup hx)
      (hadd.mem x (List.mem_of_getElem? hx)).2.1 ha
  have hsymbol {t k : Nat} {x : Expr α} (hx : inputs[t]? = some x) (hp : x.pattern = .column k)
      {a : List α} (ha : [v, x0, p, rx0, rp][t]? = some a) :
      HasColumn (Function.assign inputs [v, x0, p, rx0, rp]) S x k fun i => a[i]?.getD 0 := by
    obtain ⟨hxS, hsym, -⟩ := hadd.mem x (List.mem_of_getElem? hx)
    exact .of_nonzeros (hadd.graph.usable_of_isSymbol hxS hsym) hp (hread hx ha)
  have hv : Usable S (d.symbolsFrom n).v := ⟨hmem _ (by simp [hinputs, Trajectory.inputs]), rfl⟩
  have hvp : (d.symbolsFrom n).v.pattern = .column d.blockSizes.sum := by
    rw [sum_blockSizes]
    rfl
  refine .bind (.onGraph (grows_vertsplit_columns hadd.graph hv hvp))
    fun n₁ S₁ blocks h₁ hblocks => .pure h₁.graph ⟨rfl, ?_⟩
  set t : Trajectory α := { d.symbolsFrom n with blocks } with ht
  have hturns : t.ByTurns d := byTurns helements rfl
  have hblock {i k : Nat} (hk : d.blockSizes[i]? = some k) : ∃ e, block t i = pure e ∧
      HasColumn (Function.assign inputs [v, x0, p, rx0, rp]) S₁ e k fun r =>
        v[(d.blockSizes.take i).sum + r]?.getD 0 := by
    obtain ⟨e, he, hcol⟩ := hblocks (Function.assign inputs [v, x0, p, rx0, rp]) i k hk
    refine ⟨e, ?_, hcol.congr fun r _ => ?_⟩
    · unfold block
      rw [ht]
      dsimp only
      rw [he]
    · rw [hread (t := 0) rfl rfl]
  refine ⟨(hsymbol (t := 2) rfl rfl rfl).mono h₁.subset,
    (hsymbol (t := 4) rfl rfl rfl).mono h₁.subset, ?_, ?_⟩
  · rintro (_ | m) hm
    · exact ⟨_, hturns.first, (hsymbol (t := 1) rfl rfl rfl).mono h₁.subset⟩
    · obtain ⟨hfirst, hsecond, hsum⟩ := BlockTable.turns_pair (show m < d.pointCount by omega)
        d.fwd.nx d.bwd.nrx
      obtain ⟨e, he, hcol⟩ := hblock hsecond
      refine ⟨e, (hturns.forward m (by omega)).trans he, hcol.congr fun i _ => ?_⟩
      rw [List.take_add_one, blockSizes, hfirst, List.sum_append, hsum]
      rfl
  · intro m hm
    rcases hm.eq_or_lt with rfl | hm
    · refine ⟨_, hturns.last, ((hsymbol (t := 3) rfl rfl rfl).mono h₁.subset).congr fun i _ => ?_⟩
      exact (if_pos rfl).symm
    · obtain ⟨hfirst, -, hsum⟩ := BlockTable.turns_pair hm d.fwd.nx d.bwd.nrx
      obtain ⟨e, he, hcol⟩ := hblock hfirst
      refine ⟨e, (hturns.backward m hm).trans he, hcol.congr fun i _ => ?_⟩
      rw [blockSizes, hsum]
      exact (if_neg hm.ne).symm

end Discretization

end DiffGraph
