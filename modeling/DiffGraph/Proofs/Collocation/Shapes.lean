import Mathlib
import DiffGraph.Proofs.Collocation.Trajectory
import DiffGraph.Proofs.Derivative.Shapes
import DiffGraph.Proofs.Function.Expand

/-!
# Shapes of the equations

Over any numbers the basis of a list of points exists (`Basis.grows_ofPoints_scalars`), a state
is a column with a row for each of its unknowns (`Trajectory.HasShapes`), and a point or a
joint adds as many rows of equations as a point has unknowns (`Equations.HasShapes`). A step
is refused only by a constructor of the graph, and only where a function cannot be called
with the states or the memory is too small (`Unfit`, `Discretization.Manageable`).
-/

namespace DiffGraph

open Expr

variable {α : Type} {ok : Prop} {m n r k : Nat} {refused : GraphError → Prop}
  {G S S' : Set (Expr α)} {x h total : Expr α}

/-! ## Lagrange bases -/

namespace Basis

variable [Scalar α] {tau : Expr α}

/-- The expression is made of scalars. -/
abbrev IsScalars (S : Set (Expr α)) (x : Expr α) : Prop :=
  IsScalar S x fun _ : Nat → Nat → Blank α => ⟨⟩

theorem grows_polynomial_scalars (hS : IsGraph n S) (htau : IsScalars S tau) (points : List α)
    (j : Nat) : Grows refused n S (polynomial tau points j) IsScalars := by
  have hscalar {n' : Nat} {S' : Set (Expr α)} (hS' : IsGraph n' S') (a : α) :
      Grows refused n' S' (liftM (scalar a)) IsScalars := grows_scalar (T := Blank α) hS' a
  refine .bind (hscalar hS 1) fun n₁ S₁ one h₁ hone => ?_
  refine Grows.foldlM (P := fun S' _ l => IsScalars S' l) h₁.graph hone ?_
  rintro done ⟨root, i⟩ rest n₂ S₂ l - h₂ hl
  refine .bind (Q := IsScalars) ?_ fun n₃ S₃ a h₃ ha =>
    grows_binary_scalar h₃.graph .mul (hl.mono h₃.subset) ha
  refine .bind (hscalar h₂.graph root) fun n₃ S₃ a h₃ ha => ?_
  refine .bind (grows_binary_scalar h₃.graph .sub (htau.mono ((h₁.trans h₂).trans h₃).subset) ha)
    fun n₄ S₄ d h₄ hd => ?_
  refine .bind (hscalar h₄.graph _) fun n₅ S₅ c h₅ hc => ?_
  exact grows_binary_scalar h₅.graph .div (hd.mono h₅.subset) hc

theorem grows_forward_scalars (hS : IsGraph n S) {l : Function α} (hl : l.Compiled S)
    (hmemory : l.FitsMemory) (hin : l.inputs.map nnz = [1]) (hout : l.outputs.map nnz = [1]) :
    Grows refused n S (l.forward 1) fun _ dl =>
      ∀ x : α, ∃ slope, firstValue dl [[x], [1]] = .ok slope := by
  obtain ⟨dl, n', hdl, hle, heval⟩ := Function.exists_forward hS hl hmemory
    (show 1 < Size.listLimit by decide)
  refine .of_ok hS hle hdl fun x => ?_
  obtain ⟨outs, hrun, hcount, hlens⟩ := heval [[x]] [[[1]]] (by rw [hin]; rfl) rfl
    (by rw [hin]; simp)
  obtain ⟨out, rfl⟩ := List.length_eq_one_iff.1 hcount
  have hlen := hlens out (List.mem_singleton_self out)
  rw [hout, List.map_eq_singleton_iff] at hlen
  obtain ⟨v, rfl, hv⟩ := hlen
  obtain ⟨slope, rfl⟩ := List.length_eq_one_iff.1 hv
  exact ⟨slope, firstValue_eq hrun⟩

theorem grows_ofPoint_scalars (hS : IsGraph n S) (htau : IsScalars S tau)
    (hsym : tau.isSymbol = true) (hall : ∀ x ∈ S, x.isSymbol = true → x = tau) (points : List α)
    (j : Nat) : Grows refused n S (ofPoint tau points j) fun _ _ => True := by
  unfold ofPoint
  refine .bind (grows_polynomial_scalars hS htau points j) fun n₁ S₁ r h₁ hr => ?_
  obtain ⟨l, hl, hcompiled, hmemory, hin, hout, hrun⟩ := exists_compiled_scalar h₁.graph
    (htau.usable.mono h₁.subset) htau.ofScalars hsym
    (fun x hx hs => hall x (h₁.symbols x hx hs) hs) hr.usable hr.ofScalars s!"lagrange{j}"
  have hone (x : Expr α) (hx : x.pattern = .scalar) : [x].map nnz = [1] := by
    rw [List.map_singleton, nnz, hx]
    rfl
  rw [hl]
  refine .bind (Q := fun _ l' => l' = l) (.pure h₁.graph rfl) ?_
  rintro n₂ S₂ l' h₂ rfl
  rw [firstValue_eq (hrun α 1)]
  refine .bind (Q := fun _ _ => True) (.pure h₂.graph trivial) fun n₃ S₃ last h₃ _ => ?_
  refine .bind (grows_forward_scalars h₃.graph (hcompiled.mono (h₂.trans h₃).subset) hmemory
    (hin ▸ hone tau htau.pattern) (hout ▸ hone r hr.pattern)) fun n₄ S₄ dl h₄ hdl => ?_
  refine .bind (Grows.mapM (P := fun _ _ _ => True) h₄.graph (fun x _ n' S' h' => ?_)
    fun _ _ _ _ _ h => h) fun n₅ S₅ slopes h₅ _ => .pure h₅.graph trivial
  obtain ⟨slope, hslope⟩ := hdl x
  rw [hslope]
  exact .pure h'.graph trivial

theorem grows_ofPoints_scalars (hS : IsGraph n S) (points : List α) :
    Grows refused n S (ofPoints points) fun _ _ => True :=
  (grows_ofPoints_of hS points (P := fun _ _ => True)
    fun _ j _ _ hS' htau hscalars hsym hall => grows_ofPoint_scalars hS' ⟨htau, hscalars,
      fun _ => rfl⟩ hsym hall points j).mono fun _ _ _ _ _ => trivial

end Basis

/-! ## Columns -/

section Columns

variable [Scalar α]

theorem grows_zeros_shape (hS : IsGraph n S) (k : Nat) :
    Grows refused n S (liftM (zeros k 1)) fun S' r => HasShape S' r (k, 1) := by
  have hlen : ([] : List α).length = (Pattern.empty k 1).nnz := by simp
  refine (grows_constant hS hlen).mono fun n' S' r _ hr => ⟨hr.1, ?_⟩
  rw [shape, hr.2.1, Pattern.shape_empty]

theorem grows_binary_number_shape (hS : IsGraph n S) (op : BinaryOp) (hx : HasShape S x (k, 1))
    (hh : HasShape S h (1, 1)) (hfits : op ≠ .mul → ¬ Size.Fits (k, 1) → refused .misuse) :
    Grows refused n S (binary op x h) fun S' y => HasShape S' y (k, 1) :=
  grows_binary_shape hS op hx.1 hh.1 hx.spreads (.inr hh.2) (.inl hx.2) fun _ => hfits

theorem Basis.grows_combine_shape (hS : IsGraph n S) (coefficients : List α)
    {terms : List (Expr α)} (hterms : ∀ x ∈ terms, HasShape S x (k, 1)) :
    Grows refused n S (combine coefficients terms k) fun S' y => HasShape S' y (k, 1) := by
  unfold combine
  refine .bind (Grows.mapM (P := fun S' (_ : α × Expr α) y => HasShape S' y (k, 1)) hS ?_
    fun _ _ _ _ hsub hy => hy.mono hsub) fun n₁ S₁ scaled h₁ hscaled => ?_
  · rintro ⟨c, x⟩ hcx n' S' h'
    have hx := hterms x (List.of_mem_zip (List.mem_filter.1 hcx).1).2
    refine .bind (grows_scalar_shape h'.graph c) fun n₂ S₂ a h₂ ha => ?_
    exact grows_binary_number_shape h₂.graph .mul (hx.mono (h'.trans h₂).subset) ha
      fun hne => absurd rfl hne
  · have hall (y : Expr α) (hy : y ∈ scaled) : HasShape S₁ y (k, 1) := by
      obtain ⟨i, hi⟩ := List.mem_iff_getElem?.1 hy
      obtain ⟨-, -, hy⟩ := exists_of_forall₂ hscaled hi
      exact hy
    cases scaled with
    | nil => exact grows_zeros_shape h₁.graph k
    | cons first rest =>
      refine Grows.foldlM (P := fun S' _ y => HasShape S' y (k, 1)) h₁.graph (hall _ (by simp)) ?_
      intro done y rest' n' S' total hsplit h' htotal
      refine grows_binary_shapes h'.graph .add htotal ((hall y ?_).mono h'.subset)
      simp [hsplit]

theorem grows_stack (hS : IsGraph n S) {xs : List (Expr α)}
    (hxs : ∀ x ∈ xs, Usable S x ∧ x.pattern.ncols = 1) (hne : xs ≠ [])
    (hfits : ¬ Size.Fits ((xs.map fun x => x.pattern.nrows).sum, 1) → refused .misuse) :
    Grows refused n S (do (← vertcat xs).densify) fun S' y =>
      Usable S' y ∧ y.pattern = .column (xs.map fun x => x.pattern.nrows).sum ∧
        ∃ p, Pattern.Joins .vertical (xs.map Expr.pattern) p ∧ ∀ env : Nat → Nat → α,
          nonzeros env y = (Pattern.column (xs.map fun x => x.pattern.nrows).sum).gather
            (p.entry (xs.map (nonzeros env)).flatten) := by
  have hcolumns := Pattern.joins_columns (xs.map fun x => x.pattern.nrows)
  have hshapes : xs.map Expr.shape =
      ((xs.map fun x => x.pattern.nrows).map Pattern.column).map Pattern.shape := by
    rw [List.map_map, List.map_map]
    exact List.map_congr_left fun x hx => Prod.ext rfl (hxs x hx).2
  have hjoin : Grows refused n S (vertcat xs) _ :=
    grows_joinAlong hS (fun x hx => (hxs x hx).1) hne hcolumns hshapes fun hlarge => hfits fun h =>
      hlarge (by
        rw [← hcolumns.nrows_vertical]
        exact Nat.lt_of_lt_of_le (by simpa [Pattern.column] using h.2) (by decide))
  refine .bind hjoin fun n₁ S₁ y h₁ hjoined => ?_
  obtain ⟨hy, hyj, hyv⟩ := hjoined
  have hshape : y.shape = ((xs.map fun x => x.pattern.nrows).sum, 1) := by
    refine (hyj.shape_eq hcolumns (by simpa using hne) ?_).trans (by simp [Pattern.column])
    rw [List.map_map]
    exact hshapes
  refine (grows_densify h₁.graph hy (hshape ▸ hfits)).mono ?_
  rintro n' S' z - ⟨hz, hzp, hzv⟩
  have hrows : y.pattern.nrows = (xs.map fun x => x.pattern.nrows).sum := congrArg Prod.fst hshape
  have hcols : y.pattern.ncols = 1 := congrArg Prod.snd hshape
  rw [hrows, hcols] at hzp hzv
  refine ⟨hz, hzp, y.pattern, hyj, fun env => (hzv env).trans ?_⟩
  rw [← hyv env]
  rfl

end Columns

/-! ## Refusals -/

/-- Refused by a constructor of the graph, because the operands do not fit. -/
def Unfit (ok : Prop) (e : Failure α) : Prop :=
  (∃ g, e = .graph g) ∧ ¬ ok

theorem Grows.unfit {β : Type} {step : Build β} {Q : Set (Expr α) → β → Prop}
    (h : Grows (fun _ => ¬ ok) n S step Q) :
    Grows (Unfit ok) n S (Assemble.onGraph step : Assemble α β) Q :=
  .onGraph (h.weaken fun e he => ⟨⟨e, rfl⟩, he⟩)

/-! ## States -/

/-- The symbols and blocks of a trajectory are columns of the declared lengths. -/
structure Trajectory.HasShapes (d : Discretization α) (S : Set (Expr α)) (t : Trajectory α) :
    Prop where
  inputs : ∀ x ∈ t.inputs, Usable S x
  inputPatterns : t.inputs.map Expr.pattern = d.columnSizes.map Pattern.column
  blocks : ∀ b ∈ t.blocks, Usable S b
  blockPatterns : t.blocks.map Expr.pattern = d.blockSizes.map Pattern.column
  byTurns : t.ByTurns d

namespace Trajectory.HasShapes

variable {d : Discretization α} {t : Trajectory α}

theorem mono (ht : t.HasShapes d S) (hsub : S ⊆ S') : t.HasShapes d S' :=
  { ht with
    inputs := fun x hx => (ht.inputs x hx).mono hsub
    blocks := fun b hb => (ht.blocks b hb).mono hsub }

theorem input (ht : t.HasShapes d S) {i : Nat} (hx : t.inputs[i]? = some x)
    (hk : d.columnSizes[i]? = some k) : HasShape S x (k, 1) := by
  have hat := congrArg (·[i]?) ht.inputPatterns
  simp only [List.getElem?_map, hx, hk, Option.map_some, Option.some.injEq] at hat
  exact ⟨ht.inputs x (List.mem_of_getElem? hx), by rw [shape, hat]; simp [Pattern.column]⟩

theorem exists_block (ht : t.HasShapes d S) {i : Nat} (hk : d.blockSizes[i]? = some k) :
    ∃ b, Discretization.block t i = pure b ∧ HasShape S b (k, 1) := by
  have hat := congrArg (·[i]?) ht.blockPatterns
  simp only [List.getElem?_map, hk, Option.map_some, Option.map_eq_some_iff] at hat
  obtain ⟨b, hb, hp⟩ := hat
  refine ⟨b, ?_, ht.blocks b (List.mem_of_getElem? hb), by rw [shape, hp]; simp [Pattern.column]⟩
  unfold Discretization.block
  rw [hb]

theorem exists_forwardState (ht : t.HasShapes d S) (hm : m ≤ d.pointCount) :
    ∃ e, Discretization.forwardState t m = pure e ∧ HasShape S e (d.fwd.nx, 1) := by
  cases m with
  | zero => exact ⟨t.x0, ht.byTurns.first, ht.input (i := 1) rfl rfl⟩
  | succ m =>
    obtain ⟨-, hsecond, -⟩ := BlockTable.turns_pair hm d.fwd.nx d.bwd.nrx
    obtain ⟨e, he, hshape⟩ := ht.exists_block hsecond
    exact ⟨e, (ht.byTurns.forward m hm).trans he, hshape⟩

theorem exists_backwardState (ht : t.HasShapes d S) (hm : m ≤ d.pointCount) :
    ∃ e, Discretization.backwardState t m = pure e ∧ HasShape S e (d.bwd.nrx, 1) := by
  rcases hm.eq_or_lt with rfl | hm
  · exact ⟨t.rx0, ht.byTurns.last, ht.input (i := 3) rfl rfl⟩
  · obtain ⟨hfirst, -, -⟩ := BlockTable.turns_pair hm d.fwd.nx d.bwd.nrx
    obtain ⟨e, he, hshape⟩ := ht.exists_block hfirst
    exact ⟨e, (ht.byTurns.backward m hm).trans he, hshape⟩

end Trajectory.HasShapes

theorem Discretization.grows_trajectory_shapes [Scalar α] {refused : Failure α → Prop}
    (d : Discretization α) (helements : d.elements ≠ 0) {B : Set (Expr α)}
    (hadd : AddsSymbols n B (n + 5) S (d.symbolsFrom n).inputs) :
    Grows refused (n + 5) S
      ((Assemble.onGraph ((d.symbolsFrom n).v.vertsplit (Offsets.ofSizes d.blockSizes))) >>=
        fun blocks => pure { d.symbolsFrom n with blocks }) fun S' t =>
      t.inputs = (d.symbolsFrom n).inputs ∧ t.HasShapes d S' := by
  have hinputs (x : Expr α) (hx : x ∈ (d.symbolsFrom n).inputs) : Usable S x :=
    hadd.graph.usable_of_isSymbol (hadd.mem x hx).1 (hadd.mem x hx).2.1
  refine .bind (.onGraph (grows_vertsplit hadd.graph
    (hinputs _ (by simp [Trajectory.inputs])) ?_)) fun n₁ S₁ blocks h₁ ⟨hus, hpatterns, _⟩ => ?_
  · rw [sum_blockSizes]
    rfl
  · exact .pure h₁.graph ⟨rfl, fun x hx => (hinputs x hx).mono h₁.subset, rfl, hus, hpatterns,
      byTurns helements rfl⟩

/-- A trajectory is cut out of an unknown vector of the declared length. -/
theorem Discretization.hasShapes_of_trajectory [OrderedScalar α] (d : Discretization α)
    (helements : d.elements ≠ 0) (hS : IsGraph n S) {t : Trajectory α} {n' : Nat}
    (h : d.trajectory n = .ok (t, n')) : ∃ S', t.HasShapes d S' := by
  obtain ⟨S₀, hadd⟩ := d.exists_addsSymbols hS
  rw [d.trajectory_eq helements] at h
  split at h
  · have hgrow : Grows (fun _ => True) (n + 5) S₀ _ _ := d.grows_trajectory_shapes helements hadd
    obtain ⟨S', -, -, ht⟩ := hgrow.exists_of_ok h
    exact ⟨S', ht⟩
  · cases h

/-! ## One function at one point -/

/-- All quadratures of the function are in one column. -/
def Function.HasQuadratureColumn (f : Function α) : Prop :=
  Problem.quadColumns f = 1

/-- The inputs of the function have the shapes of columns of these lengths. -/
def Function.Takes (f : Function α) (lengths : List Nat) : Prop :=
  lengths.map (fun k => (k, 1)) = f.inputs.map shape

/-- The memory holds the calls of a function on columns of these lengths, and its quadratures are in
one column. -/
structure Function.Callable (f : Function α) (lengths : List Nat) : Prop where
  shapes : f.Takes lengths
  memory : f.FitsMemory
  quadrature : f.HasQuadratureColumn

/-- A total of quadratures: a column of zeros at first, then of the shape of the quadratures. -/
structure HasTotalShape (S : Set (Expr α)) (x : Expr α) (r columns : Nat) : Prop where
  usable : Usable S x
  shape : x.shape = (r, 1) ∨ x.shape = (r, columns)

namespace HasTotalShape

variable {columns : Nat}

theorem mono (hx : HasTotalShape S x r columns) (hsub : S ⊆ S') : HasTotalShape S' x r columns :=
  ⟨hx.usable.mono hsub, hx.shape⟩

theorem of_shape (hx : HasShape S x (r, columns)) : HasTotalShape S x r columns :=
  ⟨hx.1, .inr hx.2⟩

theorem shape_eq (hx : HasTotalShape S x r columns) (hcolumns : columns = 1) :
    x.shape = (r, columns) :=
  hx.shape.elim (hcolumns ▸ ·) id

end HasTotalShape

namespace Discretization

theorem result_eq {outputs : List (Expr α)} {i : Nat} (hx : outputs[i]? = some x) :
    (result outputs i : Assemble α (Expr α)) = pure x := by
  unfold result
  rw [hx]

variable (d : Discretization α)

def pointArgs (problem : PointProblem α) : List (Expr α) :=
  problem.args ++ if d.fwd.explicit then [] else problem.rates

def forwardLengths : List Nat :=
  [d.fwd.nx, d.fwd.np, 1] ++ if d.fwd.explicit then [] else [d.fwd.nx]

def backwardLengths : List Nat :=
  [d.bwd.nrx, d.bwd.nrp, d.fwd.nx, d.fwd.np, 1] ++
    if d.fwd.explicit then [] else [d.fwd.nx, d.bwd.nrx]

def backwardQuadColumns : Nat :=
  (d.g.map Problem.quadColumns).getD 1

/-- The functions take the states, the parameters, the time and, if they are implicit, the rates. -/
structure Matches : Prop where
  forward : d.f.Takes d.forwardLengths
  backward : ∀ g, d.g = some g → g.Takes d.backwardLengths

/-- The functions of the graph `G` have outputs of the sizes that the problem was checked for. -/
structure IsChecked (d : Discretization α) (G : Set (Expr α)) : Prop where
  forward : d.f.Compiled G
  backward : ∀ g, d.g = some g → g.Compiled G
  yields : Problem.Yields d.f d.fwd.nx d.fwd.nq
  backwardYields : ∀ g, d.g = some g → Problem.Yields g d.bwd.nrx d.bwd.nrq
  /-- Without a backward problem there are no backward states. -/
  unpaired : d.g = none → d.bwd.nrx = 0
  states : d.fwd.nx ≠ 0
  elements : d.elements ≠ 0

theorem IsChecked.unknowns_ne_zero {d : Discretization α} (hd : d.IsChecked G) :
    d.unknowns ≠ 0 := by
  have hstates := hd.states
  exact Nat.mul_ne_zero (Nat.mul_ne_zero hd.elements (Nat.succ_ne_zero _)) (by omega)

/-- The memory holds the equations, and the functions can be called with states. -/
structure Manageable (d : Discretization α) : Prop where
  columns : ∀ k ∈ d.columnSizes, Size.Fits (k, 1)
  quadratures : Size.Fits (d.fwd.nq, 1) ∧ Size.Fits (d.bwd.nrq, 1)
  forward : d.f.Callable d.forwardLengths
  backward : ∀ g, d.g = some g → g.Callable d.backwardLengths

theorem Manageable.backwardQuadColumns_eq {d : Discretization α} (h : d.Manageable) :
    d.backwardQuadColumns = 1 := by
  unfold backwardQuadColumns
  cases hg : d.g with
  | none => rfl
  | some g => exact (h.backward g hg).quadrature

end Discretization

/-- What shows that the functions have been called: they take the states, and the totals have the
shapes of their quadratures. -/
structure Equations.IsCalled (d : Discretization α) (eqs : Equations α) : Prop where
  takes : d.Matches
  qf : eqs.qf.shape = (d.fwd.nq, Problem.quadColumns d.f)
  rqf : eqs.rqf.shape = (d.bwd.nrq, d.backwardQuadColumns)

/-- The equations so far are columns with this number of rows, for this number of points; the
functions have been called at one of them, unless there was none. -/
structure Equations.HasShapes (d : Discretization α) (S : Set (Expr α)) (rows points : Nat)
    (eqs : Equations α) : Prop where
  residuals : ∀ x ∈ eqs.residuals.toList, Usable S x ∧ x.pattern.ncols = 1
  rows : (eqs.residuals.toList.map fun x => x.pattern.nrows).sum = rows
  times : eqs.times.size = points
  qf : HasTotalShape S eqs.qf d.fwd.nq (Problem.quadColumns d.f)
  rqf : HasTotalShape S eqs.rqf d.bwd.nrq d.backwardQuadColumns
  called : d.degree ≠ 0 → points ≠ 0 → eqs.IsCalled d

namespace Equations.HasShapes

variable {d : Discretization α} {eqs : Equations α} {rows points : Nat}

theorem mono (heqs : eqs.HasShapes d S rows points) (hsub : S ⊆ S') :
    eqs.HasShapes d S' rows points :=
  { heqs with
    residuals := fun x hx => ⟨(heqs.residuals x hx).1.mono hsub, (heqs.residuals x hx).2⟩
    qf := heqs.qf.mono hsub
    rqf := heqs.rqf.mono hsub }

theorem push (heqs : eqs.HasShapes d S rows points) (hx : HasShape S x (r, 1)) :
    ({ eqs with residuals := eqs.residuals.push x } : Equations α).HasShapes d S (rows + r)
      points where
  residuals y hy := by
    rw [Array.toList_push, List.mem_append, List.mem_singleton] at hy
    rcases hy with hy | rfl
    · exact heqs.residuals y hy
    · exact ⟨hx.1, congrArg Prod.snd hx.2⟩
  rows := by
    rw [Array.toList_push, List.map_append, List.sum_append, heqs.rows, List.map_singleton,
      List.sum_singleton]
    exact congrArg (rows + ·) (congrArg Prod.fst hx.2)
  times := heqs.times
  qf := heqs.qf
  rqf := heqs.rqf
  called hdegree hpoints := { heqs.called hdegree hpoints with }

theorem pushTime (heqs : eqs.HasShapes d S rows points) (hd : d.degree ≠ 0 → eqs.IsCalled d)
    (time : α) :
    ({ eqs with times := eqs.times.push time } : Equations α).HasShapes d S rows (points + 1) :=
  { heqs with
    times := (Array.size_push ..).trans (congrArg (· + 1) heqs.times)
    called := fun hdegree _ => { hd hdegree with } }

theorem pushPoint (heqs : eqs.HasShapes d S rows points) (hd : d.Matches) {qf rqf : Expr α}
    (hqf : HasShape S qf (d.fwd.nq, Problem.quadColumns d.f))
    (hrqf : HasShape S rqf (d.bwd.nrq, d.backwardQuadColumns)) (time : α) :
    Equations.HasShapes d S rows (points + 1) ⟨eqs.residuals, qf, rqf, eqs.times.push time⟩ :=
  { heqs with
    times := (Array.size_push ..).trans (congrArg (· + 1) heqs.times)
    qf := .of_shape hqf
    rqf := .of_shape hrqf
    called := fun _ _ => ⟨hd, hqf.2, hrqf.2⟩ }

end Equations.HasShapes

section Points

variable [OrderedScalar α]

theorem Function.grows_call_shapes {f : Function α} (hG : IsGraph m G) (hf : f.Compiled G)
    (hS : IsGraph n S) (hconst : constantsOf G ⊆ S) {args : List (Expr α)} {lengths : List Nat}
    (hargs : List.Forall₂ (fun a k => HasShape S a (k, 1)) args lengths)
    (hok : ok → f.Callable lengths) :
    Grows (fun _ => ¬ ok) n S (f.call args) fun S' rs =>
      f.Takes lengths ∧ List.Forall₂ (fun o r => HasShape S' r o.shape) f.outputs rs := by
  have hargShapes : args.map shape = lengths.map fun k => (k, 1) :=
    map_eq_of_forall₂ hargs fun a k ha => ha.2
  by_cases hshapes : args.map shape = f.inputs.map shape
  · refine ((grows_call_patterns hG hf hS hconst (fun a ha => ?_) hshapes).weaken
      fun e he h => he.2 (hok h).memory).mono fun n' S' rs _ hrs =>
        ⟨hargShapes.symm.trans hshapes, hrs.imp fun o r h => ⟨h.1, congrArg Pattern.shape h.2⟩⟩
    obtain ⟨i, hi⟩ := List.mem_iff_getElem?.1 ha
    obtain ⟨k, -, hk⟩ := exists_of_forall₂ hargs.flip hi
    exact hk.1
  · obtain ⟨e, he⟩ := call_of_shape_ne hshapes n
    unfold Grows
    rw [he]
    exact fun h => hshapes (hargShapes.trans (hok h).shapes)

namespace Discretization

variable (d : Discretization α) {problem : PointProblem α} {lengths : List Nat} {t : Trajectory α}

theorem grows_pointEquation_shape (hS : IsGraph n S) {ode slope : Expr α}
    (hode : HasShape S ode (r, 1)) (hslope : HasShape S slope (r, 1)) (hh : HasShape S h (1, 1)) :
    Grows refused n S (d.pointEquation ode slope h) fun S' y => HasShape S' y (r, 1) := by
  unfold pointEquation
  split
  · refine .bind (grows_binary_shape hS .mul hh.1 hode.1 (.inr hh.2) hode.spreads (.inr hode.2)
      fun _ hne => absurd rfl hne) fun n₁ S₁ y h₁ hy => ?_
    exact grows_binary_shapes h₁.graph .sub hy (hslope.mono h₁.subset)
  · exact .pure hS hode

theorem grows_addQuadrature_shape (hS : IsGraph n S) {columns : Nat} {quad : Expr α}
    (hok : ok → columns = 1) (htotal : HasTotalShape S total r columns)
    (hquad : HasShape S quad (r, columns)) (weight : α) :
    Grows (fun _ => ¬ ok) n S (addQuadrature total quad weight) fun S' y =>
      HasShape S' y (r, columns) := by
  unfold addQuadrature
  refine .bind (grows_scalar_shape hS weight) fun n₁ S₁ w h₁ hw => ?_
  refine .bind (grows_binary_shape h₁.graph .mul (hquad.1.mono h₁.subset) hw.1 hquad.spreads
    (.inr hw.2) (.inl hquad.2) fun _ hne => absurd rfl hne) fun n₂ S₂ term h₂ hterm => ?_
  have hsame (h : ok) : total.shape = term.shape := (htotal.shape_eq (hok h)).trans hterm.2.symm
  refine ((grows_binary h₂.graph (htotal.usable.mono (h₁.trans h₂).subset) hterm.1 .add
    (fun hne h => hne (.inl (hsame h))) fun hne _ _ h => hne (hsame h)).of_run
      fun y n' hy => compatible_of_binary hy).mono fun n' S' y _ ⟨⟨hy, hshape, _⟩, hcompatible⟩ =>
        ⟨hy, hshape.trans ?_⟩
  unfold binaryShape
  split
  · exact hterm.2
  · rename_i hone
    rcases htotal.shape with htotal | htotal
    · rcases hcompatible with hsame | hscalar | hscalar
      · exact hsame.trans hterm.2
      · exact absurd hscalar hone
      · rw [hterm.2] at hscalar
        rw [htotal, (Prod.mk.inj hscalar).2]
    · exact htotal

theorem grows_pointResult_shapes (hG : IsGraph m G) (hf : problem.function.Compiled G)
    (hS : IsGraph n S) (hconst : constantsOf G ⊆ S)
    (hargs : List.Forall₂ (fun a k => HasShape S a (k, 1)) (d.pointArgs problem) lengths)
    (hyields : Problem.Yields problem.function r problem.quadratures)
    (hslope : HasShape S problem.slope (r, 1)) (hh : HasShape S h (1, 1))
    (htotal : HasTotalShape S total problem.quadratures (Problem.quadColumns problem.function))
    (hok : ok → problem.function.Callable lengths) (weight : α) :
    Grows (Unfit ok) n S (d.pointResult problem h total weight) fun S' (y, total') =>
      problem.function.Takes lengths ∧ HasShape S' y (r, 1) ∧
        HasShape S' total' (problem.quadratures, Problem.quadColumns problem.function) := by
  unfold pointResult
  dsimp only
  refine .bind (.unfit (Function.grows_call_shapes hG hf hS hconst hargs hok))
    fun n₁ S₁ outs h₁ ⟨htakes, houts⟩ => ?_
  obtain ⟨o, ho, hor⟩ := hyields.rate
  obtain ⟨y, hy, hode⟩ := exists_of_forall₂ houts.flip ho
  rw [result_eq hy, pure_bind]
  refine .bind (.unfit (d.grows_pointEquation_shape h₁.graph (hor ▸ hode) (hslope.mono h₁.subset)
    (hh.mono h₁.subset))) fun n₂ S₂ equation h₂ hequation => ?_
  have htotal₂ := htotal.mono (h₁.trans h₂).subset
  split
  · rename_i hnone
    exact .pure h₂.graph ⟨htakes, hequation, htotal₂.usable,
      htotal₂.shape_eq (hnone ▸ hyields).quadColumns_eq⟩
  · rename_i hsome
    obtain ⟨q, hq, hqr⟩ := hyields.exists_quadrature hsome
    obtain ⟨y, hy, hquad⟩ := exists_of_forall₂ houts.flip hq
    rw [result_eq hy, pure_bind]
    refine .bind (.unfit (grows_addQuadrature_shape h₂.graph (fun h => (hok h).quadrature) htotal₂
      (hqr ▸ HasShape.mono hquad h₂.subset) weight))
      fun n₃ S₃ total' h₃ htotal' => .pure h₃.graph ⟨htakes, hequation.mono h₃.subset, htotal'⟩

/-- A point adds a row for each of its states, forward and backward. -/
theorem grows_addPoint_shapes (hG : IsGraph m G) (hd : d.IsChecked G) (hS : IsGraph n S)
    (hconst : constantsOf G ⊆ S) (ht : t.HasShapes d S) (hh : HasShape S h (1, 1))
    {xs rxs : List (Expr α)} (hxs : ∀ x ∈ xs, HasShape S x (d.fwd.nx, 1))
    (hrxs : ∀ x ∈ rxs, HasShape S x (d.bwd.nrx, 1)) {j : Nat} (hj : j < xs.length)
    (hrj : j < rxs.length) {rows points : Nat} {eqs : Equations α}
    (heqs : eqs.HasShapes d S rows points) (k : Nat) :
    Grows (Unfit d.Manageable) n S (d.addPoint t h xs rxs k j eqs) fun S' eqs' =>
      eqs'.HasShapes d S' (rows + (d.fwd.nx + d.bwd.nrx)) (points + 1) := by
  have hx : xs[j]? = some xs[j] := List.getElem?_eq_getElem hj
  have hrx : rxs[j]? = some rxs[j] := List.getElem?_eq_getElem hrj
  have hxj := hxs _ (List.getElem_mem hj)
  have hrxj := hrxs _ (List.getElem_mem hrj)
  have hp : HasShape S t.p (d.fwd.np, 1) := ht.input (i := 2) rfl rfl
  have hrp : HasShape S t.rp (d.bwd.nrp, 1) := ht.input (i := 4) rfl rfl
  unfold addPoint
  dsimp only
  refine .bind (.onGraph (grows_scalar_shape hS _)) fun n₁ S₁ time h₁ htime => ?_
  refine .bind (.onGraph (Basis.grows_combine_shape h₁.graph _
    fun x hx => (hxs x hx).mono h₁.subset)) fun n₂ S₂ slope h₂ hslope => ?_
  have h₁₂ := h₁.trans h₂
  refine .bind (.unfit (grows_binary_number_shape h₂.graph .div hslope (hh.mono h₁₂.subset)
    fun _ hbig hm => hbig (hm.columns _ (by simp [columnSizes])))) fun n₃ S₃ rate h₃ hrate => ?_
  have h₁₃ := h₁₂.trans h₃
  rw [result_eq hx, pure_bind]
  have hargs : List.Forall₂ (fun a k => HasShape S₃ a (k, 1))
      (d.pointArgs ⟨d.f, [xs[j], t.p, time], [rate], slope, d.fwd.nq⟩) d.forwardLengths := by
    have hstates : List.Forall₂ (fun a k => HasShape S₃ a (k, 1)) [xs[j], t.p, time]
        [d.fwd.nx, d.fwd.np, 1] :=
      .cons (hxj.mono h₁₃.subset) (.cons (hp.mono h₁₃.subset)
        (.cons (htime.mono (h₂.trans h₃).subset) .nil))
    refine List.rel_append hstates ?_
    split
    · exact .nil
    · exact .cons hrate .nil
  refine .bind (d.grows_pointResult_shapes hG hd.forward h₃.graph (hconst.trans h₁₃.subset) hargs
    hd.yields (hslope.mono h₃.subset) (hh.mono h₁₃.subset) (heqs.qf.mono h₁₃.subset)
    (fun hm => hm.forward) _) fun n₄ S₄ out h₄ hout => ?_
  obtain ⟨equation, qf⟩ := out
  obtain ⟨htakes, hequation, hqf⟩ := hout
  have h₁₄ := h₁₃.trans h₄
  have hforward := (heqs.mono h₁₄.subset).push hequation
  split
  · rename_i hg
    have hmatches : d.Matches := ⟨htakes, by simp [hg]⟩
    have hcolumns : d.backwardQuadColumns = 1 := by
      rw [backwardQuadColumns, hg]
      rfl
    rw [hd.unpaired hg, Nat.add_zero]
    exact .pure h₄.graph (hforward.pushPoint hmatches hqf
      ⟨hforward.rqf.usable, hforward.rqf.shape_eq hcolumns⟩ _)
  · rename_i g hg
    have hcolumns : d.backwardQuadColumns = Problem.quadColumns g := by
      rw [backwardQuadColumns, hg]
      rfl
    refine .bind (.onGraph (Basis.grows_combine_shape h₄.graph _
      fun x hx => (hrxs x hx).mono h₁₄.subset)) fun n₅ S₅ rslope h₅ hrslope => ?_
    have h₁₅ := h₁₄.trans h₅
    refine .bind (.unfit (grows_binary_number_shape h₅.graph .div hrslope (hh.mono h₁₅.subset)
      fun _ hbig hm => hbig (hm.columns _ (by simp [columnSizes])))) fun n₆ S₆ rrate h₆ hrrate => ?_
    have h₁₆ := h₁₅.trans h₆
    have h₄₆ := h₄.trans (h₅.trans h₆)
    rw [result_eq hrx, pure_bind]
    have hrargs : List.Forall₂ (fun a k => HasShape S₆ a (k, 1))
        (d.pointArgs ⟨g, [rxs[j], t.rp, xs[j], t.p, time], [rate, rrate], rslope, d.bwd.nrq⟩)
        d.backwardLengths := by
      have hstates : List.Forall₂ (fun a k => HasShape S₆ a (k, 1))
          [rxs[j], t.rp, xs[j], t.p, time] [d.bwd.nrx, d.bwd.nrp, d.fwd.nx, d.fwd.np, 1] :=
        .cons (hrxj.mono h₁₆.subset) (.cons (hrp.mono h₁₆.subset) (.cons (hxj.mono h₁₆.subset)
          (.cons (hp.mono h₁₆.subset) (.cons (htime.mono (h₂.trans (h₃.trans h₄₆)).subset) .nil))))
      refine List.rel_append hstates ?_
      split
      · exact .nil
      · exact .cons (hrate.mono h₄₆.subset) (.cons hrrate .nil)
    refine .bind (d.grows_pointResult_shapes hG (hd.backward g hg) h₆.graph
      (hconst.trans h₁₆.subset) hrargs (hd.backwardYields g hg) (hrslope.mono h₆.subset)
      (hh.mono h₁₆.subset) (hcolumns ▸ heqs.rqf.mono h₁₆.subset)
      (fun hm => hm.backward g hg) _)
      fun n₇ S₇ out h₇ hout => ?_
    obtain ⟨equation', rqf⟩ := out
    obtain ⟨hrtakes, hequation', hrqf⟩ := hout
    have hsub := (h₅.trans (h₆.trans h₇)).subset
    have hmatches : d.Matches :=
      ⟨htakes, fun g' hg' => Option.some.inj (hg.symm.trans hg') ▸ hrtakes⟩
    rw [← Nat.add_assoc]
    exact .pure h₇.graph (((hforward.mono hsub).push hequation').pushPoint hmatches
      (hqf.mono hsub) (hcolumns ▸ hrqf) _)

theorem grows_continuity_shape (hS : IsGraph n S) {next : Expr α} {states : List (Expr α)}
    (hnext : HasShape S next (r, 1)) (hstates : ∀ x ∈ states, HasShape S x (r, 1)) :
    Grows refused n S (d.continuity next states r) fun S' y => HasShape S' y (r, 1) := by
  unfold continuity
  refine .bind (Basis.grows_combine_shape hS _ hstates) fun n₁ S₁ last h₁ hlast => ?_
  exact grows_binary_shapes h₁.graph .sub (hnext.mono h₁.subset) hlast

omit [OrderedScalar α] in
theorem grows_statesOf_shapes (hS : IsGraph n S) {refused : Failure α → Prop}
    {state : Nat → Assemble α (Expr α)}
    (hstate : ∀ m ≤ d.pointCount, ∃ e, state m = pure e ∧ HasShape S e (r, 1))
    (hk : k < d.elements) :
    Grows refused n S (d.statesOf state k) fun S' xs =>
      xs.length = d.degree + 1 ∧ ∀ x ∈ xs, HasShape S' x (r, 1) := by
  unfold statesOf
  refine (Grows.mapM (P := fun S' _ x => HasShape S' x (r, 1)) hS ?_
    fun _ _ _ _ hsub hx => hx.mono hsub).mono fun n' S' xs _ hxs => ?_
  · intro j hj n' S' h'
    have hle : k * (d.degree + 1) + j ≤ d.pointCount := by
      have hlast : (k + 1) * (d.degree + 1) ≤ d.pointCount := Nat.mul_le_mul_right _ hk
      rw [Nat.succ_mul] at hlast
      have := List.mem_range.1 hj
      omega
    obtain ⟨e, he, hshape⟩ := hstate _ hle
    rw [he]
    exact .pure h'.graph (hshape.mono h'.subset)
  · refine ⟨hxs.length_eq.symm.trans List.length_range, fun x hx => ?_⟩
    obtain ⟨i, hi⟩ := List.mem_iff_getElem?.1 hx
    obtain ⟨-, -, hshape⟩ := exists_of_forall₂ hxs hi
    exact hshape

/-- An element adds the rows of its points and of the joint behind it. -/
theorem grows_addElement_shapes (hG : IsGraph m G) (hd : d.IsChecked G) (hS : IsGraph n S)
    (hconst : constantsOf G ⊆ S) (ht : t.HasShapes d S) (hh : HasShape S h (1, 1))
    (hk : k < d.elements) {rows points : Nat} {eqs : Equations α}
    (heqs : eqs.HasShapes d S rows points) :
    Grows (Unfit d.Manageable) n S (d.addElement t h eqs k) fun S' eqs' =>
      eqs'.HasShapes d S' (rows + (d.degree + 1) * (d.fwd.nx + d.bwd.nrx))
        (points + (d.degree + 1)) := by
  have hnext : (k + 1) * (d.degree + 1) ≤ d.pointCount := Nat.mul_le_mul_right _ hk
  obtain ⟨x, hx, hxs'⟩ := ht.exists_forwardState hnext
  obtain ⟨rx, hrx, hrxs'⟩ := ht.exists_backwardState hnext
  unfold addElement
  dsimp only
  refine .bind (d.grows_statesOf_shapes hS (fun m hm => ht.exists_forwardState hm) hk)
    fun n₁ S₁ xs h₁ ⟨hxlen, hxs⟩ => ?_
  refine .bind (d.grows_statesOf_shapes h₁.graph
    (fun m hm => (ht.mono h₁.subset).exists_backwardState hm) hk)
    fun n₂ S₂ rxs h₂ ⟨hrxlen, hrxs⟩ => ?_
  have h₁₂ := h₁.trans h₂
  refine .bind (Grows.foldlM (P := fun S' done eqs => eqs.HasShapes d S'
      (rows + done.length * (d.fwd.nx + d.bwd.nrx)) (points + done.length)) h₂.graph ?_ ?_)
    fun n₃ S₃ eqs₃ h₃ heqs₃ => ?_
  · simpa using heqs.mono h₁₂.subset
  · intro done j rest n' S' eqs' hsplit h' heqs'
    have hj : j ∈ List.range' 1 d.degree := by rw [hsplit]; simp
    have hj : j < d.degree + 1 := by
      rw [List.mem_range'_1] at hj
      omega
    have h₁' := h₁₂.trans h'
    refine (d.grows_addPoint_shapes hG hd h'.graph (hconst.trans h₁'.subset) (ht.mono h₁'.subset)
      (hh.mono h₁'.subset) (fun x hx => (hxs x hx).mono (h₂.trans h').subset)
      (fun x hx => (hrxs x hx).mono h'.subset) (hxlen ▸ hj) (hrxlen ▸ hj) heqs' k).mono ?_
    intro n'' S'' eqs'' _ heqs''
    rw [List.length_append, List.length_singleton, Nat.succ_mul, ← Nat.add_assoc]
    exact heqs''
  have h₁₃ := h₁₂.trans h₃
  rw [hx, pure_bind]
  refine .bind (.onGraph (d.grows_continuity_shape h₃.graph (hxs'.mono h₁₃.subset)
    fun x hx => (hxs x hx).mono (h₂.trans h₃).subset)) fun n₄ S₄ equation h₄ hequation => ?_
  have h₁₄ := h₁₃.trans h₄
  rw [List.length_range'] at heqs₃
  have hforward := ((heqs₃.mono h₄.subset).pushTime
    (fun hdegree => heqs₃.called hdegree (by omega)) (d.endTime k)).push hequation
  split
  · rename_i hg
    rw [hd.unpaired hg, Nat.add_zero] at hforward ⊢
    rw [Nat.succ_mul, ← Nat.add_assoc]
    exact .pure h₄.graph hforward
  · rw [hrx, pure_bind]
    refine .bind (.onGraph (d.grows_continuity_shape h₄.graph (hrxs'.mono h₁₄.subset)
      fun x hx => (hrxs x hx).mono (h₃.trans h₄).subset)) fun n₅ S₅ equation' h₅ hequation' => ?_
    have hboth := (hforward.mono h₅.subset).push hequation'
    rw [Nat.add_assoc, Nat.add_assoc rows, ← Nat.succ_mul] at hboth
    exact .pure h₅.graph hboth

theorem grows_equations_shapes (hG : IsGraph m G) (hd : d.IsChecked G) (hS : IsGraph n S)
    (hconst : constantsOf G ⊆ S) (ht : t.HasShapes d S) :
    Grows (Unfit d.Manageable) n S (d.equations t) fun S' eqs =>
      eqs.HasShapes d S' d.unknowns d.pointCount := by
  unfold equations
  refine .bind (.onGraph (grows_scalar_shape hS d.h)) fun n₁ S₁ h h₁ hh => ?_
  refine .bind (.onGraph (grows_zeros_shape h₁.graph d.fwd.nq)) fun n₂ S₂ qf h₂ hqf => ?_
  refine .bind (.onGraph (grows_zeros_shape h₂.graph d.bwd.nrq)) fun n₃ S₃ rqf h₃ hrqf => ?_
  have h₁₃ := h₁.trans (h₂.trans h₃)
  have hstart : Equations.HasShapes d S₃ 0 0 ⟨#[], qf, rqf, #[]⟩ :=
    ⟨nofun, rfl, rfl, ⟨hqf.1.mono h₃.subset, .inl hqf.2⟩, ⟨hrqf.1, .inl hrqf.2⟩,
      fun _ h => absurd rfl h⟩
  refine (Grows.foldlM (P := fun S' done eqs => eqs.HasShapes d S'
      (done.length * (d.degree + 1) * (d.fwd.nx + d.bwd.nrx)) (done.length * (d.degree + 1)))
    h₃.graph (by simpa using hstart) ?_).mono fun n' S' eqs _ heqs => ?_
  · intro done k rest n' S' eqs' hsplit h' heqs'
    have hk : k ∈ List.range d.elements := by rw [hsplit]; simp
    have h₁' := h₁₃.trans h'
    refine (d.grows_addElement_shapes hG hd h'.graph (hconst.trans h₁'.subset) (ht.mono h₁'.subset)
      (hh.mono ((h₂.trans h₃).trans h').subset) (List.mem_range.1 hk) heqs').mono ?_
    intro n'' S'' eqs'' _ heqs''
    rw [List.length_append, List.length_singleton, Nat.succ_mul, Nat.add_mul]
    exact heqs''
  · rw [List.length_range] at heqs
    exact heqs

end Discretization

end Points

end DiffGraph
