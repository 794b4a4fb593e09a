import Mathlib
import DiffGraph.Collocation.Problem
import DiffGraph.Proofs.Call.Call
import DiffGraph.Proofs.Collocation.Columns
import DiffGraph.Proofs.Failure

/-!
# Functions of columns

A function of a problem takes dense columns and gives one (`Function.atColumns`):
an input counts at its nonzeros, an output is zero elsewhere. A call on
expressions that stand for columns gives the outputs at these
(`Function.grows_call_columns`), and dense outputs have the same entries
(`DenseVersion`).
-/

namespace DiffGraph

open Expr

variable {α : Type} {env : Nat → Nat → α} {refused : GraphError → Prop} {m n : Nat}
  {G S S' : Set (Expr α)} {f f' : Function α}

theorem ok_of_toOption {ε β : Type} {x : Except ε β} {r : β} (h : x.toOption = some r) :
    x = .ok r := by
  cases x with
  | error e => cases h
  | ok a => exact congrArg Except.ok (Option.some.inj h)

namespace Function

variable [ExactField α]

/-- Dense columns at the nonzeros of the inputs. -/
def restrict (f : Function α) (columns : List (Nat → α)) : List (List α) :=
  (f.inputs.zip columns).map fun (x, v) => x.pattern.gather fun i _ => v i

/-- The outputs, as dense columns, at dense columns. -/
def atColumns (f : Function α) (columns : List (Nat → α)) :
    Except GraphError (List (Nat → α)) := do
  let outs ← f.evaluate (f.restrict columns)
  return (f.outputs.zip outs).map fun (o, v) i => o.pattern.entry v i 0

/-- Output `k` at dense columns; zero if there is none. -/
def outputAt (f : Function α) (k : Nat) (columns : List (Nat → α)) : Nat → α :=
  match f.atColumns columns with
  | .ok outs => outs[k]?.getD 0
  | .error _ => 0

omit [ExactField α] in
theorem restrict_of_inputs (h : f'.inputs = f.inputs) : f'.restrict = f.restrict := by
  funext columns
  rw [restrict, restrict, h]

omit [ExactField α] in
theorem map_length_restrict {columns : List (Nat → α)} (hlen : f.inputs.length ≤ columns.length) :
    (f.restrict columns).map List.length = f.inputs.map nnz := by
  rw [restrict, List.map_map]
  exact List.ext_getElem (by simp [hlen]) fun i h₁ h₂ => by simp [nnz]

/-- A compiled function has values at every list with a column for each input. -/
theorem atColumns_eq (hS : IsGraph n S) (hf : f.Compiled S) {columns : List (Nat → α)}
    (hlen : f.inputs.length ≤ columns.length) :
    f.atColumns columns =
      .ok (f.outputs.map fun o i => entry (assign f.inputs (f.restrict columns)) o i 0) := by
  obtain ⟨hgraph, slot, hlayout⟩ := hf.exists_layout hS
  have hrun : f.evaluate (f.restrict columns) =
      .ok (f.outputs.map (nonzeros (assign f.inputs (f.restrict columns)))) :=
    run_eq hlayout hgraph (map_length_restrict hlen)
  unfold atColumns
  have hzip (g : Expr α → List α) :
      f.outputs.zip (f.outputs.map g) = f.outputs.map fun o => (o, g o) := by
    simpa using List.zip_map' (f := fun o => o) (g := g) (l := f.outputs)
  rw [hrun]
  refine congrArg Except.ok ?_
  rw [hzip, List.map_map]
  rfl

theorem atColumns_eq_error {columns : List (Nat → α)} (hlen : columns.length < f.inputs.length) :
    f.atColumns columns = .error (.argumentCount f.inputs.length columns.length) := by
  have hcount : (f.restrict columns).length = columns.length := by
    simpa [restrict] using hlen.le
  unfold atColumns evaluate run checkLengths
  rw [List.length_map, hcount, if_pos hlen.ne]
  rfl

theorem outputAt_eq (hS : IsGraph n S) (hf : f.Compiled S) {columns : List (Nat → α)}
    (hlen : f.inputs.length ≤ columns.length) {k : Nat} {o : Expr α} (ho : f.outputs[k]? = some o) :
    f.outputAt k columns = fun i => entry (assign f.inputs (f.restrict columns)) o i 0 := by
  unfold outputAt
  rw [atColumns_eq hS hf hlen]
  dsimp only
  rw [List.getElem?_map, ho]
  rfl

theorem grows_call_columns (hG : IsGraph m G) (hf : f.Compiled G) (hS : IsGraph n S)
    (hconst : constantsOf G ⊆ S) {args : List (Expr α)} {columns : List (Nat × (Nat → α))}
    (hargs : List.Forall₂ (fun a c => HasColumn env S a c.1 c.2) args columns)
    (hshapes : columns.map (fun c => (c.1, 1)) = f.inputs.map shape) :
    Grows (OutOf f.FitsMemory) n S (f.call args) fun S' rs =>
      List.Forall₂ (fun o r => Usable S' r ∧ r.shape = o.shape ∧ ∀ i, entry env r i 0 =
        entry (assign f.inputs (f.restrict (columns.map Prod.snd))) o i 0) f.outputs rs := by
  have hargShapes : args.map shape = columns.map fun c => (c.1, 1) :=
    map_eq_of_forall₂ hargs fun a c h => h.shape
  have husable (a : Expr α) (ha : a ∈ args) : Usable S a := by
    obtain ⟨i, hi⟩ := List.mem_iff_getElem?.1 ha
    obtain ⟨c, -, hc⟩ := exists_of_forall₂ hargs.flip hi
    exact hc.usable
  have hpull : f.pullback args env = assign f.inputs (f.restrict (columns.map Prod.snd)) := by
    rw [pullback, restrict]
    refine congrArg (assign f.inputs) ?_
    have hlen : args.length = f.inputs.length := by
      simpa using congrArg List.length (hargShapes.trans hshapes)
    refine List.ext_getElem (by simp [hargs.length_eq, Nat.min_comm]) fun i h₁ h₂ => ?_
    have hi : i < args.length := by
      rw [List.length_map, List.length_zip] at h₁
      omega
    have hcolumn := (List.forall₂_iff_get.1 hargs).2 i hi (hargs.length_eq ▸ hi)
    simp only [List.getElem_map, List.getElem_zip]
    refine hcolumn.gather_entry ?_
    have := congrArg (·[i]?) hshapes
    simp only [List.getElem?_map] at this
    rw [List.getElem?_eq_getElem (hargs.length_eq ▸ hi), List.getElem?_eq_getElem (hlen ▸ hi)]
      at this
    exact (Option.some.inj this).symm
  refine (grows_call hG hf hS hconst husable (hargShapes.trans hshapes)).mono ?_
  intro n' S' rs _ hrs
  refine hrs.imp fun o r hcalled => ?_
  obtain ⟨hr, hp, hval⟩ := hcalled
  refine ⟨hr, by rw [shape, shape, hp], fun i => ?_⟩
  rw [entry, entry, hp, hval, hpull]

end Function

/-! ## Dense outputs -/

section Dense

variable [Scalar α]

/-- The expressions have the same shape and the same entries. -/
def SameEntries (x y : Expr α) : Prop :=
  y.shape = x.shape ∧ ∀ (env : Nat → Nat → α) (i j : Nat), entry env y i j = entry env x i j

/-- The second function has the inputs of the first one and outputs with the same entries, and it
fits into the memory if the first one does. -/
structure DenseVersion (f f' : Function α) : Prop where
  inputs : f'.inputs = f.inputs
  outputs : List.Forall₂ SameEntries f.outputs f'.outputs
  memory : f.FitsMemory → (∀ o ∈ f.outputs, o.pattern.nrows < Size.wordLimit) → f'.FitsMemory

theorem grows_densify_entry (hS : IsGraph n S) {x : Expr α} (hx : Usable S x)
    (hfits : ¬ Size.Fits x.shape → refused .misuse) :
    Grows refused n S x.densify fun S' r => Usable S' r ∧ SameEntries x r := by
  refine (grows_densify hS hx hfits).mono ?_
  rintro n' S' r - ⟨hr, hp, hval⟩
  refine ⟨hr, by rw [shape, hp, Pattern.shape_dense]; rfl, fun env i j => ?_⟩
  rw [entry_of_nonzeros hp (hval env)]
  split
  · rfl
  · rename_i hout
    exact (Pattern.entry_of_not_lt fun hlt => hout (Pattern.mem_triplets_dense.2 hlt)).symm

/-- The nodes of a densified expression are those of the operand, and one that the memory holds. -/
theorem reaches_densify {x r e : Expr α} {n' : Nat} (h : x.densify n = .ok (r, n'))
    (hrows : x.pattern.nrows < Size.wordLimit) (hr : r.Reaches e) :
    x.Reaches e ∨ e.FitsMemory := by
  have hchecked := Pattern.denseChecked_eq x.pattern.nrows x.pattern.ncols
  unfold densify at h
  rw [hchecked] at h
  split at h
  swap
  · cases h
  rename_i hfits
  have hnew (op : Op α) {ds : List (Expr α)} (hds : ∀ d ∈ ds, d = x) (hone : ds.length ≤ 1)
      (hr : (node n op ds (.dense x.pattern.nrows x.pattern.ncols) []).Reaches e) :
      x.Reaches e ∨ e.FitsMemory := by
    cases hr with
    | refl =>
      refine .inr ⟨fun p hp => ?_, ?_, by simpa [patterns] using hrows⟩
      · rw [List.mem_singleton.1 hp, Pattern.shape_dense]
        exact hfits
      · rcases ds with _ | ⟨d, _ | ⟨d', ds⟩⟩
        · exact Nat.lt_of_le_of_lt (Nat.zero_le _) hrows
        · obtain rfl := hds d (by simp)
          simpa [deps] using hrows
        · simp at hone
    | dep hd hr => exact .inl (hds _ hd ▸ hr)
  have hstep : (liftM (x.onto (.dense x.pattern.nrows x.pattern.ncols)) : Build (Expr α)) n =
      .ok (r, n') := h
  unfold onto at hstep
  split at hstep
  · obtain ⟨rfl, -⟩ := Prod.mk.inj (Except.ok.inj hstep)
    exact .inl hr
  · dsimp only at hstep
    split at hstep
    · obtain ⟨rfl, -⟩ := Prod.mk.inj (Except.ok.inj hstep)
      exact hnew _ (by simp) (Nat.zero_le _) hr
    · obtain ⟨rfl, -⟩ := Prod.mk.inj (Except.ok.inj hstep)
      exact hnew _ (fun d hd => List.mem_singleton.1 hd) (Nat.le_refl _) hr

namespace Problem

theorem grows_withDenseOutputs (hS : IsGraph n S) (hf : f.Compiled S)
    (hfits : ∀ o ∈ f.outputs, ¬ Size.Fits o.shape → refused .misuse) :
    Grows refused n S (withDenseOutputs f) fun S' f' => f'.Compiled S' ∧ DenseVersion f f' := by
  obtain ⟨hgraph, slot, hlayout⟩ := hf.exists_layout hS
  have hdense {G : Set (Expr α)} (hG : IsGraph n G) (hus : ∀ o ∈ f.outputs, Usable G o) :
      Grows refused n G (f.outputs.mapM fun o => (o.densify : Build (Expr α))) fun S' rs =>
        List.Forall₂ (fun o r => (Usable S' r ∧ SameEntries o r) ∧
          (o.pattern.nrows < Size.wordLimit → ∀ e, r.Reaches e → o.Reaches e ∨ e.FitsMemory))
          f.outputs rs := by
    refine Grows.mapM (P := fun S' o r => (Usable S' r ∧ SameEntries o r) ∧
      (o.pattern.nrows < Size.wordLimit → ∀ e, r.Reaches e → o.Reaches e ∨ e.FitsMemory)) hG ?_
      fun _ _ _ _ hsub h => ⟨⟨h.1.1.mono hsub, h.1.2⟩, h.2⟩
    intro o ho n' S' hext
    exact (grows_densify_entry hext.graph ((hus o ho).mono hext.subset) (hfits o ho)).of_run
      fun r n'' hrun hrows e hr => reaches_densify hrun hrows hr
  have houtG (o : Expr α) (ho : o ∈ f.outputs) : Usable (nodesOf (f.inputs ++ f.outputs)) o :=
    ⟨(hlayout.outputs o ho).1, (hlayout.outputs o ho).2.1⟩
  unfold withDenseOutputs
  refine .bind ((hdense hS hf.outputs).both (hdense hgraph houtG)) ?_
  rintro n₁ S₁ rs h₁ ⟨hrs, n₂, G₂, hG₂, hrsG⟩
  have hus (r : Expr α) (hr : r ∈ rs) : Usable S₁ r ∧ Usable G₂ r := by
    obtain ⟨i, hi⟩ := List.mem_iff_getElem?.1 hr
    obtain ⟨_, _, h⟩ := exists_of_forall₂ hrs hi
    obtain ⟨_, _, hG⟩ := exists_of_forall₂ hrsG hi
    exact ⟨h.1.1, hG.1.1⟩
  have hmem (e : Expr α) (he : e ∈ f.inputs ++ rs) : e ∈ S₁ ∧ e ∈ G₂ := by
    rcases List.mem_append.1 he with he | he
    · exact ⟨h₁.subset (hf.inputs e he), hG₂.subset (hlayout.input e he).1⟩
    · exact ⟨(hus e he).1.1, (hus e he).2.1⟩
  have hnodes := h₁.graph.nodesOf fun e he => (hmem e he).1
  have hcover (e : Expr α) (he : e ∈ nodesOf (f.inputs ++ rs)) (hs : e.isSymbol = true) :
      e ∈ f.inputs := by
    obtain ⟨root, hroot, hreach⟩ := he
    have heG := hG₂.graph.mem_of_reaches (hmem root hroot).2 hreach
    exact hlayout.symbols e (hG₂.symbols e heG hs) hs
  obtain ⟨f', hf'⟩ : ∃ f', Function.compile f.name f.inputs rs = .ok f' :=
    Function.compile_eq_ok hnodes (fun x hx => (hlayout.input x hx).2.1) hcover
  obtain ⟨hname, hin, hout, -⟩ :=
    Function.exists_layout hnodes (fun r hr => (hus r hr).1.2) hf'
  have hcompiled : f'.Compiled S₁ :=
    ⟨fun x hx => h₁.subset (hf.inputs x (hin ▸ hx)), fun o ho => (hus o (hout ▸ ho)).1, by
      rw [hname, hin, hout, hf']⟩
  rw [hf']
  refine .pure h₁.graph ⟨hcompiled, hin, ?_, fun hm hrows => ?_⟩
  · rw [hout]
    exact hrs.imp fun o r h => h.1.2
  obtain ⟨hinputs, hops⟩ := (Function.fitsMemory_iff hS hf).1 hm
  refine (Function.fitsMemory_iff h₁.graph hcompiled).2 ⟨hin ▸ hinputs, fun e he ho => ?_⟩
  obtain ⟨root, hroot, hreach⟩ := he
  rw [hin, hout] at hroot
  rcases List.mem_append.1 hroot with hroot | hroot
  · exact hops e ⟨root, List.mem_append_left _ hroot, hreach⟩ ho
  · obtain ⟨i, hi⟩ := List.mem_iff_getElem?.1 hroot
    obtain ⟨o, hoi, -, h⟩ := exists_of_forall₂ hrs hi
    have ho' := List.mem_of_getElem? hoi
    rcases h (hrows o ho') e hreach with hold | hnew
    · exact hops e ⟨o, List.mem_append_right _ ho', hold⟩ ho
    · exact hnew

end Problem

end Dense

theorem DenseVersion.outputAt_eq [ExactField α] (h : DenseVersion f f') (hS : IsGraph n S)
    (hf : f.Compiled S) {n' : Nat} (hS' : IsGraph n' S') (hf' : f'.Compiled S') :
    f'.outputAt = f.outputAt := by
  have hat (columns : List (Nat → α)) : f'.atColumns columns = f.atColumns columns := by
    rcases Nat.lt_or_ge columns.length f.inputs.length with hlt | hge
    · rw [Function.atColumns_eq_error hlt, Function.atColumns_eq_error (h.inputs ▸ hlt), h.inputs]
    · rw [Function.atColumns_eq hS hf hge, Function.atColumns_eq hS' hf' (h.inputs ▸ hge), h.inputs,
        Function.restrict_of_inputs h.inputs]
      refine congrArg Except.ok (map_eq_of_forall₂ h.outputs fun o o' hsame => ?_).symm
      funext i
      exact (hsame.2 _ i 0).symm
  funext k columns
  rw [Function.outputAt, Function.outputAt, hat]

/-! ## Sizes -/

namespace Problem

/-- The columns of the quadrature output; without quadratures it counts as one. -/
def quadColumns (f : Function α) : Nat :=
  if quadRows f = 0 then 1 else (patternOf f.outputs 1).ncols

theorem patternOf_eq {ports : List (Expr α)} {i : Nat} {x : Expr α} (hx : ports[i]? = some x) :
    patternOf ports i = x.pattern := by
  rw [patternOf, hx]
  rfl

/-- The first output has a rate for every state, and so many rows of quadratures are counted. -/
structure Yields (f : Function α) (states quadratures : Nat) : Prop where
  rate : ∃ o, f.outputs[0]? = some o ∧ o.shape = (states, 1)
  quadratures : quadRows f = quadratures

theorem yields_of_shape {states : Nat} (hports : 1 ≤ f.outputs.length)
    (h : (patternOf f.outputs 0).shape = (states, 1)) : Yields f states (quadRows f) := by
  obtain ⟨o, ho⟩ : ∃ o, f.outputs[0]? = some o := ⟨_, List.getElem?_eq_getElem (by omega)⟩
  rw [patternOf_eq ho] at h
  exact ⟨⟨o, ho, h⟩, rfl⟩

theorem Yields.exists_quadrature {states quadratures : Nat} (h : Yields f states quadratures)
    (hne : quadratures ≠ 0) :
    ∃ q, f.outputs[1]? = some q ∧ q.shape = (quadratures, quadColumns f) := by
  obtain ⟨-, rfl⟩ := h
  cases hq : f.outputs[1]? with
  | none => simp [quadRows, hq] at hne
  | some q =>
    refine ⟨q, rfl, ?_⟩
    rw [quadColumns, if_neg hne, patternOf_eq hq, quadRows, hq]
    rfl

theorem Yields.quadColumns_eq {states : Nat} (h : Yields f states 0) : quadColumns f = 1 :=
  if_pos h.quadratures

theorem columnLength_spec {slot k : Nat} {label : String} (h : columnLength f slot label = .ok k) :
    (patternOf f.inputs slot).shape = (k, 1) ∧
      (patternOf f.inputs slot).nnz = (patternOf f.inputs slot).numel := by
  unfold columnLength at h
  dsimp only at h
  split at h
  · rename_i hcolumn
    obtain ⟨hcol, hdense⟩ : (patternOf f.inputs slot).ncols = 1 ∧
        (patternOf f.inputs slot).nnz = (patternOf f.inputs slot).numel := by
      simpa [Pattern.isSingleColumn, Pattern.isDense] using hcolumn
    exact ⟨Prod.ext (Except.ok.inj h) hcol, hdense⟩
  · cases h

/-- What the check of a forward problem has seen. -/
structure HasForwardSizes (f : Function α) (fwd : ForwardSizes) : Prop where
  inputs : 3 ≤ f.inputs.length ∧ f.inputs.length ≤ 4
  outputs : 1 ≤ f.outputs.length ∧ f.outputs.length ≤ 2
  nx : columnLength f 0 "X" = .ok fwd.nx
  nonempty : fwd.nx ≠ 0
  np : columnLength f 1 "P" = .ok fwd.np
  time : (patternOf f.inputs 2).shape = (1, 1)
  implicit : fwd.explicit = false →
    f.inputs.length = 4 ∧ columnLength f 3 "XDOT" = .ok fwd.nx
  rate : (patternOf f.outputs 0).shape = (fwd.nx, 1)
  nq : fwd.nq = quadRows f

theorem forwardSizes_spec {fwd : ForwardSizes} (h : forwardSizes f = .ok fwd) :
    HasForwardSizes f fwd := by
  unfold forwardSizes at h
  obtain ⟨hports, h⟩ := ok_of_guard h
  obtain ⟨nx, hnx, h⟩ := ok_of_bind h
  obtain ⟨hne, h⟩ := ok_of_guard h
  obtain ⟨np, hnp, h⟩ := ok_of_bind h
  obtain ⟨htime, h⟩ := ok_of_guard h
  obtain ⟨-, -, h⟩ := ok_of_bind h
  have htime : (patternOf f.inputs 2).shape = (1, 1) :=
    Pattern.isScalar_iff.1 (by simpa using htime)
  have hsizes {explicit : Bool} (h : (if (patternOf f.outputs 0).shape ≠ (nx, 1) then
      throw (.invalidDae f.name .forwardShape) else pure ⟨nx, np, quadRows f, explicit⟩) =
        (.ok fwd : Except (Failure α) _))
      (himplicit : explicit = false → f.inputs.length = 4 ∧ columnLength f 3 "XDOT" = .ok nx) :
      HasForwardSizes f fwd := by
    obtain ⟨hshape, h⟩ := ok_of_guard h
    obtain rfl := Except.ok.inj h
    exact ⟨by omega, by omega, hnx, hne, hnp, htime, himplicit, not_not.1 hshape, rfl⟩
  dsimp only at h
  split at h
  · rename_i hrates
    obtain ⟨rates, hxdot, h⟩ := ok_of_bind h
    obtain ⟨hrate, h⟩ := ok_of_guard h
    refine hsizes h fun _ => ⟨?_, not_not.1 hrate ▸ hxdot⟩
    by_contra hlen
    rw [List.getElem?_eq_none (by omega)] at hrates
    simp at hrates
  · rename_i hrates
    exact hsizes h fun hexplicit => absurd hexplicit (by simpa using hrates)

theorem forwardSizes_yields {fwd : ForwardSizes} (h : forwardSizes f = .ok fwd) :
    Yields f fwd.nx fwd.nq :=
  have hsizes := forwardSizes_spec h
  hsizes.nq ▸ yields_of_shape hsizes.outputs.1 hsizes.rate

theorem nnz_of_columnLength {slot k : Nat} {label : String} {x : Expr α}
    (h : columnLength f slot label = .ok k) (hx : f.inputs[slot]? = some x) : x.nnz = k := by
  obtain ⟨hshape, hdense⟩ := columnLength_spec h
  rw [patternOf_eq hx] at hshape hdense
  rw [nnz, hdense, Pattern.numel, show x.pattern.nrows = k from congrArg Prod.fst hshape,
    show x.pattern.ncols = 1 from congrArg Prod.snd hshape, Nat.mul_one]

theorem HasForwardSizes.exists_states {fwd : ForwardSizes} (h : HasForwardSizes f fwd) :
    ∃ x, f.inputs[0]? = some x ∧ x.nnz = fwd.nx := by
  have hinputs := h.inputs.1
  obtain ⟨x, hx⟩ : ∃ x, f.inputs[0]? = some x := ⟨_, List.getElem?_eq_getElem (by omega)⟩
  exact ⟨x, hx, nnz_of_columnLength h.nx hx⟩

/-- What the check of a backward problem has seen; it does not look at the rates. -/
structure HasBackwardSizes (g : Function α) (fwd : ForwardSizes) (bwd : BackwardSizes) :
    Prop where
  inputs : g.inputs.length = if fwd.explicit then 5 else 7
  outputs : 1 ≤ g.outputs.length ∧ g.outputs.length ≤ 2
  nrx : columnLength g 0 "RX" = .ok bwd.nrx
  nrp : columnLength g 1 "RP" = .ok bwd.nrp
  nx : columnLength g 2 "X" = .ok fwd.nx
  np : columnLength g 3 "P" = .ok fwd.np
  time : (patternOf g.inputs 4).shape = (1, 1)
  rate : (patternOf g.outputs 0).shape = (bwd.nrx, 1)
  nrq : bwd.nrq = quadRows g

theorem backwardSizes_spec {g : Function α} {fwd : ForwardSizes} {bwd : BackwardSizes}
    (h : backwardSizes g fwd = .ok bwd) : HasBackwardSizes g fwd bwd := by
  unfold backwardSizes at h
  obtain ⟨hports, h⟩ := ok_of_guard h
  obtain ⟨nrx, hnrx, h⟩ := ok_of_bind h
  obtain ⟨nrp, hnrp, h⟩ := ok_of_bind h
  obtain ⟨nx, hnx, h⟩ := ok_of_bind h
  obtain ⟨hx, h⟩ := ok_of_guard h
  obtain ⟨np, hnp, h⟩ := ok_of_bind h
  obtain ⟨hp, h⟩ := ok_of_guard h
  obtain ⟨htime, h⟩ := ok_of_guard h
  obtain ⟨hshape, h⟩ := ok_of_guard h
  obtain rfl := Except.ok.inj h
  push Not at hports
  exact ⟨hports.1, hports.2, hnrx, hnrp, not_not.1 hx ▸ hnx, not_not.1 hp ▸ hnp,
    Pattern.isScalar_iff.1 (by simpa using htime), not_not.1 hshape, rfl⟩

theorem backwardSizes_yields {g : Function α} {fwd : ForwardSizes} {bwd : BackwardSizes}
    (h : backwardSizes g fwd = .ok bwd) : Yields g bwd.nrx bwd.nrq :=
  have hsizes := backwardSizes_spec h
  hsizes.nrq ▸ yields_of_shape hsizes.outputs.1 hsizes.rate

end Problem

namespace DenseVersion

variable [Scalar α]

theorem shape_patternOf (h : DenseVersion f f') (i : Nat) :
    (Problem.patternOf f'.outputs i).shape = (Problem.patternOf f.outputs i).shape := by
  cases ho : f.outputs[i]? with
  | some o =>
    obtain ⟨o', ho', hsame⟩ := exists_of_forall₂ h.outputs.flip ho
    rw [Problem.patternOf_eq ho, Problem.patternOf_eq ho']
    exact hsame.1
  | none =>
    have ho' : f'.outputs[i]? = none := by
      rw [List.getElem?_eq_none_iff] at ho ⊢
      exact h.outputs.length_eq ▸ ho
    rw [Problem.patternOf, Problem.patternOf, ho, ho']

theorem quadRows_eq (h : DenseVersion f f') : Problem.quadRows f' = Problem.quadRows f := by
  have hrows (f : Function α) : Problem.quadRows f = (Problem.patternOf f.outputs 1).nrows := by
    rw [Problem.quadRows, Problem.patternOf]
    cases f.outputs[1]? <;> rfl
  rw [hrows, hrows]
  exact congrArg Prod.fst (h.shape_patternOf 1)

theorem quadColumns_eq (h : DenseVersion f f') :
    Problem.quadColumns f' = Problem.quadColumns f := by
  rw [Problem.quadColumns, Problem.quadColumns, h.quadRows_eq]
  exact if_congr Iff.rfl rfl (congrArg Prod.snd (h.shape_patternOf 1))

end DenseVersion

theorem Problem.Yields.dense [Scalar α] {states quadratures : Nat}
    (h : Yields f states quadratures) (hdense : DenseVersion f f') :
    Yields f' states quadratures := by
  obtain ⟨o, ho, hshape⟩ := h.rate
  obtain ⟨o', ho', hsame⟩ := exists_of_forall₂ hdense.outputs.flip ho
  exact ⟨⟨o', ho', hsame.1.trans hshape⟩, hdense.quadRows_eq.trans h.quadratures⟩

end DiffGraph
