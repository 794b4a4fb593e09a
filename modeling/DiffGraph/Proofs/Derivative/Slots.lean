import Mathlib
import DiffGraph.Function.Derivative
import DiffGraph.Proofs.Derivative.Seeds
import DiffGraph.Proofs.Derivative.Tangent
import DiffGraph.Proofs.Function.Run

/-!
# Derivatives of slots

Both sweeps keep an expression, or nothing, for every slot. A slot belongs to one
result of the graph (`Layout.eq_of_slot`), and an instruction makes those results
ready that it writes (`ready_concat`).
-/

namespace DiffGraph

open Expr

/-! ## Results and their slots -/

section Results

variable {α : Type} {f : Function α} {n : Nat} {S : Set (Expr α)} {slot : Expr α × Nat → Nat}
  {s s' : Expr α × Nat} {ins : Instruction α} {done rest : List (Instruction α)}

/-- A result of a node of the graph that is no reference. -/
def IsResult (S : Set (Expr α)) (s : Expr α × Nat) : Prop :=
  s.1 ∈ S ∧ s.1.isOutput = false ∧ s.2 < s.1.resultCount

theorem IsResult.getElem?_patterns (h : IsResult S s) :
    s.1.patterns[s.2]? = some (sourcePattern s) := by
  rw [sourcePattern, List.getElem?_eq_getElem h.2.2]
  rfl

theorem ready_concat :
    Ready slot (done ++ [ins]) s ↔
      Ready slot done s ∨ ins.node = s.1 ∧ ins.results[s.2]? = some (some (slot s)) := by
  constructor
  · rintro (hsym | ⟨ins', hins', hres⟩)
    · exact .inl (.inl hsym)
    · rcases List.mem_append.1 hins' with hins' | hins'
      · exact .inl (.inr ⟨ins', hins', hres⟩)
      · exact .inr (List.mem_singleton.1 hins' ▸ hres)
  · rintro ((hsym | ⟨ins', hins', hres⟩) | hres)
    · exact .inl hsym
    · exact .inr ⟨ins', List.mem_append_left _ hins', hres⟩
    · exact .inr ⟨ins, List.mem_append_right _ (List.mem_singleton_self _), hres⟩

theorem zip_map_self {β γ : Type} (g : β → γ) (xs : List β) :
    (xs.map g).zip xs = xs.map fun x => (g x, x) := by
  have hzip : (xs.map g).zip (xs.map fun x => x) = xs.map fun x => (g x, x) := List.zip_map'
  rwa [List.map_id'] at hzip

namespace Function.Layout

theorem eq_of_slot (h : f.Layout S slot) (hs : IsResult S s) (hs' : IsResult S s')
    (heq : slot s = slot s') : s = s' :=
  h.injective _ hs.1 _ hs'.1 hs.2.1 hs'.2.1 _ hs.2.2 _ hs'.2.2 heq

theorem getElem?_slots (h : f.Layout S slot) (hs : IsResult S s) :
    f.slots[slot s]? = some (sourcePattern s) :=
  h.patterns _ hs.1 hs.2.1 _ _ hs.getElem?_patterns

theorem slot_lt (h : f.Layout S slot) (hs : IsResult S s) : slot s < f.slots.size :=
  h.lt_size hs.1 hs.2.1 hs.2.2

theorem isResult_node (h : f.Layout S slot) (hsplit : f.instructions = done ++ ins :: rest)
    {i : Nat} (hi : i < ins.node.resultCount) : IsResult S (ins.node, i) :=
  have hfits := h.fits done ins rest hsplit
  ⟨hfits.mem, not_isOutput_of_isOperation hfits.isOperation, hi⟩

/-- A slot that an instruction writes belongs to a result of its node. -/
theorem eq_of_results (h : f.Layout S slot) (hsplit : f.instructions = done ++ ins :: rest)
    {i : Nat} (hs : IsResult S s) (hi : ins.results[i]? = some (some (slot s))) :
    s = (ins.node, i) := by
  have hfits := h.fits done ins rest hsplit
  refine h.eq_of_slot hs (h.isResult_node hsplit ?_) (hfits.results i _ hi)
  rw [← hfits.length]
  exact (List.getElem?_eq_some_iff.1 hi).1

/-- The results of an instruction are not ready before it. -/
theorem not_ready (h : f.Layout S slot) (hsplit : f.instructions = done ++ ins :: rest) (i : Nat) :
    ¬ Ready slot done (ins.node, i) := by
  have hfits := h.fits done ins rest hsplit
  rintro (⟨hsym, -⟩ | ⟨ins', hins', hnode, -⟩)
  · have ho := hfits.isOperation
    generalize hnode : ins.node = e at hsym ho
    obtain ⟨id, op, deps, p, ps⟩ := e
    cases op <;> simp [isSymbol, name?, isOperation, Expr.op, Op.isReference] at hsym ho
  · have hnodup := h.nodup
    rw [hsplit, List.map_append, List.map_cons] at hnodup
    have hid : ins'.node.id ∈ done.map fun ins => ins.node.id := List.mem_map_of_mem hins'
    refine (List.nodup_append'.1 hnodup).2.2 hid ?_
    rw [show ins'.node = ins.node from hnode]
    exact List.mem_cons_self

theorem inputs_le_of_not_ready (h : f.Layout S slot) (hS : IsGraph n S) (hs : IsResult S s)
    (hr : ¬ Ready slot [] s) : f.inputs.length ≤ slot s := by
  refine h.above _ hs.1 ?_ _ hs.2.2
  by_contra ho
  rcases isSymbol_or_isOutput (by simpa using ho) with hsym | hout
  · obtain ⟨e, i⟩ := s
    obtain ⟨id, name, p, rfl⟩ := (hS.wellFormed _ hs.1).exists_of_isSymbol hsym
    exact hr (.inl ⟨hsym, Nat.lt_one_iff.1 hs.2.2⟩)
  · exact Bool.false_ne_true (hs.2.1.symm.trans hout)

theorem zip_args (h : f.Layout S slot) (hsplit : f.instructions = done ++ ins :: rest) :
    ins.args.zip ins.node.deps = ins.node.deps.map fun d => (slot d.source, d) := by
  rw [(h.fits done ins rest hsplit).args, zip_map_self]

theorem zip_outputSlots (h : f.Layout S slot) :
    f.outputSlots.zip f.outputs = f.outputs.map fun o => (slot o.source, o) := by
  rw [h.outputSlots, zip_map_self]

theorem node (h : f.Layout S slot) (hmem : ins ∈ f.instructions) :
    ins.node ∈ S ∧ ins.node.isOperation = true := by
  obtain ⟨done, rest, hsplit⟩ := List.append_of_mem hmem
  exact ⟨(h.fits done ins rest hsplit).mem, (h.fits done ins rest hsplit).isOperation⟩

end Function.Layout

/-- The memory holds a dense matrix for every result of the node, and the rows of its operands and
of its results can be counted. -/
structure Expr.FitsMemory {α : Type} (e : Expr α) : Prop where
  patterns : ∀ p ∈ e.patterns, Size.Fits p.shape
  operands : (e.deps.map fun d => d.pattern.nrows).sum < Size.wordLimit
  results : (e.patterns.map Pattern.nrows).sum < Size.wordLimit

theorem Expr.FitsMemory.shape {α : Type} {e : Expr α} (h : e.FitsMemory) : Size.Fits e.shape :=
  h.patterns _ (e.exists_patterns.choose_spec ▸ List.mem_cons_self)

theorem Function.FitsMemory.node (hm : f.FitsMemory) (h : f.Layout S slot)
    (hmem : ins ∈ f.instructions) : ins.node.FitsMemory := by
  obtain ⟨done, rest, hsplit⟩ := List.append_of_mem hmem
  refine ⟨fun p hp => ?_, hm.operands ins hmem, hm.results ins hmem⟩
  obtain ⟨i, hi⟩ := List.mem_iff_getElem?.1 hp
  have hslot := h.getElem?_slots
    (h.isResult_node hsplit (i := i) (List.getElem?_eq_some_iff.1 hi).1)
  rw [← eq_sourcePattern hi] at hslot
  exact hm.slots _ _ hslot

/-- The memory holds a function if it holds its inputs and its operations. -/
theorem Function.fitsMemory_iff (hS : IsGraph n S) (h : f.Compiled S) :
    f.FitsMemory ↔ (∀ x ∈ f.inputs, Size.Fits x.shape) ∧
      ∀ e ∈ nodesOf (f.inputs ++ f.outputs), e.isOperation = true → e.FitsMemory := by
  obtain ⟨hgraph, slot, hlayout⟩ := h.exists_layout hS
  constructor
  · refine fun hm => ⟨fun x hx => ?_, fun e he ho => ?_⟩
    · obtain ⟨t, ht⟩ := List.mem_iff_getElem?.1 hx
      exact hm.slots _ _ (hlayout.inputPatterns t x ht)
    · obtain ⟨ins, hins, rfl⟩ := hlayout.complete e he ho
      exact hm.node hlayout hins
  · rintro ⟨hin, hops⟩
    refine ⟨fun t p hp => ?_, fun ins hins => ?_, fun ins hins => ?_⟩
    · obtain ⟨e, he, hpe⟩ := exists_of_mem_slots hgraph h.compile (Array.mem_of_getElem? hp)
      by_cases ho : e.isOperation = true
      · exact (hops e he ho).patterns p hpe
      · rcases isSymbol_or_isOutput (by simpa using ho) with hs | hout
        · obtain ⟨id, name, q, rfl⟩ := (hgraph.wellFormed e he).exists_of_isSymbol hs
          obtain rfl := List.mem_singleton.1 hpe
          exact hin _ (hlayout.symbols _ he hs)
        · obtain ⟨id, i, q, p', rfl, hsplit, hq⟩ := (hgraph.wellFormed e he).exists_of_isOutput hout
          obtain rfl := List.mem_singleton.1 hpe
          refine (hops q (hgraph.closed _ he q (by simp [deps])) ?_).patterns p
            (List.mem_of_getElem? hq)
          obtain ⟨id, op, ds, p₀, ps⟩ := q
          cases op <;> first | rfl | cases hsplit
    · exact (hops _ (hlayout.node hins).1 (hlayout.node hins).2).operands
    · exact (hops _ (hlayout.node hins).1 (hlayout.node hins).2).results

theorem Function.FitsMemory.input (hm : f.FitsMemory) (hS : IsGraph n S) (h : f.Compiled S)
    {x : Expr α} (hx : x ∈ f.inputs) : Size.Fits x.shape :=
  ((fitsMemory_iff hS h).1 hm).1 x hx

theorem Function.FitsMemory.output (hm : f.FitsMemory) (hS : IsGraph n S) (h : f.Compiled S)
    {o : Expr α} (ho : o ∈ f.outputs) : Size.Fits o.shape := by
  obtain ⟨hgraph, slot, hlayout⟩ := h.exists_layout hS
  have hmem := (hlayout.outputs o ho).1
  have hfits := hm.slots _ _ (hlayout.getElem?_slots (hgraph.source_spec hmem))
  rwa [← hgraph.pattern_eq_source hmem] at hfits

end Results

/-! ## Slots and their derivatives -/

namespace Function

section Slots

variable {α : Type} {f : Function α} {ds : SlotDerivatives α} {t u : Nat} {d : Option (Expr α)}

theorem derivativeAt_noDerivatives : derivativeAt f.noDerivatives t = none := by
  unfold derivativeAt noDerivatives
  by_cases h : t < f.slots.size
  · simp [h]
  · simp [Nat.le_of_not_lt h]

theorem derivativeAt_set_self (h : t < ds.size) : derivativeAt (ds.setIfInBounds t d) t = d := by
  rw [derivativeAt, Array.getElem?_setIfInBounds_self_of_lt h]
  rfl

theorem derivativeAt_set_ne (h : t ≠ u) :
    derivativeAt (ds.setIfInBounds t d) u = derivativeAt ds u := by
  rw [derivativeAt, Array.getElem?_setIfInBounds_ne h]
  rfl

end Slots

variable {α : Type} [Scalar α] {refused : GraphError → Prop} {n : Nat} {S : Set (Expr α)}
  {d : Option (Expr α)} {p : Pattern} {e : Expr α}

theorem grows_orZeros (hS : IsGraph n S) (hd : ∀ x ∈ d, Usable S x ∧ x.shape = p.shape) :
    Grows refused n S (liftM (orZeros d p)) fun S' r =>
      Usable S' r ∧ r.shape = p.shape ∧
        ∀ (env : Nat → Nat → α) (i j : Nat), entry env r i j = partialEntry env d i j := by
  cases d with
  | none => exact grows_zerosLike hS p
  | some x => exact .pure hS ⟨(hd x rfl).1, (hd x rfl).2, fun _ _ _ => rfl⟩

theorem grows_portDerivative (hS : IsGraph n S) (hd : ∀ x ∈ d, Usable S x ∧ x.shape = p.shape) :
    Grows refused n S (do (← (orZeros d p : Build (Expr α))).project p) fun S' r =>
      Usable S' r ∧ r.pattern = p ∧
        ∀ env : Nat → Nat → α, nonzeros env r = p.gather (partialEntry env d) := by
  refine .bind (grows_orZeros hS hd) ?_
  rintro n₁ S₁ x h₁ ⟨hx, hshape, hval⟩
  refine (grows_project h₁.graph hx fun hne => absurd hshape hne).mono ?_
  rintro n₂ S₂ r - ⟨hr, hp, hrv⟩
  refine ⟨hr, hp, fun env => ?_⟩
  rw [hrv]
  exact Pattern.gather_congr fun i j _ => hval env i j

theorem grows_results (hS : IsGraph n S) (he : e ∈ S) :
    Grows refused n S (liftM e.results) fun _ rs => e.op.isSplit = false → rs = [e] := by
  by_cases hs : e.op.isSplit = true
  · refine (grows_results_of_isSplit hS he hs).mono fun _ _ _ _ _ hs' => ?_
    exact absurd (hs.symm.trans hs') Bool.noConfusion
  · have hresults : e.results = pure [e] := by
      unfold results
      rw [(hS.wellFormed e he).patterns_eq (by simpa using hs)]
    rw [hresults]
    exact .pure hS fun _ => rfl

end Function

end DiffGraph
