import Mathlib
import DiffGraph.Proofs.Derivative.Seeds
import DiffGraph.Proofs.Derivative.Slots
import DiffGraph.Proofs.Graph.Built

/-!
# Forward derivatives

After every instruction the slots of the results computed so far hold tangents, or
nothing where the derivative is zero (`HasTangents`): an instruction without any
seed may be skipped because results of operands that do not vary do not vary. What the
tangents stand for is anything that the nodes hand on (`Propagates`). In exact arithmetic
these are the derivatives that dual numbers give, so the forward derivative function
returns them, for every direction alone (`forward_correct`).
-/

namespace DiffGraph

open Element Expr

/-! ## Tangents in slots -/

section Slots

variable {α : Type} [Scalar α] {refused : GraphError → Prop} {n n' : Nat}
  {S S' S'' : Set (Expr α)} {f : Function α} {slot : Expr α × Nat → Nat}
  {V : Expr α × Nat → Option (Expr α) → Prop} {done rest : List (Instruction α)}
  {ins : Instruction α} {s : Expr α × Nat} {d : Option (Expr α)} {xs : List (Expr α)}

/-- The derivative, where there is one, may be an operand and has the shape of the result. What it
says about the result is up to `V`. -/
structure StandsFor (V : Expr α × Nat → Option (Expr α) → Prop) (S : Set (Expr α))
    (s : Expr α × Nat) (d : Option (Expr α)) : Prop where
  usable : ∀ x ∈ d, Usable S x ∧ x.shape = (sourcePattern s).shape
  holds : V s d

omit [Scalar α] in
theorem StandsFor.mono (h : StandsFor V S s d) (hsub : S ⊆ S') : StandsFor V S' s d :=
  { h with usable := fun x hx => ⟨(h.usable x hx).1.mono hsub, (h.usable x hx).2⟩ }

namespace Function

/-- Each slot that is ready after `done` holds the derivative of its result, the others nothing. -/
structure HasTangents (f : Function α) (S : Set (Expr α)) (slot : Expr α × Nat → Nat)
    (V : Expr α × Nat → Option (Expr α) → Prop) (done : List (Instruction α))
    (S' : Set (Expr α)) (ds : SlotDerivatives α) : Prop where
  size : ds.size = f.slots.size
  unset : ∀ s, IsResult S s → ¬ Ready slot done s → derivativeAt ds (slot s) = none
  tangent : ∀ s, IsResult S s → Ready slot done s → StandsFor V S' s (derivativeAt ds (slot s))

/-- From what holds of the derivatives of its operands a node makes what holds of those of its
results. Only the entries of a derivative count, and nothing stands for zero. -/
structure Propagates (f : Function α) (S : Set (Expr α)) (refused : GraphError → Prop)
    (V : Expr α × Nat → Option (Expr α) → Prop) : Prop where
  congr : ∀ {s d x}, V s d →
    (∀ (env : Nat → Nat → α) (i j : Nat), entry env x i j = partialEntry env d i j) → V s (some x)
  tangent : ∀ {n S' ins outputs seeds}, IsGraph n S' → S ⊆ S' → ins ∈ f.instructions →
    (ins.node.op.isSplit = false → outputs = [ins.node]) →
    List.Forall₂ (fun d x => StandsFor V S' d.source (some x)) ins.node.deps seeds →
    Grows refused n S' (ins.node.tangent outputs seeds) fun S'' rs =>
      rs.length = ins.node.resultCount ∧
        ∀ (i : Nat) x, rs[i]? = some x → StandsFor V S'' (ins.node, i) (some x)
  skip : ∀ {ins i}, ins ∈ f.instructions → (∀ d ∈ ins.node.deps, V d.source none) →
    i < ins.node.resultCount → V (ins.node, i) none

variable {ds : SlotDerivatives α}

omit [Scalar α] in
theorem HasTangents.mono (h : f.HasTangents S slot V done S' ds) (hsub : S' ⊆ S'') :
    f.HasTangents S slot V done S'' ds :=
  { h with tangent := fun s hs hr => (h.tangent s hs hr).mono hsub }

/-! ## The seeds -/

/-- The seeds of a direction as the derivatives of the inputs. -/
def forwardStart (f : Function α) (xs : List (Expr α)) : SlotDerivatives α :=
  (f.inputSlots.zip xs).foldl (fun ds (s, x) => ds.setIfInBounds s (some x)) f.noDerivatives

omit [Scalar α] in
theorem forwardStart_eq (f : Function α) (xs : List (Expr α)) :
    f.forwardStart xs = (f.inputSlots.zip (xs.map some)).foldl
      (fun ds (s, x) => ds.setIfInBounds s x) f.noDerivatives := by
  rw [forwardStart, List.zip_map_right, List.foldl_map]
  rfl

omit [Scalar α] in
theorem derivativeAt_forwardStart (h : f.Layout S slot) (hlen : xs.length = f.inputs.length)
    (t : Nat) : derivativeAt (f.forwardStart xs) t = xs[t]? := by
  have hsize : (xs.map some).length ≤ f.noDerivatives.size := by
    rw [List.length_map, hlen, noDerivatives, Array.size_replicate]
    exact h.inputs_le_size
  have hslots : f.inputSlots = List.range (xs.map some).length := by
    rw [h.inputSlots, List.length_map, hlen]
  rw [derivativeAt, forwardStart_eq, hslots, getElem?_foldl_set_range hsize, List.getElem?_map]
  cases xs[t]? with
  | some x => rfl
  | none => exact derivativeAt_noDerivatives

omit [Scalar α] in
theorem hasTangents_start (h : f.Layout S slot) (hS : IsGraph n S) (hxs : ∀ x ∈ xs, Usable S' x)
    (hp : xs.map pattern = f.inputs.map pattern)
    (hV : ∀ (t : Nat) x y, IsLast f.inputs t x → xs[t]? = some y → V (x, 0) (some y)) :
    f.HasTangents S slot V [] S' (f.forwardStart xs) := by
  have hlen : xs.length = f.inputs.length := by simpa using congrArg List.length hp
  refine ⟨?_, fun s hs hr => ?_, fun s hs hr => ?_⟩
  · rw [forwardStart_eq, size_foldl_set, noDerivatives, Array.size_replicate]
  · rw [derivativeAt_forwardStart h hlen]
    exact List.getElem?_eq_none (hlen ▸ h.inputs_le_of_not_ready hS hs hr)
  · obtain ⟨e, i⟩ := s
    obtain ⟨hsym, rfl⟩ : e.isSymbol = true ∧ i = 0 := hr.resolve_right (by simp)
    obtain ⟨-, -, hlast⟩ := h.input e (h.symbols e hs.1 hsym)
    obtain ⟨x, hx⟩ : ∃ x, xs[slot (e, 0)]? = some x :=
      ⟨_, List.getElem?_eq_getElem (hlen ▸ (List.getElem?_eq_some_iff.1 hlast.1).1)⟩
    rw [derivativeAt_forwardStart h hlen, hx]
    refine ⟨fun y hy => ?_, hV _ e x hlast hx⟩
    obtain rfl := Option.some.inj hy
    have hpattern : x.pattern = e.pattern := by
      simpa [hx, hlast.1] using congrArg (·[slot (e, 0)]?) hp
    exact ⟨hxs x (List.mem_of_getElem? hx), by rw [sourcePattern_zero, shape, hpattern]⟩

/-! ## One instruction -/

theorem grows_operandTangents (h : f.Layout S slot) (hS : IsGraph n S)
    (hV : f.Propagates S refused V) (hS' : IsGraph n' S')
    (hsplit : f.instructions = done ++ ins :: rest) (hT : f.HasTangents S slot V done S' ds) :
    Grows refused n' S' ((ins.args.zip ins.node.deps).mapM fun (s, dep) =>
        (orZeros (derivativeAt ds s) dep.pattern : Build (Expr α))) fun S'' seeds =>
      List.Forall₂ (fun d x => StandsFor V S'' d.source (some x)) ins.node.deps seeds := by
  have hfits := h.fits done ins rest hsplit
  rw [h.zip_args hsplit, List.mapM_map]
  refine Grows.mapM (P := fun S'' (d : Expr α) x => StandsFor V S'' d.source (some x)) hS' ?_
    fun S₁ S₂ d x hsub hx => hx.mono hsub
  intro d hd n'' S'' hext
  have hdS : d ∈ S := hS.closed _ hfits.mem d hd
  have htangent := (hT.tangent _ (hS.source_spec hdS) (hfits.ready d hd)).mono hext.subset
  have hp := congrArg Pattern.shape (hS.pattern_eq_source hdS)
  refine (grows_orZeros hext.graph fun x hx => ?_).mono ?_
  · exact ⟨(htangent.usable x hx).1, (htangent.usable x hx).2.trans hp.symm⟩
  · rintro n₁ S₁ r - ⟨hr, hrs, hrv⟩
    refine ⟨fun x hx => ?_, hV.congr htangent.holds hrv⟩
    obtain rfl := Option.some.inj hx
    exact ⟨hr, hrs.trans hp⟩

omit [Scalar α] in
theorem HasTangents.store (h : f.Layout S slot) (hsplit : f.instructions = done ++ ins :: rest)
    (hT : f.HasTangents S slot V done S' ds) (hlen : xs.length = ins.node.resultCount)
    (hxs : ∀ (i : Nat) x, xs[i]? = some x → StandsFor V S' (ins.node, i) (some x)) :
    f.HasTangents S slot V (done ++ [ins]) S' ((ins.results.zip xs).foldl
      (fun ds (r, x) => r.elim ds fun s => ds.setIfInBounds s (some x)) ds) := by
  rw [foldl_results_eq]
  set pairs := (ins.results.zip xs).filterMap fun (r, x) => r.map fun s => (s, some x) with hpairs
  have hkeep (s : Expr α × Nat) (hr : ¬ ∃ i : Nat, ins.results[i]? =
      some (some (slot s))) : derivativeAt (pairs.foldl (fun ds (s, x) => ds.setIfInBounds s x) ds)
        (slot s) = derivativeAt ds (slot s) := by
    rw [derivativeAt, getElem?_foldl_set_of_not_mem fun d hd => ?_]
    · rfl
    · obtain ⟨i, -, hi, -⟩ := mem_results_iff.1 (hpairs ▸ hd)
      exact hr ⟨i, hi⟩
  refine ⟨(size_foldl_set _ _).trans hT.size, fun s hs hr => ?_, fun s hs hr => ?_⟩
  · rw [ready_concat, not_or] at hr
    rw [hkeep s]
    · exact hT.unset s hs hr.1
    · rintro ⟨i, hi⟩
      obtain rfl := h.eq_of_results hsplit hs hi
      exact hr.2 ⟨rfl, hi⟩
  · by_cases hwritten : ∃ i : Nat, ins.results[i]? = some (some (slot s))
    · obtain ⟨i, hi⟩ := hwritten
      obtain rfl := h.eq_of_results hsplit hs hi
      obtain ⟨x, hx⟩ : ∃ x, xs[i]? = some x := ⟨_, List.getElem?_eq_getElem (hlen ▸ hs.2.2)⟩
      have hmem : (slot (ins.node, i), some x) ∈ pairs :=
        hpairs ▸ mem_results_iff.2 ⟨i, x, hi, hx, rfl⟩
      have honly (d : Option (Expr α)) (hd : (slot (ins.node, i), d) ∈ pairs) : d = some x := by
        obtain ⟨j, y, hj, hy, rfl⟩ := mem_results_iff.1 (hpairs ▸ hd)
        obtain rfl := (Prod.mk.inj (h.eq_of_results hsplit hs hj)).2
        rw [← hx, hy]
      rw [derivativeAt, getElem?_foldl_set_of_mem hmem honly (hT.size ▸ h.slot_lt hs)]
      exact hxs i x hx
    · rw [hkeep s hwritten]
      refine hT.tangent s hs ((ready_concat.1 hr).resolve_right ?_)
      exact fun hres => hwritten ⟨s.2, hres.2⟩

/-- An instruction turns the tangents of its operands into those of its results. -/
theorem grows_forwardStep (h : f.Layout S slot) (hS : IsGraph n S)
    (hV : f.Propagates S refused V) (hS' : IsGraph n' S') (hsub : S ⊆ S')
    (hsplit : f.instructions = done ++ ins :: rest) (hT : f.HasTangents S slot V done S' ds)
    {outputs : List (Expr α)} (houtputs : ins.node.op.isSplit = false → outputs = [ins.node]) :
    Grows refused n' S' (forwardStep ins outputs ds) fun S'' ds' =>
      f.HasTangents S slot V (done ++ [ins]) S'' ds' := by
  have hmem : ins ∈ f.instructions := hsplit ▸ List.mem_append_right _ List.mem_cons_self
  unfold forwardStep
  refine .bind (grows_operandTangents h hS hV hS' hsplit hT) fun n₁ S₁ seeds h₁ hseeds => ?_
  refine .bind (hV.tangent h₁.graph (hsub.trans h₁.subset) hmem houtputs hseeds) ?_
  rintro n₂ S₂ sens h₂ ⟨hlen, hsens⟩
  exact .pure h₂.graph ((hT.mono (h₁.trans h₂).subset).store h hsplit hlen hsens)

/-- An instruction none of whose operands has a derivative may be skipped. -/
theorem HasTangents.skip (h : f.Layout S slot) (hS : IsGraph n S) (hV : f.Propagates S refused V)
    (hsplit : f.instructions = done ++ ins :: rest) (hT : f.HasTangents S slot V done S' ds)
    (hnone : ∀ t ∈ ins.args, derivativeAt ds t = none) :
    f.HasTangents S slot V (done ++ [ins]) S' ds := by
  have hfits := h.fits done ins rest hsplit
  have hmem : ins ∈ f.instructions := hsplit ▸ List.mem_append_right _ List.mem_cons_self
  refine ⟨hT.size, fun s hs hr => ?_, fun s hs hr => ?_⟩
  · exact hT.unset s hs fun hr' => hr (ready_concat.2 (.inl hr'))
  rcases ready_concat.1 hr with hr | ⟨hnode, -⟩
  · exact hT.tangent s hs hr
  obtain ⟨e, i⟩ := s
  obtain rfl : ins.node = e := hnode
  rw [hT.unset _ hs (h.not_ready hsplit i)]
  refine ⟨by simp, hV.skip hmem (fun d hd => ?_) hs.2.2⟩
  have hdS : d ∈ S := hS.closed _ hs.1 d hd
  have htangent := hT.tangent _ (hS.source_spec hdS) (hfits.ready d hd)
  rw [hnone (slot d.source) (hfits.args ▸ List.mem_map_of_mem hd)] at htangent
  exact htangent.holds

variable {V : List (Expr α) → Expr α × Nat → Option (Expr α) → Prop}

theorem grows_forwardAll (h : f.Layout S slot) (hS : IsGraph n S)
    (hV : ∀ xs, f.Propagates S refused (V xs)) (hS' : IsGraph n' S')
    (hsub : S ⊆ S') (hsplit : f.instructions = done ++ ins :: rest)
    {seeds : List (List (Expr α))} {directions : List (SlotDerivatives α)}
    (hT : List.Forall₂ (fun xs ds => f.HasTangents S slot (V xs) done S' ds) seeds directions) :
    Grows refused n' S' (forwardAll ins directions) fun S'' directions' =>
      List.Forall₂ (fun xs ds => f.HasTangents S slot (V xs) (done ++ [ins]) S'' ds) seeds
        directions' := by
  have hfits := h.fits done ins rest hsplit
  unfold forwardAll
  split
  · refine .bind (grows_results hS' (hsub hfits.mem)) ?_
    intro n₁ S₁ outputs h₁ houtputs
    refine Grows.mapM_forall₂ (P := fun S₁ xs ds => f.HasTangents S slot (V xs) done S₁ ds)
      h₁.graph (hT.imp fun xs ds hds => hds.mono h₁.subset) ?_ ?_ ?_
    · exact fun xs ds n₂ S₂ h₂ hds => grows_forwardStep h hS (hV xs) h₂.graph
        (hsub.trans (h₁.trans h₂).subset) hsplit hds houtputs
    · exact fun S₁ S₂ xs ds hsub hds => hds.mono hsub
    · exact fun S₁ S₂ xs ds hsub hds => hds.mono hsub
  · rename_i hskip
    have hnone : ∀ ds ∈ directions, ∀ t ∈ ins.args, derivativeAt ds t = none := by
      simpa using hskip
    have hboth := (List.forall₂_and_left _ _).2 ⟨hnone, hT.flip⟩
    exact .pure hS' (hboth.flip.imp fun xs ds hds => hds.2.skip h hS (hV xs) hsplit hds.1)

theorem grows_foldlM_forwardAll (h : f.Layout S slot) (hS : IsGraph n S)
    (hV : ∀ xs, f.Propagates S refused (V xs)) (hS' : IsGraph n' S')
    (hsub : S ⊆ S') (hsplit : f.instructions = done ++ rest)
    {seeds : List (List (Expr α))} {directions : List (SlotDerivatives α)}
    (hT : List.Forall₂ (fun xs ds => f.HasTangents S slot (V xs) done S' ds) seeds directions) :
    Grows refused n' S' (rest.foldlM (fun ds ins => forwardAll ins ds) directions)
      fun S'' directions' => List.Forall₂
        (fun xs ds => f.HasTangents S slot (V xs) f.instructions S'' ds) seeds directions' := by
  induction rest generalizing done n' S' directions with
  | nil => exact .pure hS' (by rwa [hsplit, List.append_nil])
  | cons ins rest ih =>
    rw [List.foldlM_cons]
    refine .bind (grows_forwardAll h hS hV hS' hsub hsplit hT) fun n₁ S₁ next h₁ hnext => ?_
    exact ih h₁.graph (hsub.trans h₁.subset) (by simpa using hsplit) hnext

/-! ## The outputs -/

/-- The sensitivities of the outputs, on their patterns. -/
def outputTangents (f : Function α) (ds : SlotDerivatives α) : Build (List (Expr α)) :=
  (f.outputSlots.zip f.outputs).mapM fun (s, o) => do
    (← (orZeros (derivativeAt ds s) o.pattern : Build (Expr α))).project o.pattern

def sensitivities (f : Function α) (seeds : List (List (Expr α))) :
    Build (List (List (Expr α))) := do
  let directions ← f.instructions.foldlM (fun ds ins => forwardAll ins ds)
    (seeds.map f.forwardStart)
  directions.mapM f.outputTangents

theorem forward_eq (f : Function α) (k : Nat) :
    f.forward k =
      f.derivativeOf s!"fwd{k}_{f.name}" k f.forwardSeeds f.sensitivities := by
  unfold forward derivativeOf sensitivities
  simp only [bind_assoc]
  rfl

def IsSensitivity (V : Expr α × Nat → Option (Expr α) → Prop) (S : Set (Expr α)) (o r : Expr α) :
    Prop :=
  Usable S r ∧ r.pattern = o.pattern ∧ ∃ d, V o.source d ∧
    ∀ env : Nat → Nat → α, nonzeros env r = o.pattern.gather (partialEntry env d)

theorem grows_outputTangents {V : Expr α × Nat → Option (Expr α) → Prop} (h : f.Layout S slot)
    (hS : IsGraph n S) (hS' : IsGraph n' S') (hT : f.HasTangents S slot V f.instructions S' ds) :
    Grows refused n' S' (f.outputTangents ds) fun S'' os =>
      List.Forall₂ (IsSensitivity V S'') f.outputs os := by
  unfold outputTangents
  rw [h.zip_outputSlots, List.mapM_map]
  refine Grows.mapM (P := IsSensitivity V) hS' ?_
    fun S₁ S₂ o r hsub hr => ⟨hr.1.mono hsub, hr.2⟩
  intro o ho n₁ S₁ h₁
  obtain ⟨hoS, -, hready⟩ := h.outputs o ho
  have htangent := hT.tangent _ (hS.source_spec hoS) hready
  have hp := congrArg Pattern.shape (hS.pattern_eq_source hoS)
  refine (grows_portDerivative h₁.graph fun x hx => ?_).mono ?_
  · exact ⟨(htangent.usable x hx).1.mono h₁.subset, (htangent.usable x hx).2.trans hp.symm⟩
  · exact fun n₂ S₂ r _ hr => ⟨hr.1, hr.2.1, _, htangent.holds, hr.2.2⟩

theorem grows_sensitivities (h : f.Layout S slot) (hS : IsGraph n S)
    (hV : ∀ xs, f.Propagates S refused (V xs)) (hS' : IsGraph n' S') (hsub : S ⊆ S')
    {seeds : List (List (Expr α))} (hseeds : ∀ xs ∈ seeds, (∀ x ∈ xs, Usable S' x) ∧
      xs.map pattern = f.inputs.map pattern ∧
        ∀ (t : Nat) x y, IsLast f.inputs t x → xs[t]? = some y → V xs (x, 0) (some y)) :
    Grows refused n' S' (f.sensitivities seeds) fun S'' outs =>
      (∀ o ∈ outs.flatten, Usable S'' o) ∧
        List.Forall₂ (fun xs os => List.Forall₂ (IsSensitivity (V xs) S'') f.outputs os) seeds
          outs := by
  have hstart : List.Forall₂ (fun xs ds => f.HasTangents S slot (V xs) [] S' ds) seeds
      (seeds.map f.forwardStart) := by
    refine List.forall₂_map_right_iff.2 (List.forall₂_same.2 fun xs hxs => ?_)
    obtain ⟨hus, hp, hval⟩ := hseeds xs hxs
    exact hasTangents_start h hS hus hp hval
  unfold sensitivities
  refine .bind (grows_foldlM_forwardAll h hS hV hS' hsub (List.nil_append _).symm hstart) ?_
  intro n₁ S₁ directions h₁ hT
  refine (Grows.mapM_forall₂
    (P := fun S₁ xs ds => f.HasTangents S slot (V xs) f.instructions S₁ ds)
    (Q := fun S₂ xs os => List.Forall₂ (IsSensitivity (V xs) S₂) f.outputs os)
    h₁.graph hT ?_ ?_ ?_).mono ?_
  · exact fun xs ds n₂ S₂ h₂ hds => grows_outputTangents h hS h₂.graph hds
  · exact fun S₂ S₃ xs ds hsub hds => hds.mono hsub
  · exact fun S₂ S₃ xs os hsub hos => hos.imp fun o r hr => ⟨hr.1.mono hsub, hr.2⟩
  · intro n₂ S₂ outs _ houts
    refine ⟨fun r hr => ?_, houts⟩
    obtain ⟨os, hos, hr⟩ := List.mem_flatten.1 hr
    obtain ⟨i, hi⟩ := List.mem_iff_getElem?.1 hos
    obtain ⟨xs, -, hxs⟩ := exists_of_forall₂ houts hi
    obtain ⟨j, hj⟩ := List.mem_iff_getElem?.1 hr
    obtain ⟨o, -, ho⟩ := exists_of_forall₂ hxs hj
    exact ho.1

end Function

end Slots

/-! ## Derivatives of dual numbers -/

variable {α : Type} [ExactField α] {n n' : Nat} {S S' : Set (Expr α)} {f : Function α}
  {slot : Expr α × Nat → Nat} {R : (Nat → Nat → α) → (Nat → Nat → α) → Prop}
  {xs : List (Expr α)}

/-- The derivative of a result, where nothing stands for zero. -/
def HasDerivative (R : (Nat → Nat → α) → (Nat → Nat → α) → Prop) (s : Expr α × Nat)
    (d : Option (Expr α)) : Prop :=
  ∀ env tan, R env tan → ∀ r c, partialEntry env d r c = sourceTangent env tan s r c

theorem standsFor_some {s : Expr α × Nat} {x : Expr α} :
    StandsFor (HasDerivative R) S s (some x) ↔ Usable S x ∧ IsTangent R s x := by
  constructor
  · exact fun h => ⟨(h.usable x rfl).1, (h.usable x rfl).2, h.holds⟩
  · rintro ⟨hx, hshape, hval⟩
    exact ⟨fun y hy => Option.some.inj hy ▸ ⟨hx, hshape⟩, hval⟩

namespace Function

/-- The derivatives of the inputs are the values of the seeds. -/
def Follows (f : Function α) (xs : List (Expr α)) (env tan : Nat → Nat → α) : Prop :=
  ∀ (t : Nat) x s, IsLast f.inputs t x → xs[t]? = some s → tan x.id = env s.id

theorem hasDerivative_symbol {x y : Expr α} (hS : IsGraph n S) (hx : x ∈ S)
    (hxs : x.isSymbol = true) (hS' : IsGraph n' S') (hy : y ∈ S') (hys : y.isSymbol = true)
    (hp : y.pattern = x.pattern) (h : ∀ env tan, R env tan → tan x.id = env y.id) :
    HasDerivative R (x, 0) (some y) := by
  intro env tan hR r c
  have hnz : nonzeros env y = (nonzeros (dualEnv env tan) x).map Dual.deriv := by
    rw [hS.nonzeros_of_isSymbol hx hxs, hS'.nonzeros_of_isSymbol hy hys, nnz, hp, List.map_map,
      ← h env tan hR]
    rfl
  rw [sourceTangent_zero, tangentEntry, partialEntry, Option.elim_some, entry, hp, hnz]
  exact Pattern.entry_map (hS.length_nonzeros hx) (.inr rfl)

/-- Nodes hand derivatives on. -/
theorem propagates_derivatives (h : f.Layout S slot) (hS : IsGraph n S) :
    f.Propagates S (OutOf f.FitsMemory) (HasDerivative R) where
  congr hd hx env tan hR r c := (hx env r c).trans (hd env tan hR r c)
  tangent := by
    intro n' S' ins outputs seeds hS' hsub hmem houtputs hseeds
    obtain ⟨hnode, hop⟩ := h.node hmem
    refine (grows_tangent (R := R) hS' (hsub hnode) hop houtputs
      (hseeds.imp fun d x hx => standsFor_some.1 hx)
      (fun hlarge => ⟨rfl, fun hm => hlarge (hm.node h hmem).shape⟩)
      (fun hlarge => ⟨rfl, fun hm => hlarge (hm.node h hmem).operands⟩)
      fun hlarge => ⟨rfl, fun hm => hlarge (hm.node h hmem).results⟩).mono ?_
    exact fun n₁ S₁ rs _ hrs => ⟨hrs.1, fun i x hx => standsFor_some.2 (hrs.2 i x hx)⟩
  skip := by
    intro ins i hmem hnone hi env tan hR r c
    obtain ⟨hnode, hop⟩ := h.node hmem
    refine (hS.sourceTangent_of_operands hnode hop (fun d hd r c => ?_) hi r c).symm
    have hdS : d ∈ S := hS.closed _ hnode d hd
    exact (hS.tangentEntry_eq_source hdS env tan r c).trans (hnone d hd env tan hR r c).symm

/-- The sensitivities for the seeds of every direction are the derivatives in that direction. -/
theorem grows_sensitivities_derivs (h : f.Layout S slot) (hS : IsGraph n S)
    {seeds : List (List (Expr α))} (hadd : AddsSymbols n S n' S' seeds.flatten)
    (hp : ∀ xs ∈ seeds, xs.map pattern = f.inputs.map pattern) :
    Grows (OutOf f.FitsMemory) n' S' (f.sensitivities seeds) fun S'' outs =>
      (∀ o ∈ outs.flatten, Usable S'' o) ∧ List.Forall₂ (fun xs os => List.Forall₂
        (fun o r => ∀ env tan, f.Follows xs env tan →
          nonzeros env r = Dual.derivs (nonzeros (dualEnv env tan) o)) f.outputs os)
        seeds outs := by
  refine (grows_sensitivities (V := fun xs => HasDerivative (f.Follows xs)) h hS
    (fun xs => propagates_derivatives h hS) hadd.graph hadd.subset fun xs hxs => ?_).mono ?_
  · have hmem (x : Expr α) (hx : x ∈ xs) := hadd.mem x (List.mem_flatten_of_mem hxs hx)
    refine ⟨fun x hx => hadd.graph.usable_of_isSymbol (hmem x hx).1 (hmem x hx).2.1, hp xs hxs,
      fun t x y ht hy => ?_⟩
    obtain ⟨hxS, hxsym, -⟩ := h.input x (List.mem_of_getElem? ht.1)
    obtain ⟨hyS, hysym, -⟩ := hmem y (List.mem_of_getElem? hy)
    refine hasDerivative_symbol hS hxS hxsym hadd.graph hyS hysym ?_
      fun env tan hR => hR t x y ht hy
    simpa [hy, ht.1] using congrArg (·[t]?) (hp xs hxs)
  · rintro n₁ S₁ outs - ⟨hus, houts⟩
    have houtS (o : Expr α) (ho : o ∈ f.outputs) : o ∈ S := (h.outputs o ho).1
    refine ⟨hus, houts.imp fun xs os hos =>
      ((List.forall₂_and_left _ _).2 ⟨houtS, hos⟩).imp fun o r hr env tan hR => ?_⟩
    obtain ⟨hoS, -, -, d, hd, hval⟩ := hr
    rw [hval, hS.derivs_nonzeros hoS]
    refine Pattern.gather_congr fun i j _ => ?_
    exact (hd env tan hR i j).trans (hS.tangentEntry_eq_source hoS env tan i j).symm

theorem forward_spec (hS : IsGraph n S) (h : f.Compiled S) (k : Nat) :
    match f.forward k n with
    | .error e => OutOf (k < Size.listLimit ∧ f.FitsMemory) e
    | .ok (g, n') => n ≤ n' ∧ (∃ S', IsGraph n' S' ∧ g.Compiled S') ∧ ∀ point directions,
        point.map List.length = f.inputs.map nnz → directions.length = k →
        (∀ vs ∈ directions, vs.map List.length = f.inputs.map nnz) →
        ∃ outs, g.evaluate (point ++ directions.flatten) = .ok outs.flatten ∧
          List.Forall₂ (fun vs out => ∃ duals,
            f.evaluateDual (List.zipWith Dual.seeded point vs) = .ok duals ∧
              out = duals.map Dual.derivs) directions outs := by
  obtain ⟨hgraph, slot, hlayout⟩ := h.exists_layout hS
  have hspec := derivativeOf_spec (k := k) hgraph
    (fun x hx => ⟨(hlayout.input x hx).1, (hlayout.input x hx).2.1⟩) hlayout.symbols
    f.exists_forwardSeeds (fun _ _ _ hadd hp => grows_sensitivities_derivs hlayout hgraph hadd hp)
    s!"fwd{k}_{f.name}"
  rw [forward_eq]
  split
  · rename_i e he
    simpa only [he] using hspec
  · rename_i g n₂ hg
    simp only [hg] at hspec
    obtain ⟨n₁, S₁, S₂, seeds, outs, hadd, hext, hp, houts, hcompiled, heval⟩ := hspec
    refine ⟨Nat.le_trans hadd.le hext.le, ⟨S₂, hext.graph, hcompiled⟩,
      fun point directions hpoint hcount hdirections => ?_⟩
    have hnnz : (f.inputs.map pattern).map Pattern.nnz = f.inputs.map nnz := List.map_map
    obtain ⟨hlen, env, hassigns, hrun⟩ := heval point directions hpoint hcount (hnnz ▸ hdirections)
    refine ⟨outs.map (List.map (nonzeros env)), by rw [hrun, List.map_flatten], ?_⟩
    refine forall₂_of_getElem? ?_ fun i vs out hvs hout => ?_
    · rw [List.length_map, ← houts.length_eq, hlen]
    rw [List.getElem?_map, Option.map_eq_some_iff] at hout
    obtain ⟨os, hos, rfl⟩ := hout
    obtain ⟨xs, hxs, hvalues⟩ := exists_of_forall₂ houts hos
    have hvslen := hdirections vs (List.mem_of_getElem? hvs)
    obtain ⟨tan, htan, hdual⟩ := evaluateDual_eq hlayout hgraph hpoint hvslen hassigns.input
    refine ⟨_, hdual, ?_⟩
    have hfollows : f.Follows xs env tan := by
      intro t x s ht hs
      have hlt := (List.getElem?_eq_some_iff.1 ht.1).1
      have hvt : vs.length = f.inputs.length := by simpa using congrArg List.length hvslen
      obtain ⟨v, hv⟩ : ∃ v, vs[t]? = some v := ⟨_, List.getElem?_eq_getElem (hvt ▸ hlt)⟩
      rw [htan t x v ht hv, hassigns.seed i xs vs hxs hvs t s v hs hv]
    rw [List.map_map]
    exact (map_eq_of_forall₂ hvalues fun o r hr => (hr env tan hfollows).symm).symm

/-- The forward derivative function agrees with dual numbers: it can be built unless the memory does
not suffice, and at a point and the seeds of every direction it returns, direction by direction, the
derivatives that the function has on dual numbers seeded with that direction. -/
theorem forward_correct (hS : IsGraph n S) (h : f.Compiled S) (k : Nat) :
    match f.forward k n with
    | .error e => OutOf (k < Size.listLimit ∧ f.FitsMemory) e
    | .ok (g, n') => (∃ S', IsGraph n' S' ∧ g.Compiled S') ∧ ∀ point directions,
        point.map List.length = f.inputs.map nnz → directions.length = k →
        (∀ vs ∈ directions, vs.map List.length = f.inputs.map nnz) →
        ∃ outs, g.evaluate (point ++ directions.flatten) = .ok outs.flatten ∧
          List.Forall₂ (fun vs out => ∃ duals,
            f.evaluateDual (List.zipWith Dual.seeded point vs) = .ok duals ∧
              out = duals.map Dual.derivs) directions outs := by
  have hspec := forward_spec hS h k
  split
  · rename_i e he
    simpa only [he] using hspec
  · rename_i g n' hg
    simp only [hg] at hspec
    exact hspec.2

/-- The derivative of the squares at (3, 5) in the direction (1, 0). -/
theorem forward_correct_square :
    let x : Expr Rat := .node 0 (.symbol "x") [] (.column 2) []
    let p : Expr Rat := .node 1 (.binary .mul .none) [x, x] (.column 2) []
    ∃ f g n', compile "f" [x] [p] = .ok f ∧ f.forward 1 2 = .ok (g, n') ∧
      g.evaluate [[3, 5], [1, 0]] = .ok [[3 * 1 + 1 * 3, 5 * 0 + 0 * 5]] := by
  intro x p
  obtain ⟨f, hf, hin, -, hmemory, ⟨S, hS, hcompiled⟩, hdual⟩ := compile_square
  have h := forward_correct hS hcompiled 1
  cases hg : f.forward 1 2 with
  | error e =>
    simp only [hg] at h
    exact absurd ⟨by decide, hmemory⟩ h.2
  | ok out =>
    obtain ⟨g, n'⟩ := out
    simp only [hg] at h
    obtain ⟨outs, heval, hall⟩ := h.2 [[3, 5]] [[[1, 0]]] (by rw [hin]; rfl) rfl
      (by rw [hin]; simp only [List.mem_singleton, forall_eq]; rfl)
    obtain ⟨out, rfl, duals, hduals, rfl⟩ := exists_singleton_of_forall₂ hall
    obtain rfl := Except.ok.inj ((hdual 3 5 1 0).symm.trans hduals)
    exact ⟨f, g, n', hf, hg, heval⟩

end Function

end DiffGraph
