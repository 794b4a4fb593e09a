import Mathlib
import DiffGraph.Function.Call
import DiffGraph.Proofs.Call.Rebuild
import DiffGraph.Proofs.Derivative.Seeds
import DiffGraph.Proofs.Derivative.Slots

/-!
# Calls

After every instruction the slots of the results computed so far hold expressions that
stand for them (`HoldsResults`), in any sense that rebuilding a node keeps
(`Represents`). Over any numbers they have the same patterns, and so a call gives
expressions on the patterns of the outputs (`Function.grows_call_patterns`), unless an
argument has another shape than its input. In exact arithmetic they are copies, with the
values that the results have where the inputs have the values of the arguments
(`Function.pullback`, `Function.grows_call`).
-/

namespace DiffGraph

open Element Expr

namespace Function

/-! ## Expressions that stand for results -/

section Results

variable {α : Type} [Scalar α] {refused : GraphError → Prop} {m n : Nat}
  {G S S' : Set (Expr α)} {f : Function α} {slot : Expr α × Nat → Nat}
  {P : Set (Expr α) → Expr α × Nat → Expr α → Prop} {done rest : List (Instruction α)}
  {ins : Instruction α} {work : Array (Expr α)} {args : List (Expr α)}

/-- The slots that are ready after `done` hold expressions that stand for their results. -/
structure HoldsResults (f : Function α) (G : Set (Expr α)) (slot : Expr α × Nat → Nat)
    (P : Set (Expr α) → Expr α × Nat → Expr α → Prop) (done : List (Instruction α))
    (S : Set (Expr α)) (work : Array (Expr α)) : Prop where
  size : work.size = f.slots.size
  result : ∀ s, IsResult G s → Ready slot done s → ∃ x, work[slot s]? = some x ∧ P S s x

/-- Constants stand for themselves, and instructions rebuilt on expressions that stand for their
operands give some that stand for their results. -/
structure Represents (f : Function α) (G : Set (Expr α)) (refused : GraphError → Prop)
    (P : Set (Expr α) → Expr α × Nat → Expr α → Prop) : Prop where
  mono : ∀ {S S' : Set (Expr α)} {s x}, P S s x → S ⊆ S' → P S' s x
  constant : ∀ {n S e}, IsGraph n S → e ∈ constantsOf G → e ∈ S →
    e.resultCount = 1 ∧ P S (e, 0) e
  rebuild : ∀ {n S ins args}, IsGraph n S → ins ∈ f.instructions →
    List.Forall₂ (fun d x => P S d.source x) ins.node.deps args →
    Grows refused n S (ins.node.rebuild args) fun S' rs => rs.length = ins.node.resultCount ∧
      ∀ (i : Nat) r, rs[i]? = some r → P S' (ins.node, i) r

theorem HoldsResults.mono (h : f.HoldsResults G slot P done S work)
    (hP : f.Represents G refused P) (hsub : S ⊆ S') : f.HoldsResults G slot P done S' work where
  size := h.size
  result s hs hr := (h.result s hs hr).imp fun _ hx => ⟨hx.1, hP.mono hx.2 hsub⟩

theorem grows_callArgs (h : f.Layout G slot) (hG : IsGraph m G) (hP : f.Represents G refused P)
    (hS : IsGraph n S) (hsplit : f.instructions = done ++ ins :: rest)
    (hwork : f.HoldsResults G slot P done S work) :
    Grows refused n S (ins.args.mapM fun s =>
        match work[s]? with
        | some x => pure x
        | none => throw .misuse) fun S' args =>
      List.Forall₂ (fun d x => P S' d.source x) ins.node.deps args := by
  have hfits := h.fits done ins rest hsplit
  rw [hfits.args, List.mapM_map]
  refine Grows.mapM (P := fun S' (d : Expr α) x => P S' d.source x) hS ?_ ?_
  · intro d hd n₁ S₁ h₁
    have hdG : d ∈ G := hG.closed _ hfits.mem d hd
    obtain ⟨x, hx, hPx⟩ := hwork.result _ (hG.source_spec hdG) (hfits.ready d hd)
    simp only [Function.comp_apply, hx]
    exact .pure h₁.graph (hP.mono hPx h₁.subset)
  · exact fun S₁ S₂ d x hsub hx => hP.mono hx hsub

omit [Scalar α] in
theorem HoldsResults.store (h : f.Layout G slot) (hsplit : f.instructions = done ++ ins :: rest)
    (hwork : f.HoldsResults G slot P done S work) {rs : List (Expr α)}
    (hlen : rs.length = ins.node.resultCount)
    (hrs : ∀ (i : Nat) r, rs[i]? = some r → P S (ins.node, i) r) :
    f.HoldsResults G slot P (done ++ [ins]) S ((ins.results.zip rs).foldl
      (fun work (slot, x) => slot.elim work fun s => work.setIfInBounds s x) work) := by
  rw [foldl_results_eq fun x => x]
  set pairs := (ins.results.zip rs).filterMap fun (r, x) => r.map fun s => (s, x)
  have hwrites {t : Nat} {x : Expr α} : (t, x) ∈ pairs ↔
      ∃ i : Nat, ins.results[i]? = some (some t) ∧ rs[i]? = some x := by
    refine (mem_results_iff (g := fun x => x)).trans (exists_congr fun i => ?_)
    exact ⟨fun ⟨y, hi, hy, hxy⟩ => ⟨hi, hxy ▸ hy⟩, fun ⟨hi, hx⟩ => ⟨x, hi, hx, rfl⟩⟩
  refine ⟨(size_foldl_set _ _).trans hwork.size, fun s hs hr => ?_⟩
  by_cases hwritten : ∃ i : Nat, ins.results[i]? = some (some (slot s))
  · obtain ⟨i, hi⟩ := hwritten
    obtain rfl := h.eq_of_results hsplit hs hi
    obtain ⟨x, hx⟩ : ∃ x, rs[i]? = some x := ⟨_, List.getElem?_eq_getElem (hlen ▸ hs.2.2)⟩
    have hmem : (slot (ins.node, i), x) ∈ pairs := hwrites.2 ⟨i, hi, hx⟩
    refine ⟨x, getElem?_foldl_set_of_mem hmem (fun d hd => ?_) (hwork.size ▸ h.slot_lt hs),
      hrs i x hx⟩
    obtain ⟨j, hj, hy⟩ := hwrites.1 hd
    obtain rfl := (Prod.mk.inj (h.eq_of_results hsplit hs hj)).2
    exact Option.some.inj (hy.symm.trans hx)
  · have hready := (ready_concat.1 hr).resolve_right fun hres => hwritten ⟨s.2, hres.2⟩
    obtain ⟨x, hx, hPx⟩ := hwork.result s hs hready
    refine ⟨x, ?_, hPx⟩
    rw [getElem?_foldl_set_of_not_mem fun d hd => ?_, hx]
    obtain ⟨i, hi, -⟩ := hwrites.1 hd
    exact hwritten ⟨i, hi⟩

/-- An instruction makes expressions for its results from those for its operands. -/
theorem grows_callStep (h : f.Layout G slot) (hG : IsGraph m G) (hP : f.Represents G refused P)
    (hS : IsGraph n S) (hconst : constantsOf G ⊆ S)
    (hsplit : f.instructions = done ++ ins :: rest)
    (hwork : f.HoldsResults G slot P done S work) :
    Grows refused n S (callStep ins work) fun S' work' =>
      f.HoldsResults G slot P (done ++ [ins]) S' work' := by
  have hfits := h.fits done ins rest hsplit
  have hmem : ins ∈ f.instructions := hsplit ▸ List.mem_append_right _ List.mem_cons_self
  have hstore {n₁ : Nat} {S₁ : Set (Expr α)} {rs : List (Expr α)} (h₁ : Extends n S n₁ S₁)
      (hlen : rs.length = ins.node.resultCount)
      (hrs : ∀ (i : Nat) r, rs[i]? = some r → P S₁ (ins.node, i) r) :=
    (hwork.mono hP h₁.subset).store h hsplit hlen hrs
  unfold callStep
  dsimp only
  split
  · rename_i hempty
    have hmem : ins.node ∈ constantsOf G :=
      ⟨hfits.mem, hfits.isOperation, List.isEmpty_iff.1 hempty⟩
    obtain ⟨hcount, hself⟩ := hP.constant hS hmem (hconst hmem)
    rw [pure_bind]
    refine .pure hS (hstore (.refl hS) hcount.symm fun i r hr => ?_)
    obtain ⟨rfl, rfl⟩ : i = 0 ∧ ins.node = r := by
      simpa [List.getElem?_singleton] using hr
    exact hself
  · refine .bind (grows_callArgs h hG hP hS hsplit hwork) fun n₁ S₁ args h₁ hargs => ?_
    refine .bind (hP.rebuild h₁.graph hmem hargs) ?_
    rintro n₂ S₂ rs h₂ ⟨hlen, hrs⟩
    exact .pure h₂.graph (hstore (h₁.trans h₂) hlen hrs)

theorem grows_callSteps (h : f.Layout G slot) (hG : IsGraph m G) (hP : f.Represents G refused P)
    (hS : IsGraph n S) (hconst : constantsOf G ⊆ S) (hsplit : f.instructions = done ++ rest)
    (hwork : f.HoldsResults G slot P done S work) :
    Grows refused n S (rest.foldlM (fun work ins => callStep ins work) work)
      fun S' work' => f.HoldsResults G slot P f.instructions S' work' := by
  induction rest generalizing done n S work with
  | nil => exact .pure hS (by rwa [hsplit, List.append_nil])
  | cons ins rest ih =>
    rw [List.foldlM_cons]
    refine .bind (grows_callStep h hG hP hS hconst hsplit hwork) fun n₁ S₁ next h₁ hnext => ?_
    exact ih h₁.graph (hconst.trans h₁.subset) (by simpa using hsplit) hnext

omit [Scalar α] in
theorem holdsResults_start (h : f.Layout G slot) {aligned : List (Expr α)} {blank : Expr α}
    (hlen : aligned.length = f.inputs.length)
    (haligned : ∀ (t : Nat) x r, IsLast f.inputs t x → aligned[t]? = some r → P S (x, 0) r) :
    f.HoldsResults G slot P [] S ((f.inputSlots.zip aligned).foldl
      (fun work (s, a) => work.setIfInBounds s a) (Array.replicate f.slots.size blank)) := by
  refine ⟨by rw [size_foldl_set, Array.size_replicate], fun s hs hr => ?_⟩
  obtain ⟨e, i⟩ := s
  obtain ⟨hsym, rfl⟩ : e.isSymbol = true ∧ i = 0 := hr.resolve_right (by simp)
  obtain ⟨-, -, hlast⟩ := h.input e (h.symbols e hs.1 hsym)
  have hlt := (List.getElem?_eq_some_iff.1 hlast.1).1
  obtain ⟨x, hx⟩ : ∃ x, aligned[slot (e, 0)]? = some x :=
    ⟨_, List.getElem?_eq_getElem (hlen ▸ hlt)⟩
  refine ⟨x, ?_, haligned _ _ _ hlast hx⟩
  rw [h.inputSlots, ← hlen, getElem?_foldl_set_range, hx, Option.some_or]
  rw [hlen, Array.size_replicate]
  exact h.inputs_le_size

omit [Scalar α] in
theorem shapeError?_eq_none_iff (hcount : args.length = f.inputs.length) :
    f.shapeError? args = none ↔ args.map shape = f.inputs.map shape := by
  unfold shapeError?
  rw [Option.map_eq_none_iff, List.find?_eq_none]
  constructor
  · intro hall
    refine List.ext_getElem (by simpa using hcount) fun i h₁ h₂ => ?_
    have h₁ : i < args.length := by simpa using h₁
    have h₂ : i < f.inputs.length := by simpa using h₂
    have hmem : ((args[i], f.inputs[i]), i) ∈ (args.zip f.inputs).zipIdx :=
      List.mem_zipIdx_iff_getElem?.2 (List.getElem?_zip_eq_some.2
        ⟨List.getElem?_eq_getElem h₁, List.getElem?_eq_getElem h₂⟩)
    simpa using hall _ hmem
  · rintro hshapes ⟨⟨a, x⟩, i⟩ hmem
    obtain ⟨ha, hx⟩ := List.getElem?_zip_eq_some.1 (List.mem_zipIdx_iff_getElem?.1 hmem)
    simpa [ha, hx] using congrArg (·[i]?) hshapes

theorem call_of_shape_ne (h : args.map shape ≠ f.inputs.map shape) (n : Nat) :
    ∃ e, f.call args n = .error e := by
  unfold call
  by_cases hcount : args.length = f.inputs.length
  · obtain ⟨e, he⟩ := Option.ne_none_iff_exists'.1 fun hnone =>
      h ((shapeError?_eq_none_iff hcount).1 hnone)
    rw [if_neg (not_not.2 hcount), he]
    exact ⟨e, rfl⟩
  · rw [if_pos hcount]
    exact ⟨_, rfl⟩

/-- A call gives expressions that stand for the outputs if the arguments on the patterns of the
inputs stand for these. -/
theorem grows_outputs (h : f.Layout G slot) (hG : IsGraph m G) (hP : f.Represents G refused P)
    (hS : IsGraph n S) (hconst : constantsOf G ⊆ S) (hargs : ∀ a ∈ args, Usable S a)
    (hshapes : args.map shape = f.inputs.map shape)
    (hstart : ∀ {S' : Set (Expr α)} (t : Nat) (x a r : Expr α), IsLast f.inputs t x →
      args[t]? = some a → Usable S' r → r.pattern = x.pattern →
      (∀ env : Nat → Nat → α, nonzeros env r = x.pattern.gather (entry env a)) →
      P S' (x, 0) r) :
    Grows refused n S (f.call args) fun S' rs =>
      List.Forall₂ (fun o r => P S' o.source r) f.outputs rs := by
  have hcount : args.length = f.inputs.length := by simpa using congrArg List.length hshapes
  unfold call
  rw [if_neg (not_not.2 hcount), (shapeError?_eq_none_iff hcount).2 hshapes]
  dsimp only
  refine .bind (grows_constant hS (by simp)) ?_
  rintro n₁ S₁ blank h₁ -
  refine .bind (Grows.mapM (P := fun S' (ax : Expr α × Expr α) r => Usable S' r ∧
    r.pattern = ax.2.pattern ∧ ∀ env : Nat → Nat → α,
      nonzeros env r = ax.2.pattern.gather (entry env ax.1)) h₁.graph ?_ ?_) ?_
  · rintro ⟨a, x⟩ hax n' S' h'
    obtain ⟨i, hi⟩ := List.mem_iff_getElem?.1 hax
    obtain ⟨ha, hx⟩ := List.getElem?_zip_eq_some.1 hi
    have hshape : a.shape = x.shape := by simpa [ha, hx] using congrArg (·[i]?) hshapes
    exact grows_project h'.graph ((hargs a (List.mem_of_getElem? ha)).mono (h₁.trans h').subset)
      fun hne => absurd hshape hne
  · exact fun S' S'' ax r hsub hr => ⟨hr.1.mono hsub, hr.2⟩
  intro n₂ S₂ aligned h₂ haligned
  have hlen : aligned.length = f.inputs.length := by
    rw [← haligned.length_eq, List.length_zip, hcount, Nat.min_self]
  have hinputs : f.HoldsResults G slot P [] S₂ ((f.inputSlots.zip aligned).foldl
      (fun work (s, a) => work.setIfInBounds s a) (Array.replicate f.slots.size blank)) := by
    refine holdsResults_start h hlen fun t x r hlast hr => ?_
    obtain ⟨⟨a, x'⟩, hpair, hus, hp, hval⟩ := exists_of_forall₂ haligned hr
    obtain ⟨ha, hx'⟩ := List.getElem?_zip_eq_some.1 hpair
    obtain rfl : x = x' := Option.some.inj (hlast.1.symm.trans hx')
    exact hstart t x a r hlast ha hus hp hval
  refine .bind (grows_callSteps h hG hP h₂.graph (hconst.trans (h₁.trans h₂).subset)
    (List.nil_append _).symm hinputs) ?_
  intro n₃ S₃ work h₃ hwork
  refine .pure h₃.graph ?_
  rw [h.outputSlots, List.map_map]
  refine List.forall₂_map_right_iff.2 (List.forall₂_same.2 fun o ho => ?_)
  obtain ⟨hoG, -, hready⟩ := h.outputs o ho
  obtain ⟨x, hx, hPx⟩ := hwork.result _ (hG.source_spec hoG) hready
  rwa [Function.comp_apply, hx, Option.getD_some]

theorem grows_rebuildInstruction (h : f.Layout G slot) (hS : IsGraph n S)
    (hG : IsGraph m G) (hmem : ins ∈ f.instructions) (hargs : ∀ a ∈ args, Usable S a)
    (hp : args.map Expr.pattern = ins.node.deps.map Expr.pattern) :
    Grows (OutOf f.FitsMemory) n S (ins.node.rebuild args) fun S' rs =>
      rs.length = ins.node.resultCount ∧ ∀ (i : Nat) r, rs[i]? = some r → Usable S' r ∧
        r.pattern = sourcePattern (ins.node, i) ∧ (Exact α → ∀ env : Nat → Nat → α,
          (compute ins.node (args.map (nonzeros env)))[i]? = some (nonzeros env r)) := by
  obtain ⟨done, rest, hsplit⟩ := List.append_of_mem hmem
  have hfits := h.fits done ins rest hsplit
  exact grows_rebuild hS (hG.wellFormed _ hfits.mem) hfits.isOperation hargs hp
    (fun hlarge => ⟨rfl, fun hm => hlarge (hm.node h hmem).shape⟩)
    (fun hlarge => ⟨rfl, fun hm => hlarge (hm.node h hmem).operands⟩)
    fun hlarge => ⟨rfl, fun hm => hlarge (hm.node h hmem).results⟩

/-! ## Patterns -/

/-- `x` has the pattern of the result `s`. -/
def IsLike (S : Set (Expr α)) (s : Expr α × Nat) (x : Expr α) : Prop :=
  Usable S x ∧ x.pattern = sourcePattern s

omit [Scalar α] in
theorem patterns_of_isLike (hG : IsGraph m G) (hmem : ins.node ∈ G)
    (hargs : List.Forall₂ (fun d x => IsLike S d.source x) ins.node.deps args) :
    (∀ a ∈ args, Usable S a) ∧ args.map Expr.pattern = ins.node.deps.map Expr.pattern := by
  constructor
  · intro a ha
    obtain ⟨i, hi⟩ := List.mem_iff_getElem?.1 ha
    obtain ⟨d, -, hd⟩ := exists_of_forall₂ hargs hi
    exact hd.1
  · have hdeps (d : Expr α) (hd : d ∈ ins.node.deps) : d ∈ G := hG.closed _ hmem d hd
    exact (map_eq_of_forall₂ ((List.forall₂_and_left _ _).2 ⟨hdeps, hargs⟩) fun d x hx =>
      (hG.pattern_eq_source hx.1).trans hx.2.2.symm).symm

omit [Scalar α] in
theorem exists_of_mem_constantsOf (hG : IsGraph m G) {e : Expr α} (he : e ∈ constantsOf G) :
    ∃ id nz p, e = .node id (.constant nz) [] p [] := by
  obtain ⟨he, ho, hdeps⟩ := he
  cases hG.wellFormed e he with
  | constant => exact ⟨_, _, _, rfl⟩
  | symbol => cases ho
  | output => cases ho
  | join id count joins =>
    obtain rfl : _ = [] := hdeps
    simp at count
  | _ => cases hdeps

omit [Scalar α] in
theorem isLike_constant (hG : IsGraph m G) {e : Expr α} (he : e ∈ constantsOf G) (heS : e ∈ S) :
    e.resultCount = 1 ∧ IsLike S (e, 0) e := by
  obtain ⟨id, nz, p, rfl⟩ := exists_of_mem_constantsOf hG he
  exact ⟨rfl, ⟨heS, rfl⟩, (sourcePattern_zero _).symm⟩

theorem represents_patterns (h : f.Layout G slot) (hG : IsGraph m G) :
    f.Represents G (OutOf f.FitsMemory) IsLike where
  mono hx hsub := ⟨hx.1.mono hsub, hx.2⟩
  constant _ he heS := isLike_constant hG he heS
  rebuild hS hmem hargs := by
    obtain ⟨hnode, -⟩ := h.node hmem
    obtain ⟨hus, hp⟩ := patterns_of_isLike hG hnode hargs
    exact (grows_rebuildInstruction h hS hG hmem hus hp).mono fun _ _ rs _ hrs =>
      ⟨hrs.1, fun i r hr => ⟨(hrs.2 i r hr).1, (hrs.2 i r hr).2.1⟩⟩

/-- A call on arguments of the right shapes gives expressions on the patterns of the outputs, unless
the memory does not suffice. -/
theorem grows_call_patterns (hH : IsGraph m G) (hf : f.Compiled G) (hS : IsGraph n S)
    (hconst : constantsOf G ⊆ S) (hargs : ∀ a ∈ args, Usable S a)
    (hshapes : args.map shape = f.inputs.map shape) :
    Grows (OutOf f.FitsMemory) n S (f.call args) fun S' rs =>
      List.Forall₂ (fun o r => Usable S' r ∧ r.pattern = o.pattern) f.outputs rs := by
  obtain ⟨hG, slot, h⟩ := hf.exists_layout hH
  have hports : constantsOf (nodesOf (f.inputs ++ f.outputs)) ⊆ S :=
    (constantsOf_mono (hf.nodesOf_subset hH)).trans hconst
  refine (grows_outputs h hG (represents_patterns h hG) hS hports hargs hshapes ?_).mono ?_
  · exact fun t x a r _ _ hus hp _ => ⟨hus, hp.trans (sourcePattern_zero x).symm⟩
  · intro n' S' rs _ hrs
    have hmem (o : Expr α) (ho : o ∈ f.outputs) : o ∈ nodesOf (f.inputs ++ f.outputs) :=
      (h.outputs o ho).1
    refine ((List.forall₂_and_left _ _).2 ⟨hmem, hrs⟩).imp fun o r hr => ?_
    exact ⟨hr.2.1, hr.2.2.trans (hG.pattern_eq_source hr.1).symm⟩

end Results

/-! ## Copies -/

variable {α : Type} [ExactField α] {m n : Nat} {G S S' : Set (Expr α)} {f : Function α}
  {slot : Expr α × Nat → Nat} {σ : (Nat → Nat → α) → Nat → Nat → α}

/-- `x` has the pattern of the result `s`, and its buffer under the assignments that `σ` gives. -/
def IsCopy (σ : (Nat → Nat → α) → Nat → Nat → α) (S : Set (Expr α)) (s : Expr α × Nat)
    (x : Expr α) : Prop :=
  IsLike S s x ∧ ∀ env : Nat → Nat → α, nonzeros env x = result (σ env) s

/-- The assignment to the symbols of a function that gives the inputs the values of arguments. -/
def pullback (f : Function α) (args : List (Expr α)) (env : Nat → Nat → α) : Nat → Nat → α :=
  assign f.inputs ((args.zip f.inputs).map fun (a, x) => x.pattern.gather (entry env a))

theorem isCopy_constant (hG : IsGraph m G) (hS : IsGraph n S) {e : Expr α} (he : e ∈ constantsOf G)
    (heS : e ∈ S) : e.resultCount = 1 ∧ IsCopy σ S (e, 0) e := by
  obtain ⟨hcount, hlike⟩ := isLike_constant hG he heS
  refine ⟨hcount, hlike, fun env => ?_⟩
  obtain ⟨id, nz, p, rfl⟩ := exists_of_mem_constantsOf hG he
  rw [← nonzeros_eq_result, hS.nonzeros_constant heS, hG.nonzeros_constant he.1]

theorem grows_callResults (h : f.Layout G slot) (hG : IsGraph m G) (hS : IsGraph n S)
    {ins : Instruction α} (hmem : ins ∈ f.instructions) {args : List (Expr α)}
    (hargs : List.Forall₂ (fun d x => IsCopy σ S d.source x) ins.node.deps args) :
    Grows (OutOf f.FitsMemory) n S (ins.node.rebuild args) fun S' rs =>
      rs.length = ins.node.resultCount ∧
        ∀ (i : Nat) r, rs[i]? = some r → IsCopy σ S' (ins.node, i) r := by
  obtain ⟨hnode, hop⟩ := h.node hmem
  obtain ⟨hus, hp⟩ := patterns_of_isLike hG hnode (hargs.imp fun _ _ hx => hx.1)
  have hdeps (d : Expr α) (hd : d ∈ ins.node.deps) : d ∈ G := hG.closed _ hnode d hd
  have hvalues (env : Nat → Nat → α) :
      args.map (nonzeros env) = ins.node.deps.map (nonzeros (σ env)) :=
    (map_eq_of_forall₂ ((List.forall₂_and_left _ _).2 ⟨hdeps, hargs⟩) fun d x hx =>
      (hG.nonzeros_eq_source hx.1).trans (hx.2.2 env).symm).symm
  refine (grows_rebuildInstruction h hS hG hmem hus hp).mono ?_
  rintro n₁ S₁ rs - ⟨hlen, hrs⟩
  refine ⟨hlen, fun i r hr => ?_⟩
  obtain ⟨hus, hp, hval⟩ := hrs i r hr
  refine ⟨⟨hus, hp⟩, fun env => ?_⟩
  rw [result, hG.values_eq_compute hnode hop, ← hvalues, hval inferInstance env]
  rfl

theorem represents_copies (h : f.Layout G slot) (hG : IsGraph m G) :
    f.Represents G (OutOf f.FitsMemory) (IsCopy σ) where
  mono hx hsub := ⟨⟨hx.1.1.mono hsub, hx.1.2⟩, hx.2⟩
  constant hS he heS := isCopy_constant hG hS he heS
  rebuild hS hmem hargs := grows_callResults h hG hS hmem hargs

/-- A call gives expressions on the patterns of the outputs, with the values that the outputs have
where the inputs have the values of the arguments. -/
theorem grows_call (hH : IsGraph m G) (hf : f.Compiled G) (hS : IsGraph n S)
    (hconst : constantsOf G ⊆ S) {args : List (Expr α)} (hargs : ∀ a ∈ args, Usable S a)
    (hshapes : args.map shape = f.inputs.map shape) :
    Grows (OutOf f.FitsMemory) n S (f.call args) fun S' rs =>
      List.Forall₂ (fun o r => Usable S' r ∧ r.pattern = o.pattern ∧ ∀ env : Nat → Nat → α,
        nonzeros env r = nonzeros (f.pullback args env) o) f.outputs rs := by
  obtain ⟨hG, slot, h⟩ := hf.exists_layout hH
  have hports : constantsOf (nodesOf (f.inputs ++ f.outputs)) ⊆ S :=
    (constantsOf_mono (hf.nodesOf_subset hH)).trans hconst
  have hcount : args.length = f.inputs.length := by simpa using congrArg List.length hshapes
  refine (grows_outputs (P := IsCopy (f.pullback args)) h hG (represents_copies h hG) hS hports
    hargs hshapes ?_).mono fun n' S' rs _ hrs => ?_
  · intro S' t x a r hlast ha hus hp hval
    have hx := h.input x (List.mem_of_getElem? hlast.1)
    refine ⟨⟨hus, hp.trans (sourcePattern_zero x).symm⟩, fun env => ?_⟩
    have hpair : (args.zip f.inputs)[t]? = some (a, x) :=
      List.getElem?_zip_eq_some.2 ⟨ha, hlast.1⟩
    have hvalue : ((args.zip f.inputs).map fun (a, x) =>
        x.pattern.gather (entry env a))[t]? = some (x.pattern.gather (entry env a)) := by
      rw [List.getElem?_map, hpair]
      rfl
    rw [hval, ← nonzeros_eq_result, hG.nonzeros_of_isSymbol hx.1 hx.2.1, pullback,
      assign_of_isLast hG (fun y hy => (h.input y hy).1) (by simp [hcount]) hlast hvalue]
    exact (map_nth_range _ (Pattern.length_gather _)).symm
  · have hmem (o : Expr α) (ho : o ∈ f.outputs) : o ∈ nodesOf (f.inputs ++ f.outputs) :=
      (h.outputs o ho).1
    refine ((List.forall₂_and_left _ _).2 ⟨hmem, hrs⟩).imp fun o r hr => ?_
    obtain ⟨ho, ⟨hus, hp⟩, hval⟩ := hr
    refine ⟨hus, hp.trans (hG.pattern_eq_source ho).symm, fun env => ?_⟩
    rw [hval, hG.nonzeros_eq_source ho]

end Function

end DiffGraph
